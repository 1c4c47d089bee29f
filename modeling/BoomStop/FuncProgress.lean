/-
  The functional units get on: what a uop waits for in each of them, and that it
  is delivered if it is not killed.

  * `Pipe.cell_next`, `Pipe.resp_cell`: from register read to the response of a
    pipelined unit each uop moves on by one place in a cycle;
  * `DivUnit.fired_of_held`: the divider gives what it holds, once it has
    finished and the response is ready;
  * `FDivSqrtUnit.fired_of_buffer`: so does the divider for floating point, from
    its buffer on, after the division before.
-/
import BoomStop.FuncUnit

namespace BoomStop.FuncUnit

open KillableQueue (MicroOp Bits)
open Issue (BrUpdate isKilledByBranch)
open Waiting

variable {T : ℕ} {U D R : Type}

section Kills

variable {b : BrUpdate T} {kill : Bool} {o : Option (MicroOp T U)}

/-- A uop with these fields is there. -/
def Held (o : Option (MicroOp T U)) (f : U) : Prop := ∃ u, o = some u ∧ u.fields = f

/-- It moves on, if it is not killed. -/
theorem Held.advance {f : U} (h : Held o f)
    (hkeep : ∀ u ∈ o, u.fields = f → doomed b kill u = false) :
    Held (o.bind (advance b kill)) f := by
  obtain ⟨u, rfl, hf⟩ := h
  exact ⟨u.update b, advance_eq_some.2 ⟨hkeep u rfl hf, rfl⟩, hf⟩

end Kills

/-! ## Pipelined units -/

namespace Pipe

variable {l : Pipe T U D} {b : BrUpdate T} {kill : Bool}

/-- The uops on their way to the response: in register read, in execution, and
    in the stages. -/
def cell (sel : U → Bool) (rrd exe : Option (MicroOp T U)) (l : Pipe T U D) :
    ℕ → Option (MicroOp T U)
  | 0 => rrd.filter fun u => sel u.fields
  | 1 => exe.filter fun u => sel u.fields
  | k + 2 => l[k]?.bind Stage.uop

theorem filter_bind_advance (sel : U → Bool) (o : Option (MicroOp T U)) :
    (o.bind (advance b kill)).filter (fun u => sel u.fields) =
      (o.filter fun u => sel u.fields).bind (advance b kill) := by
  cases o with
  | none => rfl
  | some u =>
    have hf : (u.update b).fields = u.fields := rfl
    cases hd : doomed b kill u <;> cases hs : sel u.fields <;>
      simp [Option.filter, advance, hd, hs, hf]

/-- **Each uop moves on** by one place in a cycle. -/
theorem cell_next {sel : U → Bool} {new rrd exe : Option (MicroOp T U)} {data : D} {k : ℕ}
    (hk : k ≤ l.length) :
    cell sel new (rrd.bind (advance b kill))
        (l.next b kill ⟨exe.filter fun u => sel u.fields, data⟩) (k + 1) =
      (cell sel rrd exe l k).bind (advance b kill) := by
  match k with
  | 0 => exact filter_bind_advance sel rrd
  | 1 =>
    have hget := ShiftReg.getElem?_shift (f := Stage.advance b kill)
      (x := ⟨exe.filter fun u => sel u.fields, data⟩) (l := l) hk
    show ((l.next b kill _)[0]?).bind Stage.uop = _
    rw [next, hget]
    rfl
  | k + 2 =>
    have hget := ShiftReg.getElem?_shift (f := Stage.advance b kill)
      (x := ⟨exe.filter fun u => sel u.fields, data⟩) (l := l) (k := k + 1) hk
    show ((l.next b kill _)[k + 1]?).bind Stage.uop = _
    rw [next, hget, List.getElem?_cons_succ]
    cases hl : l[k]? with
    | none => simp [cell, hl]
    | some st => simp [cell, hl, Stage.advance]

variable (l b) in
/-- The last of them is the one with the response. -/
theorem resp_cell (sel : U → Bool) (rrd exe : Option (MicroOp T U)) (data : D) :
    (resp l b ⟨exe.filter fun u => sel u.fields, data⟩).map Bits.uop =
      (cell sel rrd exe l (l.length + 1)).bind (advance b false) := by
  have hout := ShiftReg.getElem?_out (x := (⟨exe.filter fun u => sel u.fields, data⟩ : Stage T U D))
    (l := l)
  have huop : (ShiftReg.out ⟨exe.filter fun u => sel u.fields, data⟩ l).uop =
      cell sel rrd exe l (l.length + 1) := by
    cases l with
    | nil => rfl
    | cons st l =>
      rw [List.length_cons, List.getElem?_cons_succ] at hout
      show _ = (((st :: l)[l.length]?).bind Stage.uop)
      rw [hout]
      rfl
  rw [resp, huop, Option.map_map]
  exact Option.map_id'

section Runs

variable (rrd exe new : ℕ → Option (MicroOp T U)) (l : ℕ → Pipe T U D) (data : ℕ → D)
  (b : ℕ → BrUpdate T) (kill : ℕ → Bool) (sel : U → Bool) {n t : ℕ} {f : U}
  (hrrd : ∀ u, rrd (u + 1) = (new u).bind (advance (b u) false))
  (hexe : ∀ u, exe (u + 1) = (rrd u).bind (advance (b u) (kill u)))
  (hl : ∀ u, l (u + 1) =
    (l u).next (b u) (kill u) ⟨(exe u).filter fun u => sel u.fields, data u⟩)
  (hlen : ∀ u, (l u).length = n)
  (hnew : Held (new t) f) (hsel : sel f = true)
  (hkept : ∀ v ∈ new t, v.fields = f → doomed (b t) false v = false)

include hrrd hexe hl hlen hnew hsel hkept

/-- **From issue to the last stage**, one place in a cycle. -/
theorem cell_of_issue {k : ℕ} (hk : k ≤ n + 1)
    (hkeep : ∀ m, m < k → ∀ v ∈ cell sel (rrd (t + 1 + m)) (exe (t + 1 + m)) (l (t + 1 + m)) m,
      v.fields = f → doomed (b (t + 1 + m)) (kill (t + 1 + m)) v = false) :
    Held (cell sel (rrd (t + 1 + k)) (exe (t + 1 + k)) (l (t + 1 + k)) k) f := by
  induction k with
  | zero =>
    obtain ⟨u, hu, hf⟩ := hnew.advance hkept
    refine ⟨u, ?_, hf⟩
    show (rrd (t + 1)).filter _ = some u
    rw [hrrd, hu, Option.filter_some, hf, hsel]
    rfl
  | succ k ih =>
    have hheld := ih (by omega) fun m hm => hkeep m (by omega)
    rw [← Nat.add_assoc, hexe, hl, cell_next (by rw [hlen]; omega)]
    exact hheld.advance (hkeep k (Nat.lt_succ_self k))

/-- **The response** comes as many cycles after the issue as there are registers. -/
theorem resp_of_issue
    (hkeep : ∀ m, m ≤ n + 1 → ∀ v ∈ cell sel (rrd (t + 1 + m)) (exe (t + 1 + m)) (l (t + 1 + m)) m,
      v.fields = f → doomed (b (t + 1 + m)) (kill (t + 1 + m)) v = false) :
    ∃ x, resp (l (t + n + 2)) (b (t + n + 2))
      ⟨(exe (t + n + 2)).filter fun u => sel u.fields, data (t + n + 2)⟩ = some x ∧
        x.uop.fields = f := by
  have hheld := cell_of_issue rrd exe new l data b kill sel hrrd hexe hl hlen hnew hsel hkept le_rfl
    fun m hm => hkeep m hm.le
  obtain ⟨v, hv, hf⟩ : Held (Option.bind _ (advance (b (t + 1 + (n + 1))) false)) f :=
    hheld.advance fun v hv hf => doomed_mono (hkeep (n + 1) le_rfl v hv hf)
  rw [show t + 1 + (n + 1) = t + n + 2 by omega] at hv
  have hmap := (resp_cell (l (t + n + 2)) (b (t + n + 2)) sel (rrd (t + n + 2)) (exe (t + n + 2))
    (data (t + n + 2))).trans (by rw [hlen, hv])
  obtain ⟨x, hx, rfl⟩ := Option.map_eq_some_iff.1 hmap
  exact ⟨x, hx, hf⟩

end Runs

end Pipe

/-! ## The divider -/

namespace DivUnit

variable {d : DivUnit T U} {b : BrUpdate T} {kill : Bool} {req : Option (MicroOp T U)}
  {resp_ready finish : Bool} {value : U → D}

/-- A request that is not killed is held. -/
theorem held_of_req (hready : req.isSome = true → d.ready = true) (h : d.Own) {f : U}
    (hreq : Held req f) (hkeep : ∀ u ∈ req, u.fields = f → doomed b kill u = false) :
    Held (d.next b kill req resp_ready finish).held f := by
  have hsome : req.isSome = true := by
    obtain ⟨u, rfl, -⟩ := hreq
    rfl
  rw [held_next hready h, hsome, if_pos rfl]
  exact hreq.advance hkeep

variable (resp_ready finish value) in
/-- **A uop that is held**, and not killed, goes when it is finished and the
    response is ready; else it is held on. -/
theorem held_step (hready : req.isSome = true → d.ready = true) (h : d.Own) {f : U}
    (hheld : Held d.held f) (hkeep : ∀ u ∈ d.held, u.fields = f → doomed b kill u = false) :
    (d.done = true ∧ resp_ready = true →
        ∃ x, d.fired b kill req resp_ready value = some x ∧ x.uop.fields = f) ∧
      (¬(d.done = true ∧ resp_ready = true) →
        Held (d.next b kill req resp_ready finish).held f ∧
          (d.next b kill req resp_ready finish).done = (d.done || finish)) := by
  obtain ⟨u, hu, hf⟩ := hheld
  have hdoom := hkeep u hu hf
  obtain ⟨g, hop, hg⟩ := Option.map_eq_some_iff.1 hu
  have hno : req = none := by
    by_contra hne
    have hr := hready (Option.isSome_iff_ne_none.2 hne)
    rw [ready, hop] at hr
    cases hr
  subst hno
  have hfire : d.fire none = none := ite_self _
  have hk : d.do_kill b kill none = false := by rw [do_kill, hfire, Option.getD_none, hg, hdoom]
  constructor
  · rintro ⟨hd, hr⟩
    refine ⟨⟨value g, d.r_uop⟩, ?_, hg ▸ hf⟩
    rw [fired, if_pos hr, resp, hd, hk, hop]
    rfl
  · intro hno
    rw [← Bool.and_eq_true, Bool.not_eq_true] at hno
    refine ⟨?_, ?_⟩
    · rw [held_next hready h, Option.isSome_none, if_neg Bool.false_ne_true, hno,
        if_neg Bool.false_ne_true]
      exact Held.advance ⟨u, hu, hf⟩ hkeep
    · unfold next starts
      rw [hk, hno, hop, hfire]
      rfl

/-- **Each uop is delivered** that is held and never killed, if the divider
    finishes and the response is ready again and again. -/
theorem fired_of_held (d : ℕ → DivUnit T U) (b : ℕ → BrUpdate T) (kill : ℕ → Bool)
    (req : ℕ → Option (MicroOp T U)) (resp_ready finish : ℕ → Bool) (value : U → D) {t : ℕ} {f : U}
    (hnext : ∀ u, d (u + 1) = (d u).next (b u) (kill u) (req u) (resp_ready u) (finish u))
    (hready : ∀ u, (req u).isSome = true → (d u).ready = true) (hown : ∀ u, (d u).Own)
    (hkeep : ∀ u, ∀ v ∈ (d u).held, v.fields = f → doomed (b u) (kill u) v = false)
    (hfin : Often fun u => finish u = true) (hport : Often fun u => resp_ready u = true)
    (hheld : Held (d t).held f) :
    Later t fun u => ∃ x, (d u).fired (b u) (kill u) (req u) (resp_ready u) value = some x ∧
      x.uop.fields = f := by
  by_contra hno
  have hstep := fun u (hu : Held (d u).held f) =>
    held_step (resp_ready u) (finish u) value (hready u) (hown u) hu (hkeep u)
  have hquiet : ∀ u, t ≤ u → Held (d u).held f → ¬((d u).done = true ∧ resp_ready u = true) :=
    fun u hu hh hc => hno ⟨u, hu, (hstep u hh).1 hc⟩
  have hall : ∀ u, t ≤ u → Held (d u).held f := always hheld fun u hu hh => by
    rw [hnext]
    exact ((hstep u hh).2 (hquiet u hu hh)).1
  have hdone : ∀ u, t ≤ u → (d (u + 1)).done = ((d u).done || finish u) := by
    intro u hu
    rw [hnext]
    exact ((hstep u (hall u hu)).2 (hquiet u hu (hall u hu))).2
  -- it is finished, and then the response is ready
  obtain ⟨v, hv, hf⟩ := hfin t
  have hstays : ∀ u, v + 1 ≤ u → (d u).done = true := by
    refine always ?_ fun u hu hd => ?_
    · rw [hdone v hv, hf, Bool.or_true]
    · rw [hdone u (by omega), hd, Bool.true_or]
  obtain ⟨w, hw, hr⟩ := hport (v + 1)
  exact hquiet w (by omega) (hall w (by omega)) ⟨hstays w hw, hr⟩

end DivUnit

/-! ## The divider for floating point -/

namespace FDivSqrtUnit

variable {d : FDivSqrtUnit T U R} {b : BrUpdate T} {kill : Bool} {req : Option (MicroOp T U)}
  {resp_ready divsqrt_ready : Bool} {divsqrt_out : Option R} {down : U → R → D} {raw : U → R}

/-- A request that is not killed gets into the buffer. -/
theorem buffer_of_req (hready : req.isSome = true → d.ready = true) {f : U} (hreq : Held req f)
    (hkeep : ∀ u ∈ req, u.fields = f → doomed b kill u = false) :
    Held (d.next b kill req resp_ready divsqrt_ready divsqrt_out).r_buffer f := by
  have hsome : req.isSome = true := by
    obtain ⟨u, rfl, -⟩ := hreq
    rfl
  have hno : d.fires divsqrt_ready = none := by
    by_contra hne
    obtain ⟨u, hu⟩ := Option.ne_none_iff_exists'.1 hne
    rw [req_of_fires hready hu] at hsome
    cases hsome
  rw [buffer_next hready, hno, Option.isSome_none, if_neg Bool.false_ne_true, hsome, if_pos rfl]
  exact hreq.advance hkeep

variable (resp_ready divsqrt_ready) in
/-- **A uop in the buffer** is divided as soon as nothing is, no result waits, and
    the divider is ready; else it stays. -/
theorem buffer_step (hready : req.isSome = true → d.ready = true) (h : d.Own raw)
    (ha : d.Answers divsqrt_out raw) {f : U} (hbuf : Held d.r_buffer f)
    (hkeep : ∀ u ∈ d.r_buffer, u.fields = f → doomed b kill u = false) :
    (d.r_divsqrt_val = false ∧ d.r_out = none ∧ divsqrt_ready = true →
        Held (d.next b kill req resp_ready divsqrt_ready divsqrt_out).live f) ∧
      (¬(d.r_divsqrt_val = false ∧ d.r_out = none ∧ divsqrt_ready = true) →
        d.fires divsqrt_ready = none ∧
          Held (d.next b kill req resp_ready divsqrt_ready divsqrt_out).r_buffer f) := by
  obtain ⟨u, hu, hf⟩ := hbuf
  constructor
  · rintro ⟨hval, hout, hr⟩
    have hfire : d.fires divsqrt_ready = some u := by
      rw [fires, if_pos hr, may_fire_input, hval, hout]
      exact hu
    have hno : divsqrt_out.isSome = false := by
      rw [Bool.eq_false_iff]
      intro ho
      rw [(of_answer divsqrt_ready h ha ho).1] at hval
      cases hval
    rw [live_next, hno, if_neg Bool.false_ne_true, hfire]
    exact ⟨u.update b, advance_eq_some.2 ⟨hkeep u hu hf, rfl⟩, hf⟩
  · intro hno
    have hfire : d.fires divsqrt_ready = none := by
      by_contra hne
      obtain ⟨v, hv⟩ := Option.ne_none_iff_exists'.1 hne
      obtain ⟨hval, hout, -⟩ := of_fires hv
      refine hno ⟨hval, hout, ?_⟩
      by_contra hr
      rw [fires, if_neg hr] at hv
      cases hv
    have hreq : req = none := by
      by_contra hne
      have hr := hready (Option.isSome_iff_ne_none.2 hne)
      rw [ready, hu] at hr
      cases hr
    refine ⟨hfire, ?_⟩
    rw [buffer_next hready, hfire, hreq, Option.isSome_none, if_neg Bool.false_ne_true,
      if_neg Bool.false_ne_true]
    exact Held.advance ⟨u, hu, hf⟩ hkeep

variable (req resp_ready divsqrt_ready) in
/-- **A uop that is divided** has its result in the buffer for it after the
    answer; till then it stays. -/
theorem live_step (h : d.Own raw) (ha : d.Answers divsqrt_out raw) {f : U} (hlive : Held d.live f)
    (hkeep : ∀ u ∈ d.live, u.fields = f → doomed b kill u = false) :
    if divsqrt_out.isSome then
      Held (d.next b kill req resp_ready divsqrt_ready divsqrt_out).outUop f
    else Held (d.next b kill req resp_ready divsqrt_ready divsqrt_out).live f := by
  have hval : d.r_divsqrt_val = true := by
    obtain ⟨u, hu, -⟩ := hlive
    by_contra hval
    rw [live, Bool.eq_false_iff.2 hval] at hu
    cases hu
  have hfire : d.fires divsqrt_ready = none := by
    by_contra hne
    obtain ⟨v, hv⟩ := Option.ne_none_iff_exists'.1 hne
    rw [(of_fires hv).1] at hval
    cases hval
  rw [outUop_next h ha, live_next, hfire]
  cases divsqrt_out.isSome with
  | true => exact hlive.advance hkeep
  | false => exact hlive.advance hkeep

variable (req resp_ready divsqrt_ready down) in
/-- **A result that waits** goes when the response is ready; till then it stays. -/
theorem out_step (h : d.Own raw) (ha : d.Answers divsqrt_out raw) {f : U} (hout : Held d.outUop f)
    (hkeep : ∀ u ∈ d.outUop, u.fields = f → doomed b kill u = false) :
    if resp_ready then ∃ x, d.fired b resp_ready down = some x ∧ x.uop.fields = f
    else Held (d.next b kill req resp_ready divsqrt_ready divsqrt_out).outUop f := by
  obtain ⟨u, hu, hf⟩ := hout
  obtain ⟨o, ho, rfl⟩ := Option.map_eq_some_iff.1 hu
  cases hr : resp_ready with
  | true =>
    have hk : isKilledByBranch b o.1.br_mask = false :=
      (Bool.or_eq_false_iff.1 (hkeep _ hu hf)).1
    refine ⟨⟨down d.r_divsqrt_fin o.2, o.1⟩, ?_, hf⟩
    rw [fired, if_pos rfl, resp, ho, Option.bind_some, hk, if_neg Bool.false_ne_true]
  | false =>
    have hno : divsqrt_out.isSome = false := by
      rw [Bool.eq_false_iff]
      intro hans
      rw [(of_answer divsqrt_ready h ha hans).2.1] at ho
      cases ho
    show Held _ f
    rw [outUop_next h ha, hno, if_neg Bool.false_ne_true, if_neg Bool.false_ne_true]
    exact Held.advance ⟨o.1, hu, hf⟩ hkeep

variable (b kill req resp_ready) in
/-- Nothing is divided, and nothing will be as long as nothing is fired; and a
    result that waits leaves when the response is ready. -/
theorem idle_step (h : d.Own raw) (ha : d.Answers divsqrt_out raw)
    (hfire : d.fires divsqrt_ready = none) :
    (divsqrt_out.isSome = true ∨ d.r_divsqrt_val = false →
        (d.next b kill req resp_ready divsqrt_ready divsqrt_out).r_divsqrt_val = false) ∧
      (d.r_divsqrt_val = false → resp_ready = true ∨ d.r_out = none →
        (d.next b kill req resp_ready divsqrt_ready divsqrt_out).r_out = none) := by
  constructor
  · intro hv
    unfold next
    rw [hfire]
    rcases hv with hv | hv
    · rw [hv]
      rfl
    · rw [hv]
      exact ite_self _
  · intro hval hr
    have hno : divsqrt_out = none := by
      by_contra hne
      rw [(of_answer divsqrt_ready h ha (Option.isSome_iff_ne_none.2 hne)).1] at hval
      cases hval
    subst hno
    unfold next
    rcases hr with hr | hr
    · rw [hr]
      rfl
    · rw [hr]
      exact ite_self _

section Runs

variable (d : ℕ → FDivSqrtUnit T U R) (b : ℕ → BrUpdate T) (kill : ℕ → Bool)
  (req : ℕ → Option (MicroOp T U)) (resp_ready divsqrt_ready : ℕ → Bool)
  (divsqrt_out : ℕ → Option R) {t : ℕ} {f : U}
  (hnext : ∀ u, d (u + 1) =
    (d u).next (b u) (kill u) (req u) (resp_ready u) (divsqrt_ready u) (divsqrt_out u))
  (hready : ∀ u, (req u).isSome = true → (d u).ready = true) (hown : ∀ u, (d u).Own raw)
  (hans : ∀ u, (d u).Answers (divsqrt_out u) raw)
  (hkeep : ∀ u, ∀ o ∈ [(d u).r_buffer, (d u).live, (d u).outUop], ∀ v ∈ o, v.fields = f →
    doomed (b u) (kill u) v = false)

include hnext hready hown hans hkeep

/-- A uop in the buffer is divided some time, if the divider answers what it is
    asked, and it and the response are ready again and again. -/
theorem live_of_buffer
    (hanswer : ∀ u, (d u).op.isSome = true → Later u fun v => (divsqrt_out v).isSome = true)
    (hport : Often fun u => resp_ready u = true) (hfree : Often fun u => divsqrt_ready u = true)
    (hbuf : Held (d t).r_buffer f) : Later t fun u => Held (d u).live f := by
  by_contra hno
  have hstep := fun u (hu : Held (d u).r_buffer f) =>
    buffer_step (resp_ready u) (divsqrt_ready u) (hready u) (hown u) (hans u) hu
      (hkeep u _ (by simp))
  have hquiet : ∀ u, t ≤ u → Held (d u).r_buffer f → (d u).fires (divsqrt_ready u) = none ∧
      Held (d (u + 1)).r_buffer f := by
    intro u hu hh
    rw [hnext]
    refine (hstep u hh).2 fun hc => hno ⟨u + 1, by omega, ?_⟩
    show Held (d (u + 1)).live f
    rw [hnext]
    exact (hstep u hh).1 hc
  have hall : ∀ u, t ≤ u → Held (d u).r_buffer f := always hbuf fun u hu hh => (hquiet u hu hh).2
  have hidle := fun u (hu : t ≤ u) => idle_step (b u) (kill u) (req u) (resp_ready u) (hown u)
    (hans u) (hquiet u hu (hall u hu)).1
  -- the division before it ends,
  obtain ⟨v, hv, hval⟩ : Later t fun u => (d u).r_divsqrt_val = false := by
    cases hval : (d t).r_divsqrt_val with
    | false => exact ⟨t, le_rfl, hval⟩
    | true =>
      obtain ⟨u, hu, ho⟩ := hanswer t ((hown t).val ▸ hval)
      refine ⟨u + 1, by omega, ?_⟩
      show (d (u + 1)).r_divsqrt_val = false
      rw [hnext]
      exact (hidle u hu).1 (.inl ho)
  have hvals : ∀ u, v ≤ u → (d u).r_divsqrt_val = false := always hval fun u hu hx => by
    rw [hnext]
    exact (hidle u (by omega)).1 (.inr hx)
  -- its result leaves,
  obtain ⟨w, hw, hr⟩ := hport v
  have houts : ∀ u, w + 1 ≤ u → (d u).r_out = none := by
    refine always ?_ fun u hu hx => ?_
    · rw [hnext]
      exact (hidle w (by omega)).2 (hvals w hw) (.inl hr)
    · rw [hnext]
      exact (hidle u (by omega)).2 (hvals u (by omega)) (.inr hx)
  -- and the divider is ready
  obtain ⟨x, hx, hf⟩ := hfree (w + 1)
  refine hno ⟨x + 1, by omega, ?_⟩
  show Held (d (x + 1)).live f
  rw [hnext]
  exact (hstep x (hall x (by omega))).1 ⟨hvals x (by omega), houts x hx, hf⟩

/-- **Each uop is delivered** that is in the buffer and never killed. -/
theorem fired_of_buffer (down : U → R → D)
    (hanswer : ∀ u, (d u).op.isSome = true → Later u fun v => (divsqrt_out v).isSome = true)
    (hport : Often fun u => resp_ready u = true) (hfree : Often fun u => divsqrt_ready u = true)
    (hbuf : Held (d t).r_buffer f) :
    Later t fun u => ∃ x, (d u).fired (b u) (resp_ready u) down = some x ∧ x.uop.fields = f := by
  have hlive := live_of_buffer d b kill req resp_ready divsqrt_ready divsqrt_out hnext hready hown hans
    hkeep hanswer hport hfree hbuf
  have hout : Later t fun u => Held (d u).outUop f := by
    refine hlive.trans fun u _ hu => ?_
    have hstep := fun v (hv : Held (d v).live f) => live_step (req v) (resp_ready v)
      (divsqrt_ready v) (hown v) (hans v) hv (hkeep v _ (by simp))
    have hop : (d u).op.isSome = true := by
      obtain ⟨v, hv, -⟩ := hu
      rw [← (hown u).val]
      by_contra hval
      rw [live, Bool.eq_false_iff.2 hval] at hv
      cases hv
    obtain ⟨v, hv, hlv, ho⟩ := (hanswer u hop).holds hu fun v _ hv hno => by
      have := hstep v hv
      rwa [if_neg hno, ← hnext] at this
    refine ⟨v + 1, by omega, ?_⟩
    have := hstep v hlv
    rwa [if_pos ho, ← hnext] at this
  refine hout.trans fun u _ hu => ?_
  have hstep := fun v (hv : Held (d v).outUop f) => out_step (req v) (resp_ready v)
    (divsqrt_ready v) down (hown v) (hans v) hv (hkeep v _ (by simp))
  obtain ⟨v, hv, hov, hr⟩ := (hport u).holds hu fun v _ hv hno => by
    have := hstep v hv
    rwa [if_neg hno, ← hnext] at this
  refine ⟨v, hv, ?_⟩
  have := hstep v hov
  rwa [if_pos hr] at this

end Runs

end FDivSqrtUnit

end BoomStop.FuncUnit
