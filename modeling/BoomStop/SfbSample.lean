/-
  Samples and short forward branches (`enableSFBOpt`; `decode.scala`,
  `core.scala`).  `DecodeUnit` keeps interrupts off a branch with a shadow and off
  the shadow; the mark of a sample is put on the decoded uop without a look at
  `is_sfb`.

  * `State.next`: the core of `Sampling` with the fetch fields of the uops;
  * `interrupt_gated`: what `DecodeUnit` does for interrupts;
  * `no_sample_in_shadow`: while decode takes no shadow uop during an overflow, no
    shadow uop is marked, and `userExitPC` is where the program stands;
  * `sample_in_shadow`: a run in which the skipped shadow of a taken branch is
    sampled.
-/
import BoomStop.SampleLeak
import BoomStop.Lib.Shadow

namespace BoomStop.SfbSample

open Sync Reorder RingOrder
open Sampling (Core)
open Shadow (Program Op St Fits)

variable {N W T va : ℕ}

/-- The fields of a fetched uop that `Sampling` leaves out. -/
structure Fetched where
  pc : BitVec 64
  is_br : Bool
  is_sfb : Bool

namespace Fetched

variable (f : Fetched)

/-- The uop is a short forward branch. -/
def is_sfb_br : Bool := f.is_br && f.is_sfb

/-- The uop is in the shadow of one. -/
def is_sfb_shadow : Bool := !f.is_br && f.is_sfb

/-- The uop as an operation that retires. -/
def op : Op (BitVec 64) :=
  ⟨f.pc, if f.is_sfb_shadow then .shadow else if f.is_sfb_br then .branch else .plain⟩

end Fetched

/-- The core; these fields in rename2, in the ROB and of the exception that the ROB
    has thrown; and the uops that have committed. -/
structure State (N W T va : ℕ) where
  core : Core N W T va
  ren2 : Fin W → Fetched
  rob : Fin N → Fin W → Fetched
  com_xcpt : Fetched
  done : List Fetched

/-- The inputs of a cycle; `xcpt` is the first of the other exceptions that
    `checkExceptions` finds. -/
structure In (N W T va : ℕ) where
  core : Sampling.In N W T va
  fetched : Fin W → Fetched
  interrupt : Option ℕ
  xcpt : Fin W → Option ℕ

/-- `checkExceptions`: no interrupts while we are handling a SFB. -/
def In.checkExceptions (i : In N W T va) (w : Fin W) : Option ℕ :=
  if i.interrupt.isSome && !(i.fetched w).is_sfb then i.interrupt else i.xcpt w

namespace State

variable (s : State N W T va) (i : In N W T va)

/-- What decode hands on, and the PC of the exception, rebuilt from its own fields. -/
def coreIn : Sampling.In N W T va :=
  { i.core with
    dec_uops := fun w =>
      { i.core.dec_uops w with
        exception := (i.checkExceptions w).isSome
        exc_cause := (i.checkExceptions w).getD 0 }
    com_pc := s.com_xcpt.pc }

/-- The inputs of the ROB. -/
def robIn : SysIn N W T := s.core.robIn (s.coreIn i)

/-- The uops that commit in the cycle. -/
def doneNow : List Fetched :=
  ((List.finRange W).filter fun w => s.core.sys.rob.will_commit (s.robIn i).toIn w).map
    (s.rob s.core.sys.rob.rob_head)

/-- One cycle, with the history. -/
def next [NeZero N] [NeZero W] : State N W T va where
  core := s.core.next (s.coreIn i)
  ren2 w :=
    if !s.core.redirect_flush (s.coreIn i) && s.core.dis_ready (s.coreIn i) then i.fetched w
    else s.ren2 w
  rob r w := if s.core.sys.rob.enq_at (s.robIn i).toIn r w then s.ren2 w else s.rob r w
  com_xcpt := s.rob s.core.sys.rob.com_idx (priorityEncoder s.core.sys.rob.head_vals)
  done := s.done ++ s.doneNow i

/-- After reset. -/
def Reset : Prop := s.core.Reset ∧ s.done = []

/-- What the rest of the core promises. -/
structure Ok : Prop where
  core : s.core.Ok (s.coreIn i)
  /-- a bundle fills its row without gaps -/
  gapless : ∀ u v w : Fin W, u < v → v < w →
    s.core.sys.Val (s.core.sys.rob.rob_tail, u) ∨ (s.robIn i).enq_valids u = true →
    (s.robIn i).enq_valids w = true →
    s.core.sys.Val (s.core.sys.rob.rob_tail, v) ∨ (s.robIn i).enq_valids v = true

/-- Decode takes no shadow uop during an overflow. -/
def Gated : Prop := ∀ w, s.core.dec_fire (s.coreIn i) w = true →
  (i.fetched w).is_sfb_shadow = true → s.core.overflow_event = false

end State

/-- The core, from reset. -/
def core [NeZero N] [NeZero W] : Machine (State N W T va) (In N W T va) where
  start := State.Reset
  ok := State.Ok
  next s i := s.next i

/-- **Interrupts keep off the shadow**, and off its branch. -/
theorem interrupt_gated {i : In N W T va} {w : Fin W} {cause : ℕ} (hi : i.interrupt = some cause)
    (hx : i.xcpt w ≠ some cause) (h : i.checkExceptions w = some cause) :
    (i.fetched w).is_sfb = false := by
  unfold In.checkExceptions at h
  split_ifs at h with hg
  · simpa [hi] using hg
  · exact absurd h hx

/-! ## The invariant -/

/-- The valid entries of a row have no gaps. -/
def Gapless (s : Sys N W T) : Prop :=
  ∀ (r : Fin N) (u v w : Fin W), u < v → v < w → s.Val (r, u) → s.Val (r, w) → s.Val (r, v)

/-- The invariant: an overflow is recorded outside of a shadow. -/
structure State.Inv (s : State N W T va) : Prop where
  sys : s.core.sys.Inv
  xcpt : s.core.sys.XInv
  gapless : Gapless s.core.sys
  ren2 : ∀ w, s.core.ren2_valid w = true → Core.marked (s.core.ren2_uop w) = true →
    (s.ren2 w).is_sfb_shadow = false
  rob : ∀ a, s.core.sys.Val a → Core.marked (s.core.sys.rob.bank a.1 a.2).uop = true →
    (s.rob a.1 a.2).is_sfb_shadow = false
  record : s.core.sys.rob.r_xcpt_val = true →
    s.core.sys.rob.r_xcpt_uop.exc_cause = cause_OverFlow →
    (s.rob s.core.sys.record.1 s.core.sys.record.2).is_sfb_shadow = false
  taken : s.core.com_xcpt_d1 = some cause_OverFlow → s.com_xcpt.is_sfb_shadow = false

section

variable {s : State N W T va} {i : In N W T va}

theorem inv_reset (h : s.Reset) : s.Inv where
  sys := Reorder.inv_reset h.1.sys
  xcpt := xinv_reset h.1.sys
  gapless r u v w _ _ hu _ := absurd (hu.symm.trans (h.1.sys.val r u)) (by simp)
  ren2 w hw := absurd (hw.symm.trans (h.1.ren2 w)) (by simp)
  rob a ha := absurd (ha.symm.trans (h.1.sys.val a.1 a.2)) (by simp)
  record hr := absurd (hr.symm.trans h.1.sys.r_xcpt_val) (by simp)
  taken ht := absurd (ht.symm.trans h.1.xcpt) (by simp)

theorem marked_congr {u v : RobUop N W T} (e : u.toMicroOp = v.toMicroOp) :
    Core.marked u = Core.marked v := by
  simp only [Core.marked, show u.exception = v.exception from congrArg MicroOp.exception e,
    show u.exc_cause = v.exc_cause from congrArg MicroOp.exc_cause e]

theorem not_marked_of_gated (hg : s.Gated i) (ok : s.Ok i) {w : Fin W}
    (hf : s.core.dec_fire (s.coreIn i) w = true)
    (hm : Core.marked (s.core.dec_uop (s.coreIn i) w) = true) :
    (i.fetched w).is_sfb_shadow = false := by
  have ho := Sampling.overflow_of_marked ok.core hm
  by_contra hs
  exact absurd (ho.symm.trans (hg w hf (by simpa using hs))) (by simp)

/-- In a row without gaps nothing is valid before a uop that throws. -/
theorem first_of_throws [NeZero W] {y : Sys N W T} {j : SysIn N W T} (hg : Gapless y) {w : Fin W}
    (hw : y.rob.throws j.toIn w = true) : priorityEncoder y.rob.head_vals = w := by
  obtain ⟨hexc, hopen, hall, hprev⟩ := throws_iff.1 hw
  have hcommit : ∀ v < w, y.Val (y.rob.rob_head, v) → y.rob.will_commit j.toIn v = true := by
    intro v hv hval
    have hhead : y.rob.head_vals v = true := hval
    have hpass := hall v hv
    simp only [Rob.holds_back, hhead, Bool.true_and, Bool.or_eq_false_iff,
      Bool.not_eq_false'] at hpass
    exact will_commit_iff.2 ⟨hpass.1, hpass.2, hopen, fun u hu => hall u (hu.trans hv)⟩
  have hfirst : ∀ v < w, ¬ y.Val (y.rob.rob_head, v) := by
    intro v hv hval
    -- the slot right before would commit, and block the exception
    have hlt : w.val - 1 < W := by omega
    have hpred : y.Val (y.rob.rob_head, ⟨w.val - 1, hlt⟩) := by
      by_cases he : v.val = w.val - 1
      · rw [← show v = ⟨w.val - 1, hlt⟩ from Fin.ext he]
        exact hval
      · have hvp : v < ⟨w.val - 1, hlt⟩ := Fin.lt_def.2 (by simp only; omega)
        exact hg _ v _ w hvp (Fin.lt_def.2 (by simp only; omega)) hval hexc.1
    have hc := hcommit ⟨w.val - 1, hlt⟩ (Fin.lt_def.2 (by simp only; omega)) hpred
    have hno := List.any_eq_false.1 hprev ⟨w.val - 1, hlt⟩ (List.mem_finRange _)
    rw [hc, Bool.and_true, decide_eq_true_eq] at hno
    rw [Fin.lt_def] at hv
    simp only at hno
    omega
  have hfind : (List.finRange W).find? y.rob.head_vals = some w := by
    cases hf : (List.finRange W).find? y.rob.head_vals with
    | none => exact absurd hexc.1 (List.find?_eq_none.1 hf w (List.mem_finRange w))
    | some v =>
      rcases (find_finRange_le hf hexc.1).lt_or_eq with hlt | rfl
      · exact absurd (List.find?_some hf) (hfirst v hlt)
      · rfl
  rw [priorityEncoder, hfind, Option.getD_some]

/-! ## One cycle -/

section Next

variable [NeZero N] [NeZero W]

/-- Rows stay without gaps, if bundles have none. -/
theorem gapless_step {y : Sys N W T} {j : SysIn N W T} (h : y.Inv) (ok : y.Ok j) (hg : Gapless y)
    (hfill : ∀ u v w : Fin W, u < v → v < w →
      y.Val (y.rob.rob_tail, u) ∨ j.enq_valids u = true → j.enq_valids w = true →
      y.Val (y.rob.rob_tail, v) ∨ j.enq_valids v = true) : Gapless (y.next j) := by
  intro r u v w huv hvw hu hw
  rw [val_next] at hu hw ⊢
  obtain ⟨hu, -, hku, hcu⟩ := hu
  obtain ⟨hw, hr, hkw, -⟩ := hw
  -- the slot between was valid, or comes in with the last one
  have hv : y.rob.enq_at j.toIn r v = true ∨ y.Val (r, v) := by
    rcases hw with hw | hw
    · obtain ⟨hen, hrow, -⟩ := enq_of_at hw
      simp only at hrow
      subst hrow
      have hu' : y.Val (y.rob.rob_tail, u) ∨ j.enq_valids u = true :=
        hu.symm.imp_right fun he => (enq_of_at he).1
      rcases hfill u v w huv hvw hu' hen with hv | hv
      · exact .inr hv
      · exact .inl (by simp [Rob.enq_at, hv])
    · rcases hu with hu | hu
      · have hb := before_of_enq h ok (a := (r, u)) hu hw
        simp only [Sys.Before, LexLt] at hb
        omega
      · exact .inr (hg r u v w huv hvw hu hw)
  refine ⟨hv, hr, ?_, ?_⟩
  · -- the kill of a branch takes the younger slot, too
    cases henq : Rob.enq j.toIn with
    | true => exact kill_quiet ok (ok.enq_ready henq).2.2 r v
    | false =>
      have hno : ∀ x, y.rob.enq_at j.toIn r x = true → False := fun x hx =>
        absurd ((enq_of_at hx).2.2.symm.trans henq) (by simp)
      refine not_kill_of_before ok h (b := (r, w)) (hv.resolve_left (hno v))
        (hw.resolve_left (hno w)) ?_ hkw
      exact .inr ⟨rfl, hvw⟩
  · -- and what commits is older than what stays
    by_contra hc
    simp only [Rob.commit_at, Bool.not_eq_false, Bool.and_eq_true, decide_eq_true_eq] at hc
    obtain ⟨rfl, hc⟩ := hc
    rcases hu with hu | hu
    · have hb := before_of_enq h ok (a := (y.rob.rob_head, u)) hu (val_of_commit hc).1
      simp only [Sys.Before, LexLt] at hb
      omega
    · have hcu' := commit_of_lt hc hu huv
      simp [Rob.commit_at, hcu'] at hcu

theorem ren2_next (h : s.Inv) (ok : s.Ok i) (hg : s.Gated i) {w : Fin W}
    (hv : (s.next i).core.ren2_valid w = true)
    (hm : Core.marked ((s.next i).core.ren2_uop w) = true) :
    ((s.next i).ren2 w).is_sfb_shadow = false := by
  have hvalid : (s.next i).core.ren2_valid w = s.core.ren2_valid_next (s.coreIn i) w := rfl
  have huop : Core.marked ((s.next i).core.ren2_uop w) = Core.marked
      (if !s.core.redirect_flush (s.coreIn i) && s.core.dis_ready (s.coreIn i) then
        s.core.dec_uop (s.coreIn i) w else s.core.ren2_uop w) := rfl
  have hfetch : (s.next i).ren2 w =
      if !s.core.redirect_flush (s.coreIn i) && s.core.dis_ready (s.coreIn i) then i.fetched w
      else s.ren2 w := rfl
  rw [hvalid, Core.ren2_valid_next] at hv
  rw [huop] at hm
  rw [hfetch]
  split_ifs at hv hm ⊢ with hredir hready
  all_goals simp_all
  · exact not_marked_of_gated hg ok hv hm
  · exact h.ren2 w hv.1 hm

theorem rob_next_of_enq {r : Fin N} {w : Fin W}
    (he : s.core.sys.rob.enq_at (s.robIn i).toIn r w = true) : (s.next i).rob r w = s.ren2 w :=
  if_pos he

theorem rob_next_of_not_enq {r : Fin N} {w : Fin W}
    (he : s.core.sys.rob.enq_at (s.robIn i).toIn r w = false) : (s.next i).rob r w = s.rob r w :=
  if_neg (by simp [he])

theorem marked_rob_next (h : s.Inv) (ok : s.Ok i) {a : RobIdx N W}
    (ha : (s.next i).core.sys.Val a)
    (hm : Core.marked ((s.next i).core.sys.rob.bank a.1 a.2).uop = true) :
    ((s.next i).rob a.1 a.2).is_sfb_shadow = false := by
  rcases uop_next_cases h.sys ok.core.rob (i := s.robIn i) ha with ⟨hv, he⟩ | ⟨henq, he⟩
  · rw [rob_next_of_not_enq (enq_at_of_val h.sys ok.core.rob hv)]
    exact h.rob a hv ((marked_congr he).symm.trans hm)
  · rw [rob_next_of_enq henq]
    exact h.ren2 _ (Sampling.open_of_fire (enq_of_at henq).1).1 ((marked_congr he).symm.trans hm)

theorem record_next (h : s.Inv) (ok : s.Ok i) (hr : (s.next i).core.sys.rob.r_xcpt_val = true)
    (hc : (s.next i).core.sys.rob.r_xcpt_uop.exc_cause = cause_OverFlow) :
    ((s.next i).rob (s.next i).core.sys.record.1 (s.next i).core.sys.record.2).is_sfb_shadow =
      false := by
  obtain ⟨-, ⟨hv, hcause, hrec⟩ | ⟨w, hw, hm, hrec⟩⟩ :=
    Sampling.recorded_cases h.xcpt ok.core hr hc
  · -- dispatch waits while there is a record
    have hrec' : (s.next i).core.sys.record = s.core.sys.record := hrec
    rw [hrec', rob_next_of_not_enq]
    · exact h.record hv hcause
    · by_contra he
      rw [Bool.not_eq_false] at he
      have hready := (ok.core.rob.enq_ready (enq_of_at he).2.2).1
      exact absurd (hv.symm.trans (ready_iff.1 hready).2.2) (by simp)
  · have hrec' : (s.next i).core.sys.record = (s.core.sys.rob.rob_tail, w) := hrec
    have henq : s.core.sys.rob.enq_at (s.robIn i).toIn s.core.sys.rob.rob_tail w = true := by
      simp [Rob.enq_at, State.robIn, Core.robIn, hw]
    rw [hrec', rob_next_of_enq henq]
    exact h.ren2 w (Sampling.open_of_fire hw).1 hm

theorem taken_next (h : s.Inv) (ht : (s.next i).core.com_xcpt_d1 = some cause_OverFlow) :
    (s.next i).com_xcpt.is_sfb_shadow = false := by
  have hcom : (s.next i).core.com_xcpt_d1 =
      if s.core.sys.rob.com_xcpt_valid (s.robIn i).toIn then
        some s.core.sys.rob.r_xcpt_uop.exc_cause else none := rfl
  rw [hcom, Option.ite_none_right_eq_some, Rob.com_xcpt_valid, Bool.and_eq_true,
    Option.some.injEq] at ht
  obtain ⟨⟨hthrow, -⟩, hc⟩ := ht
  obtain ⟨w, -, hw⟩ := List.any_eq_true.1 hthrow
  obtain ⟨hr, hrec, -⟩ := record_of_throws h.xcpt hw
  have hs := h.record hr hc
  have hidx : s.core.sys.rob.com_idx = s.core.sys.rob.rob_head :=
    if_neg (thrown_open hthrow).1.2.2
  have hx : (s.next i).com_xcpt =
      s.rob s.core.sys.rob.com_idx (priorityEncoder s.core.sys.rob.head_vals) := rfl
  rw [hrec] at hs
  rw [hx, hidx, first_of_throws h.gapless hw]
  exact hs

theorem inv_step (h : s.Inv) (ok : s.Ok i) (hg : s.Gated i) : (s.next i).Inv where
  sys := Reorder.inv_step h.sys ok.core.rob
  xcpt := xinv_step h.sys h.xcpt ok.core.rob ok.core.xcpt
  gapless := gapless_step h.sys ok.core.rob h.gapless ok.gapless
  ren2 _ hv hm := ren2_next h ok hg hv hm
  rob _ ha hm := marked_rob_next h ok ha hm
  record := record_next h ok
  taken := taken_next h

theorem inv_reach (h : (core.restrict State.Gated).Reach s) : s.Inv :=
  h.inv (P := State.Inv) (fun _ h0 => inv_reset h0) fun _ _ hi ok => inv_step hi ok.1 ok.2

omit [NeZero N] [NeZero W] in
theorem setUCSR_userExitPC (u : Ucsr va) (tag : BitVec 12) (d : BitVec 64) :
    (u.setUCSR tag d).userExitPC = u.userExitPC := by
  simp only [Ucsr.setUCSR, apply_ite Ucsr.userExitPC, ite_self]

omit [NeZero N] [NeZero W] in
theorem foldl_userExitPC (ps : List (BitVec 12 × BitVec 64)) (u : Ucsr va) :
    (ps.foldl (fun u p => u.setUCSR p.1 p.2) u).userExitPC = u.userExitPC := by
  induction ps generalizing u with
  | nil => rfl
  | cons p ps ih => exact (ih _).trans (setUCSR_userExitPC u p.1 p.2)

theorem userExitPC_next (hx : s.core.isOverFlowExcpt = true) :
    (s.next i).core.ucsr.userExitPC = s.com_xcpt.pc := by
  change (s.core.ucsr_next (s.coreIn i)).userExitPC = _
  rw [Core.ucsr_next, foldl_userExitPC, Core.exit_next, if_pos hx]
  rfl

theorem op_kind (f : Fetched) : f.op.kind = .shadow ↔ f.is_sfb_shadow = true := by
  unfold Fetched.op
  cases f.is_sfb_shadow <;> cases f.is_sfb_br <;> simp

/-- **No sample lands in a shadow**, in a run in which decode takes no shadow uop
    during an overflow: no shadow uop is marked, and if the uops that have committed
    and the one that is sampled come from a program, `userExitPC` is where the
    sequential run of the program stands after what has committed. -/
theorem no_sample_in_shadow (h : (core.restrict State.Gated).Reach s) :
    (∀ a, s.core.sys.Val a → Core.marked (s.core.sys.rob.bank a.1 a.2).uop = true →
      (s.rob a.1 a.2).is_sfb_shadow = false) ∧
    (s.core.isOverFlowExcpt = true → s.com_xcpt.is_sfb_shadow = false ∧
      (s.next i).core.ucsr.userExitPC = s.com_xcpt.pc ∧
      ∀ (σ : Type) (P : Program σ (BitVec 64)) (x y : St σ (BitVec 64)),
        P.Path x (s.done.map Fetched.op) y → Fits y s.com_xcpt.op →
        ∃ n, P.seq^[n] (x.state, x.pc) = (y.state, (s.next i).core.ucsr.userExitPC)) := by
  have hi := inv_reach h
  refine ⟨hi.rob, fun hx => ?_⟩
  have ht : s.core.com_xcpt_d1 = some cause_OverFlow := by
    simp only [Core.isOverFlowExcpt, Bool.and_eq_true, decide_eq_true_eq] at hx
    exact hx.1
  have hs := hi.taken ht
  refine ⟨hs, userExitPC_next hx, fun σ P x y hpath hfit => ?_⟩
  obtain ⟨n, hn⟩ := hpath.seq
  have hpc : s.com_xcpt.pc = y.pc :=
    (Shadow.fits_iff hfit).2 fun hk => absurd (hs.symm.trans ((op_kind _).1 hk.1)) (by simp)
  exact ⟨n, by rw [hn, userExitPC_next hx, hpc]⟩

end Next

end

/-! ## Two runs -/

section Runs

/-- The instructions of a program: one is a branch over the next. -/
def fetch (branch k : ℕ) : Fetched := ⟨BitVec.ofNat 64 (4 * k), k = branch, k = branch ∨ k = branch + 1⟩

/-- The same program as a sequential machine; the branch is taken. -/
def program (branch : ℕ) : Program Unit (BitVec 64) where
  step pc _ := ((), if pc = BitVec.ofNat 64 (4 * branch) then pc + 8 else pc + 4)
  taken pc _ := pc = BitVec.ofNat 64 (4 * branch)

/-- Cycles of `Sampling` that decode the instructions one after the other. -/
def fetching (branch : ℕ) : ℕ → List (Sampling.In 2 1 1 40) → List (In 2 1 1 40)
  | _, [] => []
  | k, i :: is =>
    ⟨i, fun _ => fetch branch k, none, fun _ => none⟩ ::
      fetching branch (if i.dec_valids 0 then k + 1 else k) is

/-- The core after reset. -/
def resetState : State 2 1 1 40 where
  core := Sampling.resetCore
  ren2 _ := ⟨0, false, false⟩
  rob _ _ := ⟨0, false, false⟩
  com_xcpt := ⟨0, false, false⟩
  done := []

theorem ok_of_calm (s : State 2 1 1 40) (i : In 2 1 1 40)
    (h : Sampling.calm s.core (s.coreIn i) = true) : s.Ok i where
  core := Sampling.ok_of_calm _ _ h
  gapless u v _ huv := absurd huv (by rw [Subsingleton.elim u v]; exact lt_irrefl _)

/-- The branch and its shadow are decoded before the limit is passed, and the uop after
    them is sampled. -/
def skippedRun : List (In 2 1 1 40) := fetching 3 0 Sampling.sampled

/-- What `Gated` asks of a cycle. -/
def gated (s : State 2 1 1 40) (i : In 2 1 1 40) : Bool :=
  !s.core.overflow_event || !(i.fetched 0).is_sfb_shadow

set_option maxRecDepth 20000 in
/-- The skipped shadow of a taken branch has committed; the sample comes right after it. -/
theorem no_sample_in_shadow_skippedRun :
    let s := core.run resetState skippedRun
    s.done.map Fetched.op = (List.range 5).map (fun k => (fetch 3 k).op) ∧
      (fetch 3 4).is_sfb_shadow = true ∧ s.core.isOverFlowExcpt = true ∧
      s.com_xcpt.is_sfb_shadow = false ∧
      ∀ i, (s.next i).core.ucsr.userExitPC = 20 ∧
        ∃ n, (program 3).seq^[n] ((), 0) = ((), (s.next i).core.ucsr.userExitPC) := by
  have test : ∀ s i, (Sampling.calm s.core (s.coreIn i) && gated s i) = true →
      (core.restrict State.Gated).ok s i := by
    intro s i h
    rw [Bool.and_eq_true] at h
    refine ⟨ok_of_calm s i h.1, fun w _ hs => ?_⟩
    rw [Subsingleton.elim w 0] at hs
    simpa [gated, hs] using h.2
  have hreach : (core.restrict State.Gated).Reach (core.run resetState skippedRun) :=
    Machine.reach_run (M := core.restrict State.Gated) skippedRun
      (.start ⟨Sampling.resetCore_reset, rfl⟩)
      (Machine.accepts_of_passes test skippedRun resetState (by decide +kernel))
  have hx : (core.run resetState skippedRun).core.isOverFlowExcpt = true := by decide +kernel
  have hop : (core.run resetState skippedRun).com_xcpt.op = (fetch 3 5).op := by decide +kernel
  have hdone : (core.run resetState skippedRun).done.map Fetched.op =
      (List.range 5).map (fun k => (fetch 3 k).op) := by decide +kernel
  have hpath : (program 3).Path ⟨(), 0, false⟩ ((core.run resetState skippedRun).done.map Fetched.op)
      ⟨(), 20, true⟩ := by
    rw [hdone]
    exact Program.Path.nil.snoc (.of_pc rfl (by decide)) |>.snoc (.of_pc rfl (by decide))
      |>.snoc (.of_pc rfl (by decide)) |>.snoc (.of_pc rfl (by decide))
      |>.snoc (by rw [Fits, if_pos ⟨rfl, rfl⟩]; decide)
  have hfit : Fits (⟨(), 20, true⟩ : St Unit (BitVec 64))
      (core.run resetState skippedRun).com_xcpt.op := by
    rw [hop]
    exact .of_pc rfl (by decide)
  refine ⟨hdone, rfl, hx, ((no_sample_in_shadow (i := ⟨Sampling.cycle none [] [] 0, fun _ => fetch 3 0,
    none, fun _ => none⟩) hreach).2 hx).1, fun i => ?_⟩
  obtain ⟨-, huser, hseq⟩ := (no_sample_in_shadow (i := i) hreach).2 hx
  exact ⟨huser.trans (congrArg Op.pc hop), hseq Unit (program 3) _ _ hpath hfit⟩

/-- The branch commits, is taken, and its shadow is decoded over the limit. -/
def shadowRun : List (In 2 1 1 40) := fetching 4 0 Sampling.sampled

/-- The sequential run never comes to the shadow. -/
theorem never_in_shadow (n : ℕ) : ((program 4).seq^[n] ((), 0)).2 ≠ 20 := by
  induction n with
  | zero => decide
  | succ n ih =>
    rw [Function.iterate_succ_apply']
    generalize ((program 4).seq^[n] ((), 0)) = x at ih
    simp only [Program.seq, program]
    split_ifs with hb
    · rw [hb]
      decide
    · intro he
      exact hb (by bv_omega)

set_option maxRecDepth 20000 in
/-- **A sample lands in the shadow of a taken branch**: what has committed and the
    sampled uop come from the program, but `userExitPC` is not on its run. -/
theorem sample_in_shadow : ¬ ∀ (s : State 2 1 1 40) (i : In 2 1 1 40), core.Reach s →
    (∀ a, s.core.sys.Val a → Core.marked (s.core.sys.rob.bank a.1 a.2).uop = true →
      (s.rob a.1 a.2).is_sfb_shadow = false) ∧
    (s.core.isOverFlowExcpt = true → s.com_xcpt.is_sfb_shadow = false ∧
      (s.next i).core.ucsr.userExitPC = s.com_xcpt.pc ∧
      ∀ (σ : Type) (P : Program σ (BitVec 64)) (x y : St σ (BitVec 64)),
        P.Path x (s.done.map Fetched.op) y → Fits y s.com_xcpt.op →
        ∃ n, P.seq^[n] (x.state, x.pc) = (y.state, (s.next i).core.ucsr.userExitPC)) := by
  intro hall
  have hreach : core.Reach (core.run resetState shadowRun) :=
    Machine.reach_run shadowRun (.start ⟨Sampling.resetCore_reset, rfl⟩)
      (Machine.accepts_of_passes ok_of_calm shadowRun resetState (by decide +kernel))
  have hx : (core.run resetState shadowRun).core.isOverFlowExcpt = true := by decide +kernel
  have hpc : (core.run resetState shadowRun).com_xcpt.op = (fetch 4 5).op := by decide +kernel
  have hdone : (core.run resetState shadowRun).done.map Fetched.op =
      (List.range 5).map (fun k => (fetch 4 k).op) := by decide +kernel
  have hpath : (program 4).Path ⟨(), 0, false⟩ ((core.run resetState shadowRun).done.map Fetched.op)
      ⟨(), 24, true⟩ := by
    rw [hdone]
    exact Program.Path.nil.snoc (.of_pc rfl (by decide)) |>.snoc (.of_pc rfl (by decide))
      |>.snoc (.of_pc rfl (by decide)) |>.snoc (.of_pc rfl (by decide))
      |>.snoc (.of_pc rfl (by decide))
  have hfit : Fits (⟨(), 24, true⟩ : St Unit (BitVec 64)) (fetch 4 5).op := by
    rw [Fits, if_pos ⟨rfl, rfl⟩]
    decide
  obtain ⟨-, hend⟩ := hall _ ⟨Sampling.cycle none [] [] 0, fun _ => fetch 4 0, none, fun _ => none⟩
    hreach
  obtain ⟨-, huser, hseq⟩ := hend hx
  obtain ⟨n, hn⟩ := hseq Unit (program 4) _ _ hpath (hpc ▸ hfit)
  refine never_in_shadow n ?_
  rw [hn]
  exact huser.trans (congrArg Op.pc hpc)

end Runs

end BoomStop.SfbSample
