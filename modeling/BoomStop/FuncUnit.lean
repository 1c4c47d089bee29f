/-
  The functional units of the execution units (`functional-unit.scala`,
  `fdiv.scala`): what a uop passes from its request to its response, and how
  the units lose it when it is killed.

  * `Stage`, `Pipe.next`, `Pipe.resp`: `PipelinedFunctionalUnit`; the registers
    of the data move on whether the uop is valid or not;
  * `DivUnit.next`: the divider, which holds one uop until its result is taken;
  * `FDivSqrtUnit.next`: the divider for floating point, with a buffer for the
    request and one for the result;
  * `holding`: how many uops of some kind a unit has; `…holding_next`: those
    that are requested stay, leave with the response, or are killed.

  `value` is what a unit computes for a uop.
-/
import BoomStop.KillableQueue
import BoomStop.Lib.ShiftReg

namespace BoomStop.FuncUnit

open KillableQueue (MicroOp Bits)
open Issue (BrUpdate isKilledByBranch getNewBrMask)

variable {T : ℕ} {U D R : Type}

/-! ## Kills -/

/-- A branch or a flush kills the uop. -/
def doomed (b : BrUpdate T) (kill : Bool) (u : MicroOp T U) : Bool :=
  isKilledByBranch b u.br_mask || kill

/-- A uop that moves on. -/
def advance (b : BrUpdate T) (kill : Bool) (u : MicroOp T U) : Option (MicroOp T U) :=
  if doomed b kill u then none else some (u.update b)

/-- The uop that is there is of some kind. -/
def has (p : U → Bool) (o : Option (MicroOp T U)) : Bool := o.any fun u => p u.fields

section Kills

variable {p : U → Bool} {b : BrUpdate T} {kill : Bool} {u v : MicroOp T U}
  {o : Option (MicroOp T U)}

theorem advance_eq_some : advance b kill u = some v ↔ doomed b kill u = false ∧ u.update b = v := by
  rw [advance]
  cases doomed b kill u <;> simp

/-- A second look at the branches of a cycle changes nothing. -/
theorem update_update : (u.update b).update b = u.update b := by
  unfold KillableQueue.MicroOp.update getNewBrMask
  simp only [Bool.and_assoc, Bool.and_self]

theorem fields_of_advance (h : advance b kill u = some v) : v.fields = u.fields := by
  unfold advance at h
  split_ifs at h
  rw [← Option.some.inj h]
  rfl

theorem has_advance_le (h : has p (o.bind (advance b kill)) = true) : has p o = true := by
  cases o with
  | none => exact h
  | some u =>
    rw [Option.bind_some, advance] at h
    split_ifs at h
    · cases h
    · exact h

theorem has_advance (hkeep : ∀ u ∈ o, p u.fields = true → doomed b kill u = false)
    (h : has p o = true) : has p (o.bind (advance b kill)) = true := by
  cases o with
  | none => exact h
  | some u =>
    rw [Option.bind_some, advance, hkeep u rfl h]
    exact h

theorem toNat_mono {x y : Bool} (h : x = true → y = true) : x.toNat ≤ y.toNat := by
  cases x with
  | false => exact Nat.zero_le _
  | true => rw [h rfl]

variable (p b kill o) in
theorem toNat_has_advance_le : (has p (o.bind (advance b kill))).toNat ≤ (has p o).toNat :=
  toNat_mono has_advance_le

/-- A uop of the kind is there as before, if it is not killed. -/
theorem has_advance_eq (hkeep : ∀ u ∈ o, p u.fields = true → doomed b kill u = false) :
    has p (o.bind (advance b kill)) = has p o := by
  rw [Bool.eq_iff_iff]
  exact ⟨has_advance_le, has_advance hkeep⟩

/-- Without a flush fewer uops are doomed. -/
theorem doomed_mono (h : doomed b kill u = false) : doomed b false u = false := by
  rw [doomed, Bool.or_eq_false_iff] at h ⊢
  exact ⟨h.1, rfl⟩

end Kills

/-! ## Pipelined units -/

/-- `r_valids(i)` with `r_uops(i)`, and the register of the data beside them. -/
structure Stage (T : ℕ) (U D : Type) where
  uop : Option (MicroOp T U)
  data : D

/-- A stage after a cycle. -/
def Stage.advance (b : BrUpdate T) (kill : Bool) (st : Stage T U D) : Stage T U D :=
  { st with uop := st.uop.bind (FuncUnit.advance b kill) }

/-- The stage holds a uop with the property. -/
def Stage.has (p : U → Bool) (st : Stage T U D) : Bool := FuncUnit.has p st.uop

/-- The data is that of the uop. -/
def Stage.Own (value : U → D) (st : Stage T U D) : Prop := ∀ u ∈ st.uop, st.data = value u.fields

/-- The stages of a unit, the newest uop first. -/
abbrev Pipe (T : ℕ) (U D : Type) := List (Stage T U D)

namespace Pipe

variable (l : Pipe T U D) (b : BrUpdate T) (kill : Bool) (req : Stage T U D)

/-- One cycle of a pipeline. -/
def next : Pipe T U D := ShiftReg.shift (Stage.advance b kill) req l

/-- `io.resp`, if it is valid; whether a flush kills it is not looked at. -/
def resp : Option (Bits T U D) :=
  ((ShiftReg.out req l).uop.bind (advance b false)).map fun u => ⟨(ShiftReg.out req l).data, u⟩

/-- The uops of the pipeline with the property. -/
def holding (p : U → Bool) : ℕ := l.countP (Stage.has p)

variable {l b kill req} {p : U → Bool} {value : U → D}

theorem has_resp : ((resp l b req).any fun x => p x.uop.fields) =
    FuncUnit.has p ((ShiftReg.out req l).uop.bind (advance b false)) := by
  rw [resp, FuncUnit.has]
  cases (ShiftReg.out req l).uop.bind (advance b false) <;> rfl

variable (l b kill req p) in
theorem holding_next_le : holding (l.next b kill req) p +
    ((resp l b req).any fun x => p x.uop.fields).toNat ≤ holding l p + (req.has p).toNat := by
  have h := ShiftReg.countP_shift_le (f := Stage.advance b kill) (p := Stage.has p) (x := req)
    (l := l) fun st => has_advance_le
  have hout : (FuncUnit.has p ((ShiftReg.out req l).uop.bind (advance b false))).toNat ≤
      ((ShiftReg.out req l).has p).toNat := toNat_has_advance_le p b false _
  rw [has_resp, holding, next, holding]
  omega

theorem holding_next (hkeep : ∀ st ∈ req :: l, ∀ u ∈ st.uop, p u.fields = true →
      doomed b kill u = false) : holding (l.next b kill req) p +
    ((resp l b req).any fun x => p x.uop.fields).toNat = holding l p + (req.has p).toNat := by
  have h := ShiftReg.countP_shift (f := Stage.advance b kill) (p := Stage.has p) (x := req)
    (l := l) (fun st => has_advance_le) fun st hst => has_advance (hkeep st hst)
  have hout : FuncUnit.has p ((ShiftReg.out req l).uop.bind (advance b false)) =
      (ShiftReg.out req l).has p :=
    has_advance_eq fun u hu hp => doomed_mono (hkeep _ ShiftReg.out_mem u hu hp)
  rw [has_resp, hout, holding, next, holding]
  exact h

/-- The uops and their data stay together. -/
theorem own_next (hl : ∀ st ∈ l, st.Own value) (hreq : req.Own value) :
    ∀ st ∈ l.next b kill req, st.Own value := by
  refine ShiftReg.forall_shift (P := Stage.Own value) ?_ ?_
  · intro st hst
    rcases List.mem_cons.1 hst with rfl | hst
    · exact hreq
    · exact hl st hst
  · intro st hst u hu
    obtain ⟨v, hv, hadv⟩ := Option.bind_eq_some_iff.1 hu
    rw [fields_of_advance hadv]
    exact hst v hv

theorem own_resp (hl : ∀ st ∈ l, st.Own value) (hreq : req.Own value) {x : Bits T U D}
    (hx : resp l b req = some x) : x.data = value x.uop.fields := by
  obtain ⟨u, hu, rfl⟩ := Option.map_eq_some_iff.1 hx
  obtain ⟨v, hv, hadv⟩ := Option.bind_eq_some_iff.1 hu
  have hown : (ShiftReg.out req l).Own value := by
    rcases List.mem_cons.1 (ShiftReg.out_mem (x := req) (l := l)) with he | hmem
    · rw [he]
      exact hreq
    · exact hl _ hmem
  show (ShiftReg.out req l).data = value u.fields
  rw [fields_of_advance hadv]
  exact hown v hv

/-- What is in a stage was in one, or is the request. -/
theorem mem_next {st : Stage T U D} (hst : st ∈ l.next b kill req) {v : MicroOp T U}
    (hv : v ∈ st.uop) : ∃ st' ∈ req :: l, ∃ u ∈ st'.uop, advance b kill u = some v := by
  obtain ⟨st', hst', rfl⟩ := ShiftReg.mem_of_mem_shift hst
  obtain ⟨u, hu, hadv⟩ := Option.bind_eq_some_iff.1 hv
  exact ⟨st', hst', u, hu, hadv⟩

/-- What is shown was in a stage, or is the request. -/
theorem mem_resp {x : Bits T U D} (hx : resp l b req = some x) :
    ∃ st ∈ req :: l, st = ShiftReg.out req l ∧ x.data = st.data ∧
      ∃ u ∈ st.uop, advance b false u = some x.uop := by
  obtain ⟨v, hv, rfl⟩ := Option.map_eq_some_iff.1 hx
  obtain ⟨u, hu, hadv⟩ := Option.bind_eq_some_iff.1 hv
  exact ⟨_, ShiftReg.out_mem, rfl, rfl, u, hu, hadv⟩

/-- What holds of all uops of a unit and of the request. -/
theorem forall_next {P : U → Prop} (hl : ∀ st ∈ l, ∀ u ∈ st.uop, P u.fields)
    (hreq : ∀ u ∈ req.uop, P u.fields) : ∀ st ∈ l.next b kill req, ∀ u ∈ st.uop, P u.fields := by
  intro st hst v hv
  obtain ⟨st', hst', u, hu, hadv⟩ := mem_next hst hv
  rw [fields_of_advance hadv]
  rcases List.mem_cons.1 hst' with rfl | hst'
  · exact hreq u hu
  · exact hl st' hst' u hu

theorem forall_resp {P : U → Prop} (hl : ∀ st ∈ l, ∀ u ∈ st.uop, P u.fields)
    (hreq : ∀ u ∈ req.uop, P u.fields) {x : Bits T U D} (hx : resp l b req = some x) :
    P x.uop.fields := by
  obtain ⟨st, hst, -, -, u, hu, hadv⟩ := mem_resp hx
  rw [fields_of_advance hadv]
  rcases List.mem_cons.1 hst with rfl | hst
  · exact hreq u hu
  · exact hl st hst u hu

theorem holding_of_empty (h : ∀ st ∈ l, st.uop = none) : holding l p = 0 := by
  rw [holding, List.countP_eq_zero]
  intro st hst
  rw [Stage.has, h st hst]
  exact Bool.false_ne_true

theorem own_of_empty (h : ∀ st ∈ l, st.uop = none) : ∀ st ∈ l, st.Own value := by
  intro st hst u hu
  rw [h st hst] at hu
  cases hu

/-- A pipeline that is empty stays empty. -/
theorem next_of_empty (hl : ∀ st ∈ l, st.uop = none) (hreq : req.uop = none) :
    ∀ st ∈ l.next b kill req, st.uop = none := by
  refine ShiftReg.forall_shift (P := fun st : Stage T U D => st.uop = none) ?_ fun st hst => ?_
  · intro st hst
    rcases List.mem_cons.1 hst with rfl | hst
    · exact hreq
    · exact hl st hst
  · rw [Stage.advance, hst]
    rfl

theorem resp_of_empty (hl : ∀ st ∈ l, st.uop = none) (hreq : req.uop = none) :
    resp l b req = none := by
  have hout : (ShiftReg.out req l).uop = none := by
    rcases List.mem_cons.1 (ShiftReg.out_mem (x := req) (l := l)) with he | hmem
    · rw [he]
      exact hreq
    · exact hl _ hmem
  rw [resp, hout]
  rfl

@[simp] theorem length_next : (l.next b kill req).length = l.length := ShiftReg.length_shift

end Pipe

/-! ## The divider -/

/-- `IterativeFunctionalUnit` with `MulDiv`. -/
structure DivUnit (T : ℕ) (U : Type) where
  r_uop : MicroOp T U
  /-- the request that `MulDiv` works on -/
  op : Option U
  /-- and has the result of -/
  done : Bool

namespace DivUnit

variable (d : DivUnit T U) (b : BrUpdate T) (kill : Bool) (req : Option (MicroOp T U))
  (resp_ready finish : Bool) (value : U → D)

/-- `io.req.ready` of the divider. -/
def ready : Bool := d.op.isNone

/-- `io.req.fire()` -/
def fire : Option (MicroOp T U) := if d.ready then req else none

/-- `do_kill`: the division is dropped. -/
def do_kill : Bool := doomed b kill ((d.fire req).getD d.r_uop)

/-- `div.io.req.fire()` -/
def starts : Option (MicroOp T U) := if d.do_kill b kill req then none else d.fire req

/-- `io.resp` of the divider. -/
def resp : Option (Bits T U D) :=
  if d.done && !d.do_kill b kill req then d.op.map fun f => ⟨value f, d.r_uop⟩ else none

/-- One cycle of the divider. -/
def next : DivUnit T U where
  r_uop := ((d.fire req).getD d.r_uop).update b
  op :=
    match d.starts b kill req with
    | some u => some u.fields
    | none => if d.do_kill b kill req || d.done && resp_ready then none else d.op
  done :=
    if (d.starts b kill req).isSome || d.do_kill b kill req || d.done && resp_ready then false
    else d.done || d.op.isSome && finish

/-- The uop that is worked on. -/
def held : Option (MicroOp T U) := d.op.map fun _ => d.r_uop

/-- The uops of the divider with the property. -/
def holding (p : U → Bool) : ℕ := (has p d.held).toNat

/-- The request is that of the uop, and only a request has a result. -/
structure Own : Prop where
  op : ∀ f ∈ d.op, f = d.r_uop.fields
  done : d.done = true → d.op.isSome = true

variable {d b kill req resp_ready finish value} {p : U → Bool}

theorem own_next (h : d.Own) : (d.next b kill req resp_ready finish).Own := by
  constructor
  · intro f hf
    unfold next at hf ⊢
    cases hs : d.starts b kill req with
    | some u =>
      rw [hs] at hf
      obtain rfl := Option.some.inj hf
      unfold starts at hs
      split_ifs at hs
      rw [hs]
      rfl
    | none =>
      simp only [hs] at hf
      split_ifs at hf
      · cases hf
      · have hop : d.op = some f := hf
        have hno : d.fire req = none := by
          rw [fire, ready, hop]
          rfl
        rw [hno]
        exact h.op f hop
  · intro hd
    unfold next at hd ⊢
    cases hs : d.starts b kill req with
    | some u => rfl
    | none =>
      simp only [hs, Option.isSome_none, Bool.false_or] at hd ⊢
      split_ifs at hd ⊢ with hx
      rw [Bool.or_eq_true, Bool.and_eq_true] at hd
      exact hd.elim h.done And.left

theorem own_resp (h : d.Own) {x : Bits T U D} (hx : d.resp b kill req value = some x) :
    x.data = value x.uop.fields ∧ d.held = some x.uop := by
  unfold resp at hx
  split_ifs at hx
  obtain ⟨f, hf, rfl⟩ := Option.map_eq_some_iff.1 hx
  refine ⟨congrArg value (h.op f hf), ?_⟩
  rw [held, hf]
  rfl

variable (b kill) in
/-- A request that finds the divider ready. -/
theorem of_req {u : MicroOp T U} (hready : d.ready = true) (hreq : req = some u) :
    d.op = none ∧ d.fire req = some u ∧ d.do_kill b kill req = doomed b kill u := by
  have hop : d.op = none := Option.isNone_iff_eq_none.1 hready
  have hf : d.fire req = some u := by rw [fire, if_pos hready, hreq]
  refine ⟨hop, hf, ?_⟩
  rw [do_kill, hf]
  rfl

/-- What the divider holds: what it is asked to do, or what it held and has not
    given away. -/
theorem held_next (hready : req.isSome = true → d.ready = true) (h : d.Own) :
    (d.next b kill req resp_ready finish).held =
      if req.isSome then req.bind (advance b kill)
      else if d.done && resp_ready then none else d.held.bind (advance b kill) := by
  cases hr : req with
  | some u =>
    obtain ⟨hop, hf, hk⟩ := of_req b kill (hready (by rw [hr]; rfl)) hr
    rw [hr] at hf hk
    have hdone : d.done = false := by
      rw [Bool.eq_false_iff]
      intro hd
      have := h.done hd
      rw [hop] at this
      cases this
    unfold held next starts
    rw [hf, hk, hop, hdone, Option.bind_some, advance]
    cases doomed b kill u <;> rfl
  | none =>
    have hf : d.fire none = none := by
      unfold fire
      split_ifs <;> rfl
    have hk : d.do_kill b kill none = doomed b kill d.r_uop := by
      rw [do_kill, hf]
      rfl
    unfold held next starts
    rw [hf, hk]
    cases hop : d.op with
    | none => cases doomed b kill d.r_uop <;> cases d.done <;> cases resp_ready <;> rfl
    | some f =>
      simp only [Option.map_some, Option.bind_some, advance]
      cases doomed b kill d.r_uop <;> cases d.done <;> cases resp_ready <;> rfl

/-- `io.resp.fire()`, and what is taken. -/
def fired (d : DivUnit T U) (b : BrUpdate T) (kill : Bool) (req : Option (MicroOp T U))
    (resp_ready : Bool) (value : U → D) : Option (Bits T U D) :=
  if resp_ready then d.resp b kill req value else none

/-- A response is there for a uop that is held and not killed. -/
theorem resp_eq (hready : req.isSome = true → d.ready = true) :
    (d.resp b kill req value).map Bits.uop =
      if d.done && !doomed b kill d.r_uop then d.held else none := by
  cases hr : req with
  | some u =>
    obtain ⟨hop, -, -⟩ := of_req b kill (hready (by rw [hr]; rfl)) hr
    have hheld : d.held = none := by rw [held, hop]; rfl
    rw [resp, hop, hheld]
    split_ifs <;> rfl
  | none =>
    have hk : d.do_kill b kill none = doomed b kill d.r_uop := by
      unfold do_kill fire
      split_ifs <;> rfl
    rw [resp, hk, held]
    split_ifs
    · cases d.op <;> rfl
    · rfl

theorem has_fired (hready : req.isSome = true → d.ready = true) :
    ((d.fired b kill req resp_ready value).any fun x => p x.uop.fields) =
      has p (if d.done && resp_ready then d.held.bind (advance b kill) else none) := by
  have hmap : ∀ o : Option (Bits T U D), (o.any fun x => p x.uop.fields) = has p (o.map Bits.uop) := by
    intro o
    cases o <;> rfl
  rw [hmap, fired]
  cases resp_ready with
  | false => rw [Bool.and_false]; rfl
  | true =>
    rw [if_pos rfl, resp_eq hready, Bool.and_true]
    cases hd : d.done with
    | false => rfl
    | true =>
      cases hop : d.op with
      | none =>
        rw [held, hop, Option.map_none, Option.bind_none, ite_self, ite_self]
      | some f =>
        rw [held, hop, Option.map_some, Option.bind_some, advance]
        cases doomed b kill d.r_uop <;> rfl

variable (b kill resp_ready finish value p) in
theorem holding_next_le (hready : req.isSome = true → d.ready = true) (h : d.Own) :
    (d.next b kill req resp_ready finish).holding p +
        ((d.fired b kill req resp_ready value).any fun x => p x.uop.fields).toNat ≤
      d.holding p + (has p req).toNat := by
  have hle := toNat_has_advance_le p b kill
  rw [has_fired hready, holding, holding, held_next hready h]
  cases hr : req with
  | some u =>
    have hheld : d.held = none := by
      rw [held, (of_req b kill (hready (by rw [hr]; rfl)) hr).1]
      rfl
    have := hle (some u)
    rw [hheld, Option.bind_none, ite_self, Option.isSome_some, if_pos rfl]
    simp only [has, Option.any_none, Bool.toNat_false] at this ⊢
    omega
  | none =>
    have := hle d.held
    rw [Option.isSome_none, if_neg Bool.false_ne_true]
    split_ifs <;> simp only [has, Option.any_none, Bool.toNat_false] at this ⊢ <;> omega

variable (resp_ready finish value) in
theorem holding_next (hready : req.isSome = true → d.ready = true) (h : d.Own)
    (hreq : ∀ u ∈ req, p u.fields = true → doomed b kill u = false)
    (hheld : ∀ u ∈ d.held, p u.fields = true → doomed b kill u = false) :
    (d.next b kill req resp_ready finish).holding p +
        ((d.fired b kill req resp_ready value).any fun x => p x.uop.fields).toNat =
      d.holding p + (has p req).toNat := by
  rw [has_fired hready, holding, holding, held_next hready h]
  cases hr : req with
  | some u =>
    have hnone : d.held = none := by
      rw [held, (of_req b kill (hready (by rw [hr]; rfl)) hr).1]
      rfl
    rw [hnone, Option.bind_none, ite_self, Option.isSome_some, if_pos rfl,
      has_advance_eq (o := some u) (hr ▸ hreq)]
    exact Nat.add_comm _ _
  | none =>
    rw [Option.isSome_none, if_neg Bool.false_ne_true]
    split_ifs
    · rw [has_advance_eq hheld]
      exact Nat.add_comm _ _
    · rw [has_advance_eq hheld]

end DivUnit

/-! ## The divider for floating point -/

/-- `FDivSqrtUnit` with `DivSqrtRecF64`, whose result for a request is `raw`. -/
structure FDivSqrtUnit (T : ℕ) (U R : Type) where
  r_buffer : Option (MicroOp T U)
  r_divsqrt_val : Bool
  r_divsqrt_killed : Bool
  r_divsqrt_uop : MicroOp T U
  /-- what the result is rounded for -/
  r_divsqrt_fin : U
  r_out : Option (MicroOp T U × R)
  /-- the request that `DivSqrtRecF64` works on -/
  op : Option U

namespace FDivSqrtUnit

variable (d : FDivSqrtUnit T U R) (b : BrUpdate T) (kill : Bool) (req : Option (MicroOp T U))
  (resp_ready divsqrt_ready : Bool) (divsqrt_out : Option R) (down : U → R → D)

/-- `io.req.ready` of the floating-point divider. -/
def ready : Bool := d.r_buffer.isNone

/-- `may_fire_input`, with what is in the buffer: a division or a root. -/
def may_fire_input : Option (MicroOp T U) :=
  if !d.r_divsqrt_val && d.r_out.isNone then d.r_buffer else none

/-- The buffer goes into the divider. -/
def fires : Option (MicroOp T U) := if divsqrt_ready then d.may_fire_input else none

/-- `io.resp` of the floating-point divider. -/
def resp : Option (Bits T U D) :=
  d.r_out.bind fun o =>
    if isKilledByBranch b o.1.br_mask then none else some ⟨down d.r_divsqrt_fin o.2, o.1⟩

/-- One cycle of the floating-point divider. -/
def next : FDivSqrtUnit T U R where
  r_buffer :=
    if (d.fires divsqrt_ready).isSome then none
    else match req.bind (advance b kill) with
      | some u => some u
      | none => d.r_buffer.bind (advance b kill)
  r_divsqrt_val :=
    if divsqrt_out.isSome then false
    else if (d.fires divsqrt_ready).isSome then true else d.r_divsqrt_val
  r_divsqrt_killed :=
    match d.fires divsqrt_ready with
    | some u => doomed b kill u
    | none => d.r_divsqrt_killed || doomed b kill d.r_divsqrt_uop
  r_divsqrt_uop := ((d.fires divsqrt_ready).getD d.r_divsqrt_uop).update b
  r_divsqrt_fin := ((d.fires divsqrt_ready).map (·.fields)).getD d.r_divsqrt_fin
  r_out :=
    match divsqrt_out with
    | some r =>
      if d.r_divsqrt_killed then none else (advance b kill d.r_divsqrt_uop).map (·, r)
    | none =>
      if resp_ready then none else d.r_out.bind fun o => (advance b kill o.1).map (·, o.2)
  op :=
    match d.fires divsqrt_ready with
    | some u => some u.fields
    | none => if divsqrt_out.isSome then none else d.op

/-- The uop that is divided, unless it has been killed. -/
def live : Option (MicroOp T U) :=
  if d.r_divsqrt_val && !d.r_divsqrt_killed then some d.r_divsqrt_uop else none

/-- The uop whose result waits. -/
def outUop : Option (MicroOp T U) := d.r_out.map Prod.fst

/-- The uops of the floating-point divider with the property. -/
def holding (p : U → Bool) : ℕ :=
  (has p d.r_buffer).toNat + (has p d.live).toNat + (has p d.outUop).toNat

/-- One division at a time, and none while a result waits. -/
structure Own (raw : U → R) : Prop where
  val : d.r_divsqrt_val = d.op.isSome
  op : ∀ f ∈ d.op, f = d.r_divsqrt_uop.fields ∧ f = d.r_divsqrt_fin
  free : d.r_divsqrt_val = true → d.r_out = none
  out : ∀ o ∈ d.r_out, o.2 = raw o.1.fields ∧ d.r_divsqrt_fin = o.1.fields

/-- What `DivSqrtRecF64` promises: it answers what it was asked, with its
    result. -/
def Answers (raw : U → R) : Prop := ∀ r ∈ divsqrt_out, ∃ f ∈ d.op, r = raw f

variable {d b kill req resp_ready divsqrt_ready divsqrt_out down} {p : U → Bool} {raw : U → R}

theorem of_fires {u : MicroOp T U} (h : d.fires divsqrt_ready = some u) :
    d.r_divsqrt_val = false ∧ d.r_out = none ∧ d.r_buffer = some u := by
  unfold fires may_fire_input at h
  split_ifs at h with h1 h2
  rw [Bool.and_eq_true, Bool.not_eq_true', Option.isNone_iff_eq_none] at h2
  exact ⟨h2.1, h2.2, h⟩

variable (divsqrt_ready) in
/-- An answer finds the buffer for the result empty. -/
theorem of_answer (h : d.Own raw) (ha : d.Answers divsqrt_out raw)
    (ho : divsqrt_out.isSome = true) :
    d.r_divsqrt_val = true ∧ d.r_out = none ∧ d.fires divsqrt_ready = none := by
  obtain ⟨r, hr⟩ := Option.isSome_iff_exists.1 ho
  obtain ⟨f, hf, -⟩ := ha r hr
  have hop : d.op = some f := hf
  have hval : d.r_divsqrt_val = true := by
    rw [h.val, hop]
    rfl
  refine ⟨hval, h.free hval, ?_⟩
  rw [fires, may_fire_input, hval, Bool.not_true, Bool.false_and, if_neg Bool.false_ne_true, ite_self]

theorem own_next (h : d.Own raw) (ha : d.Answers divsqrt_out raw) :
    (d.next b kill req resp_ready divsqrt_ready divsqrt_out).Own raw := by
  cases hf : d.fires divsqrt_ready with
  | some u =>
    -- a division starts
    obtain ⟨hval, hout, -⟩ := of_fires hf
    have hno : divsqrt_out = none := by
      by_contra hno
      have := (of_answer divsqrt_ready h ha
        (Option.isSome_iff_ne_none.2 hno)).2.2
      rw [hf] at this
      cases this
    subst hno
    have hr : (d.next b kill req resp_ready divsqrt_ready none).r_out = none := by
      unfold next
      rw [hout]
      exact ite_self _
    refine ⟨?_, ?_, fun _ => hr, fun o ho => ?_⟩
    · unfold next
      rw [hf]
      rfl
    · unfold next
      rw [hf]
      intro f hf
      obtain rfl := Option.some.inj hf
      exact ⟨rfl, rfl⟩
    · rw [hr] at ho
      cases ho
  | none =>
    cases ho : divsqrt_out with
    | some r =>
      have ho' : divsqrt_out.isSome = true := by rw [ho]; rfl
      obtain ⟨hval, hout, -⟩ := of_answer divsqrt_ready h ha ho'
      obtain ⟨f, hop, hr⟩ := ha r ho
      refine ⟨?_, ?_, ?_, ?_⟩
      · unfold next
        rw [hf]
        rfl
      · unfold next
        rw [hf]
        intro f hf
        cases hf
      · unfold next
        intro hv
        cases hv
      · unfold next
        rw [hf]
        intro o ho
        simp only at ho
        split_ifs at ho
        · cases ho
        · obtain ⟨v, hv, rfl⟩ := Option.map_eq_some_iff.1 (Option.mem_def.1 ho)
          obtain ⟨h1, h2⟩ := h.op f hop
          rw [fields_of_advance hv, ← h1]
          exact ⟨hr, h2.symm⟩
    | none =>
      have hrout : ∀ o ∈ (d.next b kill req resp_ready divsqrt_ready none).r_out,
          ∃ o' ∈ d.r_out, o.2 = o'.2 ∧ o.1.fields = o'.1.fields := by
        unfold next
        intro o ho
        simp only at ho
        split_ifs at ho
        · cases ho
        · obtain ⟨o', ho', ho⟩ := Option.bind_eq_some_iff.1 (Option.mem_def.1 ho)
          obtain ⟨v, hv, rfl⟩ := Option.map_eq_some_iff.1 ho
          exact ⟨o', ho', rfl, fields_of_advance hv⟩
      refine ⟨?_, ?_, fun hv => ?_, fun o ho => ?_⟩
      · unfold next
        rw [hf]
        exact h.val
      · unfold next
        rw [hf]
        exact h.op
      · have hv' : d.r_divsqrt_val = true := by
          unfold next at hv
          rw [hf] at hv
          exact hv
        have hno := h.free hv'
        by_contra hc
        obtain ⟨o, ho⟩ := Option.ne_none_iff_exists'.1 hc
        obtain ⟨o', ho', -⟩ := hrout o ho
        rw [hno] at ho'
        cases ho'
      · obtain ⟨o', ho', h1, h2⟩ := hrout o ho
        have := h.out o' ho'
        have hfin : (d.next b kill req resp_ready divsqrt_ready none).r_divsqrt_fin =
            d.r_divsqrt_fin := by
          unfold next
          rw [hf]
          rfl
        rw [h1, h2, hfin]
        exact this

theorem own_resp (h : d.Own raw) {x : Bits T U D} (hx : d.resp b down = some x) :
    x.data = down x.uop.fields (raw x.uop.fields) ∧ d.outUop = some x.uop := by
  obtain ⟨o, ho, hx⟩ := Option.bind_eq_some_iff.1 hx
  split_ifs at hx
  obtain rfl := Option.some.inj hx
  obtain ⟨h1, h2⟩ := h.out o ho
  refine ⟨?_, ?_⟩
  · show down d.r_divsqrt_fin o.2 = _
    rw [h1, h2]
  · rw [outUop, ho]
    rfl

/-- `io.resp.fire()`, and what is taken. -/
def fired (d : FDivSqrtUnit T U R) (b : BrUpdate T) (resp_ready : Bool) (down : U → R → D) :
    Option (Bits T U D) :=
  if resp_ready then d.resp b down else none

theorem has_fired : ((d.fired b resp_ready down).any fun x => p x.uop.fields) =
    has p (if resp_ready then d.outUop.bind (advance b false) else none) := by
  unfold fired resp outUop
  cases resp_ready with
  | false => rfl
  | true =>
    cases d.r_out with
    | none => rfl
    | some o =>
      simp only [if_true, Option.bind_some, Option.map_some, advance, doomed, Bool.or_false]
      cases isKilledByBranch b o.1.br_mask <;> rfl

/-- What is divided after a cycle. -/
theorem live_next : (d.next b kill req resp_ready divsqrt_ready divsqrt_out).live =
    if divsqrt_out.isSome then none
    else match d.fires divsqrt_ready with
      | some u => advance b kill u
      | none => d.live.bind (advance b kill) := by
  unfold live next
  cases divsqrt_out with
  | some r => rfl
  | none =>
    cases d.fires divsqrt_ready with
    | some u =>
      simp only [Option.isSome_none, Bool.false_eq_true, if_false, Option.isSome_some, if_true,
        Option.getD_some, Bool.true_and, advance]
      cases doomed b kill u <;> rfl
    | none =>
      simp only [Option.isSome_none, Bool.false_eq_true, if_false, Option.getD_none]
      cases d.r_divsqrt_val <;> cases d.r_divsqrt_killed <;>
        cases hd : doomed b kill d.r_divsqrt_uop <;> simp [advance, hd]

/-- and whose result waits. -/
theorem outUop_next (h : d.Own raw) (ha : d.Answers divsqrt_out raw) :
    (d.next b kill req resp_ready divsqrt_ready divsqrt_out).outUop =
      if divsqrt_out.isSome then d.live.bind (advance b kill)
      else if resp_ready then none else d.outUop.bind (advance b kill) := by
  cases ho : divsqrt_out with
  | some r =>
    have hval := (of_answer divsqrt_ready h ha (by rw [ho]; rfl)).1
    unfold outUop live next
    rw [hval]
    cases d.r_divsqrt_killed with
    | true => rfl
    | false =>
      simp only [Bool.false_eq_true, if_false, Bool.not_false, Bool.true_and, if_true,
        Option.isSome_some, Option.bind_some, Option.map_map]
      cases advance b kill d.r_divsqrt_uop <;> rfl
  | none =>
    unfold outUop next
    cases resp_ready with
    | true => rfl
    | false =>
      cases d.r_out with
      | none => rfl
      | some o =>
        simp only [Bool.false_eq_true, if_false, Option.isSome_none, Option.bind_some,
          Option.map_some]
        cases advance b kill o.1 <;> rfl

theorem buffer_next (hready : req.isSome = true → d.ready = true) :
    (d.next b kill req resp_ready divsqrt_ready divsqrt_out).r_buffer =
      if (d.fires divsqrt_ready).isSome then none
      else if req.isSome then req.bind (advance b kill) else d.r_buffer.bind (advance b kill) := by
  unfold next
  cases (d.fires divsqrt_ready).isSome with
  | true => rfl
  | false =>
    simp only [Bool.false_eq_true, if_false]
    cases hr : req with
    | none => rfl
    | some u =>
      have hb : d.r_buffer = none := Option.isNone_iff_eq_none.1 (hready (by rw [hr]; rfl))
      rw [Option.bind_some, hb, Option.bind_none, Option.isSome_some, if_pos rfl]
      cases advance b kill u <;> rfl

/-- A division that starts leaves the buffer, which was full. -/
theorem req_of_fires (hready : req.isSome = true → d.ready = true) {u : MicroOp T U}
    (hf : d.fires divsqrt_ready = some u) : req = none := by
  by_contra hno
  have hr := hready (Option.isSome_iff_ne_none.2 hno)
  rw [ready, (of_fires hf).2.2] at hr
  cases hr

variable (b kill resp_ready divsqrt_ready down p) in
theorem holding_next_le (hready : req.isSome = true → d.ready = true) (h : d.Own raw)
    (ha : d.Answers divsqrt_out raw) :
    (d.next b kill req resp_ready divsqrt_ready divsqrt_out).holding p +
        ((d.fired b resp_ready down).any fun x => p x.uop.fields).toNat ≤
      d.holding p + (has p req).toNat := by
  have hle := toNat_has_advance_le p b
  have hnone : (has p (none : Option (MicroOp T U))).toNat = 0 := rfl
  rw [has_fired, holding, holding, live_next, outUop_next h ha, buffer_next hready]
  cases hf : d.fires divsqrt_ready with
  | some u =>
    obtain ⟨hval, hout, hbuf⟩ := of_fires hf
    have hreq := req_of_fires hready hf
    have hno : divsqrt_out.isSome = false := by
      rw [Bool.eq_false_iff]
      intro ho
      have := (of_answer divsqrt_ready h ha ho).2.2
      rw [hf] at this
      cases this
    have hlive : d.live = none := by rw [live, hval]; rfl
    have hou : d.outUop = none := by rw [outUop, hout]; rfl
    have := hle kill (some u)
    simp only [hno, hlive, hou, hbuf, hreq, Option.isSome_some, if_true, Bool.false_eq_true, if_false,
      Option.bind_none, Option.bind_some, ite_self, hnone] at this ⊢
    omega
  | none =>
    have h1 := hle kill d.r_buffer
    have h2 := hle kill d.live
    have h3 := hle kill d.outUop
    have h4 := hle false d.outUop
    have h5 := hle kill req
    have hbuf : (has p (if req.isSome then req.bind (advance b kill)
        else d.r_buffer.bind (advance b kill))).toNat ≤
          (has p d.r_buffer).toNat + (has p req).toNat := by
      split_ifs <;> omega
    simp only [Option.isSome_none, Bool.false_eq_true, if_false]
    cases ho : divsqrt_out.isSome with
    | true =>
      have hout := (of_answer divsqrt_ready h ha ho).2.1
      have hou : d.outUop = none := by rw [outUop, hout]; rfl
      simp only [if_true, hou, Option.bind_none, ite_self, hnone]
      omega
    | false =>
      simp only [Bool.false_eq_true, if_false]
      cases resp_ready <;> simp only [Bool.false_eq_true, if_false, if_true, hnone] <;> omega

variable (resp_ready divsqrt_ready down) in
theorem holding_next (hready : req.isSome = true → d.ready = true) (h : d.Own raw)
    (ha : d.Answers divsqrt_out raw)
    (hreq : ∀ u ∈ req, p u.fields = true → doomed b kill u = false)
    (hheld : ∀ o ∈ [d.r_buffer, d.live, d.outUop], ∀ u ∈ o, p u.fields = true →
      doomed b kill u = false) :
    (d.next b kill req resp_ready divsqrt_ready divsqrt_out).holding p +
        ((d.fired b resp_ready down).any fun x => p x.uop.fields).toNat =
      d.holding p + (has p req).toNat := by
  have h1 := has_advance_eq (hheld d.r_buffer (by simp))
  have h2 := has_advance_eq (hheld d.live (by simp))
  have h3 := has_advance_eq (hheld d.outUop (by simp))
  have heq' : has p (d.outUop.bind (advance b false)) = has p d.outUop :=
    has_advance_eq fun u hu hp => doomed_mono (hheld _ (by simp) u hu hp)
  have h5 := has_advance_eq hreq
  have hnone : (has p (none : Option (MicroOp T U))).toNat = 0 := rfl
  rw [has_fired, holding, holding, live_next, outUop_next h ha, buffer_next hready]
  cases hf : d.fires divsqrt_ready with
  | some u =>
    obtain ⟨hval, hout, hbuf⟩ := of_fires hf
    have hr := req_of_fires hready hf
    have hno : divsqrt_out.isSome = false := by
      rw [Bool.eq_false_iff]
      intro ho
      have := (of_answer divsqrt_ready h ha ho).2.2
      rw [hf] at this
      cases this
    have hlive : d.live = none := by rw [live, hval]; rfl
    have hou : d.outUop = none := by rw [outUop, hout]; rfl
    simp only [hno, hlive, hou, hbuf, hr, Option.isSome_some, if_true, Bool.false_eq_true, if_false,
      Option.bind_none, Option.bind_some, ite_self, hnone] at h1 ⊢
    rw [h1]
    omega
  | none =>
    have hbuf : (has p (if req.isSome then req.bind (advance b kill)
        else d.r_buffer.bind (advance b kill))).toNat =
          (has p d.r_buffer).toNat + (has p req).toNat := by
      cases hr : req with
      | none =>
        rw [Option.isSome_none, if_neg Bool.false_ne_true, h1, hnone, Nat.add_zero]
      | some u =>
        have hb : d.r_buffer = none := Option.isNone_iff_eq_none.1 (hready (by rw [hr]; rfl))
        rw [Option.isSome_some, if_pos rfl, ← hr, h5, hb, hnone, Nat.zero_add]
    simp only [Option.isSome_none, Bool.false_eq_true, if_false]
    cases ho : divsqrt_out.isSome with
    | true =>
      have hout := (of_answer divsqrt_ready h ha ho).2.1
      have hou : d.outUop = none := by rw [outUop, hout]; rfl
      simp only [if_true, hou, Option.bind_none, ite_self, hnone]
      rw [hbuf, h2]
      omega
    | false =>
      simp only [Bool.false_eq_true, if_false]
      cases resp_ready
      · simp only [Bool.false_eq_true, if_false, hnone]
        rw [hbuf, h2, h3]
        omega
      · simp only [if_true, hnone]
        rw [hbuf, h2, heq']
        omega

end FDivSqrtUnit

end BoomStop.FuncUnit
