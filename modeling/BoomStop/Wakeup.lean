/-
  No lost wakeup: from rename2 through dispatch into a slot of an issue queue,
  and through any number of moves between slots, an operand whose register has
  been woken is ready, and one that a missed load woke is not.

  * `Core`: the busy tables of the two rename pipelines in front of one queue
    (`rename-busytable.scala`, `rename-stage.scala`, `core.scala`), driven by
    any wakeups, speculative load wakeups and load misses;
  * `Holds`: the slot that holds a consumer;
  * `Src`: one view of the operands of a slot, and what a cycle does to it;
  * `no_lost_wakeup`: the result.
-/
import BoomStop.Issue

namespace BoomStop.Wakeup

open Sync Issue
open Rename (RType)

/-- A uop in rename2, with its registers in the integer (`false`) and in the
    floating-point (`true`) pipeline. -/
structure Ren2Uop (T : ℕ) where
  lrs1 : ℕ
  lrs2 : ℕ
  lrs3 : ℕ
  ldst : ℕ
  ldst_val : Bool
  dst_rtype : RType
  prs1 : Bool → ℕ
  prs2 : Bool → ℕ
  prs3 : Bool → ℕ
  pdst : Bool → ℕ
  /-- what the issue queues see besides -/
  uop : MicroOp T

variable {W n d I T : ℕ}

/-- The busy tables and a queue. -/
structure Core (n d T : ℕ) where
  busy_table : Bool → ℕ → Bool
  unit : IssueUnit n d T

/-- The inputs of a cycle. -/
structure In (W d I T : ℕ) where
  ren2_uops : Fin W → Ren2Uop T
  dis_fire : Fin W → Bool
  /-- the slot of the bundle that the dispatcher puts on a port -/
  ports : Fin d → Option (Fin W)
  wakeups : Bool → List ℕ
  spec_ld_wakeup : List ℕ
  ld_miss : Bool
  pred_wakeup : Option ℕ
  kill : Bool
  brupdate : BrUpdate T
  fu_types : Fin I → BitVec 10

/-! ## Rename2 -/

section Rename2

variable (c : Core n d T) (i : In W d I T) (float : Bool)

/-- `ren2_alloc_reqs`, which are also the `rebusy_reqs`. -/
def ren2_alloc_reqs (w : Fin W) : Bool :=
  (i.ren2_uops w).ldst_val &&
    decide ((i.ren2_uops w).dst_rtype = Rename.Stage.rtype float) && i.dis_fire w

/-- A register is allocated in the cycle. -/
def allocates (p : ℕ) : Bool :=
  (List.finRange W).any fun w =>
    ren2_alloc_reqs i float w && decide ((i.ren2_uops w).pdst float = p)

/-- `busy_table`, in the next cycle. -/
def busy_table_next (p : ℕ) : Bool :=
  c.busy_table float p && !(i.wakeups float).contains p || allocates i float p

/-- `BypassAllocations`: the youngest older slot that allocates for the
    logical register. -/
def bypassHit (w : Fin W) (lrs : ℕ) : Option (Fin W) :=
  (List.finRange W).reverse.find? fun j =>
    decide (j < w) && ren2_alloc_reqs i float j && decide ((i.ren2_uops j).ldst = lrs)

/-- The register of an operand as it leaves rename2. -/
def ren2_prs (w : Fin W) (lrs : ℕ) (prs : Bool → ℕ) : ℕ :=
  match bypassHit i float w lrs with
  | some j => (i.ren2_uops j).pdst float
  | none => prs float

/-- Its busy bit: the table is read before the write-backs of the cycle. -/
def ren2_busy (w : Fin W) (en : Bool) (lrs : ℕ) (prs : Bool → ℕ) : Bool :=
  en && c.busy_table float (prs float) || (bypassHit i float w lrs).isSome

/-- The register of an operand of class `rtype`. -/
def dis_prs (w : Fin W) (rtype : RType) (lrs : ℕ) (prs : Bool → ℕ) : ℕ :=
  ren2_prs i (rtype = .RT_FLT) w lrs prs

/-- An operand of a uop in dispatch is busy. -/
def dis_busy (w : Fin W) (rtype : RType) (lrs : ℕ) (prs : Bool → ℕ) : Bool :=
  ren2_busy c i false w (rtype = .RT_FIX) lrs prs && decide (rtype = .RT_FIX) ||
    ren2_busy c i true w (rtype = .RT_FLT) lrs prs && decide (rtype = .RT_FLT)

/-- `dis_uops`. -/
def dis_uops (w : Fin W) : MicroOp T :=
  let r := i.ren2_uops w
  { r.uop with
    prs1 := if r.uop.lrs1_rtype = .RT_FLT ∨ r.uop.lrs1_rtype = .RT_FIX then
      dis_prs i w r.uop.lrs1_rtype r.lrs1 r.prs1 else r.lrs1
    prs2 := dis_prs i w r.uop.lrs2_rtype r.lrs2 r.prs2
    prs3 := ren2_prs i true w r.lrs3 r.prs3
    prs1_busy := dis_busy c i w r.uop.lrs1_rtype r.lrs1 r.prs1
    prs2_busy := dis_busy c i w r.uop.lrs2_rtype r.lrs2 r.prs2
    prs3_busy := ren2_busy c i true w r.uop.frs3_en r.lrs3 r.prs3 && r.uop.frs3_en }

end Rename2

/-! ## The core around a queue -/

/-- The queue wakes on the registers of its own pipeline; the floating-point
    queue has no speculative wakeups. -/
def inFloat (iqType : IqType) : Bool := iqType = .FP

/-- The inputs of the queue. -/
def queueIn (iqType : IqType) (c : Core n d T) (i : In W d I T) : IssueUnit.In d I T where
  dis_uops q := ((i.ports q).filter i.dis_fire).map (dis_uops c i)
  bcast :=
    { brupdate := i.brupdate
      kill := i.kill
      ldspec_miss := !inFloat iqType && i.ld_miss
      wakeup_ports := i.wakeups (inFloat iqType)
      pred_wakeup_port := if iqType = .INT then i.pred_wakeup else none
      spec_ld_wakeup := if inFloat iqType then [] else i.spec_ld_wakeup }
  fu_types := i.fu_types

/-- What the LSU promises, and what the slots assert. -/
structure Ok (iqType : IqType) (c : Core n d T) (i : In W d I T) : Prop where
  /-- a load is announced before its response writes the register -/
  spec_busy : ∀ p ∈ i.spec_ld_wakeup, c.busy_table false p = true ∧ p ∉ i.wakeups false
  /-- and not in two cycles in a row: `assert (!next_p1_poisoned)` -/
  spec_once : ∀ k, let b := queueIn iqType c i
    let s := (c.unit.slots k).incoming (c.unit.in_uop b iqType k)
    (specHit b.bcast s.slot_uop.prs1 s.slot_uop.lrs1_rtype = true → s.p1_poisoned = false) ∧
    (specHit b.bcast s.slot_uop.prs2 s.slot_uop.lrs2_rtype = true → s.p2_poisoned = false)

/-- The core around a queue, from reset. -/
def core (iqType : IqType) : Machine (Core n d T) (In W d I T) where
  start c := (∀ float p, c.busy_table float p = false) ∧
    ∀ k, (c.unit.slots k).state = .s_invalid
  ok := Ok iqType
  next c i :=
    { busy_table := busy_table_next c i
      unit := c.unit.next (queueIn iqType c i) iqType }

/-! ## Operands -/

/-- The source operands. -/
inductive Src
  | rs1 | rs2 | rs3

namespace Src

variable (o : Src)

/-- The register of the operand. -/
def prs (u : MicroOp T) : ℕ :=
  match o with | .rs1 => u.prs1 | .rs2 => u.prs2 | .rs3 => u.prs3

/-- The class of the operand that is not yet issued. -/
def rtype (u : MicroOp T) : RType :=
  match o with
  | .rs1 => u.lrs1_rtype
  | .rs2 => u.lrs2_rtype
  | .rs3 => if u.frs3_en then .RT_FLT else .RT_X

/-- The operand is busy. -/
def busy (u : MicroOp T) : Bool :=
  match o with | .rs1 => u.prs1_busy | .rs2 => u.prs2_busy | .rs3 => u.prs3_busy

/-- The ready bit of the operand. -/
def ready (s : Slot T) : Bool :=
  match o with | .rs1 => s.p1 | .rs2 => s.p2 | .rs3 => s.p3

/-- The operand is that of a load that may miss. -/
def poisoned (s : Slot T) : Bool :=
  match o with | .rs1 => s.p1_poisoned | .rs2 => s.p2_poisoned | .rs3 => false

end Src

section Slot

variable {o : Src} {s : Slot T} {x : Bcast T} {grant clear : Bool} {iu : Option (MicroOp T)}

theorem ready_next : o.ready (s.next x grant clear iu) =
    readyNext x (o.ready (s.incoming iu)) (o.poisoned (s.incoming iu))
      (o.prs (s.incoming iu).slot_uop) (o.rtype (s.incoming iu).slot_uop) := by
  cases o with
  | rs1 => rfl
  | rs2 => rfl
  | rs3 =>
    have hx : ∀ u : MicroOp T, specHit x u.prs3 (Src.rs3.rtype u) = false := by
      intro u
      simp only [specHit, Src.rtype]
      split <;> simp
    simp only [readyNext, Src.prs, hx, Src.poisoned]
    simp [Slot.next, Src.ready]

theorem poisoned_next : o.poisoned (s.next x grant clear iu) =
    specHit x (o.prs (s.incoming iu).slot_uop) (o.rtype (s.incoming iu).slot_uop) := by
  cases o with
  | rs1 => rfl
  | rs2 => rfl
  | rs3 =>
    simp only [Src.poisoned, specHit, Src.rtype]
    split <;> simp

/-- Issuing a part takes nothing but the class of its operand away. -/
theorem prs_next_slot_uop : o.prs (s.next_slot_uop x grant) = o.prs s.slot_uop := by
  cases o <;> rfl

theorem rtype_next_slot_uop : o.rtype (s.next_slot_uop x grant) = o.rtype s.slot_uop ∨
    o.rtype (s.next_slot_uop x grant) = .RT_X := by
  cases o with
  | rs1 =>
    simp only [Src.rtype, Slot.next_slot_uop]
    split <;> simp
  | rs2 =>
    simp only [Src.rtype, Slot.next_slot_uop]
    split <;> simp
  | rs3 => exact .inl rfl

/-- The operand of a slot after a cycle is the one it took over, if that is not
    issued. -/
theorem operand_next : o.prs (s.next x grant clear iu).slot_uop = o.prs (s.incoming iu).slot_uop ∧
    (o.rtype (s.next x grant clear iu).slot_uop = o.rtype (s.incoming iu).slot_uop ∨
      o.rtype (s.next x grant clear iu).slot_uop = .RT_X) := by
  cases iu with
  | none => exact ⟨prs_next_slot_uop, rtype_next_slot_uop⟩
  | some u => exact ⟨rfl, .inl rfl⟩

/-- The operand in a slot and in the one it moves to, before the wakeups of the
    cycle. -/
structure Carries (o : Src) (s c : Slot T) : Prop where
  ready : o.ready c = o.ready s
  poisoned : o.poisoned c = o.poisoned s
  prs : o.prs c.slot_uop = o.prs s.slot_uop
  rtype : o.rtype c.slot_uop = o.rtype s.slot_uop ∨ o.rtype c.slot_uop = .RT_X

theorem carries_refl : Carries o s s := ⟨rfl, rfl, rfl, .inl rfl⟩

theorem carries_out_uop (o : Src) (s s' : Slot T) (x : Bcast T) (grant : Bool) :
    Carries o s' (s.incoming (some (s'.out_uop x grant))) := by
  constructor
  · cases o <;> simp [Src.ready, Slot.incoming, Slot.out_uop]
  · cases o <;> rfl
  · cases o <;> rfl
  · have hr : o.rtype (s.incoming (some (s'.out_uop x grant))).slot_uop =
        o.rtype (s'.next_slot_uop x grant) := by
      cases o <;> rfl
    rw [hr]
    exact rtype_next_slot_uop

/-- An operand on register `p` is ready unless `p` is busy, and waits on a load
    only while `p` is busy. -/
structure Tracks (o : Src) (busy : ℕ → Bool) (p : ℕ) (s : Slot T) : Prop where
  ready : busy p = false → o.ready s = true
  poisoned : o.poisoned s = true → busy p = true

theorem tracks_of_busy {busy : ℕ → Bool} {p : ℕ} (h : busy p = true) : Tracks o busy p s :=
  ⟨fun hb => absurd (hb.symm.trans h) (by simp), fun _ => h⟩

end Slot

/-! ## Dispatch -/

section Dispatch

variable {iqType : IqType} {c : Core n d T} {i : In W d I T} {o : Src} {w : Fin W}

theorem prs_dispatchUop (u : MicroOp T) : o.prs (dispatchUop iqType u) = o.prs u := by
  cases iqType <;> cases o <;> simp only [dispatchUop, Src.prs] <;> split_ifs <;> rfl

/-- The operands that a queue waits for keep their busy bit. -/
theorem busy_dispatchUop {u : MicroOp T}
    (h : o.rtype (dispatchUop iqType u) = Rename.Stage.rtype (inFloat iqType)) :
    o.rtype u = Rename.Stage.rtype (inFloat iqType) ∧
      o.busy (dispatchUop iqType u) = o.busy u := by
  cases iqType <;> cases o <;>
    simp only [dispatchUop, Src.rtype, Src.busy, inFloat, Rename.Stage.rtype] at h ⊢ <;>
    split_ifs at h ⊢ <;> simp_all

theorem dis_uops_operand (h : o.rtype (dis_uops c i w) = Rename.Stage.rtype (inFloat iqType)) :
    ∃ lrs prs, o.prs (dis_uops c i w) = ren2_prs i (inFloat iqType) w lrs prs ∧
      o.busy (dis_uops c i w) = ren2_busy c i (inFloat iqType) w true lrs prs := by
  have hbusy : ∀ float lrs prs, dis_busy c i w (Rename.Stage.rtype float) lrs prs =
      ren2_busy c i float w true lrs prs := by
    intro float lrs prs
    cases float <;> simp [dis_busy, Rename.Stage.rtype]
  have hprs : ∀ float lrs prs, dis_prs i w (Rename.Stage.rtype float) lrs prs =
      ren2_prs i float w lrs prs := by
    intro float lrs prs
    cases float <;> rfl
  cases o with
  | rs1 =>
    have hr : (i.ren2_uops w).uop.lrs1_rtype = Rename.Stage.rtype (inFloat iqType) := h
    refine ⟨(i.ren2_uops w).lrs1, (i.ren2_uops w).prs1, ?_, ?_⟩
    · rw [← hprs, ← hr]
      refine if_pos ?_
      rw [hr]
      cases inFloat iqType
      · exact .inr rfl
      · exact .inl rfl
    · rw [← hbusy, ← hr]
      rfl
  | rs2 =>
    have hr : (i.ren2_uops w).uop.lrs2_rtype = Rename.Stage.rtype (inFloat iqType) := h
    refine ⟨(i.ren2_uops w).lrs2, (i.ren2_uops w).prs2, ?_, ?_⟩
    · rw [← hprs, ← hr]
      rfl
    · rw [← hbusy, ← hr]
      rfl
  | rs3 =>
    -- only the floating-point pipeline has a third operand
    have hr : (if (i.ren2_uops w).uop.frs3_en then RType.RT_FLT else .RT_X) =
        Rename.Stage.rtype (inFloat iqType) := h
    refine ⟨(i.ren2_uops w).lrs3, (i.ren2_uops w).prs3, ?_⟩
    cases hf : inFloat iqType with
    | false =>
      rw [hf] at hr
      split at hr <;> exact absurd hr (by simp [Rename.Stage.rtype])
    | true =>
      cases hen : (i.ren2_uops w).uop.frs3_en with
      | false => simp [hf, hen, Rename.Stage.rtype] at hr
      | true =>
        refine ⟨rfl, ?_⟩
        simp [Src.busy, dis_uops, hen]

/-- An operand leaves rename2 busy if its register is, unless that is allocated
    in the same bundle. -/
theorem ren2_operand (float : Bool) (lrs : ℕ) (prs : Bool → ℕ) :
    allocates i float (ren2_prs i float w lrs prs) = true ∨
      ren2_busy c i float w true lrs prs = c.busy_table float (ren2_prs i float w lrs prs) := by
  unfold ren2_prs ren2_busy
  cases hit : bypassHit i float w lrs with
  | none => simp
  | some j =>
    refine .inl (List.any_eq_true.2 ⟨j, List.mem_finRange j, ?_⟩)
    have hj := List.find?_some hit
    simp only [Bool.and_eq_true] at hj
    simp [hj.1.2]

end Dispatch

section Cycle

variable {iqType : IqType} {c : Core n d T} {i : In W d I T} {o : Src} {s : Slot T} {p : ℕ}

/-- A speculative wakeup hits only operands whose register is busy and not
    woken in the cycle. -/
theorem busy_of_specHit (ok : Ok iqType c i) {rtype : RType}
    (h : specHit (queueIn iqType c i).bcast p rtype = true) :
    inFloat iqType = false ∧ p ∈ i.spec_ld_wakeup ∧ rtype = .RT_FIX ∧
      busy_table_next c i (inFloat iqType) p = true := by
  simp only [specHit, queueIn, Bool.and_eq_true, decide_eq_true_eq] at h
  obtain ⟨hp, hr⟩ := h
  cases hf : inFloat iqType with
  | true => simp [hf] at hp
  | false =>
    simp only [hf, Bool.false_eq_true, if_false, List.contains_iff_mem] at hp
    obtain ⟨hb, hw⟩ := ok.spec_busy p hp
    refine ⟨rfl, hp, hr, ?_⟩
    simp [busy_table_next, hb, hw]

theorem tracks_next (ok : Ok iqType c i) {grant clear : Bool} {iu : Option (MicroOp T)}
    (hp : o.prs (s.incoming iu).slot_uop = p)
    (h : Tracks o (c.busy_table (inFloat iqType)) p (s.incoming iu)) :
    Tracks o (busy_table_next c i (inFloat iqType)) p
      (s.next (queueIn iqType c i).bcast grant clear iu) := by
  constructor
  · intro hb
    simp only [busy_table_next, Bool.or_eq_false_iff, Bool.and_eq_false_iff] at hb
    rw [ready_next, hp]
    simp only [readyNext, Bool.or_eq_true, Bool.and_eq_true, Bool.not_eq_true']
    rcases hb.1 with hfree | hwake
    · refine .inr ⟨h.ready hfree, ?_⟩
      cases hpois : o.poisoned (s.incoming iu) with
      | false => rw [Bool.and_false]
      | true => exact absurd ((h.poisoned hpois).symm.trans hfree) (by simp)
    · refine .inl (.inr ?_)
      rw [Bool.not_eq_false'] at hwake
      exact hwake
  · intro hpois
    have hit := poisoned_next.symm.trans hpois
    rw [hp] at hit
    exact (busy_of_specHit ok hit).2.2.2

end Cycle

/-! ## The consumer -/

section Consumer

variable {iqType : IqType} (r : (core (W := W) (n := n) (d := d) (I := I) (T := T) iqType).Run)

/-- Slot `k` after cycle `t`. -/
def slotAt (t : ℕ) (k : Fin n) : Slot T := (r.state t).unit.slots k

/-- What slot `k` takes over in cycle `t`, and from where. -/
def inUop (t : ℕ) (k : Fin n) : Option (MicroOp T) :=
  (r.state t).unit.in_uop (queueIn iqType (r.state t) (r.input t)) iqType k

/-- The uop that comes into a slot. -/
def inIdx (t : ℕ) (k : Fin n) : Option ℕ :=
  (r.state t).unit.in_idx (queueIn iqType (r.state t) (r.input t)) k

/-- The uop that leaves rename2 in slot `w` of the bundle, as the queue takes
    it. -/
def consumer (t₀ : ℕ) (w : Fin W) : MicroOp T :=
  dispatchUop iqType (dis_uops (r.state t₀) (r.input t₀) w)

/-- Slot `k` holds, before cycle `t`, the uop that left rename2 in cycle `t₀`
    and slot `w`: it came in by a dispatch port, and has stayed or moved since. -/
inductive Holds (t₀ : ℕ) (w : Fin W) : ℕ → Fin n → Prop
  | dispatch {q : Fin d} {k : Fin n} : (r.input t₀).ports q = some w →
      (r.input t₀).dis_fire w = true → inIdx r t₀ k = some (n + q) →
      (inUop r t₀ k).isSome = true → (slotAt r (t₀ + 1) k).is_valid = true → Holds t₀ w (t₀ + 1) k
  | stay {t : ℕ} {k : Fin n} : Holds t₀ w t k → inUop r t k = none →
      (slotAt r (t + 1) k).is_valid = true → Holds t₀ w (t + 1) k
  | move {t : ℕ} {j k : Fin n} : Holds t₀ w t j → inIdx r t k = some j.val →
      (inUop r t k).isSome = true → (slotAt r (t + 1) k).is_valid = true → Holds t₀ w (t + 1) k

variable {r} {t₀ t : ℕ} {w : Fin W} {o : Src} {k : Fin n}

theorem slotAt_succ (r : (core (W := W) (n := n) (d := d) (I := I) (T := T) iqType).Run) (t : ℕ)
    (k : Fin n) : ∃ grant clear, slotAt r (t + 1) k =
    (slotAt r t k).next (queueIn iqType (r.state t) (r.input t)).bcast grant clear (inUop r t k) := by
  let q := queueIn iqType (r.state t) (r.input t)
  refine ⟨(r.state t).unit.grant q k, (r.state t).unit.clear q k, ?_⟩
  rw [slotAt, r.next]
  rfl

theorem busy_succ (float : Bool) (p : ℕ) : (r.state (t + 1)).busy_table float p =
    busy_table_next (r.state t) (r.input t) float p := by
  rw [r.next]
  rfl

theorem inUop_move {j : Fin n} (hj : inIdx r t k = some j.val) (hs : (inUop r t k).isSome = true) :
    ∃ x grant, inUop r t k = some ((slotAt r t j).out_uop x grant) := by
  unfold inUop IssueUnit.in_uop at hs ⊢
  rw [inIdx] at hj
  rw [hj, Option.bind_some] at hs ⊢
  simp only [IssueUnit.entry, j.isLt, dif_pos, Fin.eta] at hs ⊢
  split at hs
  · rename_i hv
    rw [if_pos hv]
    exact ⟨_, _, rfl⟩
  · exact absurd hs (by simp)

theorem inUop_dispatch {q : Fin d} (hp : (r.input t).ports q = some w)
    (hf : (r.input t).dis_fire w = true) (hj : inIdx r t k = some (n + q))
    (hs : (inUop r t k).isSome = true) : inUop r t k = some (consumer r t w) := by
  unfold inUop IssueUnit.in_uop at hs ⊢
  rw [inIdx] at hj
  rw [hj, Option.bind_some] at hs ⊢
  have hdis : (queueIn iqType (r.state t) (r.input t)).dis_uops q =
      some (dis_uops (r.state t) (r.input t) w) := by
    simp [queueIn, hp, hf, Option.filter]
  simp only [IssueUnit.entry, Nat.add_sub_cancel_left, Nat.not_lt.2 (Nat.le_add_right n q),
    dif_neg, not_false_eq_true, q.isLt, dif_pos, Fin.eta, hdis] at hs ⊢
  cases hu : (some (dis_uops (r.state t) (r.input t) w)).filter
      fun u => !u.exception && !u.is_fence && !u.is_fencei with
  | none =>
    rw [hu] at hs
    exact absurd hs (by simp)
  | some u =>
    rw [← Option.eq_some_of_filter_eq_some hu]
    rfl

/-- The consumer arrives with its register tracked. -/
theorem tracks_dispatch (ok : Ok iqType (r.state t) (r.input t))
    (ho : o.rtype (consumer r t w) = Rename.Stage.rtype (inFloat iqType)) {s : Slot T}
    {grant clear : Bool} : Tracks o (busy_table_next (r.state t) (r.input t) (inFloat iqType))
      (o.prs (consumer r t w)) (s.next (queueIn iqType (r.state t) (r.input t)).bcast grant clear
        (some (consumer r t w))) := by
  obtain ⟨ho', hbusy⟩ := busy_dispatchUop ho
  obtain ⟨lrs, prs, hp, hb⟩ := dis_uops_operand ho'
  have hprs : o.prs (consumer r t w) = ren2_prs (r.input t) (inFloat iqType) w lrs prs :=
    (prs_dispatchUop _).trans hp
  rcases ren2_operand (c := r.state t) (inFloat iqType) lrs prs with halloc | hread
  · refine tracks_of_busy ?_
    rw [hprs, busy_table_next, halloc, Bool.or_true]
  · have hin : (s.incoming (some (consumer r t w))).slot_uop = consumer r t w := rfl
    refine tracks_next ok (by rw [hin]) ⟨fun hfree => ?_, fun hpois => ?_⟩
    · have hready : o.ready (s.incoming (some (consumer r t w))) = !o.busy (consumer r t w) := by
        cases o <;> rfl
      rw [hready, consumer, hbusy, hb, hread, ← hprs, hfree]
      rfl
    · have hclean : o.poisoned (s.incoming (some (consumer r t w))) = false := by
        cases o <;> cases iqType <;> simp only [consumer, dispatchUop, Slot.incoming, Src.poisoned]
          <;> split_ifs <;> rfl
      exact absurd (hpois.symm.trans hclean) (by simp)

/-- The slot that holds the consumer takes it over from the one that did, or from
    dispatch. -/
theorem holds_prev (o : Src) (h : Holds r t₀ w (t + 1) k) :
    (t₀ = t ∧ inUop r t k = some (consumer r t w)) ∨ ∃ j, Holds r t₀ w t j ∧
      Carries o (slotAt r t j) ((slotAt r t k).incoming (inUop r t k)) := by
  cases h with
  | dispatch hp hf hj hs _ => exact .inl ⟨rfl, inUop_dispatch hp hf hj hs⟩
  | stay h hin _ =>
    refine .inr ⟨k, h, ?_⟩
    rw [hin]
    exact carries_refl
  | @move _ j _ h hj hs _ =>
    obtain ⟨x, grant, hin⟩ := inUop_move hj hs
    refine .inr ⟨j, h, ?_⟩
    rw [hin]
    exact carries_out_uop o _ _ x grant

/-- What is true of the slot that holds the consumer. -/
structure Held (iqType : IqType) (c : Core n d T) (u : MicroOp T) (o : Src) (s : Slot T) : Prop where
  prs : o.prs s.slot_uop = o.prs u
  /-- an operand that is issued has no class any more -/
  rtype : o.rtype s.slot_uop = o.rtype u ∨ o.rtype s.slot_uop = .RT_X
  tracks : Tracks o (c.busy_table (inFloat iqType)) (o.prs u) s

theorem operand_succ (o : Src) :
    o.prs (slotAt r (t + 1) k).slot_uop = o.prs ((slotAt r t k).incoming (inUop r t k)).slot_uop ∧
    (o.rtype (slotAt r (t + 1) k).slot_uop =
        o.rtype ((slotAt r t k).incoming (inUop r t k)).slot_uop ∨
      o.rtype (slotAt r (t + 1) k).slot_uop = .RT_X) := by
  obtain ⟨grant, clear, hnext⟩ := slotAt_succ r t k
  rw [hnext]
  exact operand_next

theorem held_succ (o : Src) {u : MicroOp T}
    (hprs : o.prs ((slotAt r t k).incoming (inUop r t k)).slot_uop = o.prs u)
    (hrtype : o.rtype ((slotAt r t k).incoming (inUop r t k)).slot_uop = o.rtype u ∨
      o.rtype ((slotAt r t k).incoming (inUop r t k)).slot_uop = .RT_X)
    (ht : Tracks o ((r.state (t + 1)).busy_table (inFloat iqType)) (o.prs u) (slotAt r (t + 1) k)) :
    Held iqType (r.state (t + 1)) u o (slotAt r (t + 1) k) := by
  obtain ⟨hp, hr⟩ := operand_succ o (r := r) (t := t) (k := k)
  refine ⟨hp.trans hprs, ?_, ht⟩
  rcases hr with hsame | hx
  · rwa [hsame]
  · exact .inr hx

theorem held (ho : o.rtype (consumer r t₀ w) = Rename.Stage.rtype (inFloat iqType))
    (h : Holds r t₀ w t k) : Held iqType (r.state t) (consumer r t₀ w) o (slotAt r t k) := by
  induction t generalizing k with
  | zero => cases h
  | succ t ih =>
    obtain ⟨grant, clear, hnext⟩ := slotAt_succ r t k
    rcases holds_prev o h with ⟨rfl, hin⟩ | ⟨j, hj, hc⟩
    · refine held_succ o (by rw [hin]; rfl) (.inl (by rw [hin]; rfl)) ?_
      rw [hnext, hin, funext (busy_succ _)]
      exact tracks_dispatch (r.ok t₀) ho
    · have hh := ih hj
      have hprs := hc.prs.trans hh.prs
      refine held_succ o hprs ?_ ?_
      · rcases hc.rtype with hsame | hx
        · rw [hsame]
          exact hh.rtype
        · exact .inr hx
      · rw [hnext, funext (busy_succ _)]
        refine tracks_next (r.ok t) hprs ⟨?_, ?_⟩
        · rw [hc.ready]
          exact hh.tracks.ready
        · rw [hc.poisoned]
          exact hh.tracks.poisoned

/-- A register that was woken stays so until it is allocated again. -/
theorem busy_of_woken {float : Bool} {p tw : ℕ} (hw : p ∈ (r.input tw).wakeups float) (hlt : tw < t)
    (hna : ∀ c, tw ≤ c → c < t → allocates (r.input c) float p = false) :
    (r.state t).busy_table float p = false := by
  induction t, hlt using Nat.le_induction with
  | base =>
    rw [busy_succ, busy_table_next, hna tw le_rfl (Nat.lt_succ_self tw), Bool.or_false,
      List.contains_iff_mem.2 hw]
    simp
  | succ t hlt ih =>
    rw [busy_succ, busy_table_next, hna t (by omega) (Nat.lt_succ_self t),
      ih fun c hc hct => hna c hc (by omega)]
    rfl

/-- An operand on an announced register that is not yet issued is poisoned in
    the next cycle. -/
theorem poisoned_succ (hf : inFloat iqType = false)
    (hp : o.prs (slotAt r (t + 1) k).slot_uop ∈ (r.input t).spec_ld_wakeup)
    (hr : o.rtype (slotAt r (t + 1) k).slot_uop = .RT_FIX) :
    o.poisoned (slotAt r (t + 1) k) = true := by
  obtain ⟨hprs, hrt⟩ := operand_succ o (r := r) (t := t) (k := k)
  obtain ⟨grant, clear, hnext⟩ := slotAt_succ r t k
  have hinc : o.rtype ((slotAt r t k).incoming (inUop r t k)).slot_uop = .RT_FIX := by
    rcases hrt with hsame | hx
    · exact hsame.symm.trans hr
    · exact absurd (hr.symm.trans hx) (by simp)
  rw [hnext, poisoned_next, ← hprs, hinc]
  simp [specHit, queueIn, hf, hp]

/-- A poisoned operand whose load misses is not ready in the next cycle, unless
    its register is woken. -/
theorem ready_of_miss (hf : inFloat iqType = false) (hm : (r.input t).ld_miss = true)
    (hpois : o.poisoned ((slotAt r t k).incoming (inUop r t k)) = true)
    (hw : o.prs ((slotAt r t k).incoming (inUop r t k)).slot_uop ∉ (r.input t).wakeups false) :
    o.ready (slotAt r (t + 1) k) = false := by
  obtain ⟨grant, clear, hnext⟩ := slotAt_succ r t k
  have honce : specHit (queueIn iqType (r.state t) (r.input t)).bcast
      (o.prs ((slotAt r t k).incoming (inUop r t k)).slot_uop)
      (o.rtype ((slotAt r t k).incoming (inUop r t k)).slot_uop) = false := by
    have hk := (r.ok t).spec_once k
    cases o with
    | rs1 => exact Bool.eq_false_iff.2 fun hit => absurd (hpois.symm.trans (hk.1 hit)) (by simp)
    | rs2 => exact Bool.eq_false_iff.2 fun hit => absurd (hpois.symm.trans (hk.2 hit)) (by simp)
    | rs3 => exact absurd hpois (by simp [Src.poisoned])
  rw [hnext, ready_next, readyNext, honce, hpois]
  simp [queueIn, hf, hm, hw]

/-- **No lost wakeup.**  Let a uop leave rename2 in cycle `t₀` with an operand
    that its queue waits for.  Once the register of the operand has been woken,
    and until it is allocated again, the operand is ready in whatever slot holds
    the uop.  If a load that announced the register misses in the next cycle,
    and the register is not woken then, the operand is not ready, if it is
    still to be issued. -/
theorem no_lost_wakeup (ho : o.rtype (consumer r t₀ w) = Rename.Stage.rtype (inFloat iqType)) :
    (∀ tw t k, o.prs (consumer r t₀ w) ∈ (r.input tw).wakeups (inFloat iqType) → tw < t →
      (∀ c, tw ≤ c → c < t →
        allocates (r.input c) (inFloat iqType) (o.prs (consumer r t₀ w)) = false) →
      Holds r t₀ w t k → o.ready (slotAt r t k) = true) ∧
    (∀ t k, t₀ ≤ t → o.prs (consumer r t₀ w) ∈ (r.input t).spec_ld_wakeup →
      (r.input (t + 1)).ld_miss = true →
      o.prs (consumer r t₀ w) ∉ (r.input (t + 1)).wakeups (inFloat iqType) →
      Holds r t₀ w (t + 2) k → o.rtype (slotAt r (t + 2) k).slot_uop = .RT_FIX →
      o.ready (slotAt r (t + 2) k) = false) := by
  refine ⟨fun tw t k hw hlt hna h => (held ho h).tracks.ready (busy_of_woken hw hlt hna),
    fun t k hle hp hm hw h hr => ?_⟩
  have hf : inFloat iqType = false := by
    cases hf : inFloat iqType with
    | false => rfl
    | true =>
      rcases (held ho h).rtype with hsame | hx
      · rw [hr, ho, hf] at hsame
        exact absurd hsame (by simp [Rename.Stage.rtype])
      · exact absurd (hr.symm.trans hx) (by simp)
  rw [hf] at hw
  rcases holds_prev o h with ⟨rfl, -⟩ | ⟨j, hj, hc⟩
  · omega
  · have hprs := (held ho hj).prs
    have hinc : o.rtype ((slotAt r (t + 1) k).incoming (inUop r (t + 1) k)).slot_uop = .RT_FIX := by
      rcases (operand_succ o).2 with hsame | hx
      · exact hsame.symm.trans hr
      · exact absurd (hr.symm.trans hx) (by simp)
    have hjr : o.rtype (slotAt r (t + 1) j).slot_uop = .RT_FIX := by
      rcases hc.rtype with hsame | hx
      · exact hsame.symm.trans hinc
      · exact absurd (hinc.symm.trans hx) (by simp)
    refine ready_of_miss hf hm ?_ ?_
    · rw [hc.poisoned]
      exact poisoned_succ hf (hprs ▸ hp) hjr
    · rw [hc.prs, hprs]
      exact hw

end Consumer

/-! ## A load and its user -/

section LoadUse

/-- A uop of one source register. -/
def userUop : MicroOp 1 where
  uopc := .other 0
  fu_code := 1
  rob_idx := 1
  lrs1_rtype := .RT_FIX
  lrs2_rtype := .RT_X
  frs3_en := false
  prs1 := 0
  prs2 := 0
  prs3 := 0
  ppred := 0
  prs1_busy := false
  prs2_busy := false
  prs3_busy := false
  ppred_busy := false
  iw_p1_poisoned := false
  iw_p2_poisoned := false
  iw_state := .s_invalid
  br_mask _ := false
  exception := false
  is_fence := false
  is_fencei := false

/-- Two empty slots. -/
def resetCore : Core 2 1 1 where
  busy_table _ _ := false
  unit :=
    { slots := fun _ => ⟨.s_invalid, false, false, false, false, false, false, userUop⟩
      ready := fun _ => true }

/-- Nothing happens. -/
def idle : In 2 1 1 1 where
  ren2_uops _ := ⟨0, 0, 0, 0, false, .RT_X, fun _ => 0, fun _ => 0, fun _ => 0, fun _ => 0, userUop⟩
  dis_fire _ := false
  ports _ := none
  wakeups _ := []
  spec_ld_wakeup := []
  ld_miss := false
  pred_wakeup := none
  kill := false
  brupdate := ⟨fun _ => false, fun _ => false⟩
  fu_types _ := 0

/-- A load of `x3` into register `7` and its user leave rename2 together; the
    load is announced while the user moves to slot `0`, misses, and is answered
    later. -/
def loadUse : ℕ → In 2 1 1 1
  | 0 =>
    { idle with
      ren2_uops := fun w =>
        if w = 0 then
          ⟨1, 0, 0, 3, true, .RT_FIX, fun _ => 1, fun _ => 0, fun _ => 0, fun _ => 7, userUop⟩
        else
          ⟨3, 0, 0, 4, true, .RT_FIX, fun _ => 2, fun _ => 0, fun _ => 0, fun _ => 8, userUop⟩
      dis_fire := fun _ => true
      ports := fun _ => some 1 }
  | 1 => { idle with spec_ld_wakeup := [7] }
  | 2 => { idle with ld_miss := true }
  | 3 => { idle with wakeups := fun _ => [7] }
  | _ => idle

/-- The run of `loadUse`. -/
def loadUseRun : (core (W := 2) (n := 2) (d := 1) (I := 1) (T := 1) .INT).Run :=
  .of resetCore loadUse ⟨fun _ _ => rfl, fun _ => rfl⟩ fun t => by
    have quiet : ∀ (c : Core 2 1 1) (i : In 2 1 1 1), i.spec_ld_wakeup = [] → Ok .INT c i :=
      fun c i h => ⟨by simp [h], fun k => by simp [specHit, queueIn, h]⟩
    rcases t with _ | _ | _ | _ | t
    · exact quiet _ _ rfl
    · exact ⟨by decide, by decide⟩
    · exact quiet _ _ rfl
    · exact quiet _ _ rfl
    · exact quiet _ _ rfl

theorem no_lost_wakeup_loadUse : Src.rs1.ready (slotAt loadUseRun 3 0) = false ∧
    Src.rs1.ready (slotAt loadUseRun 4 0) = true := by
  have h1 : Holds loadUseRun 0 1 1 1 := .dispatch (q := 0) rfl rfl rfl rfl rfl
  have h2 : Holds loadUseRun 0 1 2 0 := .move h1 rfl rfl rfl
  have h3 : Holds loadUseRun 0 1 3 0 := .stay h2 rfl rfl
  have h4 : Holds loadUseRun 0 1 4 0 := .stay h3 rfl rfl
  obtain ⟨woken, missed⟩ := @no_lost_wakeup _ _ _ _ _ _ loadUseRun 0 1 .rs1 rfl
  refine ⟨missed 1 0 (by decide) (by decide) rfl (by decide) h3 rfl,
    woken 3 4 0 (by decide) (by decide) (fun c hc hct => ?_) h4⟩
  obtain rfl : c = 3 := by omega
  decide

end LoadUse

end BoomStop.Wakeup
