/-
  The collapsing issue queue over whole runs: beside the queue stands the list
  of the uops that its slots have not given up, in the order of their dispatch.

  * `Entry`, `MicroOp.left`: a uop that was dispatched, and what is left of it
    after a cycle;
  * `collapsing`: the queue with that list, where dispatch presents a uop only
    at a port that is ready;
  * `shamts_oh_eq`, `in_idx_eq`: the one-hot shift amounts are the moves of
    `Collapse`;
  * `Sys.inv_reach`: the valid slots hold the list;
  * `orderly`: no two uops ever meet.
-/
import BoomStop.Issue
import BoomStop.Lib.Collapse
import BoomStop.Lib.Machine

namespace BoomStop.Issue

open Sync

variable {n d I T : ℕ}

/-! ## What the slots hold -/

/-- What a slot gives up of its uop in a cycle. -/
inductive Taken
  | nothing | address | data | all
  deriving DecidableEq

/-- What is left of a uop after a cycle: nothing of one that is killed or given
    up whole, and of a store the part that is not yet sent. -/
def MicroOp.left (b : BrUpdate T) (u : MicroOp T) (t : Taken) : Option (MicroOp T) :=
  if isKilledByBranch b u.br_mask then none
  else
    let u := { u with br_mask := getNewBrMask b u.br_mask }
    match t with
    | .nothing => some u
    | .address => some { u with iw_state := .s_valid_1, uopc := .uopSTD, lrs1_rtype := .RT_X }
    | .data => some { u with iw_state := .s_valid_1, lrs2_rtype := .RT_X }
    | .all => none

/-- A uop without the busy and poison bits, which the wakeup registers of its
    slot stand for. -/
def MicroOp.settled (u : MicroOp T) : MicroOp T :=
  { u with
    prs1_busy := false
    prs2_busy := false
    prs3_busy := false
    ppred_busy := false
    iw_p1_poisoned := false
    iw_p2_poisoned := false }

/-- A uop that waits, if it does. -/
def MicroOp.pending (u : MicroOp T) : Option (MicroOp T) :=
  if u.iw_state = .s_invalid then none else some u.settled

namespace Slot

variable (s : Slot T) (x : Bcast T) (grant : Bool)

/-- What a slot holds. -/
def held : Option (MicroOp T) :=
  if s.state = .s_invalid then none else some { s.slot_uop with iw_state := s.state }.settled

/-- What the slot gives up for a grant: all that it holds, or the half of a store
    whose operand is there; nothing when a load missed on which it waits. -/
def taken : Taken :=
  if s.may_vacate grant && !s.squash_grant x then .all
  else if s.splits x grant then if s.p1 then .address else .data
  else .nothing

end Slot

namespace IssueUnit

variable (q : IssueUnit n d T) (i : In d I T)

/-- The uop in a slot, if there is such a slot. -/
def heldAt (k : ℕ) : Option (MicroOp T) := if h : k < n then (q.slots ⟨k, h⟩).held else none

/-- The contents of the valid slots, in slot order. -/
def held : List (MicroOp T) := (List.range n).filterMap q.heldAt

/-- What each valid slot gives up, in slot order. -/
def taken : List Taken :=
  (List.range n).filterMap fun k =>
    if h : k < n then
      if (q.slots ⟨k, h⟩).is_valid then some ((q.slots ⟨k, h⟩).taken i.bcast (q.grant i ⟨k, h⟩))
      else none
    else none

/-- The uops that dispatch hands over, in port order: fences and uops with an
    exception do not wait in the queue. -/
def accepted (iqType : IqType) : List (MicroOp T) :=
  (List.range d).filterMap fun w =>
    if h : w < d then
      ((i.dis_uops ⟨w, h⟩).filter fun u => !u.exception && !u.is_fence && !u.is_fencei).bind
        fun u => (dispatchUop iqType u).pending
    else none

end IssueUnit

/-- A uop that waits, and the number of its dispatch. -/
structure Entry (T : ℕ) where
  number : ℕ
  uop : MicroOp T

/-- The queue and what it holds; `dispatched` uops were handed over so far. -/
structure Sys (n d T : ℕ) where
  unit : IssueUnit n d T
  queue : List (Entry T)
  dispatched : ℕ

namespace Sys

variable (s : Sys n d T) (i : IssueUnit.In d I T) (iqType : IqType)

/-- The entries that stay, each with what is left of it. -/
def stay : List (Entry T) :=
  (List.zipWith (fun e t => (e.uop.left i.bcast.brupdate t).map (Entry.mk e.number)) s.queue
    (s.unit.taken i)).reduceOption

/-- The new entries. -/
def enter : List (Entry T) :=
  (IssueUnit.accepted i iqType).mapIdx fun j u => ⟨s.dispatched + j, u⟩

/-- One cycle, with the queue by age. -/
def next : Sys n d T where
  unit := s.unit.next i iqType
  queue := if i.bcast.kill then [] else s.stay i ++ s.enter i iqType
  dispatched := s.dispatched + (IssueUnit.accepted i iqType).length

end Sys

/-- The queue with any issue grants, branch resolutions, flushes and load
    misses; dispatch presents a uop only at a port that is ready. -/
def collapsing (n d I T : ℕ) (iqType : IqType) : Machine (Sys n d T) (IssueUnit.In d I T) where
  start s := (∀ k, (s.unit.slots k).state = .s_invalid) ∧
    (∀ w, s.unit.ready w = true → w.val < n) ∧ s.queue = [] ∧ s.dispatched = 0
  ok s i := ∀ w, (i.dis_uops w).isSome → s.unit.ready w = true
  next s i := s.next i iqType

/-! ## The one-hot shift amounts -/

/-- A shift in the code of `shamts_oh`. -/
def oneHot (s : ℕ) : ℕ := if s = 0 then 0 else 1 <<< (s - 1)

theorem oneHot_eq_zero {s : ℕ} : oneHot s = 0 ↔ s = 0 := by
  unfold oneHot
  split_ifs with h
  · simp [h]
  · simp [Nat.one_shiftLeft, h]

theorem oneHot_eq_shift {s j : ℕ} : oneHot s = 1 <<< j ↔ s = j + 1 := by
  unfold oneHot
  split_ifs with h
  · subst h
    rw [Nat.one_shiftLeft]
    have hpos := Nat.two_pow_pos j
    omega
  · rw [Nat.one_shiftLeft, Nat.one_shiftLeft, Nat.pow_right_injective (le_refl 2) |>.eq_iff]
    omega

theorem saturatingCounterOH_oneHot {s : ℕ} (hd : 0 < d) (hs : s ≤ d) (inc : Bool) :
    saturatingCounterOH (oneHot s) inc d = oneHot (if inc ∧ s < d then s + 1 else s) := by
  cases inc with
  | false => simp [saturatingCounterOH]
  | true =>
    rcases Nat.eq_zero_or_pos s with rfl | hpos
    · simp [saturatingCounterOH, oneHot, hd]
    · have hz : oneHot s ≠ 0 := fun h => hpos.ne' (oneHot_eq_zero.1 h)
      have hbit : (oneHot s).testBit (d - 1) = decide (s = d) := by
        rw [oneHot, if_neg hpos.ne', Nat.one_shiftLeft, Nat.testBit_two_pow]
        exact decide_eq_decide.2 (by omega)
      rcases hs.lt_or_eq with hlt | rfl
      · simp only [saturatingCounterOH, hz, hbit, hlt.ne, hlt, decide_false, Bool.not_false,
          Bool.and_true, and_self, if_true, if_false, Bool.false_eq_true]
        simp only [oneHot, hpos.ne', Nat.succ_ne_zero, if_false, ← Nat.shiftLeft_add]
        congr 1
        omega
      · simp [saturatingCounterOH, hz, hbit]

namespace IssueUnit

variable {q : IssueUnit n d T} {i : In d I T} [NeZero d]

theorem shamts_oh_eq (m : ℕ) :
    q.shamts_oh i m = oneHot (Collapse.shift (q.vacants i) d m) := by
  induction m with
  | zero => simp [shamts_oh, Collapse.shift, oneHot]
  | succ m ih =>
    rw [shamts_oh, ih, Collapse.shift_succ,
      saturatingCounterOH_oneHot (Nat.pos_of_ne_zero (NeZero.ne d)) (Collapse.shift_le_width ..)]

theorem clear_eq (k : ℕ) : q.clear i k = decide (Collapse.shift (q.vacants i) d k ≠ 0) := by
  rw [clear, shamts_oh_eq, decide_eq_decide, ne_eq, oneHot_eq_zero]

theorem in_idx_eq (k : ℕ) : q.in_idx i k = Collapse.pulled (q.vacants i) d k := by
  unfold in_idx Collapse.pulled
  simp only [shamts_oh_eq, oneHot_eq_shift]

end IssueUnit

/-! ## One slot in a cycle -/

namespace Slot

variable {s : Slot T} {x : Bcast T} {grant : Bool}

theorem held_isSome : s.held.isSome = s.is_valid := by
  unfold held is_valid
  split_ifs with h <;> simp [h]

variable (s grant) in
/-- What a cycle does to the state of a slot, by what is taken. -/
theorem taken_cases (hk : x.kill = false) :
    (s.taken x grant = .all ∧ s.will_be_valid x grant = false ∧ s.next_state x grant = .s_invalid) ∨
    s.splits x grant = true ∧ s.next_state x grant =
        (if isKilledByBranch x.brupdate s.slot_uop.br_mask then .s_invalid else .s_valid_1) ∧
        s.state = .s_valid_2 ∧ s.will_be_valid x grant = true ∧
        s.taken x grant = (if s.p1 then .address else .data) ∨
    s.taken x grant = .nothing ∧ s.splits x grant = false ∧
      s.will_be_valid x grant = s.is_valid ∧
      s.next_state x grant =
        (if isKilledByBranch x.brupdate s.slot_uop.br_mask then .s_invalid else s.state) := by
  cases hv : s.may_vacate grant && !s.squash_grant x with
  | true => exact .inl (by simp [taken, will_be_valid, next_state, hv])
  | false =>
    cases hp : s.splits x grant with
    | true =>
      have hs : s.state = .s_valid_2 := by
        simp only [splits, Bool.and_eq_true, decide_eq_true_eq] at hp
        exact hp.1.2
      exact .inr (.inl (by simp [taken, will_be_valid, next_state, hv, hp, hk, hs, is_valid]))
    | false => exact .inr (.inr (by simp [taken, will_be_valid, next_state, hv, hp, hk]))

/-- The uop that a slot hands on or keeps is what is left of the one it
    holds. -/
theorem pending_out_uop (hk : x.kill = false) :
    (s.out_uop x grant).pending = s.held.bind (·.left x.brupdate (s.taken x grant)) := by
  rcases s.taken_cases grant hk with ⟨ht, -, hn⟩ | ⟨hp, hn, hs, -, ht⟩ | ⟨ht, hp, -, hn⟩
  · have hl : ∀ u : MicroOp T, u.left x.brupdate .all = none := fun u => by
      simp [MicroOp.left]
    rw [ht, MicroOp.pending, if_pos (show (s.out_uop x grant).iw_state = .s_invalid from hn)]
    cases s.held <;> simp [hl]
  · rw [held, if_neg (by simp [hs]), Option.bind_some, MicroOp.left, MicroOp.pending]
    cases hkill : isKilledByBranch x.brupdate s.slot_uop.br_mask with
    | true => simp [out_uop, hn, hkill, MicroOp.settled]
    | false =>
      cases hp1 : s.p1 <;>
        simp [out_uop, next_slot_uop, hn, hkill, hp, hp1, ht, MicroOp.settled]
  · by_cases hs : s.state = .s_invalid
    · simp [held, hs, MicroOp.pending, out_uop, hn]
    · rw [held, if_neg hs, Option.bind_some, MicroOp.left, MicroOp.pending]
      cases hkill : isKilledByBranch x.brupdate s.slot_uop.br_mask <;>
        simp [out_uop, next_slot_uop, hn, hkill, hp, ht, hs, MicroOp.settled]

/-- A slot that is not valid after the cycle has nothing left. -/
theorem pending_of_left (hk : x.kill = false) (h : s.will_be_valid x grant = false) :
    (s.out_uop x grant).pending = none := by
  rcases s.taken_cases grant hk with ⟨-, -, hn⟩ | ⟨-, -, -, hv, -⟩ | ⟨-, -, hv, hn⟩
  · exact if_pos hn
  · rw [h] at hv
    contradiction
  · have hs : s.state = .s_invalid := by simpa [is_valid] using hv.symm.trans h
    exact if_pos (by simp [out_uop, hn, hs])

theorem held_next_of_kill (hk : x.kill = true) (clear : Bool) (in_uop : Option (MicroOp T)) :
    (s.next x grant clear in_uop).held = none := by
  simp [held, next, hk]

/-- A slot takes over the uop that is handed to it. -/
theorem held_next_of_some (hk : x.kill = false) (clear : Bool) (u : MicroOp T) :
    (s.next x grant clear (some u)).held = u.pending := by
  simp [held, next, hk, MicroOp.pending, incoming]

theorem held_next_of_clear (hk : x.kill = false) : (s.next x grant true none).held = none := by
  simp [held, next, hk]

theorem held_next_of_stays (hk : x.kill = false) :
    (s.next x grant false none).held = (s.out_uop x grant).pending := by
  have hstate : (s.next x grant false none).state = s.next_state x grant := by simp [next, hk]
  unfold held
  rw [hstate]
  rfl

end Slot

/-! ## The queue in a cycle -/

namespace IssueUnit

variable {q : IssueUnit n d T} {i : In d I T} {iqType : IqType} {k m m' : ℕ}

/-- What the entry behind an index brings into the next cycle. -/
def handed (q : IssueUnit n d T) (i : In d I T) (iqType : IqType) (m : ℕ) : Option (MicroOp T) :=
  (q.entry i iqType m).bind MicroOp.pending

theorem handed_slot (hk : i.bcast.kill = false) (h : m < n) :
    q.handed i iqType m =
      ((q.slots ⟨m, h⟩).out_uop i.bcast (q.grant i ⟨m, h⟩)).pending := by
  rw [handed, entry, dif_pos h]
  cases hv : (q.slots ⟨m, h⟩).will_be_valid i.bcast (q.grant i ⟨m, h⟩) with
  | true => simp
  | false => simp [Slot.pending_of_left hk hv]

theorem vacants_slot (h : m < n) : q.vacants i m = !(q.slots ⟨m, h⟩).is_valid := by
  rw [vacants, dif_pos h]

/-- Only occupied entries bring something. -/
theorem occupied_of_handed (h : (q.handed i iqType m).isSome) : q.vacants i m = false := by
  obtain ⟨u, hu⟩ := Option.isSome_iff_exists.1 h
  obtain ⟨v, hv, -⟩ := Option.bind_eq_some_iff.1 hu
  unfold entry at hv
  unfold vacants
  split_ifs at hv ⊢ with h1 h2 h2
  · rw [Slot.will_be_valid, Bool.and_eq_true] at h2
    rw [h2.1]
    rfl
  · obtain ⟨w, hw, -⟩ := Option.map_eq_some_iff.1 hv
    rw [Option.filter_eq_some_iff] at hw
    rw [hw.1]
    rfl

variable (q iqType) in
theorem heldAt_next (hk : i.bcast.kill = false) (h : k < n) :
    (q.next i iqType).heldAt k = match q.in_uop i iqType k with
      | some u => u.pending
      | none => if q.clear i k then none else q.handed i iqType k := by
  rw [heldAt, dif_pos h]
  show ((q.slots ⟨k, h⟩).next i.bcast _ (q.clear i k) (q.in_uop i iqType k)).held = _
  cases q.in_uop i iqType k with
  | some u => exact Slot.held_next_of_some hk _ u
  | none =>
    cases q.clear i k with
    | true => exact Slot.held_next_of_clear hk
    | false => exact (Slot.held_next_of_stays hk).trans (handed_slot hk h).symm

variable [NeZero d]

/-- An entry that brings something is found at its destination. -/
theorem heldAt_dest (hk : i.bcast.kill = false) (hm : (q.handed i iqType m).isSome)
    (hn : Collapse.dest (q.vacants i) d m < n) :
    (q.next i iqType).heldAt (Collapse.dest (q.vacants i) d m) = q.handed i iqType m := by
  have hocc := occupied_of_handed hm
  rw [q.heldAt_next iqType hk hn, in_uop, in_idx_eq, clear_eq]
  by_cases hd : Collapse.dest (q.vacants i) d m = m
  · have hs := Collapse.dest_eq_iff.1 hd
    rw [hd, Collapse.pulled_of_stays hocc hs, hs]
    rfl
  · rw [Collapse.pulled_of_dest hocc rfl hd, Option.bind_some]
    unfold handed at hm ⊢
    cases he : q.entry i iqType m with
    | some u => rw [Option.bind_some]
    | none =>
      rw [he] at hm
      contradiction

/-- A slot to which nothing moves is empty. -/
theorem heldAt_of_no_dest (hk : i.bcast.kill = false) (hn : k < n)
    (h : ∀ m < n + d, (q.handed i iqType m).isSome → Collapse.dest (q.vacants i) d m ≠ k) :
    (q.next i iqType).heldAt k = none := by
  have hnone : ∀ m, Collapse.dest (q.vacants i) d m = k → q.handed i iqType m = none := by
    intro m hd
    by_contra hne
    have hlt : m < n + d := by
      have hadd := Collapse.dest_add_shift (q.vacants i) d m
      have hw := Collapse.shift_le_width (q.vacants i) d m
      omega
    exact h m hlt (Option.ne_none_iff_isSome.1 hne) hd
  have hkeep : (if q.clear i k then none else q.handed i iqType k) = none := by
    rw [clear_eq]
    by_cases hs : Collapse.shift (q.vacants i) d k = 0
    · simp [hs, hnone k (Collapse.dest_eq_iff.2 hs)]
    · simp [hs]
  rw [q.heldAt_next iqType hk hn, in_uop, in_idx_eq]
  cases hp : Collapse.pulled (q.vacants i) d k with
  | none => exact hkeep
  | some m =>
    have hm := hnone m (Collapse.pulled_eq_some hp).2
    rw [Option.bind_some]
    unfold handed at hm
    cases he : q.entry i iqType m with
    | none => exact hkeep
    | some u => rwa [he, Option.bind_some] at hm

/-- The empty slots. -/
def free (q : IssueUnit n d T) : ℕ := (List.finRange n).countP fun k => !(q.slots k).is_valid

omit [NeZero d] in
theorem free_eq (i : In d I T) : q.free = Collapse.holes (q.vacants i) n := by
  rw [free, Collapse.holes, ← List.map_coe_finRange_eq_range, List.countP_map]
  congr 1
  funext k
  exact (vacants_slot k.isLt).symm

omit [NeZero d] in
/-- A uop at a port with as many empty slots finds a place. -/
theorem dest_dispatch {w : ℕ} (hw : w < d) (hf : w < q.free) :
    Collapse.dest (q.vacants i) d (n + w) < n := by
  have hmono : Collapse.holes (q.vacants i) n ≤ Collapse.holes (q.vacants i) (n + w) :=
    Collapse.holes_mono (Nat.le_add_right n w)
  have hle := Collapse.holes_le (q.vacants i) n
  rw [← free_eq] at hmono hle
  unfold Collapse.dest Collapse.shift
  omega

omit [NeZero d] in
/-- The registered `ready` of the ports promises no more than there will be. -/
theorem free_next : ∀ w, (q.next i iqType).ready w = true → w.val < (q.next i iqType).free := by
  intro w hw
  refine (decide_eq_true_iff.1 hw).trans_le ?_
  rw [← List.countP_eq_length_filter]
  refine List.countP_mono_left fun k _ hk => ?_
  have hheld : ((q.next i iqType).slots k).held = none := by
    unfold will_be_available at hk
    rw [Bool.and_eq_true, Bool.or_eq_true, Bool.not_eq_true', Option.isNone_iff_eq_none] at hk
    cases hkill : i.bcast.kill with
    | true => exact Slot.held_next_of_kill hkill _ _
    | false =>
      have hat := q.heldAt_next iqType hkill k.isLt
      rw [heldAt, dif_pos k.isLt, hk.2] at hat
      rw [hat]
      rcases hk.1 with hv | hc
      · dsimp only
        rw [handed_slot hkill k.isLt, Slot.pending_of_left hkill hv, ite_self]
      · dsimp only
        rw [hc, if_pos rfl]
  rw [← Slot.held_isSome, hheld]
  rfl

omit [NeZero d] in
/-- Every uop that is held or presented has a slot to go to. -/
theorem dest_lt (hfree : ∀ w, q.ready w = true → w.val < q.free)
    (hok : ∀ w, (i.dis_uops w).isSome → q.ready w = true) (hm : m < n + d)
    (h : q.vacants i m = false) : Collapse.dest (q.vacants i) d m < n := by
  by_cases hn : m < n
  · exact (Collapse.dest_le _ _ _).trans_lt hn
  · obtain ⟨w, rfl⟩ : ∃ w, m = n + w := ⟨m - n, by omega⟩
    have hw : w < d := by omega
    rw [vacants, dif_neg hn, Nat.add_sub_cancel_left, dif_pos hw] at h
    have hsome : (i.dis_uops ⟨w, hw⟩).isSome := by simpa using h
    exact dest_dispatch hw (hfree _ (hok _ hsome))

/-- **The contents after a cycle** are what the slots hand on, and behind them
    what is dispatched. -/
theorem held_next (hk : i.bcast.kill = false) (hfree : ∀ w, q.ready w = true → w.val < q.free)
    (hok : ∀ w, (i.dis_uops w).isSome → q.ready w = true) :
    (q.next i iqType).held = (List.range (n + d)).filterMap (q.handed i iqType) := by
  refine Collapse.filterMap_place (Collapse.dest (q.vacants i) d) ?_ ?_ ?_ ?_
  · exact fun m hm h => dest_lt hfree hok hm (occupied_of_handed h)
  · exact fun m m' hlt _ h _ => Collapse.dest_lt (occupied_of_handed h) hlt
  · exact fun m hm h => heldAt_dest hk h (dest_lt hfree hok hm (occupied_of_handed h))
  · exact fun k hn h => heldAt_of_no_dest hk hn h

omit [NeZero d] in
theorem handed_range (hk : i.bcast.kill = false) :
    (List.range (n + d)).filterMap (q.handed i iqType) =
      (List.zipWith (MicroOp.left i.bcast.brupdate) q.held (q.taken i)).reduceOption ++
        accepted i iqType := by
  rw [List.range_add, List.filterMap_append, List.filterMap_map]
  congr 1
  · rw [held, taken, Collapse.zipWith_filterMap]
    · refine List.filterMap_congr fun k hk' => ?_
      have hn := List.mem_range.1 hk'
      rw [handed_slot hk hn, Slot.pending_out_uop hk, heldAt, dif_pos hn, dif_pos hn]
      cases hv : (q.slots ⟨k, hn⟩).is_valid with
      | true => rfl
      | false =>
        have hnone : (q.slots ⟨k, hn⟩).held = none := by
          rw [← Option.not_isSome_iff_eq_none, Slot.held_isSome, hv]
          decide
        rw [hnone]
        rfl
    · intro k hk'
      have hn := List.mem_range.1 hk'
      rw [heldAt, dif_pos hn, dif_pos hn, Slot.held_isSome]
      cases (q.slots ⟨k, hn⟩).is_valid <;> rfl
  · refine List.filterMap_congr fun w hw => ?_
    have hlt := List.mem_range.1 hw
    show q.handed i iqType (n + w) = _
    rw [handed, entry, dif_neg (by omega), Nat.add_sub_cancel_left, dif_pos hlt, dif_pos hlt]
    exact Option.bind_map ..

end IssueUnit

/-! ## Where a uop goes -/

namespace IssueUnit

variable {q : IssueUnit n d T} {i : In d I T} {k m m' : ℕ}

/-- The uop behind index `m` goes to slot `k`: it is handed to it, or it is in
    it and not cleared away. -/
def Goes (q : IssueUnit n d T) (i : In d I T) (m k : ℕ) : Prop :=
  q.in_idx i k = some m ∨ m = k ∧ q.clear i k = false

/-- The moves of a cycle, of the uops in the slots and of those presented. -/
structure Orderly (q : IssueUnit n d T) (i : In d I T) : Prop where
  /-- each goes to one slot -/
  goes : ∀ m < n + d, q.vacants i m = false → ∃ k < n, q.Goes i m k ∧ ∀ k', q.Goes i m k' → k' = k
  /-- no two go to the same slot -/
  apart : ∀ m m' k, q.vacants i m = false → q.vacants i m' = false →
    q.Goes i m k → q.Goes i m' k → m = m'
  /-- none moves onto a slot whose uop stays -/
  lands : ∀ m k, q.vacants i m = false → q.vacants i k = false → q.in_idx i k = some m →
    q.clear i k = true

variable [NeZero d]

theorem goes_iff (h : q.vacants i m = false) :
    q.Goes i m k ↔ Collapse.dest (q.vacants i) d m = k := by
  rw [Goes, in_idx_eq, clear_eq]
  constructor
  · rintro (hp | ⟨rfl, hc⟩)
    · exact (Collapse.pulled_eq_some hp).2
    · exact Collapse.dest_eq_iff.2 (by simpa using hc)
  · intro hd
    by_cases hne : k = m
    · subst hne
      exact .inr ⟨rfl, by simpa using Collapse.dest_eq_iff.1 hd⟩
    · exact .inl (Collapse.pulled_of_dest h hd hne)

theorem orderly (hfree : ∀ w, q.ready w = true → w.val < q.free)
    (hok : ∀ w, (i.dis_uops w).isSome → q.ready w = true) : q.Orderly i := by
  refine ⟨fun m hm h => ?_, fun m m' k h h' hg hg' => ?_, fun m k h hk hp => ?_⟩
  · exact ⟨_, dest_lt hfree hok hm h, (goes_iff h).2 rfl, fun k' hg => ((goes_iff h).1 hg).symm⟩
  · exact Collapse.dest_inj h h' (((goes_iff h).1 hg).trans ((goes_iff h').1 hg').symm)
  · rw [in_idx_eq] at hp
    rw [clear_eq, decide_eq_true_iff]
    intro hs
    rw [Collapse.pulled_of_stays hk hs] at hp
    contradiction

end IssueUnit

/-! ## Runs -/

namespace Sys

variable {s : Sys n d T} {i : IssueUnit.In d I T} {iqType : IqType}

/-- The slots hold what is owed, each once and in the order of dispatch. -/
structure Inv (s : Sys n d T) : Prop where
  held : s.unit.held = s.queue.map Entry.uop
  sorted : (s.queue.map Entry.number).Pairwise (· < ·)
  older : ∀ e ∈ s.queue, e.number < s.dispatched
  free : ∀ w, s.unit.ready w = true → w.val < s.unit.free

theorem stay_uop : (s.stay i).map Entry.uop =
    (List.zipWith (MicroOp.left i.bcast.brupdate) (s.queue.map Entry.uop)
      (s.unit.taken i)).reduceOption := by
  unfold stay
  generalize s.unit.taken i = ts
  induction s.queue generalizing ts with
  | nil => rfl
  | cons e es ih =>
    cases ts with
    | nil => rfl
    | cons t ts =>
      simp only [List.map_cons, List.zipWith_cons_cons]
      cases e.uop.left i.bcast.brupdate t <;> simp [ih]

theorem stay_number : ((s.stay i).map Entry.number).Sublist (s.queue.map Entry.number) := by
  unfold stay
  generalize s.unit.taken i = ts
  induction s.queue generalizing ts with
  | nil => exact List.nil_sublist _
  | cons e es ih =>
    cases ts with
    | nil => exact List.nil_sublist _
    | cons t ts =>
      simp only [List.map_cons, List.zipWith_cons_cons]
      cases e.uop.left i.bcast.brupdate t with
      | none => simpa using (ih ts).cons _
      | some u => simpa using (ih ts)

theorem mem_stay {e : Entry T} (h : e ∈ s.stay i) : ∃ e' ∈ s.queue, e'.number = e.number := by
  have hmem := stay_number.subset (List.mem_map_of_mem (f := Entry.number) h)
  exact List.mem_map.1 hmem

theorem enter_uop : (s.enter i iqType).map Entry.uop = IssueUnit.accepted i iqType := by
  refine List.ext_getElem (by simp [enter]) fun j h h' => ?_
  simp [enter]

theorem mem_enter {e : Entry T} (h : e ∈ s.enter i iqType) :
    s.dispatched ≤ e.number ∧
      e.number < s.dispatched + (IssueUnit.accepted i iqType).length := by
  obtain ⟨j, hj, rfl⟩ := List.mem_mapIdx.1 h
  exact ⟨Nat.le_add_right _ _, Nat.add_lt_add_left hj _⟩

theorem enter_sorted : ((s.enter i iqType).map Entry.number).Pairwise (· < ·) := by
  rw [List.pairwise_iff_getElem]
  intro j j' hj hj' hlt
  simpa [enter] using hlt

theorem inv_step [NeZero d] (h : s.Inv)
    (hok : ∀ w, (i.dis_uops w).isSome → s.unit.ready w = true) : (s.next i iqType).Inv := by
  cases hk : i.bcast.kill with
  | true =>
    have hq : (s.next i iqType).queue = [] := by simp [next, hk]
    refine ⟨?_, ?_, ?_, IssueUnit.free_next⟩
    · rw [hq, IssueUnit.held, List.map_nil, List.filterMap_eq_nil_iff]
      intro k hn
      rw [List.mem_range] at hn
      rw [IssueUnit.heldAt, dif_pos hn]
      exact Slot.held_next_of_kill hk _ _
    · rw [hq]
      exact List.Pairwise.nil
    · simp [hq]
  | false =>
    have hq : (s.next i iqType).queue = s.stay i ++ s.enter i iqType := by simp [next, hk]
    refine ⟨?_, ?_, ?_, IssueUnit.free_next⟩
    · show (s.unit.next i iqType).held = _
      rw [hq, List.map_append, stay_uop, enter_uop, ← h.held, ← IssueUnit.handed_range hk]
      exact IssueUnit.held_next hk h.free hok
    · rw [hq, List.map_append, List.pairwise_append]
      refine ⟨h.sorted.sublist stay_number, enter_sorted, ?_⟩
      rintro a ha b hb
      obtain ⟨e, he, rfl⟩ := List.mem_map.1 ha
      obtain ⟨e', he', rfl⟩ := List.mem_map.1 hb
      obtain ⟨e₀, he₀, hnum⟩ := mem_stay he
      rw [← hnum]
      exact (h.older e₀ he₀).trans_le (mem_enter he').1
    · intro e he
      rw [hq, List.mem_append] at he
      rcases he with he | he
      · obtain ⟨e₀, he₀, hnum⟩ := mem_stay he
        rw [← hnum]
        exact Nat.lt_add_right _ (h.older e₀ he₀)
      · exact (mem_enter he).2

theorem inv_start (h : (collapsing n d I T iqType).start s) : s.Inv := by
  obtain ⟨hinv, hready, hq, -⟩ := h
  have hvalid : ∀ k, (s.unit.slots k).is_valid = false := fun k => by simp [Slot.is_valid, hinv k]
  refine ⟨?_, ?_, ?_, fun w hw => ?_⟩
  · rw [hq, IssueUnit.held, List.map_nil, List.filterMap_eq_nil_iff]
    intro k hn
    rw [List.mem_range] at hn
    rw [IssueUnit.heldAt, dif_pos hn, ← Option.not_isSome_iff_eq_none, Slot.held_isSome, hvalid]
    decide
  · rw [hq]
    exact List.Pairwise.nil
  · simp [hq]
  · have hfree : s.unit.free = n := by simp [IssueUnit.free, hvalid]
    rw [hfree]
    exact hready w hw

theorem inv_reach [NeZero d] (h : (collapsing n d I T iqType).Reach s) : s.Inv :=
  h.inv (fun _ h => inv_start h) fun _ _ h hok => inv_step h hok

end Sys

/-! ## Uops and cycles of runs -/

/-- A uop whose operands are there, with its place in the reorder buffer. -/
def aluUop (rob_idx : ℕ) : MicroOp 1 where
  uopc := .other 1
  fu_code := 1
  rob_idx := rob_idx
  lrs1_rtype := .RT_FIX
  lrs2_rtype := .RT_X
  frs3_en := false
  prs1 := 1
  prs2 := 0
  prs3 := 0
  ppred := 0
  prs1_busy := false
  prs2_busy := false
  prs3_busy := false
  ppred_busy := false
  iw_p1_poisoned := false
  iw_p2_poisoned := false
  iw_state := .s_valid_1
  br_mask := fun _ => false
  exception := false
  is_fence := false
  is_fencei := false

/-- The unit after reset. -/
def emptyUnit : IssueUnit 3 2 1 where
  slots _ := ⟨.s_invalid, false, false, false, false, false, false, aluUop 0⟩
  ready _ := true

/-- A cycle in which the given uops are presented, and one port is free. -/
def present (dis_uops : Fin 2 → Option (MicroOp 1)) : IssueUnit.In 2 1 1 where
  dis_uops := dis_uops
  bcast := ⟨⟨fun _ => false, fun _ => false⟩, false, false, [], none, []⟩
  fu_types _ := 1

end BoomStop.Issue
