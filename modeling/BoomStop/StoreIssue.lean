/-
  Stores and AMOs in the memory issue queue (`issue-slot.scala`,
  `issue-unit.scala`): the address and the data of one that takes both operands
  from integer registers may issue apart, of one whose data is a floating-point
  register only the address issues here.

  * `is_sta`, `is_std`, `MicroOp.piece`: what register read makes of an issued
    uop;
  * `Slot.piece`: what leaves a slot in a cycle, where a uop that waits on a
    missed load is dropped;
  * `storeIssue`: the queue with what has issued of each uop;
  * `store_pieces`: each half issues once, and then the slot is free.
-/
import BoomStop.IssueAge

namespace BoomStop.Issue

open Sync
open Rename (RType)

variable {n d I T : ℕ}

/-! ## Pieces -/

/-- The parts of a store that an issued uop carries out. -/
inductive Piece
  | address | data | both
  deriving DecidableEq

namespace MicroOp

variable (u : MicroOp T)

/-- The uop computes the address of a store. -/
def is_sta : Bool := u.uopc = .uopSTA || u.uopc = .uopAMO_AG

/-- The uop brings the data of a store. -/
def is_std : Bool := u.uopc = .uopSTD || (u.is_sta && u.lrs2_rtype = .RT_FIX)

/-- The part of a store that the uop is for. -/
def piece : Option Piece :=
  match u.is_sta, u.is_std with
  | true, true => some .both
  | true, false => some .address
  | false, true => some .data
  | false, false => none

/-- A store or AMO whose data is in an integer register. -/
def IntStore : Prop := u.is_sta = true ∧ u.lrs2_rtype = .RT_FIX

/-- A store whose data is not: the queue of the floating-point unit sends
    it. -/
def FpStore : Prop := u.uopc = .uopSTA ∧ u.lrs2_rtype ≠ .RT_FIX

end MicroOp

namespace Slot

variable (s : Slot T) (x : Bcast T) (grant : Bool)

/-- What register read gets: a uop that waits on a load that missed is
    dropped. -/
def iss_uop : Option (MicroOp T) :=
  if grant && !(x.ldspec_miss && (s.uop.iw_p1_poisoned || s.uop.iw_p2_poisoned)) then some s.uop
  else none

/-- The part that a slot issues. -/
def piece : Option Piece := (s.iss_uop x grant).bind MicroOp.piece

/-- The operand of a piece is there, and does not come from a load that
    missed. -/
def Ready (x : Bcast T) (ready poisoned : Bool) : Prop :=
  ready = true ∧ ¬ (x.ldspec_miss = true ∧ poisoned = true)

/-- The operands that a piece reads are there. -/
def Fed : Piece → Prop
  | .address => Ready x s.p1 s.p1_poisoned
  | .data => Ready x s.p2 s.p2_poisoned
  | .both => Ready x s.p1 s.p1_poisoned ∧ Ready x s.p2 s.p2_poisoned

end Slot

/-! ## The queue with what it has issued -/

namespace IssueUnit

variable (q : IssueUnit n d T) (i : In d I T)

/-- The valid slots. -/
def valid_slots : List (Fin n) := (List.finRange n).filter fun k => (q.slots k).is_valid

/-- The part that is issued from a slot of the queue. -/
def piece (k : Fin n) : Option Piece := (q.slots k).piece i.bcast (q.grant i k)

/-- The uops that dispatch hands over, as they come. -/
def offered : List (MicroOp T) :=
  (List.range d).filterMap fun w =>
    if h : w < d then
      (i.dis_uops ⟨w, h⟩).filter fun u => !u.exception && !u.is_fence && !u.is_fencei
    else none

end IssueUnit

/-- The memory queue.  Ghosts: the uops that were dispatched, what has issued
    of each, and which were killed. -/
structure StoreSys (n d T : ℕ) where
  sys : Sys n d T
  offered : List (MicroOp T)
  issued : ℕ → List Piece
  killed : ℕ → Bool

namespace StoreSys

variable (s : StoreSys n d T) (i : IssueUnit.In d I T)

/-- The entries, each with its slot. -/
def slotted : List (Entry T × Fin n) := s.sys.queue.zip s.sys.unit.valid_slots

/-- What issues of a uop in a cycle. -/
def issues (m : ℕ) : List Piece :=
  s.slotted.filterMap fun a => if a.1.number = m then s.sys.unit.piece i a.2 else none

/-- A branch kills the uop, or a flush, which takes what is dispatched in its
    cycle too. -/
def kills (m : ℕ) : Bool :=
  (s.sys.queue.any fun e => e.number == m &&
      (i.bcast.kill || isKilledByBranch i.bcast.brupdate e.uop.br_mask)) ||
    (i.bcast.kill && (s.sys.enter i .MEM).any fun e => e.number == m)

/-- One cycle, with the history. -/
def next : StoreSys n d T where
  sys := s.sys.next i .MEM
  offered := s.offered ++ IssueUnit.offered i
  issued m := s.issued m ++ s.issues i m
  killed m := s.killed m || s.kills i m

end StoreSys

/-- The memory queue on the inputs of `collapsing`. -/
def storeIssue (n d I T : ℕ) : Machine (StoreSys n d T) (IssueUnit.In d I T) where
  start s := (collapsing n d I T .MEM).start s.sys ∧ s.offered = [] ∧ (∀ m, s.issued m = []) ∧
    ∀ m, s.killed m = false
  ok s i := (collapsing n d I T .MEM).ok s.sys i
  next s i := s.next i

/-- All of the store has issued. -/
def Complete (u : MicroOp T) (l : List Piece) : Prop :=
  if u.lrs2_rtype = .RT_FIX then l = [.both] ∨ l = [.address, .data] ∨ l = [.data, .address]
  else l = [.address]

/-- Nothing has issued twice. -/
def Partial (u : MicroOp T) (l : List Piece) : Prop :=
  l = [] ∨ (u.lrs2_rtype = .RT_FIX ∧ (l = [.address] ∨ l = [.data])) ∨ Complete u l

/-! ## What a slot holds of a store -/

/-- What is left of the store `u` in the queue, and what has issued. -/
inductive Form (u v : MicroOp T) : List Piece → Prop
  | whole : u.lrs2_rtype = .RT_FIX → v.iw_state = .s_valid_2 → v.is_sta = true →
      v.lrs2_rtype = .RT_FIX → Form u v []
  | data : u.lrs2_rtype = .RT_FIX → v.iw_state = .s_valid_1 → v.uopc = .uopSTD →
      Form u v [.address]
  | address : u.lrs2_rtype = .RT_FIX → v.iw_state = .s_valid_1 → v.is_sta = true →
      v.lrs2_rtype = .RT_X → Form u v [.data]
  | fp : u.lrs2_rtype ≠ .RT_FIX → v.iw_state = .s_valid_1 → v.is_sta = true →
      v.lrs2_rtype = .RT_X → Form u v []

theorem Form.not_complete {u v : MicroOp T} {l : List Piece} (h : Form u v l) : ¬ Complete u l := by
  cases h <;> simp [Complete, *]

theorem Form.congr {u v v' : MicroOp T} {l : List Piece} (h : Form u v l)
    (hst : v'.iw_state = v.iw_state) (hop : v'.uopc = v.uopc)
    (hl : v'.lrs2_rtype = v.lrs2_rtype) : Form u v' l := by
  have hsta : v'.is_sta = v.is_sta := by rw [MicroOp.is_sta, MicroOp.is_sta, hop]
  cases h with
  | whole h1 h2 h3 h4 => exact .whole h1 (hst.trans h2) (hsta.trans h3) (hl.trans h4)
  | data h1 h2 h3 => exact .data h1 (hst.trans h2) (hop.trans h3)
  | address h1 h2 h3 h4 => exact .address h1 (hst.trans h2) (hsta.trans h3) (hl.trans h4)
  | fp h1 h2 h3 h4 => exact .fp h1 (hst.trans h2) (hsta.trans h3) (hl.trans h4)

namespace MicroOp

variable {u : MicroOp T}

theorem not_std_of_sta (h : u.is_sta = true) : u.uopc ≠ .uopSTD := by
  intro hu
  rw [is_sta, hu] at h
  contradiction

theorem piece_both (h : u.is_sta = true) (h2 : u.lrs2_rtype = .RT_FIX) :
    u.piece = some .both := by
  simp [piece, is_std, h, h2]

theorem piece_address (h : u.is_sta = true) (h2 : u.lrs2_rtype ≠ .RT_FIX) :
    u.piece = some .address := by
  simp [piece, is_std, h, h2, not_std_of_sta h]

theorem piece_data (h : u.uopc = .uopSTD) : u.piece = some .data := by
  simp [piece, is_std, is_sta, h]

end MicroOp

namespace Slot

variable {s : Slot T} {x : Bcast T} {grant : Bool}

theorem uop_poisoned (s : Slot T) :
    s.uop.iw_p1_poisoned = s.p1_poisoned ∧ s.uop.iw_p2_poisoned = s.p2_poisoned := by
  rw [uop]
  split_ifs <;> exact ⟨rfl, rfl⟩

theorem iss_uop_eq (s : Slot T) (x : Bcast T) (grant : Bool) :
    s.iss_uop x grant = if grant && !s.squash_grant x then some s.uop else none := by
  rw [iss_uop, s.uop_poisoned.1, s.uop_poisoned.2]
  rfl

theorem piece_of_granted (hs : s.squash_grant x = false) : s.piece x true = s.uop.piece := by
  rw [piece, iss_uop_eq, hs]
  rfl

theorem uop_of_ready (h : (s.p1 && s.p2 && s.ppred) = true) :
    s.uop.piece = s.slot_uop.piece := by
  rw [uop, if_pos (.inr h)]
  rfl

theorem uop_of_valid_1 (h : s.state = .s_valid_1) : s.uop.piece = s.slot_uop.piece := by
  have hne : s.state ≠ .s_valid_2 := by rw [h]; exact IwState.noConfusion
  rw [uop, if_pos (.inl hne)]
  rfl

/-- Of a store that still has both halves, what is ready issues. -/
theorem uop_of_split {u : MicroOp T} (hu : s.slot_uop = u) (hsta : u.is_sta = true)
    (hstate : s.state = .s_valid_2) (hno : (s.p1 && s.p2 && s.ppred) = false)
    (hppred : s.ppred = true) (hor : (s.p1 || s.p2) = true) :
    s.uop.piece = if s.p1 then some .address else some .data := by
  have hif : ¬ (s.state ≠ .s_valid_2 ∨ (s.p1 && s.p2 && s.ppred) = true) := by
    rw [hno, hstate]
    simp
  rw [uop, if_neg hif, hppred, hu]
  cases h1 : s.p1 with
  | true =>
    exact MicroOp.piece_address hsta RType.noConfusion
  | false =>
    rw [h1, Bool.false_or] at hor
    rw [hor]
    exact MicroOp.piece_data rfl

/-- A slot gives up nothing of a uop that does not issue. -/
theorem taken_of_not_issued (hg : (grant && !s.squash_grant x) = false) :
    s.taken x grant = .nothing := by
  cases grant with
  | false => simp [taken, may_vacate, splits]
  | true =>
    rw [Bool.true_and, Bool.not_eq_false'] at hg
    simp [taken, splits, hg]

/-- What is taken of a store, what issues, and what has issued after that. -/
theorem taken_of_form {u v : MicroOp T} {l : List Piece} (hst : s.state = v.iw_state)
    (hop : s.slot_uop.uopc = v.uopc) (hl : s.slot_uop.lrs2_rtype = v.lrs2_rtype)
    (hreq : grant = true → s.request x = true) (h : Form u v l) :
    (s.taken x grant = .nothing ∧ s.piece x grant = none) ∨
      (s.taken x grant = .all ∧ Complete u (l ++ (s.piece x grant).toList)) ∨
      (s.taken x grant = .address ∧ s.piece x grant = some .address ∧ l = [] ∧
        u.lrs2_rtype = .RT_FIX) ∨
      (s.taken x grant = .data ∧ s.piece x grant = some .data ∧ l = [] ∧
        u.lrs2_rtype = .RT_FIX ∧ v.is_sta = true) := by
  have hsta : s.slot_uop.is_sta = v.is_sta := by rw [MicroOp.is_sta, MicroOp.is_sta, hop]
  cases hg : grant && !s.squash_grant x with
  | false =>
    refine .inl ⟨taken_of_not_issued hg, ?_⟩
    rw [piece, iss_uop_eq, hg]
    rfl
  | true =>
    rw [Bool.and_eq_true, Bool.not_eq_true'] at hg
    obtain ⟨rfl, hs⟩ := hg
    have hr := hreq rfl
    rw [piece_of_granted hs]
    cases h with
    | whole h2 hw hv hvl =>
      rw [hw] at hst
      rw [hv] at hsta
      simp only [request, hst, Bool.and_eq_true, Bool.not_eq_true'] at hr
      cases hall : s.p1 && s.p2 && s.ppred with
      | true =>
        refine .inr (.inl ⟨by simp [taken, may_vacate, hst, hall, hs], ?_⟩)
        rw [uop_of_ready hall, MicroOp.piece_both hsta (hl.trans hvl)]
        simp [Complete, h2]
      | false =>
        have hp := uop_of_split rfl hsta hst hall hr.1.2 hr.1.1
        have ht : s.taken x true = if s.p1 then .address else .data := by
          simp [taken, may_vacate, splits, hst, hall, hs, hr.2]
        rw [ht, hp]
        cases h1 : s.p1 with
        | true => exact .inr (.inr (.inl ⟨rfl, rfl, rfl, h2⟩))
        | false => exact .inr (.inr (.inr ⟨rfl, rfl, rfl, h2, hv⟩))
    | data h2 hw hv =>
      rw [hw] at hst
      refine .inr (.inl ⟨by simp [taken, may_vacate, hst, hs], ?_⟩)
      rw [uop_of_valid_1 hst, MicroOp.piece_data (hop.trans hv)]
      simp [Complete, h2]
    | address h2 hw hv hvl =>
      rw [hw] at hst
      rw [hv] at hsta
      refine .inr (.inl ⟨by simp [taken, may_vacate, hst, hs], ?_⟩)
      rw [uop_of_valid_1 hst, MicroOp.piece_address hsta (by rw [hl, hvl]; exact RType.noConfusion)]
      simp [Complete, h2]
    | fp h2 hw hv hvl =>
      rw [hw] at hst
      rw [hv] at hsta
      refine .inr (.inl ⟨by simp [taken, may_vacate, hst, hs], ?_⟩)
      rw [uop_of_valid_1 hst, MicroOp.piece_address hsta (by rw [hl, hvl]; exact RType.noConfusion)]
      simp [Complete, h2]

/-- A piece issues with its operands. -/
theorem fed_of_piece {c : Piece} (hreq : grant = true → s.request x = true)
    (hsta : s.state = .s_valid_2 → s.slot_uop.is_sta = true) (h : s.piece x grant = some c) :
    s.Fed x c := by
  have hg : (grant && !s.squash_grant x) = true := by
    by_contra hno
    rw [piece, iss_uop_eq, if_neg hno] at h
    contradiction
  rw [Bool.and_eq_true, Bool.not_eq_true'] at hg
  obtain ⟨rfl, hs⟩ := hg
  have hr := hreq rfl
  rw [squash_grant] at hs
  have hfed1 (h1 : s.p1 = true) : Ready x s.p1 s.p1_poisoned :=
    ⟨h1, fun ⟨hm, hp⟩ => by rw [hm, hp] at hs; contradiction⟩
  have hfed2 (h2 : s.p2 = true) : Ready x s.p2 s.p2_poisoned :=
    ⟨h2, fun ⟨hm, hp⟩ => by rw [hm, hp, Bool.or_true] at hs; contradiction⟩
  rw [request] at hr
  split at hr
  case h_1 =>
    simp only [Bool.and_eq_true] at hr
    cases c
    · exact hfed1 hr.1.1.1.1
    · exact hfed2 hr.1.1.1.2
    · exact ⟨hfed1 hr.1.1.1.1, hfed2 hr.1.1.1.2⟩
  case h_2 hst =>
    simp only [Bool.and_eq_true] at hr
    rw [piece_of_granted hs] at h
    cases hall : s.p1 && s.p2 && s.ppred with
    | true =>
      simp only [Bool.and_eq_true] at hall
      cases c
      · exact hfed1 hall.1.1
      · exact hfed2 hall.1.2
      · exact ⟨hfed1 hall.1.1, hfed2 hall.1.2⟩
    | false =>
      rw [uop_of_split rfl (hsta hst) hst hall hr.1.2 hr.1.1] at h
      split_ifs at h with h1 <;> cases h
      · exact hfed1 h1
      · have hor := hr.1.1
        rw [Bool.eq_false_iff.2 h1, Bool.false_or] at hor
        exact hfed2 hor
  case h_3 => contradiction

end Slot

/-! ## Entries and slots -/

section Lists

variable {α β γ : Type*}

theorem filterMap_filter (p : α → Bool) (f : α → β) (l : List α) :
    l.filterMap (fun a => if p a then some (f a) else none) = (l.filter p).map f := by
  induction l with
  | nil => rfl
  | cons a l ih =>
    rw [List.filterMap_cons, List.filter_cons, ih]
    cases p a <;> rfl

theorem eq_of_mem_zip {f : α → γ} {g : β → γ} : ∀ {l : List α} {l' : List β} {a : α × β},
    l.map f = l'.map g → a ∈ l.zip l' → f a.1 = g a.2
  | [], _, _, _, h => absurd h List.not_mem_nil
  | _ :: _, [], _, _, h => absurd h List.not_mem_nil
  | _ :: _, _ :: _, _, he, h => by
    rw [List.map_cons, List.map_cons, List.cons.injEq] at he
    rcases List.mem_cons.1 h with rfl | h
    · exact he.1
    · exact eq_of_mem_zip he.2 h

/-- Where keys are unique, what is kept for a key is what its one bearer
    gives. -/
theorem filterMap_key (key : α → ℕ) {f : α → Option β} {a : α} : ∀ {l : List α},
    (l.map key).Pairwise (· < ·) → a ∈ l →
      l.filterMap (fun x => if key x = key a then f x else none) = (f a).toList
  | [], _, h => absurd h List.not_mem_nil
  | b :: l, hs, h => by
    rw [List.map_cons, List.pairwise_cons] at hs
    rw [List.filterMap_cons]
    rcases List.mem_cons.1 h with rfl | h
    · have hnone : l.filterMap (fun x => if key x = key a then f x else none) = [] := by
        refine List.filterMap_eq_nil_iff.2 fun x hx => if_neg ?_
        exact (hs.1 _ (List.mem_map_of_mem hx)).ne'
      rw [if_pos rfl, hnone]
      cases f a <;> rfl
    · have hne : key b ≠ key a := (hs.1 _ (List.mem_map_of_mem h)).ne
      rw [if_neg hne]
      exact filterMap_key key hs.2 h

theorem zipWith_map_zip {δ : Type*} (f : α → γ → δ) (g : β → γ) : ∀ (l : List α) (l' : List β),
    List.zipWith f l (l'.map g) = (l.zip l').map fun a => f a.1 (g a.2)
  | [], _ => rfl
  | _ :: _, [] => rfl
  | a :: l, b :: l' => by
    rw [List.map_cons, List.zipWith_cons_cons, zipWith_map_zip f g l l', List.zip_cons_cons,
      List.map_cons]

end Lists

namespace IssueUnit

variable {q : IssueUnit n d T} {i : In d I T}

theorem filterMap_valid {β : Type*} (f : Fin n → β) :
    (List.range n).filterMap (fun k => if h : k < n then
      if (q.slots ⟨k, h⟩).is_valid then some (f ⟨k, h⟩) else none else none) =
      q.valid_slots.map f := by
  rw [valid_slots, ← filterMap_filter, ← List.map_coe_finRange_eq_range, List.filterMap_map]
  refine List.filterMap_congr fun k _ => ?_
  exact dif_pos k.isLt

/-- The uop of a slot, as `held` has it. -/
def content (q : IssueUnit n d T) (k : Fin n) : MicroOp T :=
  { (q.slots k).slot_uop with iw_state := (q.slots k).state }.settled

theorem held_eq : q.held = q.valid_slots.map q.content := by
  rw [held, ← filterMap_valid]
  refine List.filterMap_congr fun k hk => ?_
  have hn := List.mem_range.1 hk
  rw [heldAt, dif_pos hn, dif_pos hn, Slot.held, Slot.is_valid]
  by_cases hs : (q.slots ⟨k, hn⟩).state = .s_invalid
  · rw [if_pos hs, if_neg (by simp [hs])]
  · rw [if_neg hs, if_pos (by simp [hs])]
    rfl

theorem taken_eq : q.taken i =
    q.valid_slots.map fun k => (q.slots k).taken i.bcast (q.grant i k) := by
  rw [taken, ← filterMap_valid]

theorem request_of_grant {k : Fin n} (h : q.grant i k = true) :
    (q.slots k).request i.bcast = true := by
  rw [grant, Bool.and_eq_true] at h
  exact h.1

/-- What dispatch hands over is made of what comes. -/
theorem accepted_eq : accepted i .MEM =
    (offered i).map fun u => (dispatchUop .MEM u).settled := by
  rw [accepted, offered, List.map_filterMap]
  refine List.filterMap_congr fun w hw => ?_
  have hd := List.mem_range.1 hw
  rw [dif_pos hd, dif_pos hd]
  cases (i.dis_uops ⟨w, hd⟩).filter fun u => !u.exception && !u.is_fence && !u.is_fencei with
  | none => rfl
  | some u =>
    rw [Option.bind_some, Option.map_some, MicroOp.pending, if_neg]
    simp only [dispatchUop]
    split_ifs <;> simp

end IssueUnit

namespace StoreSys

variable {s : StoreSys n d T} {i : IssueUnit.In d I T} {m : ℕ} {u : MicroOp T}

theorem content_of_slotted (h : s.sys.Inv) {a : Entry T × Fin n} (ha : a ∈ s.slotted) :
    a.1.uop = s.sys.unit.content a.2 :=
  eq_of_mem_zip (h.held.symm.trans IssueUnit.held_eq) ha

theorem map_slotted (h : s.sys.Inv) : s.slotted.map Prod.fst = s.sys.queue := by
  refine List.map_fst_zip ?_
  have := congrArg List.length (h.held.symm.trans IssueUnit.held_eq)
  rw [List.length_map, List.length_map] at this
  exact this.le

theorem exists_slotted (h : s.sys.Inv) {e : Entry T} (he : e ∈ s.sys.queue) :
    ∃ k, (e, k) ∈ s.slotted := by
  rw [← map_slotted h] at he
  obtain ⟨⟨e', k⟩, ha, rfl⟩ := List.mem_map.1 he
  exact ⟨k, ha⟩

theorem mem_queue_of_slotted {a : Entry T × Fin n} (ha : a ∈ s.slotted) : a.1 ∈ s.sys.queue :=
  (List.of_mem_zip ha).1

theorem stay_eq : s.sys.stay i = (s.slotted.map fun a =>
    (a.1.uop.left i.bcast.brupdate
      ((s.sys.unit.slots a.2).taken i.bcast (s.sys.unit.grant i a.2))).map
        (Entry.mk a.1.number)).reduceOption := by
  rw [Sys.stay, IssueUnit.taken_eq, zipWith_map_zip]
  rfl

theorem mem_stay_iff {e : Entry T} : e ∈ s.sys.stay i ↔ ∃ a ∈ s.slotted, e.number = a.1.number ∧
    a.1.uop.left i.bcast.brupdate
      ((s.sys.unit.slots a.2).taken i.bcast (s.sys.unit.grant i a.2)) = some e.uop := by
  rw [stay_eq, List.reduceOption_mem_iff, List.mem_map]
  constructor
  · rintro ⟨a, ha, he⟩
    obtain ⟨v, hv, rfl⟩ := Option.map_eq_some_iff.1 he
    exact ⟨a, ha, rfl, hv⟩
  · rintro ⟨a, ha, hn, hv⟩
    exact ⟨a, ha, by rw [hv, Option.map_some, ← hn]⟩

/-- What issues of an entry is what its slot issues. -/
theorem issues_of_slotted (h : s.sys.Inv) {a : Entry T × Fin n} (ha : a ∈ s.slotted) :
    s.issues i a.1.number = (s.sys.unit.piece i a.2).toList := by
  refine filterMap_key (fun a : Entry T × Fin n => a.1.number) ?_ ha
  have hs := h.sorted
  rw [← map_slotted h, List.map_map] at hs
  exact hs

theorem issues_of_not_mem (h : ∀ e ∈ s.sys.queue, e.number ≠ m) : s.issues i m = [] :=
  List.filterMap_eq_nil_iff.2 fun a ha => if_neg (h a.1 (mem_queue_of_slotted ha))

theorem eq_of_number (h : s.sys.Inv) {e e' : Entry T} (he : e ∈ s.sys.queue)
    (he' : e' ∈ s.sys.queue) (hn : e.number = e'.number) : e = e' :=
  List.inj_on_of_nodup_map (h.sorted.imp fun hlt => hlt.ne) he he' hn

/-! ## The invariant -/

/-- The invariant: what has been issued of each store. -/
structure Inv (s : StoreSys n d T) : Prop where
  sys : s.sys.Inv
  length : s.offered.length = s.sys.dispatched
  form : ∀ e ∈ s.sys.queue, ∀ u, s.offered[e.number]? = some u → u.IntStore ∨ u.FpStore →
    Form u e.uop (s.issued e.number)
  live : ∀ e ∈ s.sys.queue, s.killed e.number = false
  gone : ∀ m u, s.offered[m]? = some u → u.IntStore ∨ u.FpStore →
    (∀ e ∈ s.sys.queue, e.number ≠ m) → s.killed m = true ∨ Complete u (s.issued m)
  issued : ∀ m u, s.offered[m]? = some u → u.IntStore ∨ u.FpStore → Partial u (s.issued m)
  fresh : ∀ m, s.sys.dispatched ≤ m → s.issued m = [] ∧ s.killed m = false

theorem inv_of_start (h : (storeIssue n d I T).start s) : s.Inv := by
  obtain ⟨hs, ho, hi, hk⟩ := h
  have hq := hs.2.2.1
  refine ⟨Sys.inv_start hs, ?_, ?_, ?_, ?_, ?_, fun m _ => ⟨hi m, hk m⟩⟩
  · rw [ho, hs.2.2.2]
    rfl
  · intro e he
    rw [hq] at he
    exact absurd he List.not_mem_nil
  · intro e he
    rw [hq] at he
    exact absurd he List.not_mem_nil
  · intro m u hu
    rw [ho] at hu
    contradiction
  · intro m u hu
    rw [ho] at hu
    contradiction

/-- What a cycle does to a store in the queue. -/
theorem Inv.taken (h : s.Inv) {a : Entry T × Fin n} (ha : a ∈ s.slotted)
    (hu : s.offered[a.1.number]? = some u) (hst : u.IntStore ∨ u.FpStore) :
    let t := (s.sys.unit.slots a.2).taken i.bcast (s.sys.unit.grant i a.2)
    let p := s.sys.unit.piece i a.2
    (t = .nothing ∧ p = none) ∨
      (t = .all ∧ Complete u (s.issued a.1.number ++ p.toList)) ∨
      (t = .address ∧ p = some .address ∧ s.issued a.1.number = [] ∧ u.lrs2_rtype = .RT_FIX) ∨
      (t = .data ∧ p = some .data ∧ s.issued a.1.number = [] ∧ u.lrs2_rtype = .RT_FIX ∧
        a.1.uop.is_sta = true) := by
  have hc := content_of_slotted h.sys ha
  exact Slot.taken_of_form (by rw [hc]; rfl) (by rw [hc]; rfl) (by rw [hc]; rfl)
    IssueUnit.request_of_grant (h.form _ (mem_queue_of_slotted ha) u hu hst)

/-- What is left of a store has the form that its pieces say. -/
theorem Inv.form_left (h : s.Inv) {a : Entry T × Fin n} (ha : a ∈ s.slotted)
    (hu : s.offered[a.1.number]? = some u) (hst : u.IntStore ∨ u.FpStore) {v : MicroOp T}
    (hv : a.1.uop.left i.bcast.brupdate
      ((s.sys.unit.slots a.2).taken i.bcast (s.sys.unit.grant i a.2)) = some v) :
    Form u v (s.issued a.1.number ++ (s.sys.unit.piece i a.2).toList) := by
  have hf := h.form _ (mem_queue_of_slotted ha) u hu hst
  rw [MicroOp.left] at hv
  split_ifs at hv
  rcases h.taken (i := i) ha hu hst with ⟨ht, hp⟩ | ⟨ht, -⟩ | ⟨ht, hp, hl, h2⟩ | ⟨ht, hp, hl, h2, hs⟩
  · simp only [ht, Option.some.injEq] at hv
    rw [hp, Option.toList_none, List.append_nil, ← hv]
    exact hf.congr rfl rfl rfl
  · simp only [ht] at hv
    contradiction
  · simp only [ht, Option.some.injEq] at hv
    rw [hp, hl, ← hv]
    exact .data h2 rfl rfl
  · simp only [ht, Option.some.injEq] at hv
    rw [hp, hl, ← hv]
    exact .address h2 rfl hs rfl

theorem Inv.issued_of_slotted (h : s.Inv) {a : Entry T × Fin n} (ha : a ∈ s.slotted) :
    (s.next i).issued a.1.number =
      s.issued a.1.number ++ (s.sys.unit.piece i a.2).toList := by
  rw [← issues_of_slotted h.sys ha]
  rfl

theorem issued_of_not_mem (h : ∀ e ∈ s.sys.queue, e.number ≠ m) :
    (s.next i).issued m = s.issued m := by
  show s.issued m ++ s.issues i m = _
  rw [issues_of_not_mem h, List.append_nil]

theorem Inv.partial_of_slotted (h : s.Inv) {a : Entry T × Fin n} (ha : a ∈ s.slotted)
    (hu : s.offered[a.1.number]? = some u) (hst : u.IntStore ∨ u.FpStore) :
    Partial u (s.issued a.1.number ++ (s.sys.unit.piece i a.2).toList) := by
  rcases h.taken (i := i) ha hu hst with ⟨-, hp⟩ | ⟨-, hc⟩ | ⟨-, hp, hl, h2⟩ | ⟨-, hp, hl, h2, -⟩
  · rw [hp, Option.toList_none, List.append_nil]
    exact h.issued _ u hu hst
  · exact .inr (.inr hc)
  · rw [hp, hl]
    exact .inr (.inl ⟨h2, .inl rfl⟩)
  · rw [hp, hl]
    exact .inr (.inl ⟨h2, .inr rfl⟩)

/-- The new entries, with the uops they stand for. -/
theorem mem_enter_iff {e : Entry T} : e ∈ s.sys.enter i .MEM ↔ ∃ j u,
    (IssueUnit.offered i)[j]? = some u ∧ e = ⟨s.sys.dispatched + j, (dispatchUop .MEM u).settled⟩ := by
  rw [Sys.enter, IssueUnit.accepted_eq, List.mem_mapIdx]
  constructor
  · rintro ⟨j, hj, rfl⟩
    rw [List.length_map] at hj
    exact ⟨j, _, List.getElem?_eq_getElem hj, by rw [List.getElem_map]⟩
  · rintro ⟨j, u, hj, rfl⟩
    obtain ⟨hlt, rfl⟩ := List.getElem?_eq_some_iff.1 hj
    exact ⟨j, by rw [List.length_map]; exact hlt, by rw [List.getElem_map]⟩

theorem form_dispatch (hst : u.IntStore ∨ u.FpStore) :
    Form u (dispatchUop .MEM u).settled [] := by
  rcases hst with ⟨hsta, h2⟩ | ⟨hsta, h2⟩
  · have hc : u.uopc = .uopSTA ∧ u.lrs2_rtype = .RT_FIX ∨ u.uopc = .uopAMO_AG := by
      rw [MicroOp.is_sta, Bool.or_eq_true, decide_eq_true_eq, decide_eq_true_eq] at hsta
      exact hsta.imp (⟨·, h2⟩) id
    have hd : (dispatchUop .MEM u).iw_state = .s_valid_2 ∧ (dispatchUop .MEM u).uopc = u.uopc ∧
        (dispatchUop .MEM u).lrs2_rtype = u.lrs2_rtype := by
      simp only [dispatchUop, if_pos hc, and_self]
    refine .whole h2 hd.1 ?_ (hd.2.2.trans h2)
    show (dispatchUop .MEM u).is_sta = true
    rw [MicroOp.is_sta, hd.2.1]
    exact hsta
  · have hc : ¬ (u.uopc = .uopSTA ∧ u.lrs2_rtype = .RT_FIX ∨ u.uopc = .uopAMO_AG) := by
      rw [hsta]
      rintro (⟨-, h⟩ | h)
      · exact h2 h
      · contradiction
    have hd : (dispatchUop .MEM u).iw_state = .s_valid_1 ∧ (dispatchUop .MEM u).uopc = u.uopc ∧
        (dispatchUop .MEM u).lrs2_rtype = .RT_X := by
      simp only [dispatchUop, if_neg hc, if_pos hsta, and_self]
    refine .fp h2 hd.1 ?_ hd.2.2
    show (dispatchUop .MEM u).is_sta = true
    rw [MicroOp.is_sta, hd.2.1, hsta]
    rfl

theorem queue_next (hk : i.bcast.kill = false) :
    (s.next i).sys.queue = s.sys.stay i ++ s.sys.enter i .MEM := by
  show (if i.bcast.kill then [] else _) = _
  rw [hk]
  rfl

theorem mem_queue_next {e : Entry T} (he : e ∈ (s.next i).sys.queue) :
    i.bcast.kill = false ∧ (e ∈ s.sys.stay i ∨ e ∈ s.sys.enter i .MEM) := by
  cases hk : i.bcast.kill with
  | true =>
    rw [show (s.next i).sys.queue = [] by
      show (if i.bcast.kill then [] else _) = _; rw [hk]; rfl] at he
    exact absurd he List.not_mem_nil
  | false =>
    rw [queue_next hk, List.mem_append] at he
    exact ⟨rfl, he⟩

theorem Inv.offered_old (h : s.Inv) (hm : m < s.sys.dispatched) :
    (s.next i).offered[m]? = s.offered[m]? :=
  List.getElem?_append_left (h.length ▸ hm)

theorem Inv.offered_new (h : s.Inv) (j : ℕ) :
    (s.next i).offered[s.sys.dispatched + j]? = (IssueUnit.offered i)[j]? := by
  show (s.offered ++ IssueUnit.offered i)[_]? = _
  rw [List.getElem?_append_right (by rw [h.length]; exact Nat.le_add_right _ _), h.length,
    Nat.add_sub_cancel_left]

theorem Inv.not_mem_of_le (h : s.Inv) (hm : s.sys.dispatched ≤ m) {e : Entry T}
    (he : e ∈ s.sys.queue) : e.number ≠ m :=
  (Nat.lt_of_lt_of_le (h.sys.older e he) hm).ne

theorem Inv.form_next (h : s.Inv) {e : Entry T} (he : e ∈ (s.next i).sys.queue)
    (hu : (s.next i).offered[e.number]? = some u) (hst : u.IntStore ∨ u.FpStore) :
    Form u e.uop ((s.next i).issued e.number) := by
  rcases (mem_queue_next he).2 with he | he
  · obtain ⟨a, ha, hn, hv⟩ := mem_stay_iff.1 he
    rw [hn] at hu ⊢
    rw [h.offered_old (h.sys.older _ (mem_queue_of_slotted ha))] at hu
    rw [h.issued_of_slotted ha]
    exact h.form_left ha hu hst hv
  · obtain ⟨j, u', hj, rfl⟩ := mem_enter_iff.1 he
    rw [h.offered_new, hj, Option.some.injEq] at hu
    have hle := Nat.le_add_right s.sys.dispatched j
    rw [issued_of_not_mem fun e he => h.not_mem_of_le hle he, (h.fresh _ hle).1, hu]
    exact form_dispatch hst

theorem kills_of_branch (hk : i.bcast.kill = false) :
    s.kills i m = true ↔ ∃ e ∈ s.sys.queue, e.number = m ∧
      isKilledByBranch i.bcast.brupdate e.uop.br_mask = true := by
  rw [kills, hk, Bool.false_and, Bool.or_false, List.any_eq_true]
  simp only [Bool.false_or, Bool.and_eq_true, beq_iff_eq]

theorem Inv.live_next (h : s.Inv) {e : Entry T} (he : e ∈ (s.next i).sys.queue) :
    (s.next i).killed e.number = false := by
  obtain ⟨hk, he⟩ := mem_queue_next he
  show (s.killed e.number || s.kills i e.number) = false
  rcases he with he | he
  · obtain ⟨a, ha, hn, hv⟩ := mem_stay_iff.1 he
    rw [hn, h.live _ (mem_queue_of_slotted ha), Bool.false_or, ← Bool.not_eq_true,
      kills_of_branch hk]
    rintro ⟨e', he', hn', hkill⟩
    rw [eq_of_number h.sys he' (mem_queue_of_slotted ha) hn'] at hkill
    rw [MicroOp.left, if_pos hkill] at hv
    contradiction
  · obtain ⟨j, u', -, rfl⟩ := mem_enter_iff.1 he
    have hle := Nat.le_add_right s.sys.dispatched j
    rw [(h.fresh _ hle).2, Bool.false_or, ← Bool.not_eq_true, kills_of_branch hk]
    rintro ⟨e', he', hn', -⟩
    exact h.not_mem_of_le hle he' hn'

/-- A store that leaves the queue is killed or complete. -/
theorem Inv.gone_of_slotted (h : s.Inv) {a : Entry T × Fin n} (ha : a ∈ s.slotted)
    (hu : s.offered[a.1.number]? = some u) (hst : u.IntStore ∨ u.FpStore)
    (hgone : ∀ e ∈ (s.next i).sys.queue, e.number ≠ a.1.number) :
    (s.next i).killed a.1.number = true ∨ Complete u ((s.next i).issued a.1.number) := by
  have hq := mem_queue_of_slotted ha
  cases hk : i.bcast.kill with
  | true =>
    left
    show (s.killed a.1.number || s.kills i a.1.number) = true
    rw [kills, hk, Bool.or_eq_true, Bool.or_eq_true, List.any_eq_true]
    exact .inr (.inl ⟨a.1, hq, by rw [beq_self_eq_true]; rfl⟩)
  | false =>
    by_cases hkill : isKilledByBranch i.bcast.brupdate a.1.uop.br_mask = true
    · left
      show (s.killed a.1.number || s.kills i a.1.number) = true
      rw [(kills_of_branch hk).2 ⟨a.1, hq, rfl, hkill⟩, Bool.or_true]
    · right
      rw [h.issued_of_slotted ha]
      have hstays {v : MicroOp T} : a.1.uop.left i.bcast.brupdate
          ((s.sys.unit.slots a.2).taken i.bcast (s.sys.unit.grant i a.2)) ≠ some v := by
        intro hv
        refine hgone ⟨a.1.number, v⟩ ?_ rfl
        rw [queue_next hk]
        exact List.mem_append_left _ (mem_stay_iff.2 ⟨a, ha, rfl, hv⟩)
      rcases h.taken (i := i) ha hu hst with ⟨ht, -⟩ | ⟨-, hc⟩ | ⟨ht, -⟩ | ⟨ht, -⟩
      · exact absurd (by rw [MicroOp.left, if_neg hkill, ht]) hstays
      · exact hc
      · exact absurd (by rw [MicroOp.left, if_neg hkill, ht]) hstays
      · exact absurd (by rw [MicroOp.left, if_neg hkill, ht]) hstays

/-- The entry of a number that is still in the queue, if there is one. -/
theorem Inv.slotted_or (h : s.Inv) (m : ℕ) :
    (∃ a ∈ s.slotted, a.1.number = m) ∨ ∀ e ∈ s.sys.queue, e.number ≠ m := by
  by_cases hm : ∃ e ∈ s.sys.queue, e.number = m
  · obtain ⟨e, he, hn⟩ := hm
    obtain ⟨k, hk⟩ := exists_slotted h.sys he
    exact .inl ⟨_, hk, hn⟩
  · exact .inr fun e he hn => hm ⟨e, he, hn⟩

/-- A number is new, or its uop was there before. -/
theorem Inv.offered_cases (h : s.Inv) (hu : (s.next i).offered[m]? = some u) :
    (m < s.sys.dispatched ∧ s.offered[m]? = some u) ∨
      ∃ j, m = s.sys.dispatched + j ∧ (IssueUnit.offered i)[j]? = some u := by
  rcases Nat.lt_or_ge m s.sys.dispatched with hm | hm
  · exact .inl ⟨hm, h.offered_old (i := i) hm ▸ hu⟩
  · obtain ⟨j, rfl⟩ := Nat.exists_eq_add_of_le hm
    exact .inr ⟨j, rfl, h.offered_new (i := i) j ▸ hu⟩

theorem Inv.gone_next (h : s.Inv) (hu : (s.next i).offered[m]? = some u)
    (hst : u.IntStore ∨ u.FpStore) (hgone : ∀ e ∈ (s.next i).sys.queue, e.number ≠ m) :
    (s.next i).killed m = true ∨ Complete u ((s.next i).issued m) := by
  rcases h.offered_cases hu with ⟨-, hu⟩ | ⟨j, rfl, hj⟩
  · rcases h.slotted_or m with ⟨a, ha, rfl⟩ | hno
    · exact h.gone_of_slotted ha hu hst hgone
    · rw [issued_of_not_mem hno]
      refine (h.gone m u hu hst hno).imp (fun hk => ?_) id
      show (s.killed m || s.kills i m) = true
      rw [hk, Bool.true_or]
  · have he : (⟨s.sys.dispatched + j, (dispatchUop .MEM u).settled⟩ : Entry T) ∈
        s.sys.enter i .MEM := mem_enter_iff.2 ⟨j, u, hj, rfl⟩
    cases hk : i.bcast.kill with
    | true =>
      left
      show (s.killed _ || s.kills i _) = true
      rw [kills, hk, Bool.true_and, Bool.or_eq_true, Bool.or_eq_true]
      exact .inr (.inr (List.any_eq_true.2 ⟨_, he, beq_self_eq_true _⟩))
    | false =>
      refine absurd rfl (hgone ⟨s.sys.dispatched + j, (dispatchUop .MEM u).settled⟩ ?_)
      rw [queue_next hk]
      exact List.mem_append_right _ he

theorem Inv.issued_next (h : s.Inv) (hu : (s.next i).offered[m]? = some u)
    (hst : u.IntStore ∨ u.FpStore) : Partial u ((s.next i).issued m) := by
  rcases h.offered_cases hu with ⟨-, hu⟩ | ⟨j, rfl, hj⟩
  · rcases h.slotted_or m with ⟨a, ha, rfl⟩ | hno
    · rw [h.issued_of_slotted ha]
      exact h.partial_of_slotted ha hu hst
    · rw [issued_of_not_mem hno]
      exact h.issued m u hu hst
  · have hle := Nat.le_add_right s.sys.dispatched j
    rw [issued_of_not_mem fun e he => h.not_mem_of_le hle he, (h.fresh _ hle).1]
    exact .inl rfl

theorem Inv.fresh_next (h : s.Inv) (hm : (s.next i).sys.dispatched ≤ m) :
    (s.next i).issued m = [] ∧ (s.next i).killed m = false := by
  have hadd : s.sys.dispatched + (IssueUnit.accepted i .MEM).length ≤ m := hm
  have hle := (Nat.le_add_right _ _).trans hadd
  refine ⟨?_, ?_⟩
  · rw [issued_of_not_mem fun e he => h.not_mem_of_le hle he, (h.fresh m hle).1]
  · show (s.killed m || s.kills i m) = false
    rw [(h.fresh m hle).2, Bool.false_or, kills, Bool.or_eq_false_iff, Bool.and_eq_false_iff]
    constructor
    · refine List.any_eq_false.2 fun e he => ?_
      rw [Bool.and_eq_true, beq_iff_eq]
      exact fun hn => h.not_mem_of_le hle he hn.1
    · refine .inr (List.any_eq_false.2 fun e he => ?_)
      rw [beq_iff_eq]
      exact ((Sys.mem_enter he).2.trans_le hadd).ne

theorem Inv.next [NeZero d] (h : s.Inv) (hok : (storeIssue n d I T).ok s i) : (s.next i).Inv where
  sys := Sys.inv_step h.sys hok
  length := by
    show (s.offered ++ IssueUnit.offered i).length = s.sys.dispatched + _
    rw [List.length_append, h.length, IssueUnit.accepted_eq, List.length_map]
  form _ he _ hu hst := h.form_next he hu hst
  live _ he := h.live_next he
  gone _ _ hu hst hgone := h.gone_next hu hst hgone
  issued _ _ hu hst := h.issued_next hu hst
  fresh _ hm := h.fresh_next hm

theorem inv_of_reach [NeZero d] (h : (storeIssue n d I T).Reach s) : s.Inv :=
  h.inv (fun _ h => inv_of_start h) fun _ _ h hok => h.next hok

/-- A store that is in the queue is not complete. -/
theorem Inv.mem_iff (h : s.Inv) (hu : s.offered[m]? = some u) (hst : u.IntStore ∨ u.FpStore)
    (hk : s.killed m = false) :
    (∃ e ∈ s.sys.queue, e.number = m) ↔ ¬ Complete u (s.issued m) := by
  constructor
  · rintro ⟨e, he, rfl⟩
    exact (h.form e he u hu hst).not_complete
  · intro hno
    by_contra hgone
    rcases h.gone m u hu hst fun e he hn => hgone ⟨e, he, hn⟩ with hkill | hc
    · rw [hk] at hkill
      contradiction
    · exact hno hc

theorem Inv.fed (h : s.Inv) {a : Entry T × Fin n} (ha : a ∈ s.slotted)
    (hu : s.offered[a.1.number]? = some u) (hst : u.IntStore ∨ u.FpStore) {c : Piece}
    (hc : s.sys.unit.piece i a.2 = some c) : (s.sys.unit.slots a.2).Fed i.bcast c := by
  refine Slot.fed_of_piece IssueUnit.request_of_grant (fun hw => ?_) hc
  have hcon := content_of_slotted h.sys ha
  have hf := h.form _ (mem_queue_of_slotted ha) u hu hst
  have hsta : a.1.uop.is_sta = (s.sys.unit.slots a.2).slot_uop.is_sta := by rw [hcon]; rfl
  have hstate : a.1.uop.iw_state = .s_valid_2 := by rw [hcon]; exact hw
  rw [← hsta]
  generalize s.issued a.1.number = l at hf
  cases hf with
  | whole _ _ h3 _ => exact h3
  | data _ h2 _ =>
    rw [hstate] at h2
    contradiction
  | address _ _ h3 _ => exact h3
  | fp _ _ h3 _ => exact h3

end StoreSys

/-- **The halves of a store issue once each**: of a store or AMO with integer
    data both at once or one after the other in either order, of one with
    floating-point data the address; it is in its slot exactly until then,
    unless it is killed; and each half issues with its operand. -/
theorem store_pieces [NeZero d] {s : StoreSys n d T} (h : (storeIssue n d I T).Reach s) {m : ℕ}
    {u : MicroOp T} (hu : s.offered[m]? = some u) (hst : u.IntStore ∨ u.FpStore) :
    Partial u (s.issued m) ∧
      (s.killed m = false →
        ((∃ e ∈ s.sys.queue, e.number = m) ↔ ¬ Complete u (s.issued m))) ∧
      ∀ i : IssueUnit.In d I T, ∀ a ∈ s.slotted, a.1.number = m → ∀ c,
        s.sys.unit.piece i a.2 = some c → (s.sys.unit.slots a.2).Fed i.bcast c := by
  have hi := StoreSys.inv_of_reach h
  refine ⟨hi.issued m u hu hst, hi.mem_iff hu hst, fun i a ha hn c hc => ?_⟩
  exact hi.fed ha (hn ▸ hu) hst hc

/-- A store whose address is there and whose data is still on its way. -/
def storeUop (lrs2_rtype : RType) : MicroOp 1 :=
  { aluUop 0 with uopc := .uopSTA, lrs2_rtype := lrs2_rtype, prs2 := 5, prs2_busy := true }

/-- The store is dispatched; in the next cycle it issues what it can. -/
def storeRun (lrs2_rtype : RType) : List (IssueUnit.In 2 1 1) :=
  [present fun w => if w = 0 then some (storeUop lrs2_rtype) else none, present fun _ => none]

/-- The queue after a store. -/
def afterStore (lrs2_rtype : RType) : StoreSys 3 2 1 :=
  (storeIssue 3 2 1 1).run ⟨⟨emptyUnit, [], 0⟩, [], fun _ => [], fun _ => false⟩
    (storeRun lrs2_rtype)

theorem storeRun_reach (lrs2_rtype : RType) :
    (storeIssue 3 2 1 1).Reach (afterStore lrs2_rtype) := by
  have test : ∀ (s : StoreSys 3 2 1) (i : IssueUnit.In 2 1 1),
      decide (∀ w, (i.dis_uops w).isSome → s.sys.unit.ready w = true) = true →
        (storeIssue 3 2 1 1).ok s i := by
    intro s i h
    rw [decide_eq_true_iff] at h
    exact h
  refine Machine.reach_run _ (.start ⟨⟨fun _ => rfl, fun w _ => ?_, rfl, rfl⟩, rfl,
    fun _ => rfl, fun _ => rfl⟩) ?_
  · exact w.isLt.trans (by decide)
  · cases lrs2_rtype <;> exact Machine.accepts_of_passes test _ _ (by decide)

theorem store_pieces_half :
    (afterStore .RT_FIX).issued 0 = [.address] ∧
      ∃ e ∈ (afterStore .RT_FIX).sys.queue, e.number = 0 := by
  have hu : (afterStore .RT_FIX).offered[0]? = some (storeUop .RT_FIX) := rfl
  have hissued : (afterStore .RT_FIX).issued 0 = [.address] := by decide
  have hpieces := store_pieces (storeRun_reach .RT_FIX) hu (.inl ⟨by decide, rfl⟩)
  refine ⟨hissued, (hpieces.2.1 (by decide)).2 ?_⟩
  rw [hissued]
  simp [Complete, storeUop]

/-- A store with floating-point data leaves the memory queue with its address
    issued and its data not. -/
theorem store_data_not_issued :
    ¬ ∀ s : StoreSys 3 2 1, (storeIssue 3 2 1 1).Reach s → ∀ m u, s.offered[m]? = some u →
      u.is_sta = true → s.killed m = false → (∀ e ∈ s.sys.queue, e.number ≠ m) →
        s.issued m = [.both] ∨ s.issued m = [.address, .data] ∨ s.issued m = [.data, .address] := by
  intro h
  have hissued := h (afterStore .RT_FLT) (storeRun_reach .RT_FLT) 0 (storeUop .RT_FLT)
    rfl (by decide) (by decide) (by decide)
  revert hissued
  decide

end BoomStop.Issue
