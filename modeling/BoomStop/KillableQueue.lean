/-
  `BranchKillableQueue` (`util.scala`): a ring whose entries are killed by
  branches and by flushes where they stand.  What is killed stays as a hole, and
  holes are skipped one in a cycle; with `flow`, an empty queue hands an entry
  through.

  * `Queue.next`, `Queue.deq`, `Queue.count`: one cycle and the outputs;
  * `Sys`: the queue beside a FIFO of survivors, `Survivors.Fifo`, that gets the
    same inputs;
  * `Sys.Ring`, `Sys.Inv`: where the entries are, and that those that are valid
    are what the FIFO holds;
  * `killable_queue`: the result; `count_iff`: when `io.count` is right;
  * `killable_queue_fails`: a full queue, and a flush that is ignored.
-/
import Mathlib.Data.Nat.Log
import BoomStop.Issue
import BoomStop.Lib.RingOrder
import BoomStop.Lib.Survivors
import BoomStop.Lib.Waiting

namespace BoomStop.KillableQueue

open Sync RingOrder Survivors Waiting
open Issue (BrUpdate getNewBrMask isKilledByBranch)

variable {n T : ℕ} {U D : Type}

/-- A uop: its branch mask, and the rest. -/
structure MicroOp (T : ℕ) (U : Type) where
  fields : U
  br_mask : Fin T → Bool

/-- What the queue is made for. -/
structure Bits (T : ℕ) (U D : Type) where
  data : D
  uop : MicroOp T U

/-- The uop with `GetNewBrMask`. -/
def MicroOp.update (b : BrUpdate T) (u : MicroOp T U) : MicroOp T U :=
  { u with br_mask := getNewBrMask b u.br_mask }

/-- `UpdateBrMask`. -/
def Bits.update (b : BrUpdate T) (x : Bits T U D) : Bits T U D := { x with uop := x.uop.update b }

/-- The parameters of the class, beside `entries`, which is `n`. -/
structure Config (T : ℕ) (U : Type) where
  flush_fn : MicroOp T U → Bool
  flow : Bool

/-- The registers; a counter is its value. -/
structure Queue (n T : ℕ) (U D : Type) where
  ram : Fin n → Bits T U D
  valids : Fin n → Bool
  uops : Fin n → MicroOp T U
  enq_ptr : Fin n
  deq_ptr : Fin n
  maybe_full : Bool

/-- The inputs of a cycle; `enq` is there if it is valid. -/
structure In (T : ℕ) (U D : Type) where
  enq : Option (Bits T U D)
  deq_ready : Bool
  brupdate : BrUpdate T
  flush : Bool

/-- The uop is killed or flushed. -/
def In.drops (c : Config T U) (i : In T U D) (u : MicroOp T U) : Bool :=
  isKilledByBranch i.brupdate u.br_mask || i.flush && c.flush_fn u

namespace Queue

variable (c : Config T U) (q : Queue n T U D) (i : In T U D)

/-- The pointers meet: the queue is empty or full. -/
def ptr_match : Bool := q.enq_ptr = q.deq_ptr

/-- `io.empty` -/
def empty : Bool := q.ptr_match && !q.maybe_full

/-- The negation of `io.enq.ready` -/
def full : Bool := q.ptr_match && q.maybe_full

/-- `io.enq.fire()`, as what comes in. -/
def accepts : Option (Bits T U D) := if q.full then none else i.enq

/-- The entry at the head, with its uop as it is by now. -/
def out : Bits T U D := { q.ram q.deq_ptr with uop := q.uops q.deq_ptr }

/-- The flow behaviour of an empty queue. -/
def bypasses : Bool := c.flow && q.empty

/-- `io.deq`, if it is valid. -/
def deq : Option (Bits T U D) :=
  if q.bypasses c then i.enq.map (Bits.update i.brupdate)
  else if !q.empty && q.valids q.deq_ptr && !i.drops c q.out.uop then some (q.out.update i.brupdate)
  else none

/-- `do_enq`, as what is written. -/
def do_enq : Option (Bits T U D) := if q.bypasses c && i.deq_ready then none else q.accepts i

/-- The head is given up: it is taken, or it is a hole. -/
def do_deq : Bool :=
  if q.bypasses c then false else (i.deq_ready || !q.valids q.deq_ptr) && !q.empty

/-- A cycle; what comes in last wins over the update of its place. -/
def next [NeZero n] : Queue n T U D where
  ram r :=
    match q.do_enq c i with
    | some b => if r = q.enq_ptr then b else q.ram r
    | none => q.ram r
  valids r :=
    if q.do_deq c i && r = q.deq_ptr then false
    else if (q.do_enq c i).isSome && r = q.enq_ptr then true
    else q.valids r && !i.drops c (q.uops r)
  uops r :=
    match q.do_enq c i with
    | some b =>
      if r = q.enq_ptr then b.uop.update i.brupdate
      else if q.valids r then (q.uops r).update i.brupdate else q.uops r
    | none => if q.valids r then (q.uops r).update i.brupdate else q.uops r
  enq_ptr := if (q.do_enq c i).isSome then wrapInc q.enq_ptr else q.enq_ptr
  deq_ptr := if q.do_deq c i then wrapInc q.deq_ptr else q.deq_ptr
  maybe_full :=
    if (q.do_enq c i).isSome ≠ q.do_deq c i then (q.do_enq c i).isSome else q.maybe_full

/-! ### `io.count` -/

/-- `isPow2(entries)` -/
def isPow2 (n : ℕ) : Bool := n = 2 ^ Nat.clog 2 n

/-- The difference of the pointers, in their own width. -/
def ptr_diff : ℕ := (q.enq_ptr.val + 2 ^ Nat.clog 2 n - q.deq_ptr.val) % 2 ^ Nat.clog 2 n

/-- The port has `log2Ceil(entries)` bits. -/
def count : ℕ :=
  (if isPow2 n then (if q.full then 2 ^ Nat.clog 2 n else 0) + q.ptr_diff
    else if q.ptr_match then if q.maybe_full then n else 0
    else if q.deq_ptr > q.enq_ptr then n + q.ptr_diff
    else q.ptr_diff) % 2 ^ Nat.clog 2 n

end Queue

/-! ## Beside a FIFO of survivors -/

/-- An entry, with the cycle in which it came in. -/
structure Item (T : ℕ) (U D : Type) where
  number : ℕ
  bits : Bits T U D

/-- The queue; when the entry in each place came in; how many places were taken
    and given back so far; the FIFO; and the tags that were resolved, cycle by
    cycle. -/
structure Sys (n T : ℕ) (U D : Type) where
  q : Queue n T U D
  tag : Fin n → ℕ
  enqNo : ℕ
  deqNo : ℕ
  now : ℕ
  fifo : Fifo (Item T U D)
  resolved : List (Fin T → Bool)

/-- An entry less the tags that some cycles resolve. -/
def Bits.since (ms : List (Fin T → Bool)) (x : Bits T U D) : Bits T U D :=
  { x with uop := { x.uop with br_mask := fun t => x.uop.br_mask t && !ms.any fun m => m t } }

namespace Sys

variable (c : Config T U) (s : Sys n T U D) (i : In T U D)

/-- What a cycle does to an entry that waits. -/
def upd (x : Item T U D) : Option (Item T U D) :=
  if i.drops c x.bits.uop then none else some { x with bits := x.bits.update i.brupdate }

/-- What comes into the queue, with the cycle. -/
def accepted : Option (Item T U D) := (s.q.accepts i).map (⟨s.now, ·⟩)

/-- `io.deq.fire()` -/
def delivers : Bool := (s.q.deq c i).isSome && i.deq_ready

/-- One cycle, with the history. -/
def next [NeZero n] : Sys n T U D where
  q := s.q.next c i
  tag r := if (s.q.do_enq c i).isSome && r = s.q.enq_ptr then s.now else s.tag r
  enqNo := if (s.q.do_enq c i).isSome then s.enqNo + 1 else s.enqNo
  deqNo := if s.q.do_deq c i then s.deqNo + 1 else s.deqNo
  now := s.now + 1
  fifo := s.fifo.step Item.number (upd c i) (s.accepted i) (s.delivers c i)
  resolved := s.resolved ++ [i.brupdate.resolve_mask]

/-- How many places are taken. -/
def occupied : ℕ := s.enqNo - s.deqNo

/-- The entry in the place of a number. -/
def cell [NeZero n] (k : ℕ) : Option (Item T U D) :=
  if s.q.valids (place n k) then
    some ⟨s.tag (place n k), { s.q.ram (place n k) with uop := s.q.uops (place n k) }⟩
  else none

/-- The entries that wait in the ring. -/
def waiting [NeZero n] : List (Item T U D) :=
  (List.range' s.deqNo (s.enqNo - s.deqNo)).filterMap s.cell

/-- After reset. -/
structure Reset [NeZero n] : Prop where
  valids : ∀ r, s.q.valids r = false
  enq_ptr : s.q.enq_ptr = 0
  deq_ptr : s.q.deq_ptr = 0
  maybe_full : s.q.maybe_full = false
  enqNo : s.enqNo = 0
  deqNo : s.deqNo = 0
  now : s.now = 0
  fifo : s.fifo = .empty
  resolved : s.resolved = []

/-- `enq` is not valid for a uop that is killed. -/
def Ok : Prop := ∀ b, i.enq = some b → isKilledByBranch i.brupdate b.uop.br_mask = false

/-- Nothing that the flush selects comes in. -/
def Calm : Prop := ∀ b, s.q.accepts i = some b → i.flush = true → c.flush_fn b.uop = false

/-- The pointers. -/
structure Ring [NeZero n] : Prop where
  enq_ptr : s.q.enq_ptr = place n s.enqNo
  deq_ptr : s.q.deq_ptr = place n s.deqNo
  le : s.deqNo ≤ s.enqNo
  fits : s.enqNo ≤ s.deqNo + n
  maybe_full : s.q.ptr_match = true → (s.q.maybe_full = true ↔ s.enqNo ≠ s.deqNo)
  valids : ∀ r, s.q.valids r = true → ∃ k, s.deqNo ≤ k ∧ k < s.enqNo ∧ place n k = r

/-- The invariant. -/
structure Inv [NeZero n] : Prop where
  ring : s.Ring
  holds : s.fifo.waiting = s.waiting
  law : s.fifo.Law Item.number
  past : ∀ x ∈ s.fifo.accepted, x.number < s.now
  length : s.resolved.length = s.now
  masks : ∀ x ∈ s.fifo.waiting, ∃ a ∈ s.fifo.accepted, a.number = x.number ∧
    x.bits = a.bits.since (s.resolved.drop a.number)

end Sys

/-- The queue, from reset. -/
def queue [NeZero n] (c : Config T U) : Machine (Sys n T U D) (In T U D) where
  start s := s.Reset
  ok _ i := Sys.Ok i
  next s i := s.next c i

section

variable [NeZero n] {c : Config T U} {s : Sys n T U D} {i : In T U D}

/-! ## The ring -/

theorem ptr_match_iff (h : s.Ring) :
    s.q.ptr_match = true ↔ s.enqNo = s.deqNo ∨ s.enqNo = s.deqNo + n := by
  have := h.le
  have := h.fits
  rw [Queue.ptr_match, decide_eq_true_eq, h.enq_ptr, h.deq_ptr]
  constructor
  · intro he
    by_cases hlt : s.enqNo = s.deqNo + n
    · exact .inr hlt
    · exact .inl (place_inj (k := s.deqNo) (by omega) le_rfl (by omega) (by
        have := Nat.pos_of_neZero n
        omega) he)
  · rintro (he | he)
    · rw [he]
    · rw [he, place_add_self]

theorem empty_iff (h : s.Ring) : s.q.empty = true ↔ s.enqNo = s.deqNo := by
  have := Nat.pos_of_neZero n
  rw [Queue.empty, Bool.and_eq_true, Bool.not_eq_true', ptr_match_iff h]
  constructor
  · rintro ⟨hm, hf⟩
    have hfull := h.maybe_full ((ptr_match_iff h).2 hm)
    rw [hf] at hfull
    by_contra hne
    exact absurd (hfull.2 hne) (by simp)
  · intro he
    refine ⟨.inl he, ?_⟩
    by_contra hf
    exact (h.maybe_full ((ptr_match_iff h).2 (.inl he))).1 (by simpa using hf) he

theorem full_iff (h : s.Ring) : s.q.full = true ↔ s.enqNo = s.deqNo + n := by
  have := Nat.pos_of_neZero n
  rw [Queue.full, Bool.and_eq_true, ptr_match_iff h]
  constructor
  · rintro ⟨hm, hf⟩
    have hne := (h.maybe_full ((ptr_match_iff h).2 hm)).1 hf
    exact hm.resolve_left hne
  · intro he
    exact ⟨.inr he, (h.maybe_full ((ptr_match_iff h).2 (.inr he))).2 (by omega)⟩

omit [NeZero n] in
theorem accepts_of_do_enq {b : Bits T U D} (he : s.q.do_enq c i = some b) :
    s.q.accepts i = some b := by
  unfold Queue.do_enq at he
  split_ifs at he
  exact he

omit [NeZero n] in
theorem not_full_of_accepts {b : Bits T U D} (he : s.q.accepts i = some b) :
    s.q.full = false ∧ i.enq = some b := by
  unfold Queue.accepts at he
  split_ifs at he with hf
  exact ⟨by simpa using hf, he⟩

/-- What is written finds room. -/
theorem room_of_do_enq (h : s.Ring) (he : (s.q.do_enq c i).isSome = true) :
    s.enqNo < s.deqNo + n := by
  obtain ⟨b, hb⟩ := Option.isSome_iff_exists.1 he
  have hf := (not_full_of_accepts (accepts_of_do_enq hb)).1
  have hne : s.enqNo ≠ s.deqNo + n := fun e => absurd (hf.symm.trans ((full_iff h).2 e)) (by simp)
  have := h.fits
  omega

theorem nonempty_of_do_deq (h : s.Ring) (hd : s.q.do_deq c i = true) :
    s.deqNo < s.enqNo ∧ (i.deq_ready = true ∨ s.q.valids s.q.deq_ptr = false) := by
  unfold Queue.do_deq at hd
  split_ifs at hd
  simp only [Bool.and_eq_true, Bool.or_eq_true, Bool.not_eq_true'] at hd
  have hne : s.enqNo ≠ s.deqNo := fun e => absurd (hd.2.symm.trans ((empty_iff h).2 e)) (by simp)
  have := h.le
  exact ⟨by omega, hd.1⟩

/-- **No entry is overwritten.** -/
theorem free_of_do_enq (h : s.Ring) (he : (s.q.do_enq c i).isSome = true) :
    s.q.valids s.q.enq_ptr = false := by
  by_contra hv
  obtain ⟨k, hk, hlt, hp⟩ := h.valids _ (by simpa using hv)
  have hroom := room_of_do_enq h he
  have := h.le
  have := place_inj (k := s.deqNo) hk h.le (by omega) hroom (hp.trans h.enq_ptr)
  omega

theorem valids_next (r : Fin n) : (s.next c i).q.valids r =
    if s.q.do_deq c i && r = s.q.deq_ptr then false
    else if (s.q.do_enq c i).isSome && r = s.q.enq_ptr then true
    else s.q.valids r && !i.drops c (s.q.uops r) := rfl

theorem numbers_next : (s.next c i).enqNo = s.enqNo + (s.q.do_enq c i).isSome.toNat ∧
    (s.next c i).deqNo = s.deqNo + (s.q.do_deq c i).toNat := by
  show (if (s.q.do_enq c i).isSome then s.enqNo + 1 else s.enqNo) = _ ∧
    (if s.q.do_deq c i then s.deqNo + 1 else s.deqNo) = _
  cases (s.q.do_enq c i).isSome <;> cases s.q.do_deq c i <;> exact ⟨rfl, rfl⟩

theorem bounds_next (h : s.Ring) : s.enqNo + (s.q.do_enq c i).isSome.toNat ≤ s.deqNo + n ∧
    s.deqNo + (s.q.do_deq c i).toNat ≤ s.enqNo := by
  constructor
  · cases he : (s.q.do_enq c i).isSome with
    | false => exact h.fits
    | true => exact room_of_do_enq h he
  · cases hd : s.q.do_deq c i with
    | false => exact h.le
    | true => exact (nonempty_of_do_deq h hd).1

theorem maybe_full_next (h : s.Ring) (hm : (s.next c i).q.enq_ptr = (s.next c i).q.deq_ptr)
    (henq : (s.next c i).q.enq_ptr = place n (s.next c i).enqNo)
    (hdeq : (s.next c i).q.deq_ptr = place n (s.next c i).deqNo) :
    (s.next c i).q.maybe_full = true ↔ (s.next c i).enqNo ≠ (s.next c i).deqNo := by
  have hfull : (s.next c i).q.maybe_full =
    if (s.q.do_enq c i).isSome ≠ s.q.do_deq c i then (s.q.do_enq c i).isSome
      else s.q.maybe_full := rfl
  obtain ⟨he, hd⟩ := numbers_next (s := s) (c := c) (i := i)
  obtain ⟨hroom, hne⟩ := bounds_next (c := c) (i := i) h
  have hle := h.le
  have hfits := h.fits
  rw [henq, hdeq, he, hd] at hm
  rw [hfull, he, hd]
  -- the pointers meet after a cycle that moved both or none if they met before
  have hmatch : ∀ m, place n (s.enqNo + m) = place n (s.deqNo + m) → s.q.ptr_match = true := by
    intro m hp
    rw [ptr_match_iff h]
    by_cases hlt : s.enqNo = s.deqNo + n
    · exact .inr hlt
    · have := place_inj (k := s.deqNo + m) (by omega) le_rfl (by omega) (by omega) hp
      exact .inl (by omega)
  cases hwrite : (s.q.do_enq c i).isSome <;> cases hread : s.q.do_deq c i <;>
    rw [hwrite, hread] at hm <;> simp only [Bool.toNat_false, Bool.toNat_true, ne_eq,
      not_true_eq_false, if_false, reduceCtorEq, not_false_eq_true, if_true, Nat.add_zero]
  · exact h.maybe_full (hmatch 0 hm)
  · have hone : s.deqNo + 1 ≤ s.enqNo := (nonempty_of_do_deq h hread).1
    have := place_inj (k := s.deqNo + 1) hone le_rfl (by omega) (by
      have := Nat.pos_of_neZero n
      omega) hm
    simp only [false_iff, not_not]
    exact this
  · simp only [true_iff]
    omega
  · rw [h.maybe_full (hmatch 1 hm)]
    omega

theorem ring_next (h : s.Ring) : (s.next c i).Ring := by
  obtain ⟨he, hd⟩ := numbers_next (s := s) (c := c) (i := i)
  obtain ⟨hroom, hne⟩ := bounds_next (c := c) (i := i) h
  have henq : (s.next c i).q.enq_ptr = place n (s.next c i).enqNo := by
    show (if (s.q.do_enq c i).isSome then wrapInc s.q.enq_ptr else s.q.enq_ptr) = _
    rw [he, h.enq_ptr]
    cases (s.q.do_enq c i).isSome
    · rfl
    · exact wrapInc_place
  have hdeq : (s.next c i).q.deq_ptr = place n (s.next c i).deqNo := by
    show (if s.q.do_deq c i then wrapInc s.q.deq_ptr else s.q.deq_ptr) = _
    rw [hd, h.deq_ptr]
    cases s.q.do_deq c i
    · rfl
    · exact wrapInc_place
  refine ⟨henq, hdeq, by omega, by omega, fun hm => ?_, fun r hr => ?_⟩
  · rw [Queue.ptr_match, decide_eq_true_eq] at hm
    exact maybe_full_next h hm henq hdeq
  · rw [valids_next] at hr
    rw [he, hd]
    split_ifs at hr with hread hwrite
    · simp only [Bool.and_eq_true, decide_eq_true_eq] at hwrite
      refine ⟨s.enqNo, hne, ?_, h.enq_ptr.symm.trans hwrite.2.symm⟩
      rw [hwrite.1]
      exact Nat.lt_succ_self _
    · simp only [Bool.and_eq_true] at hr
      obtain ⟨k, hk, hlt, hp⟩ := h.valids r hr.1
      refine ⟨k, ?_, by omega, hp⟩
      cases hd' : s.q.do_deq c i with
      | false => exact hk
      | true =>
        have hkne : k ≠ s.deqNo := by
          rintro rfl
          exact hread (by simp [hd', ← hp, h.deq_ptr])
        show s.deqNo + 1 ≤ k
        omega

/-! ## The entries -/

theorem uops_next (r : Fin n) : (s.next c i).q.uops r =
    match s.q.do_enq c i with
    | some b =>
      if r = s.q.enq_ptr then b.uop.update i.brupdate
      else if s.q.valids r then (s.q.uops r).update i.brupdate else s.q.uops r
    | none => if s.q.valids r then (s.q.uops r).update i.brupdate else s.q.uops r := rfl

theorem ram_next (r : Fin n) : (s.next c i).q.ram r =
    match s.q.do_enq c i with
    | some b => if r = s.q.enq_ptr then b else s.q.ram r
    | none => s.q.ram r := rfl

theorem tag_next (r : Fin n) : (s.next c i).tag r =
    if (s.q.do_enq c i).isSome && r = s.q.enq_ptr then s.now else s.tag r := rfl

/-- An entry that is neither written nor given back is looked at where it stands. -/
theorem cell_next (h : s.Ring) {k : ℕ} (hk : s.deqNo + (s.q.do_deq c i).toNat ≤ k)
    (hlt : k < s.enqNo) : (s.next c i).cell k = (s.cell k).bind (Sys.upd c i) := by
  have hfits := h.fits
  have hread : (s.q.do_deq c i && decide (place n k = s.q.deq_ptr)) = false := by
    by_contra hno
    simp only [Bool.not_eq_false, Bool.and_eq_true, decide_eq_true_eq] at hno
    rw [hno.1, Bool.toNat_true] at hk
    have := place_inj (k := s.deqNo) (by omega) le_rfl (by omega) (by omega)
      (hno.2.trans h.deq_ptr)
    omega
  have hwrite : (s.q.do_enq c i).isSome = true → place n k ≠ s.q.enq_ptr := by
    intro he hp
    have hroom := room_of_do_enq h he
    have := place_inj (k := s.deqNo) (by omega) h.le (by omega) hroom (hp.trans h.enq_ptr)
    omega
  have hvalids : (s.next c i).q.valids (place n k) =
      (s.q.valids (place n k) && !i.drops c (s.q.uops (place n k))) := by
    rw [valids_next, hread, if_neg Bool.false_ne_true, if_neg]
    simpa using hwrite
  have htag : (s.next c i).tag (place n k) = s.tag (place n k) := by
    rw [tag_next, if_neg]
    simpa using hwrite
  have hram : (s.next c i).q.ram (place n k) = s.q.ram (place n k) := by
    rw [ram_next]
    cases he : s.q.do_enq c i with
    | none => rfl
    | some b => exact if_neg (hwrite (by simp [he]))
  have huops : s.q.valids (place n k) = true →
      (s.next c i).q.uops (place n k) = (s.q.uops (place n k)).update i.brupdate := by
    intro hv
    rw [uops_next, hv]
    cases he : s.q.do_enq c i with
    | none => rfl
    | some b => exact if_neg (hwrite (by simp [he]))
  unfold Sys.cell
  rw [hvalids, htag, hram]
  cases hv : s.q.valids (place n k) with
  | false => rfl
  | true =>
    rw [huops hv, Bool.true_and, if_pos rfl, Option.bind_some, Sys.upd]
    cases i.drops c (s.q.uops (place n k)) <;> rfl

/-- An entry that is written. -/
theorem cell_written (h : s.Ring) {b : Bits T U D} (he : s.q.do_enq c i = some b) :
    (s.next c i).cell s.enqNo = some ⟨s.now, b.update i.brupdate⟩ := by
  have hsome : (s.q.do_enq c i).isSome = true := by rw [he]; rfl
  have hroom := room_of_do_enq h hsome
  have hread : (s.q.do_deq c i && decide (place n s.enqNo = s.q.deq_ptr)) = false := by
    by_contra hno
    simp only [Bool.not_eq_false, Bool.and_eq_true, decide_eq_true_eq] at hno
    have hlt := (nonempty_of_do_deq h hno.1).1
    have := place_inj (k := s.deqNo) h.le le_rfl hroom (by omega) (hno.2.trans h.deq_ptr)
    omega
  unfold Sys.cell
  rw [valids_next, tag_next, ram_next, uops_next, hread, he, h.enq_ptr]
  simp [Bits.update]

/-- What waits after a cycle: what stays and is not dropped, and what is written. -/
theorem waiting_next_eq (h : s.Ring) : (s.next c i).waiting =
    ((List.range' (s.deqNo + (s.q.do_deq c i).toNat)
      (s.enqNo - (s.deqNo + (s.q.do_deq c i).toNat))).filterMap s.cell).filterMap (Sys.upd c i) ++
    ((s.q.do_enq c i).map fun b => (⟨s.now, b.update i.brupdate⟩ : Item T U D)).toList := by
  obtain ⟨he, hd⟩ := numbers_next (s := s) (c := c) (i := i)
  obtain ⟨-, hle⟩ := bounds_next (c := c) (i := i) h
  have hstay : ∀ ks : List ℕ, (∀ k ∈ ks, s.deqNo + (s.q.do_deq c i).toNat ≤ k ∧ k < s.enqNo) →
      ks.filterMap (s.next c i).cell = (ks.filterMap s.cell).filterMap (Sys.upd c i) := by
    intro ks hks
    rw [List.filterMap_filterMap]
    exact List.filterMap_congr fun k hk => cell_next h (hks k hk).1 (hks k hk).2
  have hold := hstay (List.range' (s.deqNo + (s.q.do_deq c i).toNat)
    (s.enqNo - (s.deqNo + (s.q.do_deq c i).toNat))) fun k hk => by
      have := List.mem_range'_1.1 hk
      omega
  unfold Sys.waiting
  rw [he, hd, ← hold]
  cases hwrite : s.q.do_enq c i with
  | none => simp
  | some b =>
    rw [Option.isSome_some, Bool.toNat_true, show s.enqNo + 1 - (s.deqNo + (s.q.do_deq c i).toNat) =
      s.enqNo - (s.deqNo + (s.q.do_deq c i).toNat) + 1 by omega, List.range'_1_concat,
      List.filterMap_append]
    congr 1
    rw [show s.deqNo + (s.q.do_deq c i).toNat +
      (s.enqNo - (s.deqNo + (s.q.do_deq c i).toNat)) = s.enqNo by omega]
    simp [cell_written h hwrite]

/-! ## Beside the FIFO -/

/-- What is left after the drops: of what waits, and all of what comes in. -/
theorem left_eq (hok : Sys.Ok i) (hcalm : s.Calm c i) (hw : s.fifo.waiting = s.waiting) :
    s.fifo.left (Sys.upd c i) (s.accepted i) = s.waiting.filterMap (Sys.upd c i) ++
      ((s.q.accepts i).map fun b => (⟨s.now, b.update i.brupdate⟩ : Item T U D)).toList := by
  rw [Fifo.left, Fifo.offered, hw, List.filterMap_append]
  congr 1
  cases ha : s.q.accepts i with
  | none => simp [Sys.accepted, ha]
  | some b =>
    have hkeep : i.drops c b.uop = false := by
      rw [In.drops, hok b (not_full_of_accepts ha).2, Bool.false_or]
      cases hf : i.flush with
      | false => rfl
      | true => exact hcalm b ha hf
    simp [Sys.accepted, ha, Sys.upd, hkeep]

/-- The first place, if any is taken, and the others. -/
theorem waiting_cons (hlt : s.deqNo < s.enqNo) : s.waiting = (s.cell s.deqNo).toList ++
    (List.range' (s.deqNo + 1) (s.enqNo - (s.deqNo + 1))).filterMap s.cell := by
  have hlen : s.enqNo - s.deqNo = s.enqNo - (s.deqNo + 1) + 1 := by omega
  rw [Sys.waiting, hlen, List.range'_succ]
  cases hc : s.cell s.deqNo with
  | none => rw [List.filterMap_cons_none hc]; rfl
  | some x => rw [List.filterMap_cons_some hc]; rfl

/-- The entry that `io.deq` shows is the first in the ring. -/
theorem cell_deqNo (h : s.Ring) : s.cell s.deqNo =
    if s.q.valids s.q.deq_ptr then some ⟨s.tag s.q.deq_ptr, s.q.out⟩ else none := by
  rw [Sys.cell, ← h.deq_ptr]
  rfl

/-- An empty queue that hands through. -/
theorem of_bypasses (h : s.Ring) (hb : s.q.bypasses c = true) :
    s.enqNo = s.deqNo ∧ s.q.do_deq c i = false ∧ s.q.accepts i = i.enq ∧
      s.q.do_enq c i = (if i.deq_ready then none else i.enq) ∧
      s.q.deq c i = i.enq.map (Bits.update i.brupdate) := by
  have hempty : s.enqNo = s.deqNo := (empty_iff h).1 (Bool.and_eq_true _ _ ▸ hb).2
  have hfull : s.q.full = false := by
    rw [Bool.eq_false_iff, Ne, full_iff h]
    have := Nat.pos_of_neZero n
    omega
  have hacc : s.q.accepts i = i.enq := by rw [Queue.accepts, hfull, if_neg Bool.false_ne_true]
  refine ⟨hempty, by rw [Queue.do_deq, if_pos hb], hacc, ?_, by rw [Queue.deq, if_pos hb]⟩
  rw [Queue.do_enq, hb, hacc, Bool.true_and]

omit [NeZero n] in
/-- A queue that does not hand through. -/
theorem of_not_bypasses (hb : s.q.bypasses c = false) :
    s.q.do_deq c i = ((i.deq_ready || !s.q.valids s.q.deq_ptr) && !s.q.empty) ∧
      s.q.do_enq c i = s.q.accepts i ∧
      s.q.deq c i = if !s.q.empty && s.q.valids s.q.deq_ptr && !i.drops c s.q.out.uop then
        some (s.q.out.update i.brupdate) else none := by
  refine ⟨by rw [Queue.do_deq, hb, if_neg Bool.false_ne_true], ?_,
    by rw [Queue.deq, hb, if_neg Bool.false_ne_true]⟩
  rw [Queue.do_enq, hb, Bool.false_and, if_neg Bool.false_ne_true]

/-- **What is shown** on `io.deq` is the first of what is left. -/
theorem head_of_deq (h : s.Ring) (hok : Sys.Ok i) (hcalm : s.Calm c i)
    (hw : s.fifo.waiting = s.waiting) {b : Bits T U D} (hd : s.q.deq c i = some b) :
    ∃ y, (s.fifo.left (Sys.upd c i) (s.accepted i)).head? = some y ∧ y.bits = b := by
  rw [left_eq hok hcalm hw]
  cases hb : s.q.bypasses c with
  | true =>
    obtain ⟨hempty, -, hacc, -, hdeq⟩ := of_bypasses (i := i) h hb
    obtain ⟨e, he, rfl⟩ := Option.map_eq_some_iff.1 (hdeq.symm.trans hd)
    have hnone : s.waiting = [] := by rw [Sys.waiting, hempty, Nat.sub_self]; rfl
    exact ⟨⟨s.now, e.update i.brupdate⟩, by rw [hnone, hacc, he]; rfl, rfl⟩
  | false =>
    obtain ⟨-, -, hdeq⟩ := of_not_bypasses (i := i) hb
    rw [hdeq] at hd
    split_ifs at hd with hshown
    obtain rfl := Option.some.inj hd
    simp only [Bool.and_eq_true, Bool.not_eq_true'] at hshown
    obtain ⟨⟨hne, hv⟩, hkeep⟩ := hshown
    have hlt : s.deqNo < s.enqNo := by
      have : s.enqNo ≠ s.deqNo := fun e => absurd (hne.symm.trans ((empty_iff h).2 e)) (by simp)
      have := h.le
      omega
    have hupd : Sys.upd c i ⟨s.tag s.q.deq_ptr, s.q.out⟩ =
        some ⟨s.tag s.q.deq_ptr, s.q.out.update i.brupdate⟩ := by
      rw [Sys.upd, hkeep, if_neg Bool.false_ne_true]
    refine ⟨⟨s.tag s.q.deq_ptr, s.q.out.update i.brupdate⟩, ?_, rfl⟩
    rw [waiting_cons hlt, cell_deqNo h, hv, if_pos rfl, Option.toList_some, List.singleton_append,
      List.filterMap_cons_some hupd]
    rfl

/-- The ring holds what is left, less what is delivered. -/
theorem waiting_next (h : s.Ring) (hok : Sys.Ok i) (hcalm : s.Calm c i)
    (hw : s.fifo.waiting = s.waiting) : (s.next c i).waiting =
      if s.delivers c i then (s.fifo.left (Sys.upd c i) (s.accepted i)).tail
      else s.fifo.left (Sys.upd c i) (s.accepted i) := by
  rw [left_eq hok hcalm hw, waiting_next_eq h, Sys.delivers]
  cases hb : s.q.bypasses c with
  | true =>
    obtain ⟨hempty, hdo, hacc, hwrite, hdeq⟩ := of_bypasses (i := i) h hb
    have hnone : s.waiting = [] := by rw [Sys.waiting, hempty, Nat.sub_self]; rfl
    rw [hnone, hacc, hwrite, hdeq, hdo, hempty]
    cases i.deq_ready <;> cases i.enq <;> simp
  | false =>
    obtain ⟨hdo, hwrite, hdeq⟩ := of_not_bypasses (i := i) hb
    rw [hwrite]
    cases hread : s.q.do_deq c i with
    | false =>
      -- nothing is given back, so what is shown is not taken
      have hno : ((s.q.deq c i).isSome && i.deq_ready) = false := by
        rw [hdo] at hread
        rw [hdeq]
        cases hr : i.deq_ready with
        | false => exact Bool.and_false _
        | true =>
          rw [hr, Bool.true_or, Bool.true_and] at hread
          rw [hread, Bool.false_and, Bool.false_and]
          rfl
      rw [hno]
      rfl
    | true =>
      obtain ⟨hlt, hwhy⟩ := nonempty_of_do_deq h hread
      have hne : (!s.q.empty) = true := by
        rw [hdo, Bool.and_eq_true] at hread
        exact hread.2
      rw [waiting_cons hlt, cell_deqNo h, hdeq, hne, Bool.true_and, Bool.toNat_true]
      cases hv : s.q.valids s.q.deq_ptr with
      | false => rfl
      | true =>
        -- the first entry is valid, so it is given back because it is taken
        have hready : i.deq_ready = true := hwhy.resolve_right (by rw [hv]; simp)
        have hupd : Sys.upd c i ⟨s.tag s.q.deq_ptr, s.q.out⟩ = if i.drops c s.q.out.uop then none
            else some ⟨s.tag s.q.deq_ptr, s.q.out.update i.brupdate⟩ := rfl
        rw [hready, if_pos rfl, Option.toList_some, List.singleton_append]
        cases hk : i.drops c s.q.out.uop with
        | true =>
          rw [hk, if_pos rfl] at hupd
          rw [List.filterMap_cons_none hupd]
          rfl
        | false =>
          rw [hk, if_neg Bool.false_ne_true] at hupd
          rw [List.filterMap_cons_some hupd]
          rfl


/-! ## How many entries

The queue lets in what it accepts, and gives away what is taken or dropped. -/

/-- `io.deq.fire()`, and what is taken. -/
def Queue.fired (c : Config T U) (q : Queue n T U D) (i : In T U D) : Option (Bits T U D) :=
  if i.deq_ready then q.deq c i else none

omit [NeZero n] in
theorem Queue.any_accepts_le (q : Queue n T U D) (i : In T U D) (p : Bits T U D → Bool) :
    ((q.accepts i).any p).toNat ≤ (i.enq.any p).toNat := by
  unfold Queue.accepts
  split_ifs
  · exact Nat.zero_le _
  · exact le_rfl

omit [NeZero n] in
theorem Queue.any_accepts {q : Queue n T U D} {i : In T U D} (p : Bits T U D → Bool)
    (h : i.enq.isSome = true → q.full = false) : (q.accepts i).any p = i.enq.any p := by
  unfold Queue.accepts
  cases hi : i.enq with
  | none => split_ifs <;> rfl
  | some x => rw [h (by rw [hi]; rfl), if_neg Bool.false_ne_true]

/-- How many entries that wait have a property. -/
def Sys.holding (s : Sys n T U D) (p : Bits T U D → Bool) : ℕ :=
  s.waiting.countP fun x => p x.bits

/-- What is accepted is handed through, or is written behind what stays. -/
theorem waiting_step (h : s.Ring) :
    (s.waiting = [] ∧ (s.next c i).waiting = [] ∧
      s.q.fired c i = (s.q.accepts i).map (Bits.update i.brupdate)) ∨
    ∃ (gone : Option (Item T U D)) (stay : List (Item T U D)),
      s.waiting = gone.toList ++ stay ∧
      (s.next c i).waiting = stay.filterMap (Sys.upd c i) ++
        ((s.q.accepts i).map fun b => (⟨s.now, b.update i.brupdate⟩ : Item T U D)).toList ∧
      s.q.fired c i = gone.bind fun x => (Sys.upd c i x).map Item.bits := by
  have hnext := waiting_next_eq (c := c) (i := i) h
  cases hb : s.q.bypasses c with
  | true =>
    obtain ⟨hempty, hdo, hacc, hwrite, hdeq⟩ := of_bypasses (i := i) h hb
    have hnone : s.waiting = [] := by rw [Sys.waiting, hempty, Nat.sub_self]; rfl
    rw [hdo, hempty, hwrite, ← hacc] at hnext
    cases hr : i.deq_ready with
    | true =>
      refine .inl ⟨hnone, ?_, ?_⟩
      · simpa [hr] using hnext
      · rw [Queue.fired, hr, if_pos rfl, hdeq, hacc]
    | false =>
      refine .inr ⟨none, [], hnone, ?_, ?_⟩
      · simpa [hr] using hnext
      · rw [Queue.fired, hr]
        rfl
  | false =>
    obtain ⟨hdo, hwrite, hdeq⟩ := of_not_bypasses (i := i) hb
    rw [hwrite] at hnext
    refine .inr ?_
    cases hread : s.q.do_deq c i with
    | false =>
      -- nothing is given back, so what is shown is not taken
      refine ⟨none, s.waiting, rfl, ?_, ?_⟩
      · rw [hread, Bool.toNat_false, Nat.add_zero] at hnext
        exact hnext
      · rw [hdo] at hread
        rw [Queue.fired, hdeq]
        cases hr : i.deq_ready with
        | false => rfl
        | true =>
          rw [hr, Bool.true_or, Bool.true_and] at hread
          rw [hread]
          rfl
    | true =>
      obtain ⟨hlt, hwhy⟩ := nonempty_of_do_deq h hread
      have hne : (!s.q.empty) = true := by
        rw [hdo, Bool.and_eq_true] at hread
        exact hread.2
      rw [hread, Bool.toNat_true] at hnext
      refine ⟨s.cell s.deqNo, _, waiting_cons hlt, hnext, ?_⟩
      rw [cell_deqNo h, Queue.fired, hdeq, hne, Bool.true_and]
      cases hv : s.q.valids s.q.deq_ptr with
      | false => simp
      | true =>
        -- the first entry is valid, so it is given back because it is taken
        have hready : i.deq_ready = true := hwhy.resolve_right (by rw [hv]; simp)
        rw [hready, if_pos rfl, if_pos rfl, Option.bind_some, Sys.upd]
        cases i.drops c s.q.out.uop <;> rfl

section Holding

variable {p : Bits T U D → Bool}

omit [NeZero n] in
theorem countP_upd_le (hp : ∀ b x, p (Bits.update b x) = p x) (l : List (Item T U D)) :
    (l.filterMap (Sys.upd c i)).countP (fun x => p x.bits) ≤ l.countP fun x => p x.bits := by
  induction l with
  | nil => exact le_rfl
  | cons x l ih =>
    rw [List.filterMap_cons, List.countP_cons]
    unfold Sys.upd
    cases i.drops c x.bits.uop with
    | true => exact ih.trans (Nat.le_add_right _ _)
    | false =>
      simp only [Bool.false_eq_true, if_false, List.countP_cons, hp]
      exact Nat.add_le_add_right ih _

omit [NeZero n] in
theorem countP_upd (hp : ∀ b x, p (Bits.update b x) = p x) {l : List (Item T U D)}
    (hkeep : ∀ x ∈ l, p x.bits = true → i.drops c x.bits.uop = false) :
    (l.filterMap (Sys.upd c i)).countP (fun x => p x.bits) = l.countP fun x => p x.bits := by
  induction l with
  | nil => rfl
  | cons x l ih =>
    have ih := ih fun y hy => hkeep y (List.mem_cons_of_mem x hy)
    rw [List.filterMap_cons, List.countP_cons]
    unfold Sys.upd
    cases hd : i.drops c x.bits.uop with
    | true =>
      have hx : p x.bits = false := by
        rw [Bool.eq_false_iff]
        intro hx
        rw [hkeep x List.mem_cons_self hx] at hd
        cases hd
      simp only [if_true, hx, Bool.false_eq_true, if_false, Nat.add_zero]
      exact ih
    | false =>
      simp only [Bool.false_eq_true, if_false, List.countP_cons, hp]
      rw [← ih]
      rfl

omit [NeZero n] in
theorem countP_toList {α : Type} (f : α → Bool) (o : Option α) :
    o.toList.countP f = (o.any f).toNat := by
  cases o with
  | none => rfl
  | some x => cases hx : f x <;> simp [hx]

omit [NeZero n] in
/-- What leaves the head is the head, if it is not dropped. -/
theorem any_gone_le (hp : ∀ b x, p (Bits.update b x) = p x) (gone : Option (Item T U D)) :
    ((gone.bind fun x => (Sys.upd c i x).map Item.bits).any p).toNat ≤
      (gone.any fun x => p x.bits).toNat := by
  cases gone with
  | none => exact le_rfl
  | some x =>
    rw [Option.bind_some, Sys.upd, Option.any_some]
    cases i.drops c x.bits.uop with
    | true => exact Nat.zero_le _
    | false => exact (congrArg Bool.toNat (hp _ _)).le

omit [NeZero n] in
theorem any_gone (hp : ∀ b x, p (Bits.update b x) = p x) (gone : Option (Item T U D))
    (hkeep : ∀ x ∈ gone, p x.bits = true → i.drops c x.bits.uop = false) :
    ((gone.bind fun x => (Sys.upd c i x).map Item.bits).any p).toNat =
      (gone.any fun x => p x.bits).toNat := by
  cases gone with
  | none => rfl
  | some x =>
    rw [Option.bind_some, Sys.upd, Option.any_some]
    cases hd : i.drops c x.bits.uop with
    | false => exact congrArg Bool.toNat (hp _ _)
    | true =>
      have hx : p x.bits = false := by
        rw [Bool.eq_false_iff]
        intro hx
        rw [hkeep x rfl hx] at hd
        cases hd
      rw [hx]
      rfl

omit [NeZero n] in
theorem any_written (hp : ∀ b x, p (Bits.update b x) = p x) (a : Option (Bits T U D)) (k : ℕ) :
    ((a.map fun b => (⟨k, b.update i.brupdate⟩ : Item T U D)).any fun x => p x.bits) = a.any p := by
  cases a with
  | none => rfl
  | some b => exact hp _ b

/-- The entries and what is taken come from the entries and from what is
    accepted. -/
theorem holding_next_le (h : s.Ring) (hp : ∀ b x, p (Bits.update b x) = p x) :
    (s.next c i).holding p + ((s.q.fired c i).any p).toNat ≤
      s.holding p + ((s.q.accepts i).any p).toNat := by
  unfold Sys.holding
  rcases waiting_step (c := c) (i := i) h with ⟨hw, hn, hf⟩ | ⟨gone, stay, hw, hn, hf⟩
  · rw [hw, hn, hf]
    cases s.q.accepts i <;> simp [hp]
  · have hstay := countP_upd_le (c := c) (i := i) hp stay
    have hgone := any_gone_le (c := c) (i := i) hp gone
    rw [hw, hn, hf, List.countP_append, List.countP_append, countP_toList, countP_toList,
      any_written hp]
    omega

/-- and if nothing that counts is dropped, they are as many. -/
theorem holding_next (h : s.Ring) (hp : ∀ b x, p (Bits.update b x) = p x)
    (hkeep : ∀ x ∈ s.waiting, p x.bits = true → i.drops c x.bits.uop = false) :
    (s.next c i).holding p + ((s.q.fired c i).any p).toNat =
      s.holding p + ((s.q.accepts i).any p).toNat := by
  unfold Sys.holding
  rcases waiting_step (c := c) (i := i) h with ⟨hw, hn, hf⟩ | ⟨gone, stay, hw, hn, hf⟩
  · rw [hw, hn, hf]
    cases s.q.accepts i <;> simp [hp]
  · have hstay := countP_upd (c := c) (i := i) (l := stay) hp fun x hx =>
      hkeep x (hw ▸ List.mem_append_right _ hx)
    have hgone := any_gone (c := c) (i := i) hp gone fun x hx =>
      hkeep x (hw ▸ List.mem_append_left _ (Option.mem_toList.2 hx))
    rw [hw, hn, hf, List.countP_append, List.countP_append, countP_toList, countP_toList,
      any_written hp]
    omega

omit [NeZero n] in
theorem bits_of_upd {x y : Item T U D} (h : Sys.upd c i x = some y) :
    i.drops c x.bits.uop = false ∧ y.bits = x.bits.update i.brupdate := by
  unfold Sys.upd at h
  split_ifs at h with hd
  rw [← Option.some.inj h]
  exact ⟨by simpa using hd, rfl⟩

/-- What waits has waited, and was not dropped, or was written. -/
theorem mem_waiting_next (h : s.Ring) {x : Item T U D} (hx : x ∈ (s.next c i).waiting) :
    (∃ y ∈ s.waiting, Sys.upd c i y = some x) ∨
      ∃ b, s.q.do_enq c i = some b ∧ x.bits = b.update i.brupdate := by
  obtain ⟨-, hle⟩ := bounds_next (c := c) (i := i) h
  rw [waiting_next_eq h] at hx
  rcases List.mem_append.1 hx with hx | hx
  · obtain ⟨y, hy, hupd⟩ := List.mem_filterMap.1 hx
    obtain ⟨k, hk, hcell⟩ := List.mem_filterMap.1 hy
    have hk := List.mem_range'_1.1 hk
    exact .inl ⟨y, List.mem_filterMap.2 ⟨k, List.mem_range'_1.2 (by omega), hcell⟩, hupd⟩
  · obtain ⟨b, hb, rfl⟩ := Option.map_eq_some_iff.1 (Option.mem_toList.1 hx)
    exact .inr ⟨b, hb, rfl⟩

/-- What holds of all that waits, and of what is offered. -/
theorem forall_waiting_next {P : U → Prop} (h : s.Ring) (hs : ∀ x ∈ s.waiting, P x.bits.uop.fields)
    (hi : ∀ b, i.enq = some b → P b.uop.fields) :
    ∀ x ∈ (s.next c i).waiting, P x.bits.uop.fields := by
  intro x hx
  rcases mem_waiting_next h hx with ⟨y, hy, hupd⟩ | ⟨b, hb, he⟩
  · rw [(bits_of_upd hupd).2]
    exact hs y hy
  · rw [he]
    exact hi b (not_full_of_accepts (accepts_of_do_enq hb)).2

/-- What is written in the places that are taken, whether it was killed or not. -/
theorem forall_ram_next {P : D → Prop} (h : s.Ring)
    (hs : ∀ k, s.deqNo ≤ k → k < s.enqNo → P (s.q.ram (place n k)).data)
    (hi : ∀ b, s.q.do_enq c i = some b → P b.data) :
    ∀ k, (s.next c i).deqNo ≤ k → k < (s.next c i).enqNo →
      P ((s.next c i).q.ram (place n k)).data := by
  intro k hk hlt
  obtain ⟨he, hd⟩ := numbers_next (s := s) (c := c) (i := i)
  rw [hd] at hk
  rw [he] at hlt
  rw [ram_next]
  cases hw : s.q.do_enq c i with
  | none =>
    rw [hw] at hlt
    exact hs k (by omega) hlt
  | some b =>
    have hroom := room_of_do_enq (c := c) h (by rw [hw]; rfl)
    have hle := h.le
    show P (if place n k = s.q.enq_ptr then b else s.q.ram (place n k)).data
    by_cases hp : place n k = s.q.enq_ptr
    · rw [if_pos hp]
      exact hi b hw
    · rw [if_neg hp]
      have hlt : k < s.enqNo + 1 := by rwa [hw] at hlt
      have hne : k ≠ s.enqNo := by
        rintro rfl
        exact hp h.enq_ptr.symm
      exact hs k (by omega) (by omega)

/-- What is taken, too. -/
theorem fired_cases (h : s.Ring) {b : Bits T U D} (hf : s.q.fired c i = some b) :
    (∃ y ∈ s.waiting, b = y.bits.update i.brupdate) ∨
      ∃ a, s.q.accepts i = some a ∧ b = a.update i.brupdate := by
  rcases waiting_step (c := c) (i := i) h with ⟨-, -, he⟩ | ⟨gone, stay, hw, -, he⟩
  · rw [he] at hf
    obtain ⟨a, ha, rfl⟩ := Option.map_eq_some_iff.1 hf
    exact .inr ⟨a, ha, rfl⟩
  · rw [he] at hf
    obtain ⟨x, hx, hf⟩ := Option.bind_eq_some_iff.1 hf
    obtain ⟨y, hupd, rfl⟩ := Option.map_eq_some_iff.1 hf
    have hmem : x ∈ s.waiting := by
      rw [hw, hx]
      exact List.mem_append_left _ List.mem_cons_self
    exact .inl ⟨x, hmem, (bits_of_upd hupd).2⟩

/-- A place is taken by what is offered, at most. -/
theorem occupied_next_le (h : s.Ring) :
    (s.next c i).occupied ≤ s.occupied + i.enq.isSome.toNat := by
  obtain ⟨he, hd⟩ := numbers_next (s := s) (c := c) (i := i)
  have hle := h.le
  have hw : (s.q.do_enq c i).isSome.toNat ≤ i.enq.isSome.toNat := by
    unfold Queue.do_enq Queue.accepts
    split_ifs
    · exact Nat.zero_le _
    · exact Nat.zero_le _
    · exact le_rfl
  unfold Sys.occupied
  omega

theorem occupied_of_empty (h : s.Ring) (he : s.q.empty = true) : s.occupied = 0 := by
  rw [Sys.occupied, (empty_iff h).1 he, Nat.sub_self]

/-- After reset nothing waits. -/
theorem waiting_of_reset (h : s.Reset) : s.waiting = [] ∧ s.occupied = 0 := by
  rw [Sys.waiting, Sys.occupied, h.enqNo, h.deqNo]
  exact ⟨rfl, rfl⟩

/-- There is room as long as fewer places are taken than there are. -/
theorem not_full_of_occupied (h : s.Ring) (hlt : s.occupied < n) : s.q.full = false := by
  rw [Bool.eq_false_iff, Ne, full_iff h]
  unfold Sys.occupied at hlt
  have := h.le
  omega

end Holding

/-! ## The masks -/

omit [NeZero n] in
theorem since_nil (x : Bits T U D) : x.since [] = x := by
  obtain ⟨data, fields, mask⟩ := x
  simp [Bits.since]

omit [NeZero n] in
theorem since_concat (x : Bits T U D) (ms : List (Fin T → Bool)) (b : BrUpdate T) :
    x.since (ms ++ [b.resolve_mask]) = (x.since ms).update b := by
  unfold Bits.since Bits.update MicroOp.update getNewBrMask
  simp only [List.any_append, List.any_cons, List.any_nil, Bool.or_false, Bool.not_or,
    Bool.and_assoc]

/-- What waits or comes in has the mask it came in with, less what was resolved. -/
theorem masks_offered (h : s.Inv) {x : Item T U D} (hx : x ∈ s.fifo.offered (s.accepted i)) :
    ∃ a ∈ (s.next c i).fifo.accepted, a.number = x.number ∧ a.number ≤ s.now ∧
      x.bits = a.bits.since (s.resolved.drop a.number) := by
  rcases List.mem_append.1 hx with hx | hx
  · obtain ⟨a, ha, hn, hb⟩ := h.masks x hx
    exact ⟨a, List.mem_append_left _ ha, hn, (h.past a ha).le, hb⟩
  · refine ⟨x, List.mem_append_right _ hx, rfl, ?_⟩
    obtain ⟨b, -, rfl⟩ := Option.map_eq_some_iff.1 (Option.mem_toList.1 hx)
    refine ⟨le_rfl, ?_⟩
    show b = b.since (s.resolved.drop s.now)
    rw [List.drop_eq_nil_of_le h.length.le, since_nil]

/-- What is left has it less what is resolved now, too. -/
theorem masks_left (h : s.Inv) {y : Item T U D}
    (hy : y ∈ s.fifo.left (Sys.upd c i) (s.accepted i)) :
    ∃ x ∈ s.fifo.offered (s.accepted i), i.drops c x.bits.uop = false ∧
      y = { x with bits := x.bits.update i.brupdate } ∧
      ∃ a ∈ (s.next c i).fifo.accepted, a.number = y.number ∧
        y.bits = a.bits.since ((s.next c i).resolved.drop a.number) := by
  obtain ⟨x, hx, hy⟩ := List.mem_filterMap.1 hy
  obtain ⟨a, ha, hn, hle, hb⟩ := masks_offered (c := c) h hx
  unfold Sys.upd at hy
  split_ifs at hy with hd
  obtain rfl := Option.some.inj hy
  refine ⟨x, hx, by simpa using hd, rfl, a, ha, hn, ?_⟩
  show x.bits.update i.brupdate = a.bits.since ((s.resolved ++ [i.brupdate.resolve_mask]).drop _)
  rw [hb, List.drop_append_of_le_length (h.length ▸ hle), since_concat]

/-! ## Runs -/

theorem inv_start (h : s.Reset) : s.Inv := by
  have hle : s.enqNo = 0 ∧ s.deqNo = 0 := ⟨h.enqNo, h.deqNo⟩
  refine ⟨⟨?_, ?_, by omega, by omega, fun _ => ?_, fun r hr => ?_⟩, ?_, ?_, ?_, ?_, ?_⟩
  · rw [h.enq_ptr, h.enqNo]
    rfl
  · rw [h.deq_ptr, h.deqNo]
    rfl
  · rw [h.maybe_full]
    simp [hle]
  · rw [h.valids r] at hr
    exact absurd hr (by simp)
  · rw [h.fifo, Sys.waiting, h.enqNo, h.deqNo]
    rfl
  · rw [h.fifo]
    exact law_empty
  · rw [h.fifo]
    exact fun _ hx => absurd hx List.not_mem_nil
  · rw [h.resolved, h.now]
    rfl
  · rw [h.fifo]
    exact fun _ hx => absurd hx List.not_mem_nil

theorem inv_next (h : s.Inv) (hok : Sys.Ok i) (hcalm : s.Calm c i) : (s.next c i).Inv := by
  have hupd : ∀ x y, Sys.upd c i x = some y → y.number = x.number := by
    intro x y hy
    unfold Sys.upd at hy
    split_ifs at hy
    rw [← Option.some.inj hy]
  have hnew : ∀ x, s.accepted i = some x → x.number ∉ s.fifo.accepted.map Item.number := by
    intro x hx hin
    obtain ⟨b, -, rfl⟩ := Option.map_eq_some_iff.1 hx
    obtain ⟨a, ha, hn⟩ := List.mem_map.1 hin
    exact absurd hn (h.past a ha).ne
  refine ⟨ring_next h.ring, (waiting_next h.ring hok hcalm h.holds).symm,
    law_step h.law hupd hnew _, ?_, ?_, ?_⟩
  · intro x hx
    rcases List.mem_append.1 hx with hx | hx
    · exact Nat.lt_succ_of_lt (h.past x hx)
    · obtain ⟨b, -, rfl⟩ := Option.map_eq_some_iff.1 (Option.mem_toList.1 hx)
      exact Nat.lt_succ_self _
  · show (s.resolved ++ [i.brupdate.resolve_mask]).length = s.now + 1
    rw [List.length_append, h.length]
    rfl
  · intro y hy
    have hleft : y ∈ s.fifo.left (Sys.upd c i) (s.accepted i) := by
      change y ∈ (if s.delivers c i then (s.fifo.left (Sys.upd c i) (s.accepted i)).tail
        else s.fifo.left (Sys.upd c i) (s.accepted i)) at hy
      split_ifs at hy
      · exact List.mem_of_mem_tail hy
      · exact hy
    obtain ⟨-, -, -, -, a, ha, hn, hb⟩ := masks_left h hleft
    exact ⟨a, ha, hn, hb⟩

/-- Runs in which no flush meets what it selects on its way in. -/
abbrev calmQueue (c : Config T U) : Machine (Sys n T U D) (In T U D) :=
  (queue c).restrict fun s i => s.Calm c i

theorem inv_reach (h : (calmQueue c).Reach s) : s.Inv :=
  h.inv (fun _ h0 => inv_start h0) fun _ _ hinv hok => inv_next hinv hok.1 hok.2

/-! ## The count -/

/-- The number of places taken, from the pointers. -/
theorem occupied_eq (h : s.Ring) (hf : s.q.full = false) : s.occupied =
    if s.q.deq_ptr.val ≤ s.q.enq_ptr.val then s.q.enq_ptr.val - s.q.deq_ptr.val
    else s.q.enq_ptr.val + n - s.q.deq_ptr.val := by
  have hlt : s.enqNo < s.deqNo + n := by
    have : s.enqNo ≠ s.deqNo + n := fun e => absurd (hf.symm.trans ((full_iff h).2 e)) (by simp)
    have := h.fits
    omega
  rw [Sys.occupied, ← dist_place h.le hlt, h.enq_ptr, h.deq_ptr]
  rfl

omit [NeZero n] in
/-- Where the places taken begin and end. -/
theorem count_of_not_full (hf : s.q.full = false) : s.q.count =
    if s.q.deq_ptr.val ≤ s.q.enq_ptr.val then s.q.enq_ptr.val - s.q.deq_ptr.val
    else s.q.enq_ptr.val + n - s.q.deq_ptr.val := by
  have hK : n ≤ 2 ^ Nat.clog 2 n := Nat.le_pow_clog Nat.one_lt_two n
  have he := s.q.enq_ptr.isLt
  have hd := s.q.deq_ptr.isLt
  have hdiff : s.q.ptr_diff = if s.q.deq_ptr.val ≤ s.q.enq_ptr.val
      then s.q.enq_ptr.val - s.q.deq_ptr.val
      else s.q.enq_ptr.val + 2 ^ Nat.clog 2 n - s.q.deq_ptr.val := by
    unfold Queue.ptr_diff
    split_ifs with hle
    · rw [show s.q.enq_ptr.val + 2 ^ Nat.clog 2 n - s.q.deq_ptr.val =
        s.q.enq_ptr.val - s.q.deq_ptr.val + 2 ^ Nat.clog 2 n by omega, Nat.add_mod_right,
        Nat.mod_eq_of_lt (by omega)]
    · exact Nat.mod_eq_of_lt (by omega)
  unfold Queue.count
  rw [hdiff, hf, if_neg Bool.false_ne_true, Nat.zero_add]
  cases hp : Queue.isPow2 n with
  | true =>
    have hn : n = 2 ^ Nat.clog 2 n := by simpa [Queue.isPow2] using hp
    rw [if_pos rfl, ← hn]
    split_ifs <;> exact Nat.mod_eq_of_lt (by omega)
  | false =>
    rw [if_neg Bool.false_ne_true]
    cases hm : s.q.ptr_match with
    | true =>
      have heq : s.q.enq_ptr = s.q.deq_ptr := by simpa [Queue.ptr_match] using hm
      have hmf : s.q.maybe_full = false := by
        rw [Queue.full, hm] at hf
        exact hf
      simp [hmf, heq]
    | false =>
      have hne : s.q.enq_ptr.val ≠ s.q.deq_ptr.val := by
        simpa [Queue.ptr_match, Fin.ext_iff] using hm
      rw [if_neg Bool.false_ne_true]
      by_cases hlt : s.q.deq_ptr > s.q.enq_ptr
      · have : s.q.enq_ptr.val < s.q.deq_ptr.val := hlt
        rw [if_pos hlt, if_neg (by omega), if_neg (by omega),
          show n + (s.q.enq_ptr.val + 2 ^ Nat.clog 2 n - s.q.deq_ptr.val) =
            s.q.enq_ptr.val + n - s.q.deq_ptr.val + 2 ^ Nat.clog 2 n by omega,
          Nat.add_mod_right, Nat.mod_eq_of_lt (by omega)]
      · have hle : s.q.deq_ptr.val ≤ s.q.enq_ptr.val := Nat.le_of_not_lt hlt
        rw [if_neg hlt, if_pos hle, if_pos hle, Nat.mod_eq_of_lt (by omega)]

omit [NeZero n] in
/-- A full queue of a power of two places is counted as empty. -/
theorem count_of_full (hf : s.q.full = true) :
    s.q.count = if Queue.isPow2 n then 0 else n := by
  have hK : n ≤ 2 ^ Nat.clog 2 n := Nat.le_pow_clog Nat.one_lt_two n
  have hm : s.q.ptr_match = true ∧ s.q.maybe_full = true := Bool.and_eq_true _ _ ▸ hf
  have heq : s.q.enq_ptr = s.q.deq_ptr := by simpa [Queue.ptr_match] using hm.1
  unfold Queue.count Queue.ptr_diff
  rw [hf, hm.1, hm.2, heq, Nat.add_sub_cancel_left]
  cases hp : Queue.isPow2 n with
  | true => simp
  | false =>
    have hlt : n < 2 ^ Nat.clog 2 n := lt_of_le_of_ne hK (by simpa [Queue.isPow2] using hp)
    simp [Nat.mod_eq_of_lt hlt]

/-- **`io.count`** is the number of places taken, unless its port is too narrow for it. -/
theorem count_iff (h : s.Ring) :
    s.q.count = s.occupied ↔ ¬(Queue.isPow2 n = true ∧ s.q.full = true) := by
  cases hf : s.q.full with
  | false => simp [count_of_not_full hf, occupied_eq h hf]
  | true =>
    have hpos := Nat.pos_of_neZero n
    have hocc : s.occupied = n := by
      have := (full_iff h).1 hf
      unfold Sys.occupied
      omega
    rw [count_of_full hf, hocc]
    cases Queue.isPow2 n with
    | true => simp [hpos.ne]
    | false => simp

/-! ## The result -/

/-- What a cycle should do, beside the FIFO. -/
structure Sys.Survives (c : Config T U) (s : Sys n T U D) (i : In T U D) : Prop where
  /-- the pointers are where the entries begin and end -/
  ring : s.Ring
  /-- the survivors that wait are those in the ring, in order -/
  holds : s.fifo.waiting = s.waiting
  /-- what was accepted and not dropped is what was delivered and what waits, in order -/
  law : (s.next c i).fifo.Law Item.number
  /-- what is shown is not dropped in this cycle; it came in with the mask it has now
      and the tags resolved since -/
  shown : ∀ b, s.q.deq c i = some b → ∃ x ∈ s.fifo.offered (s.accepted i),
    i.drops c x.bits.uop = false ∧ b = x.bits.update i.brupdate ∧
      (∃ a ∈ (s.next c i).fifo.accepted, a.number = x.number ∧
        b = a.bits.since ((s.next c i).resolved.drop a.number)) ∧
      (i.deq_ready = true → (s.next c i).fifo.delivered = s.fifo.delivered ++ [⟨x.number, b⟩])
  /-- nothing else counts as delivered -/
  silent : s.delivers c i = false → (s.next c i).fifo.delivered = s.fifo.delivered
  /-- what is written goes where no entry is -/
  free : (s.q.do_enq c i).isSome = true → s.q.valids s.q.enq_ptr = false
  /-- what is offered is accepted as long as there is room -/
  room : s.occupied < n → s.q.accepts i = i.enq
  /-- the first entry is shown, unless it is dropped in this cycle -/
  first : ∀ x, s.deqNo < s.enqNo → s.cell s.deqNo = some x → i.drops c x.bits.uop = false →
    s.q.deq c i = some (x.bits.update i.brupdate)
  /-- a hole is skipped in one cycle -/
  hole : s.deqNo < s.enqNo → s.cell s.deqNo = none → (s.next c i).deqNo = s.deqNo + 1
  /-- with `flow`, an empty queue shows what is offered -/
  through : c.flow = true → s.occupied = 0 → s.q.deq c i = i.enq.map (Bits.update i.brupdate)

/-- A queue with entries hands nothing through. -/
theorem not_bypasses_of_lt (h : s.Ring) (hlt : s.deqNo < s.enqNo) :
    s.q.empty = false ∧ s.q.bypasses c = false := by
  have he : s.q.empty = false := by
    rw [Bool.eq_false_iff, Ne, empty_iff h]
    omega
  exact ⟨he, by rw [Queue.bypasses, he, Bool.and_false]⟩

/-- **The first entry is shown**, unless it is dropped in this cycle. -/
theorem deq_of_cell (h : s.Ring) {x : Item T U D} (hlt : s.deqNo < s.enqNo)
    (hx : s.cell s.deqNo = some x) (hkeep : i.drops c x.bits.uop = false) :
    s.q.deq c i = some (x.bits.update i.brupdate) := by
  obtain ⟨he, hb⟩ := not_bypasses_of_lt (c := c) h hlt
  rw [cell_deqNo h] at hx
  split_ifs at hx with hv
  obtain rfl := Option.some.inj hx
  rw [(of_not_bypasses (i := i) hb).2.2, he, hv, hkeep]
  rfl

/-- A hole is skipped, whether `io.deq` is ready or not. -/
theorem deqNo_of_hole (h : s.Ring) (hlt : s.deqNo < s.enqNo) (hx : s.cell s.deqNo = none) :
    (s.next c i).deqNo = s.deqNo + 1 := by
  obtain ⟨he, hb⟩ := not_bypasses_of_lt (c := c) h hlt
  rw [cell_deqNo h, ite_eq_right_iff] at hx
  have hv : s.q.valids s.q.deq_ptr = false := by
    by_contra hv
    cases hx (by simpa using hv)
  have hd : s.q.do_deq c i = true := by
    rw [(of_not_bypasses (i := i) hb).1, hv, he]
    simp
  rw [(numbers_next (s := s) (c := c) (i := i)).2, hd]
  rfl

theorem deq_of_flow (h : s.Ring) (hflow : c.flow = true) (hocc : s.occupied = 0) :
    s.q.deq c i = i.enq.map (Bits.update i.brupdate) := by
  have he : s.q.empty = true := by
    have := h.le
    rw [empty_iff h]
    unfold Sys.occupied at hocc
    omega
  exact (of_bypasses h (by rw [Queue.bypasses, hflow, he]; rfl)).2.2.2.2

/-! ## Progress -/

/-- The entry with a number is that of a uop. -/
def Sys.At (s : Sys n T U D) (k : ℕ) (f : U) : Prop :=
  s.deqNo ≤ k ∧ k < s.enqNo ∧ ∃ x, s.cell k = some x ∧ x.bits.uop.fields = f

theorem Sys.At.waiting {k : ℕ} {f : U} (h : s.At k f) {x : Item T U D} (hx : s.cell k = some x) :
    x ∈ s.waiting ∧ x.bits.uop.fields = f := by
  obtain ⟨hle, hlt, y, hy, hf⟩ := h
  obtain rfl := Option.some.inj (hx.symm.trans hy)
  exact ⟨List.mem_filterMap.2 ⟨k, List.mem_range'_1.2 (by omega), hx⟩, hf⟩

/-- A cycle in which something is taken gives up the head. -/
theorem deqNo_of_ready (h : s.Ring) (hlt : s.deqNo < s.enqNo) (hr : i.deq_ready = true) :
    (s.next c i).deqNo = s.deqNo + 1 := by
  obtain ⟨he, hb⟩ := not_bypasses_of_lt (c := c) h hlt
  rw [(numbers_next (s := s) (c := c) (i := i)).2, (of_not_bypasses (i := i) hb).1, hr, he]
  rfl

/-- **What is accepted** is handed through, or gets a place. -/
theorem at_of_accepts (h : s.Ring) {b : Bits T U D} (ha : s.q.accepts i = some b) :
    (∃ x, s.q.fired c i = some x ∧ x.uop.fields = b.uop.fields) ∨
      (s.next c i).At s.enqNo b.uop.fields := by
  obtain ⟨he, hd⟩ := numbers_next (s := s) (c := c) (i := i)
  have hwritten : s.q.do_enq c i = some b → (s.next c i).At s.enqNo b.uop.fields := by
    intro hw
    have hle := (bounds_next (c := c) (i := i) h).2
    refine ⟨by omega, ?_, _, cell_written h hw, rfl⟩
    rw [he, hw]
    exact Nat.lt_succ_self _
  cases hb : s.q.bypasses c with
  | false => exact .inr (hwritten ((of_not_bypasses hb).2.1.trans ha))
  | true =>
    obtain ⟨-, -, hacc, hdo, hdeq⟩ := of_bypasses (i := i) h hb
    cases hr : i.deq_ready with
    | false =>
      rw [hr, if_neg Bool.false_ne_true, ← hacc, ha] at hdo
      exact .inr (hwritten hdo)
    | true =>
      refine .inl ⟨b.update i.brupdate, ?_, rfl⟩
      rw [Queue.fired, hr, if_pos rfl, hdeq, ← hacc, ha]
      rfl

/-- **An entry** that is not dropped is taken, or keeps its place; and whenever
    something is taken it comes nearer to the head. -/
theorem at_next (h : s.Ring) {k : ℕ} {f : U} (hat : s.At k f)
    (hkeep : ∀ x, s.cell k = some x → i.drops c x.bits.uop = false) :
    (∃ x, s.q.fired c i = some x ∧ x.uop.fields = f) ∨
      (s.next c i).At k f ∧ s.deqNo ≤ (s.next c i).deqNo ∧
        (i.deq_ready = true → s.deqNo < (s.next c i).deqNo) := by
  obtain ⟨hle, hlt, x, hx, hf⟩ := hat
  obtain ⟨he, hd⟩ := numbers_next (s := s) (c := c) (i := i)
  have hstay : s.deqNo + (s.q.do_deq c i).toNat ≤ k → (s.next c i).At k f := by
    intro hk
    refine ⟨by omega, by omega, ⟨x.number, x.bits.update i.brupdate⟩, ?_, hf⟩
    rw [cell_next h hk hlt, hx, Option.bind_some, Sys.upd, hkeep x hx]
    rfl
  have hgrow : i.deq_ready = true → s.deqNo < (s.next c i).deqNo := by
    intro hr
    rw [deqNo_of_ready h (hle.trans_lt hlt) hr]
    exact Nat.lt_succ_self _
  by_cases hk : s.deqNo = k
  · -- it is the head
    subst hk
    cases hr : i.deq_ready with
    | true =>
      refine .inl ⟨x.bits.update i.brupdate, ?_, hf⟩
      rw [Queue.fired, hr, if_pos rfl, deq_of_cell h hlt hx (hkeep x hx)]
    | false =>
      have hv : s.q.valids s.q.deq_ptr = true := by
        rw [cell_deqNo h] at hx
        by_contra hv
        rw [if_neg hv] at hx
        cases hx
      have hno : s.q.do_deq c i = false := by
        rw [(of_not_bypasses (i := i) (not_bypasses_of_lt h hlt).2).1, hr, hv]
        rfl
      refine .inr ⟨hstay (by rw [hno]; exact le_rfl), by omega, fun hc => ?_⟩
      cases hc
  · have hone := Bool.toNat_le (s.q.do_deq c i)
    exact .inr ⟨hstay (by omega), by omega, hgrow⟩

/-- **Each entry is taken** some time, if something is taken again and again; for
    a queue in a larger design. -/
theorem taken_of_at {q : ℕ → Sys n T U D} {j : ℕ → In T U D} {t k : ℕ} {f : U}
    (hnext : ∀ u, q (u + 1) = (q u).next c (j u)) (hring : ∀ u, (q u).Ring)
    (hkeep : ∀ u, (q u).At k f → ∀ x, (q u).cell k = some x → (j u).drops c x.bits.uop = false)
    (hready : ∀ u, t ≤ u → (∀ v, t ≤ v → (q v).At k f) →
      Later u fun v => (j v).deq_ready = true) (hat : (q t).At k f) :
    Later t fun u => ∃ x, (q u).q.fired c (j u) = some x ∧ x.uop.fields = f := by
  by_contra hno
  have hstep : ∀ u, t ≤ u → (q u).At k f → (q (u + 1)).At k f ∧ (q u).deqNo ≤ (q (u + 1)).deqNo ∧
      ((j u).deq_ready = true → (q u).deqNo < (q (u + 1)).deqNo) := by
    intro u hu hatu
    rw [hnext]
    exact (at_next (hring u) hatu (hkeep u hatu)).resolve_left fun hx => hno ⟨u, hu, hx⟩
  have hall : ∀ u, t ≤ u → (q u).At k f := always hat fun u hu hatu => (hstep u hu hatu).1
  obtain ⟨u, hu, hk⟩ := climbs (m := fun u => (q u).deqNo) (fun u hu => (hstep u hu (hall u hu)).2.1)
    (fun u hu => (hready u hu hall).mono fun v hv hr =>
      (hstep v (hu.trans hv) (hall v (hu.trans hv))).2.2 hr) (k + 1)
  exact absurd (hall u hu).1 (Nat.not_le_of_lt hk)

/-- A queue that nothing is offered to shows nothing some time, when something
    could be taken. -/
theorem drained {q : ℕ → Sys n T U D} {j : ℕ → In T U D} {t : ℕ}
    (hnext : ∀ u, q (u + 1) = (q u).next c (j u)) (hring : ∀ u, (q u).Ring)
    (henq : ∀ u, t ≤ u → (j u).enq = none) (hready : Often fun u => (j u).deq_ready = true) :
    Later t fun u => (j u).deq_ready = true ∧ (q u).q.deq c (j u) = none := by
  by_contra hno
  have hwrite : ∀ u, t ≤ u → (q u).q.do_enq c (j u) = none := by
    intro u hu
    rw [Queue.do_enq, Queue.accepts, henq u hu, ite_self, ite_self]
  have henqNo : ∀ u, t ≤ u → (q u).enqNo = (q t).enqNo := always rfl fun u hu he => by
    rw [hnext, (numbers_next (s := q u) (c := c) (i := j u)).1, hwrite u hu]
    exact he
  have hlt : ∀ u, t ≤ u → (j u).deq_ready = true → (q u).deqNo < (q u).enqNo := by
    intro u hu hr
    refine lt_of_le_of_ne (hring u).le fun he => hno ⟨u, hu, hr, ?_⟩
    have hempty := (empty_iff (hring u)).2 he.symm
    cases hb : (q u).q.bypasses c with
    | true => rw [(of_bypasses (hring u) hb).2.2.2.2, henq u hu, Option.map_none]
    | false =>
      rw [(of_not_bypasses hb).2.2, hempty]
      rfl
  obtain ⟨u, hu, hk⟩ := climbs (m := fun u => (q u).deqNo)
    (fun u hu => by
      show (q u).deqNo ≤ (q (u + 1)).deqNo
      rw [hnext, (numbers_next (s := q u) (c := c) (i := j u)).2]
      exact Nat.le_add_right _ _)
    (fun u hu => (hready u).mono fun v hv hr => by
      show (q v).deqNo < (q (v + 1)).deqNo
      rw [hnext, deqNo_of_ready (hring v) (hlt v (hu.trans hv) hr) hr]
      exact Nat.lt_succ_self _) ((q t).enqNo + 1)
  have := (hring u).le
  have := henqNo u hu
  omega

/-- **A FIFO of survivors**, if no flush meets what it selects on its way in; and
    `io.count` is right unless the queue is full and has a power of two of places. -/
theorem killable_queue (h : (calmQueue c).Reach s) (hok : Sys.Ok i) (hcalm : s.Calm c i) :
    s.Survives c i ∧
      (s.q.count = s.occupied ↔ ¬(Queue.isPow2 n = true ∧ s.q.full = true)) := by
  have hinv := inv_reach h
  refine ⟨⟨hinv.ring, hinv.holds, (inv_next hinv hok hcalm).law, fun b hd => ?_, fun hno => ?_,
    free_of_do_enq hinv.ring, fun hlt => ?_, fun x => deq_of_cell hinv.ring,
    deqNo_of_hole hinv.ring, deq_of_flow hinv.ring⟩, count_iff hinv.ring⟩
  · obtain ⟨y, hhead, rfl⟩ := head_of_deq hinv.ring hok hcalm hinv.holds hd
    obtain ⟨x, hx, hdrop, rfl, a, ha, hn, hb⟩ := masks_left hinv (List.mem_of_mem_head? hhead)
    refine ⟨x, hx, hdrop, rfl, ⟨a, ha, hn, hb⟩, fun hr => ?_⟩
    have hdel : s.delivers c i = true := by rw [Sys.delivers, hd, hr]; rfl
    show s.fifo.delivered ++ (if s.delivers c i then _ else _) = _
    rw [hdel, if_pos rfl, hhead]
    rfl
  · show s.fifo.delivered ++ (if s.delivers c i then _ else _) = _
    rw [hno, if_neg Bool.false_ne_true, List.append_nil]
  · rw [Queue.accepts, not_full_of_occupied hinv.ring hlt, if_neg Bool.false_ne_true]

end

/-! ## Two runs -/

/-- A queue after reset. -/
def initial (n : ℕ) [NeZero n] : Sys n 1 Unit ℕ where
  q :=
    { ram := fun _ => ⟨0, (), fun _ => false⟩
      valids := fun _ => false
      uops := fun _ => ⟨(), fun _ => false⟩
      enq_ptr := 0
      deq_ptr := 0
      maybe_full := false }
  tag _ := 0
  enqNo := 0
  deqNo := 0
  now := 0
  fifo := .empty
  resolved := []

theorem reset_initial {n : ℕ} [NeZero n] : (initial n).Reset :=
  ⟨fun _ => rfl, rfl, rfl, rfl, rfl, rfl, rfl, rfl, rfl⟩

/-- Every uop is selected by a flush. -/
def all (flow : Bool) : Config 1 Unit := ⟨fun _ => true, flow⟩

/-- An entry with or without the only tag. -/
def entry (data : ℕ) (tagged : Bool) : Bits 1 Unit ℕ := ⟨data, (), fun _ => tagged⟩

/-- Nothing happens. -/
def idle : In 1 Unit ℕ := ⟨none, false, ⟨fun _ => false, fun _ => false⟩, false⟩

/-- Two entries come in, and the branch of the first is mispredicted. -/
def killed : List (In 1 Unit ℕ) :=
  [{ idle with enq := some (entry 7 true) },
    { idle with enq := some (entry 8 false) },
    { idle with brupdate := ⟨fun _ => true, fun _ => true⟩ },
    { idle with deq_ready := true }]

/-- A test for inputs that no flush and no kill comes with. -/
def quiet (n : ℕ) (_ : Sys n 1 Unit ℕ) (i : In 1 Unit ℕ) : Bool :=
  !i.flush && (i.enq.isNone || !i.brupdate.mispredict_mask 0)

theorem ok_of_quiet {n : ℕ} [NeZero n] {c : Config 1 Unit} (s : Sys n 1 Unit ℕ)
    (i : In 1 Unit ℕ) (h : quiet n s i = true) : (calmQueue c).ok s i := by
  rw [quiet, Bool.and_eq_true] at h
  constructor
  · intro b hb
    have hno : i.brupdate.mispredict_mask 0 = false := by simpa [hb] using h.2
    simp [isKilledByBranch, hno]
  · intro b _ hf
    exact absurd h.1 (by simp [hf])

theorem reach_killed : (calmQueue (all true)).Reach ((queue (all true)).run (initial 3) killed) :=
  Machine.reach_run (M := calmQueue (all true)) killed (.start reset_initial)
    (Machine.accepts_of_passes ok_of_quiet _ _ (by decide +kernel))

/-- The hole is skipped, and the second entry is delivered. -/
theorem killable_queue_killed :
    (((queue (all true)).run (initial 3) killed).q.deq (all true)
        { idle with deq_ready := true }).map (·.data) = some 8 ∧
      ((queue (all true)).run (initial 3) killed).Survives (all true)
        { idle with deq_ready := true } :=
  ⟨by decide +kernel, (killable_queue reach_killed (ok_of_quiet (c := all true) (initial 3) _ rfl).1
      (ok_of_quiet (_ : Sys 3 1 Unit ℕ) _ rfl).2).1⟩

/-- Two entries come in. -/
def two : List (In 1 Unit ℕ) :=
  [{ idle with enq := some (entry 7 false) }, { idle with enq := some (entry 8 false) }]

/-- An entry comes in while everything is flushed. -/
def flushed : In 1 Unit ℕ := { idle with enq := some (entry 7 false), flush := true }

theorem ok_flushed : Sys.Ok flushed := by
  intro b hb
  obtain rfl := Option.some.inj hb
  rfl

/-- A queue of two places that are both taken shows the count 0; an empty queue
    shows what is flushed in this cycle, or keeps it and shows it later. -/
theorem killable_queue_fails :
    (∃ s : Sys 2 1 Unit ℕ, (queue (all false)).Reach s ∧ s.occupied = 2 ∧ s.q.count = 0) ∧
      (∃ (s : Sys 2 1 Unit ℕ) (b : Bits 1 Unit ℕ), (queue (all true)).Reach s ∧
        Sys.Ok flushed ∧ s.q.deq (all true) flushed = some b ∧
        flushed.drops (all true) b.uop = true) ∧
      ∃ s : Sys 2 1 Unit ℕ, (queue (all false)).Reach s ∧ Sys.Ok idle ∧
        ¬s.Survives (all false) idle := by
  have hkept : (queue (all false)).Reach ((initial 2).next (all false) flushed) :=
    .step (.start reset_initial) ok_flushed
  refine ⟨⟨_, Machine.reach_run two (.start reset_initial)
    (Machine.accepts_of_passes (fun s i h => (ok_of_quiet s i h).1) _ _ (by decide +kernel)),
    by decide +kernel, by decide +kernel⟩,
    ⟨initial 2, (entry 7 false).update flushed.brupdate, .start reset_initial, ok_flushed,
      rfl, rfl⟩,
    ⟨_, hkept, (ok_of_quiet (c := all false) (initial 2) _ rfl).1, fun hsurv => ?_⟩⟩
  have hshown : (((initial 2).next (all false) flushed).q.deq (all false) idle).isSome = true := by
    decide +kernel
  have hnone : ((((initial 2).next (all false) flushed).fifo.offered
      (((initial 2).next (all false) flushed).accepted idle))).length = 0 := by
    decide +kernel
  obtain ⟨b, hb⟩ := Option.isSome_iff_exists.1 hshown
  obtain ⟨x, hx, -⟩ := hsurv.shown b hb
  rw [List.eq_nil_of_length_eq_zero hnone] at hx
  exact absurd hx List.not_mem_nil

end BoomStop.KillableQueue
