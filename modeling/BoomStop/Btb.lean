/-
  The branch target buffer (`btb.scala`): sets of ways, in each way an entry and
  its tag for each lane of a bank, and full targets beside them.

  * `BTB.resp`, `BTB.write_way`: what a lookup returns, and the way that an
    update will write;
  * `BTB.next`: a cycle with an update;
  * `btb_learns`: a jump that was taken is found again with its target, unless
    there is no such way;
  * `btb_forgets`: a correction forgets the entry of a lane only where it
    happens to write it.
-/
import BoomStop.Predictor
import Mathlib.Data.List.Find

namespace BoomStop.Bpd

open Ifu

variable {p : Params}

/-! ## The memories -/

/-- `BoomBTBParams`. -/
structure BTBParams where
  nSets : ℕ
  nWays : ℕ
  offsetSz : ℕ
  extendedNSets : ℕ

/-- `BTBEntry`. -/
structure BTBEntry (offsetSz : ℕ) where
  offset : BitVec offsetSz
  extended : Bool

/-- `BTBMeta`. -/
structure BTBMeta where
  is_br : Bool
  tag : ℕ

/-- The memories, by way, set and lane. -/
structure BTB (p : Params) (c : BTBParams) where
  doing_reset : Bool
  reset_idx : ℕ
  metas : ℕ → ℕ → ℕ → BTBMeta
  btb : ℕ → ℕ → ℕ → BTBEntry c.offsetSz
  ebtb : ℕ → BitVec p.va

/-- `tagSz`. -/
def tagSz (p : Params) (c : BTBParams) : ℕ :=
  p.va - Nat.clog 2 c.nSets - Nat.clog 2 p.fetchWidth - 1

/-- The set of an address, its tag, and its place among the full targets. -/
def setOf (c : BTBParams) (pc : BitVec p.va) : ℕ := fetchIdx p pc % 2 ^ Nat.clog 2 c.nSets

/-- The tag of a packet. -/
def tagOf (c : BTBParams) (pc : BitVec p.va) : ℕ :=
  fetchIdx p pc / 2 ^ Nat.clog 2 c.nSets % 2 ^ tagSz p c

/-- The place of a packet in `ebtb`. -/
def extOf (c : BTBParams) (pc : BitVec p.va) : ℕ := fetchIdx p pc % 2 ^ Nat.clog 2 c.extendedNSets

/-- The address of a lane. -/
def laneAddr (pc : BitVec p.va) (w : ℕ) : BitVec p.va := pc + BitVec.ofNat p.va (w <<< 1)

namespace BTB

variable {c : BTBParams} (s : BTB p c)

/-! ## Lookup -/

/-- `s1_hit_ohs`. -/
def hit_oh (pc : BitVec p.va) (w way : ℕ) : Bool := (s.metas way (setOf c pc) w).tag == tagOf c pc

/-- The first way that hits in a lane. -/
def hit_way (pc : BitVec p.va) (w : ℕ) : Option ℕ := (List.range c.nWays).find? (s.hit_oh pc w)

/-- `s1_resp`, with `is_br`. -/
def resp (pc : BitVec p.va) (w : ℕ) : Option (BitVec p.va × Bool) :=
  if s.doing_reset then none
  else (s.hit_way pc w).map fun way =>
    let entry := s.btb way (setOf c pc) w
    (if entry.extended then s.ebtb (extOf c pc)
      else laneAddr pc w + entry.offset.signExtend p.va,
      (s.metas way (setOf c pc) w).is_br)

/-- `r_metas`: the tag of the request, and above it those of the set. -/
def r_metas (pc : BitVec p.va) : ℕ :=
  let tags := (List.range c.nWays).flatMap fun way =>
    (List.range p.bankWidth).map fun w => (s.metas way (setOf c pc) w).tag
  (tagOf c pc :: tags).foldr (fun t acc => t + 2 ^ tagSz p c * acc) 0

/-- `alloc_way`. -/
def alloc_way (pc : BitVec p.va) : ℕ :=
  if 1 < c.nWays then
    foldedHist (tagSz p c * (c.nWays * p.bankWidth + 1)) (Nat.clog 2 c.nWays) (s.r_metas pc)
  else 0

/-- `write_way`: the first way that hits in any lane, or one to allocate. -/
def write_way (pc : BitVec p.va) : ℕ :=
  ((List.range c.nWays).find? fun way =>
    (List.range p.bankWidth).any fun w => s.hit_oh pc w way).getD (s.alloc_way pc)

end BTB

/-! ## Update -/

namespace BankUpdate

variable (c : BTBParams) (u : BankUpdate p)

/-- `write_way` of the metadata. -/
def write_way : ℕ := u.metadata % 2 ^ Nat.clog 2 c.nWays

/-- `new_offset_value`: how far the jump goes. -/
def new_offset_value : BitVec p.va := u.target - laneAddr u.pc u.cfi_idx

/-- `offset_is_extended`: the offset does not fit in an entry. -/
def offset_is_extended : Bool :=
  decide ((2 : ℤ) ^ (c.offsetSz - 1) - 1 < u.new_offset_value.toInt) ||
    decide (u.new_offset_value.toInt < -(2 : ℤ) ^ (c.offsetSz - 1))

/-- `s1_update_wbtb_data`. -/
def wbtb_data : BTBEntry c.offsetSz where
  extended := u.offset_is_extended c
  offset := u.new_offset_value.signExtend c.offsetSz

/-- `s1_update_wbtb_mask`. -/
def wbtb_mask (w : ℕ) : Bool :=
  u.cfi_idx == w && (u.cfi_idx_valid && u.valid && u.cfi_taken && u.is_commit_update)

/-- `s1_update_wmeta_mask`. -/
def wmeta_mask (w : ℕ) : Bool :=
  (u.wbtb_mask w || u.br_mask w) &&
    (u.valid && u.is_commit_update || u.valid && u.btb_mispredicts w)

/-- `s1_update_wmeta_data`. -/
def wmeta_data (w : ℕ) : BTBMeta where
  tag := if u.btb_mispredicts w then 0 else tagOf c u.pc
  is_br := u.br_mask w

/-- A way is the one to be written. -/
def selects (way : ℕ) : Bool := u.write_way c == way || way == 0 && c.nWays == 1

/-- The update writes a full target. -/
def writesExt : Bool := (List.range p.bankWidth).any u.wbtb_mask && u.offset_is_extended c

end BankUpdate

/-- A cycle with an update in `s1_update`. -/
def BTB.next {c : BTBParams} (s : BTB p c) (u : BankUpdate p) : BTB p c where
  doing_reset := s.doing_reset && s.reset_idx != c.nSets - 1
  reset_idx := (s.reset_idx + s.doing_reset.toNat) % 2 ^ Nat.clog 2 c.nSets
  metas way set w :=
    if s.doing_reset then if set = s.reset_idx then ⟨false, 0⟩ else s.metas way set w
    else if u.selects c way && set == setOf c u.pc && u.wmeta_mask w then u.wmeta_data c w
    else s.metas way set w
  btb way set w :=
    if s.doing_reset then if set = s.reset_idx then ⟨0, false⟩ else s.btb way set w
    else if u.selects c way && set == setOf c u.pc && u.wbtb_mask w then u.wbtb_data c
    else s.btb way set w
  ebtb i := if u.writesExt c && i == extOf c u.pc then u.target else s.ebtb i

/-- The state after a list of updates. -/
def BTB.run {c : BTBParams} (s : BTB p c) (us : List (BankUpdate p)) : BTB p c :=
  us.foldl BTB.next s

/-- An update writes a lane of a set, in some way. -/
def BankUpdate.writes (c : BTBParams) (u : BankUpdate p) (set w : ℕ) : Prop :=
  set = setOf c u.pc ∧ (u.wmeta_mask w = true ∨ u.wbtb_mask w = true) ∧
    ∃ way < c.nWays, u.selects c way = true

/-! ## Offsets -/

/-- A number that fits in the bits of an offset is kept by them. -/
theorem signExtend_signExtend_of_fits {va k : ℕ} (x : BitVec va) (hk : 0 < k)
    (hlo : -(2 : ℤ) ^ (k - 1) ≤ x.toInt) (hhi : x.toInt ≤ (2 : ℤ) ^ (k - 1) - 1) :
    (x.signExtend k).signExtend va = x := by
  apply BitVec.eq_of_toInt_eq
  obtain ⟨j, rfl⟩ : ∃ j, k = j + 1 := ⟨k - 1, by omega⟩
  rw [Nat.add_sub_cancel] at hlo hhi
  have hj : x.toInt.bmod (2 ^ (j + 1)) = x.toInt := by
    apply Int.bmod_eq_of_le_mul_two <;> rw [pow_succ] <;> push_cast <;> omega
  have hva : x.toInt.bmod (2 ^ va) = x.toInt := by
    have h1 := @BitVec.two_mul_toInt_lt va x
    have h2 := @BitVec.le_two_mul_toInt va x
    apply Int.bmod_eq_of_le_mul_two <;> push_cast <;> omega
  rw [BitVec.toInt_signExtend, BitVec.toInt_signExtend, Nat.min_comm va]
  rcases Nat.le_total (j + 1) va with h | h
  · rw [Nat.min_eq_left h, hj, hj]
  · rw [Nat.min_eq_right h, hva, hva]

/-- The entry of a target leads back to it. -/
theorem target_of_wbtb_data {c : BTBParams} (hk : 0 < c.offsetSz) {u : BankUpdate p}
    (he : u.offset_is_extended c = false) :
    laneAddr u.pc u.cfi_idx + (u.wbtb_data c).offset.signExtend p.va = u.target := by
  rw [BankUpdate.offset_is_extended, Bool.or_eq_false_iff, decide_eq_false_iff_not,
    decide_eq_false_iff_not, not_lt, not_lt] at he
  rw [BankUpdate.wbtb_data, signExtend_signExtend_of_fits _ hk he.2 he.1,
    BankUpdate.new_offset_value, BitVec.add_comm, BitVec.sub_add_cancel]

/-! ## What a lookup depends on -/

namespace BTB

variable {c : BTBParams} {s s' : BTB p c} {pc : BitVec p.va} {w : ℕ}

theorem hit_way_eq_some {way : ℕ} : s.hit_way pc w = some way ↔
    way < c.nWays ∧ s.hit_oh pc w way = true ∧ ∀ way' < way, s.hit_oh pc w way' = false := by
  rw [hit_way, List.find?_range_eq_some, List.mem_range]
  simp only [Bool.not_eq_true']
  exact ⟨fun h => ⟨h.2.1, h.1, h.2.2⟩, fun h => ⟨h.2.1, h.1, h.2.2⟩⟩

/-- The memories agree in a lane of a set. -/
def Same (s s' : BTB p c) (set w : ℕ) : Prop :=
  ∀ way < c.nWays, s'.metas way set w = s.metas way set w ∧ s'.btb way set w = s.btb way set w

theorem Same.hit_way (h : Same s s' (setOf c pc) w) : s'.hit_way pc w = s.hit_way pc w := by
  have hoh (way : ℕ) (hw : way < c.nWays) : s'.hit_oh pc w way = s.hit_oh pc w way := by
    rw [hit_oh, hit_oh, (h way hw).1]
  exact List.find?_congr fun way hw => hoh way (List.mem_range.1 hw)

/-- An update that does not write a lane leaves it as it is. -/
theorem same_next (hr : s.doing_reset = false) {u : BankUpdate p} {set : ℕ}
    (hu : ¬u.writes c set w) : Same s (s.next u) set w := by
  intro way hway
  have hno : ∀ m : Bool, (m = true → u.wmeta_mask w = true ∨ u.wbtb_mask w = true) →
      (u.selects c way && set == setOf c u.pc && m) = false := by
    intro m hm
    rw [Bool.eq_false_iff]
    intro h
    rw [Bool.and_eq_true, Bool.and_eq_true, beq_iff_eq] at h
    exact hu ⟨h.1.2, hm h.2, way, hway, h.1.1⟩
  simp only [next, hr, Bool.false_eq_true, if_false, hno _ Or.inl, hno _ Or.inr, and_self]

theorem run_cons (s : BTB p c) (u : BankUpdate p) (us : List (BankUpdate p)) :
    s.run (u :: us) = (s.next u).run us := rfl

theorem doing_reset_next (hr : s.doing_reset = false) (u : BankUpdate p) :
    (s.next u).doing_reset = false := by
  simp only [next, hr, Bool.false_and]

/-- Nothing changes in a lane until an update writes it. -/
theorem same_run {set : ℕ} : ∀ (us : List (BankUpdate p)) (s : BTB p c), s.doing_reset = false →
    (∀ u ∈ us, ¬u.writes c set w) → (s.run us).doing_reset = false ∧ Same s (s.run us) set w
  | [], _, hr, _ => ⟨hr, fun _ _ => ⟨rfl, rfl⟩⟩
  | u :: us, s, hr, hu => by
    have hnext := same_next hr (hu u List.mem_cons_self)
    obtain ⟨hr', hs⟩ := same_run us (s.next u) (doing_reset_next hr u)
      fun u' h => hu u' (List.mem_cons_of_mem _ h)
    refine ⟨hr', fun way hway => ?_⟩
    rw [run_cons, (hs way hway).1, (hs way hway).2]
    exact hnext way hway

theorem ebtb_run {i : ℕ} : ∀ (us : List (BankUpdate p)) (s : BTB p c),
    (∀ u ∈ us, ¬(u.writesExt c = true ∧ extOf c u.pc = i)) → (s.run us).ebtb i = s.ebtb i
  | [], _, _ => rfl
  | u :: us, s, hu => by
    rw [run_cons, ebtb_run us (s.next u) fun u' h => hu u' (List.mem_cons_of_mem _ h)]
    have hno : (u.writesExt c && i == extOf c u.pc) = false := by
      rw [Bool.eq_false_iff]
      intro h
      rw [Bool.and_eq_true, beq_iff_eq] at h
      exact hu u List.mem_cons_self ⟨h.1, h.2.symm⟩
    simp only [next, hno, Bool.false_eq_true, if_false]

/-- A way below the one to write hits in no lane. -/
theorem hit_oh_of_lt_write_way {way : ℕ} (hw : w < p.bankWidth) (hway : way < c.nWays)
    (hlt : way < s.write_way pc ∨ c.nWays ≤ s.write_way pc) : s.hit_oh pc w way = false := by
  have hmem : w ∈ List.range p.bankWidth := List.mem_range.2 hw
  rw [write_way] at hlt
  cases hf : (List.range c.nWays).find? fun way =>
      (List.range p.bankWidth).any fun w => s.hit_oh pc w way with
  | some v =>
    rw [List.find?_range_eq_some, List.mem_range] at hf
    rw [List.find?_range_eq_some.2 ⟨hf.1, List.mem_range.2 hf.2.1, hf.2.2⟩, Option.getD_some] at hlt
    have hno := hf.2.2 way (hlt.resolve_right (Nat.not_le.2 hf.2.1))
    rw [Bool.not_eq_true', List.any_eq_false] at hno
    exact Bool.not_eq_true _ ▸ hno w hmem
  | none =>
    have hno := List.find?_eq_none.1 hf way (List.mem_range.2 hway)
    rw [Bool.not_eq_true, List.any_eq_false] at hno
    exact Bool.not_eq_true _ ▸ hno w hmem

/-! ## Learning -/

/-- A commit update of a jump that was taken in a lane, with the way that a
    lookup has named. -/
structure Learns (s : BTB p c) (u : BankUpdate p) (w : ℕ) : Prop where
  lane : w < p.bankWidth
  valid : u.valid = true
  commit : u.is_commit_update = true
  cfi : u.cfi_idx_valid = true ∧ u.cfi_idx = w
  taken : u.cfi_taken = true
  way : u.write_way c = s.write_way u.pc

theorem Learns.wbtb_mask {u : BankUpdate p} (h : Learns s u w) : u.wbtb_mask w = true := by
  rw [BankUpdate.wbtb_mask, h.cfi.1, h.cfi.2, h.valid, h.taken, h.commit]
  simp

theorem Learns.wmeta_mask {u : BankUpdate p} (h : Learns s u w) : u.wmeta_mask w = true := by
  rw [BankUpdate.wmeta_mask, h.wbtb_mask, h.valid, h.commit]
  rfl

/-- A commit update corrects nothing. -/
theorem Learns.tag {u : BankUpdate p} (h : Learns s u w) :
    (u.wmeta_data c w).tag = tagOf c u.pc := by
  have hno : u.btb_mispredicts w = false := by
    have hc := h.commit
    rw [BankUpdate.is_commit_update, Bool.not_eq_true', Bool.or_eq_false_iff] at hc
    have := List.any_eq_false.1 hc.2 w (List.mem_range.2 h.lane)
    exact Bool.not_eq_true _ ▸ this
  rw [BankUpdate.wmeta_data, hno]
  rfl

theorem selects_eq_true {u : BankUpdate p} {way : ℕ} (hway : way < c.nWays) :
    u.selects c way = true ↔ u.write_way c = way := by
  rw [BankUpdate.selects, Bool.or_eq_true, Bool.and_eq_true, beq_iff_eq, beq_iff_eq, beq_iff_eq]
  constructor
  · rintro (h | ⟨rfl, h1⟩)
    · exact h
    · -- with one way the field has no bits
      rw [BankUpdate.write_way, h1]
      exact Nat.mod_one _
  · exact Or.inl

theorem next_way {u : BankUpdate p} (hr : s.doing_reset = false) (h : Learns s u w)
    (hw : s.write_way u.pc < c.nWays) :
    (s.next u).metas (s.write_way u.pc) (setOf c u.pc) w = u.wmeta_data c w ∧
      (s.next u).btb (s.write_way u.pc) (setOf c u.pc) w = u.wbtb_data c := by
  have hsel : u.selects c (s.write_way u.pc) = true := (selects_eq_true hw).2 h.way
  simp only [next, hr, hsel, h.wbtb_mask, h.wmeta_mask, beq_self_eq_true, Bool.and_self,
    Bool.false_eq_true, if_false, if_true, and_self]

theorem next_metas_of_ne {u : BankUpdate p} (hr : s.doing_reset = false) {way set : ℕ}
    (hway : way < c.nWays) (hne : u.write_way c ≠ way) :
    (s.next u).metas way set w = s.metas way set w := by
  have hsel : u.selects c way = false := Bool.eq_false_iff.2 fun h =>
    hne ((selects_eq_true hway).1 h)
  simp only [next, hr, hsel, Bool.false_and, Bool.false_eq_true, if_false]

/-- The lane is found in the way that was written. -/
theorem hit_way_of_learns {u : BankUpdate p} (hr : s.doing_reset = false) (h : Learns s u w)
    (hw : s.write_way u.pc < c.nWays) :
    (s.next u).hit_way u.pc w = some (s.write_way u.pc) := by
  refine hit_way_eq_some.2 ⟨hw, ?_, fun way hlt => ?_⟩
  · rw [hit_oh, (next_way hr h hw).1, h.tag]
    exact beq_self_eq_true _
  · have hne : u.write_way c ≠ way := by
      rw [h.way]
      exact (ne_of_lt hlt).symm
    have hno := hit_oh_of_lt_write_way h.lane (hlt.trans hw) (.inl hlt)
    rw [hit_oh] at hno ⊢
    rw [next_metas_of_ne hr (hlt.trans hw) hne, hno]

theorem resp_eq (hr : s.doing_reset = false) {way : ℕ} (hway : s.hit_way pc w = some way) :
    (s.resp pc w).map Prod.fst = some (if (s.btb way (setOf c pc) w).extended then s.ebtb (extOf c pc)
      else laneAddr pc w + (s.btb way (setOf c pc) w).offset.signExtend p.va) := by
  rw [resp, hr, if_neg Bool.false_ne_true, hway]
  rfl

/-- **A jump that was taken is learned**, and kept until its lane, or its full
    target, is written again, if the way to write is one of the ways. -/
theorem learns (hk : 0 < c.offsetSz) (hr : s.doing_reset = false) {u : BankUpdate p}
    (h : Learns s u w) {us : List (BankUpdate p)}
    (hus : ∀ u' ∈ us, ¬u'.writes c (setOf c u.pc) w)
    (hext : u.offset_is_extended c = true →
      ∀ u' ∈ us, ¬(u'.writesExt c = true ∧ extOf c u'.pc = extOf c u.pc)) :
    (((s.next u).run us).resp u.pc w).map Prod.fst = some u.target ↔
      s.write_way u.pc < c.nWays := by
  obtain ⟨hr', hsame⟩ := same_run us (s.next u) (doing_reset_next hr u) hus
  constructor
  · intro hresp
    by_contra hw
    -- no lane hits, and no way is written
    have hnone : ((s.next u).run us).hit_way u.pc w = none := by
      rw [hsame.hit_way, hit_way, List.find?_eq_none]
      intro way hway
      have hway := List.mem_range.1 hway
      have hne : u.write_way c ≠ way := by
        rw [h.way]
        omega
      rw [Bool.not_eq_true, hit_oh, next_metas_of_ne hr hway hne]
      exact hit_oh_of_lt_write_way h.lane hway (.inr (by omega))
    rw [resp, hr', if_neg Bool.false_ne_true, hnone] at hresp
    cases hresp
  · intro hw
    have hway : ((s.next u).run us).hit_way u.pc w = some (s.write_way u.pc) := by
      rw [hsame.hit_way, hit_way_of_learns hr h hw]
    rw [resp_eq hr' hway, (hsame _ hw).2, (next_way hr h hw).2]
    cases he : u.offset_is_extended c with
    | true =>
      have hany : (List.range p.bankWidth).any u.wbtb_mask = true :=
        List.any_eq_true.2 ⟨w, List.mem_range.2 h.lane, h.wbtb_mask⟩
      have hebtb : (s.next u).ebtb (extOf c u.pc) = u.target := by
        simp only [next, BankUpdate.writesExt, hany, he, beq_self_eq_true, Bool.and_self, if_true]
      rw [show (u.wbtb_data c).extended = true from he, if_pos rfl, ebtb_run us _ (hext he), hebtb]
    | false =>
      rw [show (u.wbtb_data c).extended = false from he, if_neg Bool.false_ne_true, ← h.cfi.2,
        target_of_wbtb_data hk he]

/-! ## Forgetting -/

/-- A correction from f3; what f3 leaves open may be anything. -/
structure Corrects (u : BankUpdate p) (w : ℕ) : Prop where
  lane : w < p.bankWidth
  valid : u.valid = true
  mispredicts : u.btb_mispredicts w = true

theorem Corrects.wmeta_mask {u : BankUpdate p} (h : Corrects u w) :
    u.wmeta_mask w = u.br_mask w := by
  have hc : u.is_commit_update = false := by
    rw [BankUpdate.is_commit_update, Bool.not_eq_false', Bool.or_eq_true]
    exact .inr (List.any_eq_true.2 ⟨w, List.mem_range.2 h.lane, h.mispredicts⟩)
  rw [BankUpdate.wmeta_mask, BankUpdate.wbtb_mask, hc, h.valid, h.mispredicts]
  simp

/-- **A correction forgets the entry of its lane** exactly when it is told to
    write the lane, in the way of the entry. -/
theorem forgets (hr : s.doing_reset = false) {u : BankUpdate p} (h : Corrects u w)
    (htag : tagOf c u.pc ≠ 0) {way : ℕ} (hway : s.hit_way u.pc w = some way) :
    (s.next u).hit_way u.pc w ≠ some way ↔ u.br_mask w = true ∧ u.write_way c = way := by
  obtain ⟨hlt, hoh, hlow⟩ := hit_way_eq_some.1 hway
  have htag0 : (u.wmeta_data c w).tag = 0 := if_pos h.mispredicts
  have hmeta (way' : ℕ) : (s.next u).metas way' (setOf c u.pc) w =
      if u.selects c way' && u.br_mask w then u.wmeta_data c w
      else s.metas way' (setOf c u.pc) w := by
    simp only [next, hr, h.wmeta_mask, beq_self_eq_true, Bool.and_true, Bool.false_eq_true, if_false]
  have hmiss {way' : ℕ} (hsel : (u.selects c way' && u.br_mask w) = true) :
      (s.next u).hit_oh u.pc w way' = false := by
    rw [hit_oh, hmeta, if_pos hsel, htag0, beq_eq_false_iff_ne]
    exact htag.symm
  have hkeep {way' : ℕ} (hsel : ¬(u.selects c way' && u.br_mask w) = true) :
      (s.next u).hit_oh u.pc w way' = s.hit_oh u.pc w way' := by
    rw [hit_oh, hit_oh, hmeta, if_neg hsel]
  rw [and_comm, ← selects_eq_true hlt, ← Bool.and_eq_true]
  constructor
  · intro hne
    by_contra hsel
    refine hne (hit_way_eq_some.2 ⟨hlt, by rw [hkeep hsel, hoh], fun way' hlt' => ?_⟩)
    by_cases hsel' : (u.selects c way' && u.br_mask w) = true
    · exact hmiss hsel'
    · rw [hkeep hsel', hlow way' hlt']
  · intro hsel heq
    have := (hit_way_eq_some.1 heq).2.1
    rw [hmiss hsel] at this
    cases this

/-- With a power of two of ways there always is one to write. -/
theorem write_way_lt {k : ℕ} (h : c.nWays = 2 ^ k) : s.write_way pc < c.nWays := by
  rw [write_way]
  cases hf : (List.range c.nWays).find? fun way =>
      (List.range p.bankWidth).any fun w => s.hit_oh pc w way with
  | some v =>
    rw [List.find?_range_eq_some, List.mem_range] at hf
    exact hf.2.1
  | none =>
    rw [Option.getD_none, alloc_way, h, Nat.clog_pow 2 k one_lt_two]
    split_ifs
    · exact foldedHist_lt _ _ _
    · exact Nat.two_pow_pos k

end BTB

/-- **What the buffer learns and forgets**: a jump that was taken, if the way to
    write exists, and the entry of a correction, if the correction is told to
    write its lane in its way. -/
theorem btb_learns_and_forgets (c : BTBParams) (hk : 0 < c.offsetSz) (s : BTB p c)
    (hr : s.doing_reset = false) (u : BankUpdate p) (w : ℕ) :
    (BTB.Learns s u w → ∀ us : List (BankUpdate p),
      (∀ u' ∈ us, ¬u'.writes c (setOf c u.pc) w) →
      (u.offset_is_extended c = true →
        ∀ u' ∈ us, ¬(u'.writesExt c = true ∧ extOf c u'.pc = extOf c u.pc)) →
      ((((s.next u).run us).resp u.pc w).map Prod.fst = some u.target ↔
        s.write_way u.pc < c.nWays)) ∧
    (BTB.Corrects u w → tagOf c u.pc ≠ 0 → ∀ way, s.hit_way u.pc w = some way →
      ((s.next u).hit_way u.pc w ≠ some way ↔ u.br_mask w = true ∧ u.write_way c = way)) :=
  ⟨fun h _ hus hext => BTB.learns hk hr h hus hext, fun h ht _ hway => BTB.forgets hr h ht hway⟩

/-! ## Two runs -/

/-- A jump in the first lane, and its correction, with the field for the way. -/
def jumpTo (pc target : BitVec twoWide.va) (metadata : ℕ) : BankUpdate twoWide where
  valid := true
  is_mispredict_update := false
  is_repair_update := false
  btb_mispredicts _ := false
  pc := pc
  br_mask _ := false
  cfi_idx_valid := true
  cfi_idx := 0
  cfi_taken := true
  cfi_mispredicted := false
  cfi_is_br := false
  cfi_is_jal := true
  cfi_is_jalr := false
  ghist := 0
  lhist := 0
  target := target
  metadata := metadata

/-- The first lane is no jump any more. -/
def correction (pc : BitVec twoWide.va) (br_mask : Bool) (metadata : ℕ) : BankUpdate twoWide :=
  { jumpTo pc 0 metadata with btb_mispredicts := fun w => w == 0, br_mask := fun _ => br_mask }

/-- The predictor after reset. -/
def emptyBTB (c : BTBParams) : BTB twoWide c where
  doing_reset := false
  reset_idx := 0
  metas _ _ _ := ⟨false, 0⟩
  btb _ _ _ := ⟨0, false⟩
  ebtb _ := 0

/-- Two sets of two ways, with offsets of five bits. -/
def twoWays : BTBParams := ⟨2, 2, 5, 2⟩

/-- Two sets of three ways. -/
def threeWays : BTBParams := ⟨2, 3, 13, 2⟩

/-- A jump from `0x48` whose offset does not fit in an entry. -/
def farJump : BankUpdate twoWide := jumpTo 0x48 0x10 ((emptyBTB twoWays).write_way 0x48)

/-- After this jump. -/
def jumpRun : BTB twoWide twoWays := (emptyBTB twoWays).next farJump

/-- Two jumps from `0x4c`, which is in the other set; one of them is far, too. -/
def laterJumps : List (BankUpdate twoWide) := [jumpTo 0x4c 0x10 0, jumpTo 0x4c 0x54 1]

theorem btb_learns_and_forgets_jump :
    farJump.offset_is_extended twoWays = true ∧
    (((jumpRun.run laterJumps).resp 0x48 0).map Prod.fst = some 0x10 ↔
      (emptyBTB twoWays).write_way 0x48 < 2) ∧
    (emptyBTB twoWays).write_way 0x48 < 2 ∧
    ((jumpRun.next (correction 0x48 true (jumpRun.write_way 0x48))).hit_way 0x48 0 ≠
      some (jumpRun.write_way 0x48) ↔
      (correction 0x48 true (jumpRun.write_way 0x48)).br_mask 0 = true ∧
        (correction 0x48 true (jumpRun.write_way 0x48)).write_way twoWays =
          jumpRun.write_way 0x48) :=
  ⟨by decide +kernel,
    (btb_learns_and_forgets twoWays (by decide) (emptyBTB twoWays) rfl farJump 0).1
      ⟨by decide, rfl, by decide, ⟨rfl, rfl⟩, rfl, by decide +kernel⟩ laterJumps
      (fun u hu hw => by
        rcases List.mem_pair.1 hu with rfl | rfl <;> exact absurd hw.1 (by decide +kernel))
      (fun _ u hu hext => by
        rcases List.mem_pair.1 hu with rfl | rfl <;> exact absurd hext.2 (by decide +kernel)),
    by decide +kernel,
    (btb_learns_and_forgets twoWays (by decide) jumpRun rfl
      (correction 0x48 true (jumpRun.write_way 0x48)) 0).2
      ⟨by decide, rfl, rfl⟩ (by decide +kernel) _ (by decide +kernel)⟩

/-- **An entry that is corrected stays** when the mask that f3 leaves open is
    empty, and **a jump is not learned** when the way to allocate is none of
    three. -/
theorem not_forgets_not_learns :
    (¬∀ way, jumpRun.hit_way 0x48 0 = some way → tagOf twoWays (0x48 : BitVec twoWide.va) ≠ 0 →
      (jumpRun.next (correction 0x48 false (jumpRun.write_way 0x48))).hit_way 0x48 0 ≠ some way) ∧
    (((emptyBTB threeWays).next
      (jumpTo 0x18 0x10 ((emptyBTB threeWays).write_way 0x18))).resp 0x18 0).map Prod.fst ≠
        some 0x10 :=
  ⟨fun h => h (jumpRun.write_way 0x48) (by decide +kernel) (by decide +kernel) (by decide +kernel),
    by decide +kernel⟩

end BoomStop.Bpd
