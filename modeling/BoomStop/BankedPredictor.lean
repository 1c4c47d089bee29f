/-
  The branch predictor over its two banks (`predictor.scala`, class
  `BranchPredictor`), the chain of components in a bank (`composer.scala`), and
  what the TAGE component does with an update (`tage.scala`).

  * `BranchPredictionRequest.toBank`, `BranchPredictor.next`, `respSlot`: a
    packet is asked from the banks, and its slots are answered by them;
  * `BranchPredictionUpdate.split`: the update of a packet, for each bank;
  * `pack`, `unpack`: the metadata of the components;
  * `BankUpdate.provides`, `.allocates`, `.forgets`: the tables and lanes that
    TAGE updates;
  * `split_exact_iff`: the split does what the update says of each slot, unless
    a branch shares the lane of a misprediction in the other bank.
-/
import BoomStop.GlobalHistory
import BoomStop.FetchParse
import BoomStop.WrBypass
import BoomStop.Btb

namespace BoomStop.Bpd

open Ifu

variable {p : Params} {L R : ℕ}

/-! ## Requests and responses -/

/-- `nextBank`. -/
def nextBank (p : Params) (addr : BitVec p.va) : BitVec p.va :=
  bankAlign p addr + BitVec.ofNat p.va p.bankBytes

/-- `BranchPredictionRequest`. -/
structure BranchPredictionRequest (p : Params) (L R : ℕ) where
  valid : Bool
  pc : BitVec p.va
  ghist : GlobalHistory L R

/-- What a bank is asked in `f0`. -/
structure BankRequest (p : Params) where
  f0_valid : Bool
  f0_pc : BitVec p.va
  f0_mask : ℕ → Bool

/-- The part of a request that a bank gets. -/
def BranchPredictionRequest.toBank (r : BranchPredictionRequest p L R) (b : Bool) :
    BankRequest p :=
  if bank p r.pc = b then
    { f0_valid := r.valid
      f0_pc := bankAlign p r.pc
      f0_mask := fun w => decide (w < p.bankWidth) && (fetchMask p r.pc).getLsbD w }
  else
    { f0_valid := r.valid && !(bank p r.pc && isLastBankInBlock p r.pc)
      f0_pc := nextBank p r.pc
      f0_mask := fun w => decide (w < p.bankWidth) }

/-- The registers of `BranchPredictor` and of its banks; `s2_ghist` and
    `s3_ghist` stand for what a bank has read with `f1_ghist`. -/
structure BranchPredictor (p : Params) (L : ℕ) where
  bank_d : Bool
  histories_d : Bool → BitVec L
  f1_pc : BitVec p.va
  f2_pc : BitVec p.va
  f3_pc : BitVec p.va
  s1_valid : Bool → Bool
  s2_valid : Bool → Bool
  s3_valid : Bool → Bool
  s1_idx : Bool → ℕ
  s2_idx : Bool → ℕ
  s3_idx : Bool → ℕ
  s2_ghist : Bool → BitVec L
  s3_ghist : Bool → BitVec L

namespace BranchPredictor

/-- `f1_ghist` of a bank. -/
def f1_ghist (s : BranchPredictor p L) (b : Bool) : BitVec L :=
  if s.bank_d = b then s.histories_d false else s.histories_d true

/-- A cycle with a request. -/
def next (s : BranchPredictor p L) (r : BranchPredictionRequest p L R) : BranchPredictor p L where
  bank_d := bank p r.pc
  histories_d := r.ghist.histories p
  f1_pc := r.pc
  f2_pc := s.f1_pc
  f3_pc := s.f2_pc
  s1_valid b := (r.toBank b).f0_valid
  s2_valid := s.s1_valid
  s3_valid := s.s2_valid
  s1_idx b := fetchIdx p (r.toBank b).f0_pc
  s2_idx := s.s1_idx
  s3_idx := s.s2_idx
  s2_ghist := s.f1_ghist
  s3_ghist := s.s2_ghist

end BranchPredictor

/-- The bank and the lane that answer for a slot of the packet at an address. -/
def respSlot (pc : BitVec p.va) (i : ℕ) : Bool × ℕ :=
  if i < p.bankWidth then (bank p pc, i) else (!bank p pc, i - p.bankWidth)

/-! ## Updates -/

/-- `BranchPredictionUpdate`, with a bit for each slot of the packet, and what
    each bank gave of its own. -/
structure BranchPredictionUpdate (p : Params) (L R : ℕ) where
  valid : Bool
  is_mispredict_update : Bool
  is_repair_update : Bool
  btb_mispredicts : ℕ → Bool
  pc : BitVec p.va
  br_mask : ℕ → Bool
  cfi_idx_valid : Bool
  cfi_idx : Fin p.fetchWidth
  cfi_taken : Bool
  cfi_mispredicted : Bool
  cfi_is_br : Bool
  cfi_is_jal : Bool
  cfi_is_jalr : Bool
  ghist : GlobalHistory L R
  lhist : Bool → ℕ
  target : BitVec p.va
  metadata : Bool → ℕ

namespace BranchPredictionUpdate

variable (u : BranchPredictionUpdate p L R)

/-- The update of a bank. -/
def split (b : Bool) : BankUpdate p where
  valid :=
    if bank p u.pc = b then u.valid
    else u.valid && !(bank p u.pc && isLastBankInBlock p u.pc) &&
      (!u.cfi_idx_valid || decide (p.bankWidth ≤ u.cfi_idx.val))
  is_mispredict_update := u.is_mispredict_update
  is_repair_update := u.is_repair_update
  btb_mispredicts w := decide (w < p.bankWidth) &&
    if bank p u.pc = b then u.btb_mispredicts w else u.btb_mispredicts (w + p.bankWidth)
  pc := if bank p u.pc = b then bankAlign p u.pc else nextBank p u.pc
  br_mask w := decide (w < p.bankWidth) &&
    if bank p u.pc = b then u.br_mask w else u.br_mask (w + p.bankWidth)
  cfi_idx_valid := u.cfi_idx_valid &&
    if bank p u.pc = b then decide (u.cfi_idx.val < p.bankWidth)
    else decide (p.bankWidth ≤ u.cfi_idx.val)
  cfi_idx := u.cfi_idx.val % 2 ^ Nat.clog 2 p.bankWidth
  -- these say nothing of the bank
  cfi_taken := u.cfi_taken
  cfi_mispredicted := u.cfi_mispredicted
  cfi_is_br := u.cfi_is_br
  cfi_is_jal := u.cfi_is_jal
  cfi_is_jalr := u.cfi_is_jalr
  ghist := if bank p u.pc = b then (u.ghist.histories p false).toNat
    else (u.ghist.histories p true).toNat
  lhist := u.lhist b
  target := u.target
  metadata := u.metadata b

end BranchPredictionUpdate

/-! ## Components -/

/-- What `ComposedBranchPredictorBank` takes from a component. -/
structure Component where
  metaSz : ℕ
  f3_meta : ℕ

/-- `metas`. -/
def pack (components : List Component) : ℕ :=
  components.foldl (fun metas c =>
    if 0 < c.metaSz then metas <<< c.metaSz ||| c.f3_meta % 2 ^ c.metaSz else metas) 0

/-- `update_meta` of each component, by their sizes. -/
def unpack (sizes : List ℕ) (update_meta : ℕ) : List ℕ :=
  (sizes.reverse.foldl (fun acc metaSz => (acc.2 :: acc.1, acc.2 >>> metaSz))
    (([] : List ℕ), update_meta)).1

/-- `meta_sz`. -/
def metaSize (components : List Component) : ℕ := (components.map Component.metaSz).sum

/-- The update of a component. -/
def BankUpdate.component (u : BankUpdate p) (sizes : List ℕ) (k : ℕ) : BankUpdate p :=
  { u with metadata := (unpack sizes u.metadata).getD k 0 }

/-! ## The tables of TAGE -/

/-- `TageMeta`, by lane. -/
structure TageMeta where
  provider : ℕ → Option ℕ
  alt_differs : ℕ → Bool
  provider_u : ℕ → BitVec 2
  provider_ctr : ℕ → BitVec 3
  allocate : ℕ → Option ℕ

/-- A number with a valid bit above its `k` bits, at a place of the metadata. -/
def validAt (k bits place : ℕ) : Option ℕ :=
  if bits.testBit (place + k) then some (bits / 2 ^ place % 2 ^ k) else none

/-- The metadata as `TageMeta`, its last field lowest. -/
def TageMeta.ofBits (p : Params) (tageNTables bits : ℕ) : TageMeta :=
  let k := Nat.clog 2 tageNTables
  let ctrAt := p.bankWidth * (k + 1)
  let uAt := ctrAt + p.bankWidth * 3
  let differsAt := uAt + p.bankWidth * 2
  let providerAt := differsAt + p.bankWidth
  { allocate := fun w => validAt k bits (w * (k + 1))
    provider_ctr := fun w => BitVec.ofNat 3 (bits / 2 ^ (ctrAt + w * 3))
    provider_u := fun w => BitVec.ofNat 2 (bits / 2 ^ (uAt + w * 2))
    alt_differs := fun w => bits.testBit (differsAt + w)
    provider := fun w => validAt k bits (providerAt + w * (k + 1)) }

/-- `inc_u`. -/
def inc_u (u : BitVec 2) (alt_differs mispredict : Bool) : BitVec 2 :=
  if !alt_differs then u
  else if mispredict then if u = 0 then 0 else u - 1
  else if u = 3 then 3 else u + 1

namespace BankUpdate

variable (tageNTables : ℕ) (u : BankUpdate p)

/-- `s1_update_meta`. -/
def tageMeta : TageMeta := TageMeta.ofBits p tageNTables u.metadata

/-- `s1_update_mispredict_mask`. -/
def mispredict_mask (w : ℕ) : Bool := u.cfi_idx == w && u.cfi_mispredicted

/-- `update_was_taken`. -/
def update_was_taken (w : ℕ) : Bool := u.cfi_at w && u.cfi_taken

/-- The table that provided the prediction of a lane is updated. -/
def provides (t w : ℕ) : Bool :=
  u.br_mask w && u.valid && u.is_commit_update && (u.tageMeta tageNTables).provider w == some t

/-- The update is of a mispredicted CFI in this lane. -/
def mispredicts (w : ℕ) : Bool :=
  u.valid && u.is_commit_update && u.cfi_mispredicted && u.cfi_idx_valid && u.cfi_idx == w

/-- An entry is allocated for it in a table. -/
def allocates (t w : ℕ) : Bool :=
  u.mispredicts w && (u.tageMeta tageNTables).allocate w == some t

/-- There is none to allocate, and the longer tables come to forget. -/
def forgets (t w : ℕ) : Bool :=
  u.mispredicts w && (u.tageMeta tageNTables).allocate w == none &&
    ((u.tageMeta tageNTables).provider w).any fun provider => decide (provider < t)

/-- The update of a table; `dontCare` is what is left open. -/
def tageUpdate (dontCare : TageUpdate p) (t : ℕ) : TageUpdate p where
  update_mask w := u.provides tageNTables t w || u.allocates tageNTables t w
  update_taken w :=
    if u.allocates tageNTables t w then u.cfi_taken
    else if u.provides tageNTables t w then u.update_was_taken w
    else dontCare.update_taken w
  update_alloc w :=
    if u.allocates tageNTables t w then true
    else if u.provides tageNTables t w then false
    else dontCare.update_alloc w
  update_old_ctr w :=
    if u.provides tageNTables t w then (u.tageMeta tageNTables).provider_ctr w
    else dontCare.update_old_ctr w
  update_pc := u.pc
  update_hist := u.ghist

/-- `s1_update_u_mask` and `s1_update_u`: what is written beside a lane of a table. -/
def update_u (t w : ℕ) : Option (BitVec 2) :=
  if u.allocates tageNTables t w || u.forgets tageNTables t w then some 0
  else if u.provides tageNTables t w then
    some (inc_u ((u.tageMeta tageNTables).provider_u w) ((u.tageMeta tageNTables).alt_differs w)
      (u.mispredict_mask w))
  else none

end BankUpdate

/-! ## Metadata -/

theorem unpack_append (sizes : List ℕ) (sz update_meta : ℕ) :
    unpack (sizes ++ [sz]) update_meta = unpack sizes (update_meta >>> sz) ++ [update_meta] := by
  have hacc (ss : List ℕ) (l : List ℕ) (x : ℕ) :
      (ss.foldl (fun (acc : List ℕ × ℕ) metaSz => (acc.2 :: acc.1, acc.2 >>> metaSz))
          (l, x)).1 =
        (ss.foldl (fun (acc : List ℕ × ℕ) metaSz => (acc.2 :: acc.1, acc.2 >>> metaSz))
          (([] : List ℕ), x)).1 ++ l := by
    induction ss generalizing l x with
    | nil => rfl
    | cons s ss ih =>
      rw [List.foldl_cons, List.foldl_cons, ih (x :: l), ih [x], List.append_assoc]
      rfl
  rw [unpack, List.reverse_append, List.reverse_singleton, List.singleton_append,
    List.foldl_cons, hacc]
  rfl

theorem length_unpack (sizes : List ℕ) (update_meta : ℕ) :
    (unpack sizes update_meta).length = sizes.length := by
  induction sizes using List.reverseRecOn generalizing update_meta with
  | nil => rfl
  | append_singleton sizes sz ih =>
    rw [unpack_append, List.length_append, List.length_append, ih]
    rfl

theorem pack_append (components : List Component) (c : Component) :
    pack (components ++ [c]) = 2 ^ c.metaSz * pack components + c.f3_meta % 2 ^ c.metaSz := by
  rw [pack, List.foldl_append, List.foldl_cons, List.foldl_nil, ← pack]
  split_ifs with h
  · rw [Nat.shiftLeft_eq, mul_comm,
      Nat.two_pow_add_eq_or_of_lt (Nat.mod_lt _ (Nat.two_pow_pos _))]
  · obtain h : c.metaSz = 0 := by omega
    rw [h, pow_zero, one_mul, Nat.mod_one, Nat.add_zero]

theorem pack_lt (components : List Component) : pack components < 2 ^ metaSize components := by
  induction components using List.reverseRecOn with
  | nil => exact Nat.one_pos
  | append_singleton components c ih =>
    have hc := Nat.mod_lt c.f3_meta (Nat.two_pow_pos c.metaSz)
    rw [pack_append, metaSize, List.map_append, List.sum_append, ← metaSize, List.map_singleton,
      List.sum_singleton, pow_add, mul_comm]
    calc pack components * 2 ^ c.metaSz + c.f3_meta % 2 ^ c.metaSz
        < pack components * 2 ^ c.metaSz + 2 ^ c.metaSz := Nat.add_lt_add_left hc _
      _ = (pack components + 1) * 2 ^ c.metaSz := (Nat.succ_mul _ _).symm
      _ ≤ 2 ^ metaSize components * 2 ^ c.metaSz := Nat.mul_le_mul_right _ ih

/-- **Every component gets back the metadata that it gave.** -/
theorem unpack_pack (components : List Component) {k : ℕ} {c : Component}
    (hk : components[k]? = some c) :
    (unpack (components.map Component.metaSz) (pack components)).getD k 0 % 2 ^ c.metaSz =
      c.f3_meta % 2 ^ c.metaSz := by
  induction components using List.reverseRecOn with
  | nil => cases hk
  | append_singleton components d ih =>
    have hd := Nat.mod_lt d.f3_meta (Nat.two_pow_pos d.metaSz)
    have hlen := length_unpack (components.map Component.metaSz) (pack components)
    rw [List.length_map] at hlen
    rw [List.map_append, List.map_singleton, unpack_append, pack_append, Nat.shiftRight_eq_div_pow,
      Nat.mul_add_div (Nat.two_pow_pos _), Nat.div_eq_of_lt hd, Nat.add_zero,
      List.getD_eq_getElem?_getD]
    rcases Nat.lt_or_ge k components.length with hlt | hge
    · rw [List.getElem?_append_left hlt] at hk
      rw [List.getElem?_append_left (by rwa [hlen]), ← List.getD_eq_getElem?_getD]
      exact ih hk
    · rw [List.getElem?_append_right hge] at hk
      rw [List.getElem?_append_right (by rwa [hlen]), hlen]
      obtain ⟨hz, rfl⟩ := List.getElem?_eq_some_iff.1 hk
      obtain hz' : k - components.length = 0 := Nat.lt_one_iff.1 hz
      simp only [hz', List.getElem?_cons_zero, Option.getD_some, List.getElem_cons_zero]
      rw [Nat.mul_add_mod, Nat.mod_mod]

/-! ## What an update says of a slot -/

namespace BranchPredictionUpdate

variable (u : BranchPredictionUpdate p L R)

/-- The update reaches the bank of a slot. -/
def reaches (i : ℕ) : Prop :=
  u.valid = true ∧ i < present p u.pc ∧
    (p.bankWidth ≤ i → u.cfi_idx_valid = true → p.bankWidth ≤ u.cfi_idx.val)

/-- It is an update on commit for the bank of the slot. -/
def commits (i : ℕ) : Prop :=
  u.is_mispredict_update = false ∧ u.is_repair_update = false ∧
    ∀ j < p.fetchWidth, j / p.bankWidth = i / p.bankWidth → u.btb_mispredicts j = false

/-- The update says that the lane is taken. -/
def saysTaken (i : ℕ) : Prop :=
  u.cfi_idx_valid = true ∧ u.cfi_idx.val = i ∧ (u.cfi_taken = true ∨ u.cfi_is_jal = true)

/-- The update says that the lane was mispredicted. -/
def saysMispredicted (i : ℕ) : Prop :=
  u.cfi_idx_valid = true ∧ u.cfi_idx.val = i ∧ u.cfi_mispredicted = true

/-- The slot comes after a CFI that was taken. -/
def afterCfi (i : ℕ) : Prop :=
  u.cfi_idx_valid = true ∧ u.cfi_taken = true ∧ u.cfi_idx.val < i

/-- The update of the bank of a slot, as a component gets it. -/
def slotUpdate (sizes : List ℕ) (k i : ℕ) : BankUpdate p :=
  (u.split (respSlot u.pc i).1).component sizes k

/-- The lane of a slot. -/
def slotLane (i : ℕ) : ℕ := (respSlot u.pc i).2

end BranchPredictionUpdate

/-! ## The lane of a slot -/

section Lanes

variable {m n : ℕ}

/-- The last bank of a block is an odd one. -/
theorem bank_of_isLastBankInBlock (h : p.Shape m n) (hb : p.nBanks = 2) {x : BitVec p.va}
    (hl : isLastBankInBlock p x = true) : bank p x = true := by
  have hfit := h.fits
  rw [isLastBankInBlock, Bool.and_eq_true, beq_iff_eq, beq_iff_eq, h.bankBytes, h.icBlockBytes,
    Nat.clog_pow 2 _ one_lt_two, Nat.clog_pow 2 _ one_lt_two, BitVec.extractLsb'_toNat,
    Nat.pow_div (by omega) two_pos] at hl
  rw [bank, hb, h.bankBytes, Nat.clog_pow 2 _ one_lt_two, decide_eq_true rfl, Bool.true_and,
    BitVec.getLsbD]
  obtain ⟨d, hd⟩ : ∃ d, n - (m + 1) = d + 1 := ⟨n - (m + 1) - 1, by omega⟩
  rw [hd, Nat.shiftRight_eq_div_pow, pow_succ] at hl
  have hmod : x.toNat / 2 ^ (m + 1) % (2 ^ d * 2) % 2 = (2 ^ d * 2 - 1) % 2 :=
    congrArg (· % 2) hl.2
  rw [Nat.mod_mul_left_mod] at hmod
  have hpos := Nat.two_pow_pos d
  rw [Nat.testBit_eq_decide_div_mod_eq, decide_eq_true_eq]
  omega

variable {u : BranchPredictionUpdate p L R} {sizes : List ℕ} {k i : ℕ}

/-- The facts on a slot of a packet: it is in the first bank or in the second. -/
theorem slot_cases (h : p.Shape m n) (hb : p.nBanks = 2) (pc : BitVec p.va)
    (hi : i < p.fetchWidth) :
    (i < p.bankWidth ∧ respSlot pc i = (bank p pc, i)) ∨
      ∃ w < p.bankWidth, i = w + p.bankWidth ∧ respSlot pc i = (!bank p pc, w) := by
  have hfw := h.fetchWidth
  rw [hb, ← h.bankWidth] at hfw
  rcases Nat.lt_or_ge i p.bankWidth with hlt | hge
  · exact .inl ⟨hlt, if_pos hlt⟩
  · refine .inr ⟨i - p.bankWidth, by omega, by omega, ?_⟩
    rw [respSlot, if_neg (by omega)]

theorem slotLane_lt (h : p.Shape m n) (hb : p.nBanks = 2) (hi : i < p.fetchWidth) :
    u.slotLane i < p.bankWidth := by
  rcases slot_cases h hb u.pc hi with ⟨hlt, hs⟩ | ⟨w, hw, -, hs⟩
  · rwa [BranchPredictionUpdate.slotLane, hs]
  · rwa [BranchPredictionUpdate.slotLane, hs]

theorem slotLane_eq (h : p.Shape m n) (hb : p.nBanks = 2) (hi : i < p.fetchWidth) :
    u.slotLane i = i % p.bankWidth := by
  rcases slot_cases h hb u.pc hi with ⟨hlt, hs⟩ | ⟨w, hw, rfl, hs⟩
  · rw [BranchPredictionUpdate.slotLane, hs, Nat.mod_eq_of_lt hlt]
  · rw [BranchPredictionUpdate.slotLane, hs, Nat.add_mod_right, Nat.mod_eq_of_lt hw]

theorem slot_br_mask (h : p.Shape m n) (hb : p.nBanks = 2) (hi : i < p.fetchWidth) :
    (u.slotUpdate sizes k i).br_mask (u.slotLane i) = u.br_mask i := by
  rcases slot_cases h hb u.pc hi with ⟨hlt, hs⟩ | ⟨w, hw, rfl, hs⟩
  · simp [BranchPredictionUpdate.slotUpdate, BranchPredictionUpdate.slotLane, hs,
      BankUpdate.component, BranchPredictionUpdate.split, hlt]
  · simp [BranchPredictionUpdate.slotUpdate, BranchPredictionUpdate.slotLane, hs,
      BankUpdate.component, BranchPredictionUpdate.split, hw]

theorem slot_btb_mispredicts (h : p.Shape m n) (hb : p.nBanks = 2) (hi : i < p.fetchWidth) :
    (u.slotUpdate sizes k i).btb_mispredicts (u.slotLane i) = u.btb_mispredicts i := by
  rcases slot_cases h hb u.pc hi with ⟨hlt, hs⟩ | ⟨w, hw, rfl, hs⟩
  · simp [BranchPredictionUpdate.slotUpdate, BranchPredictionUpdate.slotLane, hs,
      BankUpdate.component, BranchPredictionUpdate.split, hlt]
  · simp [BranchPredictionUpdate.slotUpdate, BranchPredictionUpdate.slotLane, hs,
      BankUpdate.component, BranchPredictionUpdate.split, hw]

theorem slot_cfi_idx (h : p.Shape m n) :
    (u.slotUpdate sizes k i).cfi_idx = u.cfi_idx.val % p.bankWidth := by
  change u.cfi_idx.val % 2 ^ Nat.clog 2 p.bankWidth = _
  rw [h.bankWidth, Nat.clog_pow 2 _ one_lt_two]

/-- The CFI is in the lane of a slot of its bank just when it is in the slot. -/
theorem slot_cfi_at (h : p.Shape m n) (hb : p.nBanks = 2) (hi : i < p.fetchWidth) :
    (u.slotUpdate sizes k i).cfi_at (u.slotLane i) = true ↔
      u.cfi_idx_valid = true ∧ u.cfi_idx.val = i := by
  have hfw := h.fetchWidth
  have hc := u.cfi_idx.isLt
  have hpos : 0 < p.bankWidth := h.bankWidth ▸ Nat.two_pow_pos m
  rw [hb, ← h.bankWidth] at hfw
  rw [BankUpdate.cfi_at, slot_cfi_idx h, Bool.and_eq_true, beq_iff_eq]
  rcases slot_cases h hb u.pc hi with ⟨hlt, hs⟩ | ⟨w, hw, rfl, hs⟩
  · simp only [BranchPredictionUpdate.slotUpdate, BranchPredictionUpdate.slotLane, hs,
      BankUpdate.component, BranchPredictionUpdate.split, if_true, Bool.and_eq_true,
      decide_eq_true_eq]
    constructor
    · rintro ⟨⟨hv, hlt'⟩, he⟩
      exact ⟨hv, (Nat.mod_eq_of_lt hlt').symm.trans he⟩
    · rintro ⟨hv, he⟩
      rw [he]
      exact ⟨⟨hv, hlt⟩, Nat.mod_eq_of_lt hlt⟩
  · have hne : ¬bank p u.pc = !bank p u.pc := by cases bank p u.pc <;> decide
    simp only [BranchPredictionUpdate.slotUpdate, BranchPredictionUpdate.slotLane, hs,
      BankUpdate.component, BranchPredictionUpdate.split, if_neg hne, Bool.and_eq_true,
      decide_eq_true_eq]
    constructor
    · rintro ⟨⟨hv, hge⟩, he⟩
      rw [Nat.mod_eq_sub_mod hge, Nat.mod_eq_of_lt (by omega)] at he
      exact ⟨hv, by omega⟩
    · rintro ⟨hv, he⟩
      rw [he, Nat.add_mod_right, Nat.mod_eq_of_lt hw]
      exact ⟨⟨hv, Nat.le_add_left _ _⟩, rfl⟩

theorem slot_valid (h : p.Shape m n) (hb : p.nBanks = 2) (hi : i < p.fetchWidth) :
    (u.slotUpdate sizes k i).valid = true ↔ u.reaches i := by
  have hfw := h.fetchWidth
  rw [hb, ← h.bankWidth] at hfw
  have hpres : i < present p u.pc ↔ (i < p.bankWidth ∨ isLastBankInBlock p u.pc = false) := by
    rw [present]
    cases isLastBankInBlock p u.pc with
    | false => simp [hi]
    | true => simp
  rw [BranchPredictionUpdate.reaches, hpres]
  rcases slot_cases h hb u.pc hi with ⟨hlt, hs⟩ | ⟨w, hw, rfl, hs⟩
  · simp [BranchPredictionUpdate.slotUpdate, hs, BankUpdate.component,
      BranchPredictionUpdate.split, hlt, Nat.not_le.2 hlt]
  · have hne : ¬bank p u.pc = !bank p u.pc := by cases bank p u.pc <;> decide
    have hlast : (bank p u.pc && isLastBankInBlock p u.pc) = isLastBankInBlock p u.pc := by
      cases hl : isLastBankInBlock p u.pc with
      | false => exact Bool.and_false _
      | true => rw [bank_of_isLastBankInBlock h hb hl]; rfl
    simp only [BranchPredictionUpdate.slotUpdate, hs, BankUpdate.component,
      BranchPredictionUpdate.split, if_neg hne, hlast, Bool.and_eq_true, Bool.not_eq_true',
      Bool.or_eq_true, decide_eq_true_eq]
    cases hv : u.cfi_idx_valid <;> simp [Nat.not_lt.2 (Nat.le_add_left p.bankWidth w), and_assoc]

theorem slot_is_commit_update (h : p.Shape m n) (hb : p.nBanks = 2) (hi : i < p.fetchWidth) :
    (u.slotUpdate sizes k i).is_commit_update = true ↔ u.commits i := by
  have hfw := h.fetchWidth
  have hpos : 0 < p.bankWidth := h.bankWidth ▸ Nat.two_pow_pos m
  rw [hb, ← h.bankWidth] at hfw
  have hmis : (u.slotUpdate sizes k i).is_btb_mispredict_update = false ↔
      ∀ j < p.fetchWidth, j / p.bankWidth = i / p.bankWidth → u.btb_mispredicts j = false := by
    rw [BankUpdate.is_btb_mispredict_update, List.any_eq_false]
    rcases slot_cases h hb u.pc hi with ⟨hlt, hs⟩ | ⟨w, hw, rfl, hs⟩
    · rw [Nat.div_eq_of_lt hlt]
      simp only [BranchPredictionUpdate.slotUpdate, hs, BankUpdate.component,
        BranchPredictionUpdate.split, if_true, List.mem_range, Bool.not_eq_true]
      constructor
      · intro hall j _ hd
        have hj : j < p.bankWidth := (Nat.div_eq_zero_iff_lt hpos).1 hd
        simpa [hj] using hall j hj
      · intro hall j hj
        rw [hall j (by omega) (Nat.div_eq_of_lt hj), Bool.and_false]
    · have hne : ¬bank p u.pc = !bank p u.pc := by cases bank p u.pc <;> decide
      rw [Nat.add_div_right _ hpos, Nat.div_eq_of_lt hw]
      simp only [BranchPredictionUpdate.slotUpdate, hs, BankUpdate.component,
        BranchPredictionUpdate.split, if_neg hne, List.mem_range, Bool.not_eq_true]
      constructor
      · intro hall j hj hd
        obtain ⟨hge, hlt⟩ := (Nat.div_eq_iff hpos).1 hd
        have := hall (j - p.bankWidth) (by omega)
        rwa [decide_eq_true (by omega), Bool.true_and, Nat.sub_add_cancel (by omega)] at this
      · intro hall j hj
        rw [hall (j + p.bankWidth) (by omega) (by
          rw [Nat.add_div_right _ hpos, Nat.div_eq_of_lt hj]), Bool.and_false]
  rw [BankUpdate.is_commit_update, Bool.not_eq_true', Bool.or_eq_false_iff, Bool.or_eq_false_iff,
    hmis, and_assoc]
  rfl

end Lanes

/-! ## What a bank does with a lane -/

namespace BankUpdate

variable (tageNTables : ℕ) (dontCare : TageUpdate p) (u : BankUpdate p) (w : ℕ)

/-- BIM, BTB or TAGE writes the lane. -/
def TrainsLane : Prop :=
  u.valid = true ∧ u.is_commit_update = true ∧ u.trains w = true ∨
    u.wbtb_mask w = true ∨ u.wmeta_mask w = true ∨
    ∃ t < tageNTables, (u.tageUpdate tageNTables dontCare t).update_mask w = true ∨
      (u.update_u tageNTables t w).isSome = true

/-- One of them takes the lane for taken. -/
def TakesLane : Prop :=
  u.valid = true ∧ u.is_commit_update = true ∧ u.trains w = true ∧ u.was_taken w = true ∨
    u.wbtb_mask w = true ∨
    ∃ t < tageNTables, (u.tageUpdate tageNTables dontCare t).update_mask w = true ∧
      (u.tageUpdate tageNTables dontCare t).update_taken w = true

/-- TAGE takes the lane for mispredicted: it lessens the use of the provider,
    allocates an entry, or makes the longer tables forget. -/
def MispredictsLane : Prop :=
  ∃ t < tageNTables, u.provides tageNTables t w = true ∧ u.mispredict_mask w = true ∨
    u.allocates tageNTables t w = true ∨ u.forgets tageNTables t w = true

/-- TAGE allocates an entry for the lane. -/
def AllocatesLane : Prop :=
  ∃ t < tageNTables, (u.tageUpdate tageNTables dontCare t).update_mask w = true ∧
    (u.tageUpdate tageNTables dontCare t).update_alloc w = true

variable {tageNTables dontCare u w}

theorem provides_iff {t : ℕ} : u.provides tageNTables t w = true ↔ u.valid = true ∧
    u.is_commit_update = true ∧ u.br_mask w = true ∧
    (u.tageMeta tageNTables).provider w = some t := by
  rw [provides, Bool.and_eq_true, Bool.and_eq_true, Bool.and_eq_true, beq_iff_eq]
  constructor
  · rintro ⟨⟨⟨hb, hv⟩, hc⟩, hp⟩
    exact ⟨hv, hc, hb, hp⟩
  · rintro ⟨hv, hc, hb, hp⟩
    exact ⟨⟨⟨hb, hv⟩, hc⟩, hp⟩

theorem mispredicts_iff : u.mispredicts w = true ↔ u.valid = true ∧
    u.is_commit_update = true ∧ u.cfi_at w = true ∧ u.cfi_mispredicted = true := by
  simp only [mispredicts, cfi_at, Bool.and_eq_true, beq_iff_eq]
  constructor
  · rintro ⟨⟨⟨⟨hv, hc⟩, hm⟩, hi⟩, he⟩
    exact ⟨hv, hc, ⟨hi, he⟩, hm⟩
  · rintro ⟨hv, hc, ⟨hi, he⟩, hm⟩
    exact ⟨⟨⟨⟨hv, hc⟩, hm⟩, hi⟩, he⟩

theorem mispredicts_of_allocates {t : ℕ} (h : u.allocates tageNTables t w = true) :
    u.mispredicts w = true :=
  (Bool.and_eq_true_iff.1 h).1

theorem mispredicts_of_forgets {t : ℕ} (h : u.forgets tageNTables t w = true) :
    u.mispredicts w = true :=
  (Bool.and_eq_true_iff.1 (Bool.and_eq_true_iff.1 h).1).1

theorem wbtb_mask_iff : u.wbtb_mask w = true ↔ u.valid = true ∧ u.is_commit_update = true ∧
    u.cfi_at w = true ∧ u.cfi_taken = true := by
  simp only [wbtb_mask, cfi_at, Bool.and_eq_true, beq_iff_eq]
  constructor
  · rintro ⟨he, ⟨⟨⟨hi, hv⟩, ht⟩, hc⟩⟩
    exact ⟨hv, hc, ⟨hi, he⟩, ht⟩
  · rintro ⟨hv, hc, ⟨hi, he⟩, ht⟩
    exact ⟨he, ⟨⟨⟨hi, hv⟩, ht⟩, hc⟩⟩

/-- A lane without the CFI is written only as a branch. -/
theorem trainsLane_iff (hw : u.cfi_at w = false) : u.TrainsLane tageNTables dontCare w ↔
    u.valid = true ∧ u.br_mask w = true ∧
      (u.is_commit_update = true ∨ u.btb_mispredicts w = true) := by
  have hbtb : ¬u.wbtb_mask w = true := fun h =>
    Bool.false_ne_true (hw.symm.trans (wbtb_mask_iff.1 h).2.2.1)
  have hmis : ¬u.mispredicts w = true := fun h =>
    Bool.false_ne_true (hw.symm.trans (mispredicts_iff.1 h).2.2.1)
  constructor
  · rintro (⟨hv, hc, ht⟩ | h | h | ⟨t, -, h⟩)
    · rw [trains, hw, Bool.or_false] at ht
      exact ⟨hv, ht, .inl hc⟩
    · exact absurd h hbtb
    · simp only [wmeta_mask, Bool.and_eq_true, Bool.or_eq_true] at h
      rcases h with ⟨h | hb, ⟨hv, hc⟩ | ⟨hv, hm⟩⟩
      · exact absurd h hbtb
      · exact absurd h hbtb
      · exact ⟨hv, hb, .inl hc⟩
      · exact ⟨hv, hb, .inr hm⟩
    · have hp : u.provides tageNTables t w = true := by
        by_contra hp
        have hp := Bool.not_eq_true _ ▸ hp
        have ha : u.allocates tageNTables t w = false :=
          Bool.eq_false_iff.2 fun h => hmis (mispredicts_of_allocates h)
        have hf : u.forgets tageNTables t w = false :=
          Bool.eq_false_iff.2 fun h => hmis (mispredicts_of_forgets h)
        rcases h with h | h
        · change (u.provides tageNTables t w || u.allocates tageNTables t w) = true at h
          rw [hp, ha] at h
          cases h
        · rw [update_u, ha, hf, hp] at h
          cases h
      obtain ⟨hv, hc, hb, -⟩ := provides_iff.1 hp
      exact ⟨hv, hb, .inl hc⟩
  · rintro ⟨hv, hb, hc | hm⟩
    · exact .inl ⟨hv, hc, by rw [trains, hb]; rfl⟩
    · refine .inr (.inr (.inl ?_))
      rw [wmeta_mask, hb, hv, hm, Bool.or_true, Bool.true_and, Bool.true_and, Bool.true_and,
        Bool.or_true]

/-- A lane is taken for taken only if the CFI is in it, and taken or a jump. -/
theorem cfi_at_of_takesLane (h : u.TakesLane tageNTables dontCare w) :
    u.cfi_at w = true ∧ (u.cfi_taken = true ∨ u.cfi_is_jal = true) := by
  rcases h with ⟨-, -, -, h⟩ | h | ⟨t, -, hm, ht⟩
  · simp only [was_taken, Bool.and_eq_true, Bool.or_eq_true] at h
    rcases h with ⟨hc, ⟨-, ht⟩ | hj⟩
    · exact ⟨hc, .inl ht⟩
    · exact ⟨hc, .inr hj⟩
  · obtain ⟨-, -, hc, ht⟩ := wbtb_mask_iff.1 h
    exact ⟨hc, .inl ht⟩
  · change (if u.allocates tageNTables t w then u.cfi_taken
      else if u.provides tageNTables t w then u.update_was_taken w
      else dontCare.update_taken w) = true at ht
    by_cases ha : u.allocates tageNTables t w = true
    · rw [if_pos ha] at ht
      exact ⟨(mispredicts_iff.1 (mispredicts_of_allocates ha)).2.2.1, .inl ht⟩
    · have hp : u.provides tageNTables t w = true := by
        rcases Bool.or_eq_true_iff.1 hm with h | h
        · exact h
        · exact absurd h ha
      rw [if_neg ha, if_pos hp, update_was_taken, Bool.and_eq_true] at ht
      exact ⟨ht.1, .inl ht.2⟩

theorem allocates_of_allocatesLane (h : u.AllocatesLane tageNTables dontCare w) :
    u.cfi_at w = true ∧ u.cfi_mispredicted = true := by
  obtain ⟨t, -, hm, ha⟩ := h
  change (if u.allocates tageNTables t w then true
    else if u.provides tageNTables t w then false else dontCare.update_alloc w) = true at ha
  by_cases h : u.allocates tageNTables t w = true
  · obtain ⟨-, -, hc, hm⟩ := mispredicts_iff.1 (mispredicts_of_allocates h)
    exact ⟨hc, hm⟩
  · rcases Bool.or_eq_true_iff.1 hm with hp | ha'
    · rw [if_neg h, if_pos hp] at ha
      cases ha
    · exact absurd ha' h

end BankUpdate

/-! ## The split -/

/-- A slot of the packet: the bank that answers for it is there, its set and its
    history come back in the update, and its lane carries the bits of the slot. -/
structure Routed (sizes : List ℕ) (k : ℕ) (u : BranchPredictionUpdate p L R)
    (s3 : BranchPredictor p L) (valid : Bool) (i : ℕ) : Prop where
  slot : respSlot s3.f3_pc i = respSlot u.pc i
  lane_lt : u.slotLane i < p.bankWidth
  valid : s3.s3_valid (respSlot s3.f3_pc i).1 = true ↔ valid = true ∧ i < present p u.pc
  idx : fetchIdx p (u.slotUpdate sizes k i).pc = s3.s3_idx (respSlot s3.f3_pc i).1
  ghist : (u.slotUpdate sizes k i).ghist = (s3.s3_ghist (respSlot s3.f3_pc i).1).toNat
  br_mask : (u.slotUpdate sizes k i).br_mask (u.slotLane i) = u.br_mask i
  btb_mispredicts :
    (u.slotUpdate sizes k i).btb_mispredicts (u.slotLane i) = u.btb_mispredicts i
  cfi_at : (u.slotUpdate sizes k i).cfi_at (u.slotLane i) = true ↔
    u.cfi_idx_valid = true ∧ u.cfi_idx.val = i

/-- The split is exact for an update: `sizes` are those of the components, the
    `k`-th of which is TAGE. -/
structure SplitExact (bpdMaxMetaLength tageNTables : ℕ) (dontCare : TageUpdate p)
    (sizes : List ℕ) (k : ℕ) (u : BranchPredictionUpdate p L R) : Prop where
  /-- what was asked with this address and history is what is updated -/
  routed : ∀ (s : BranchPredictor p L) (r r1 r2 : BranchPredictionRequest p L R),
    r.pc = u.pc → r.ghist.same u.ghist = true → ∀ i < p.fetchWidth,
      Routed sizes k u (((s.next r).next r1).next r2) r.valid i
  /-- a component gets back what it gave -/
  metadata : ∀ (b : Bool) (components : List Component),
    components.map Component.metaSz = sizes → metaSize components < bpdMaxMetaLength →
    u.metadata b = pack components % 2 ^ bpdMaxMetaLength →
    ∀ (j : ℕ) (c : Component), components[j]? = some c →
      ((u.split b).component sizes j).metadata % 2 ^ c.metaSz = c.f3_meta % 2 ^ c.metaSz
  untrained : ∀ i < p.fetchWidth, present p u.pc ≤ i ∨ u.afterCfi i →
    ¬(u.slotUpdate sizes k i).TrainsLane tageNTables dontCare (u.slotLane i)
  taken : ∀ i < p.fetchWidth,
    (u.slotUpdate sizes k i).TakesLane tageNTables dontCare (u.slotLane i) → u.saysTaken i
  mispredicted : ∀ i < p.fetchWidth,
    (u.slotUpdate sizes k i).MispredictsLane tageNTables (u.slotLane i) → u.saysMispredicted i
  allocated : ∀ i < p.fetchWidth,
    (u.slotUpdate sizes k i).AllocatesLane tageNTables dontCare (u.slotLane i) →
      u.saysMispredicted i

/-- The update marks no branch behind the CFI that was taken. -/
def BranchPredictionUpdate.Masked (u : BranchPredictionUpdate p L R) : Prop :=
  ∀ i < p.fetchWidth, u.afterCfi i → u.reaches i → u.br_mask i = true →
    ¬u.commits i ∧ u.btb_mispredicts i = false

/-- Of the branches that a table of TAGE has predicted, none but the CFI itself
    is in the lane of a CFI that was mispredicted. -/
def BranchPredictionUpdate.LanesApart (tageNTables : ℕ) (sizes : List ℕ) (k : ℕ)
    (u : BranchPredictionUpdate p L R) : Prop :=
  u.cfi_mispredicted = true → ∀ i < p.fetchWidth, u.reaches i → u.commits i →
    u.br_mask i = true → i % p.bankWidth = u.cfi_idx.val % p.bankWidth →
    (∃ t < tageNTables, (TageMeta.ofBits p tageNTables
      ((unpack sizes (u.metadata (respSlot u.pc i).1)).getD k 0)).provider (i % p.bankWidth) =
        some t) →
    u.cfi_idx_valid = true ∧ u.cfi_idx.val = i

section Split

variable {m n : ℕ} {u : BranchPredictionUpdate p L R} {sizes : List ℕ} {k i : ℕ}

theorem routed (h : p.Shape m n) (hb : p.nBanks = 2) (s : BranchPredictor p L)
    (r r1 r2 : BranchPredictionRequest p L R) (hpc : r.pc = u.pc)
    (hg : r.ghist.same u.ghist = true) (hi : i < p.fetchWidth) :
    Routed sizes k u (((s.next r).next r1).next r2) r.valid i := by
  have hf3 : (((s.next r).next r1).next r2).f3_pc = u.pc := hpc
  have hgh (b : Bool) : r.ghist.histories p b = u.ghist.histories p b :=
    GlobalHistory.histories_congr hg b
  have hreach : (BranchPredictionUpdate.slotUpdate
      { u with valid := r.valid, cfi_idx_valid := false } sizes k i).valid = true ↔ _ :=
    slot_valid h hb hi
  refine ⟨by rw [hf3], slotLane_lt h hb hi, ?_, ?_, ?_, slot_br_mask h hb hi,
    slot_btb_mispredicts h hb hi, slot_cfi_at h hb hi⟩
  · have hval : (r.toBank (respSlot u.pc i).1).f0_valid = (BranchPredictionUpdate.slotUpdate
        { u with valid := r.valid, cfi_idx_valid := false } sizes k i).valid := by
      simp only [BranchPredictionRequest.toBank, hpc, BranchPredictionUpdate.slotUpdate,
        BankUpdate.component, BranchPredictionUpdate.split, Bool.not_false, Bool.true_or,
        Bool.and_true]
      split_ifs <;> rfl
    rw [hf3]
    change (r.toBank (respSlot u.pc i).1).f0_valid = true ↔ _
    rw [hval, hreach]
    exact ⟨fun h => ⟨h.1, h.2.1⟩, fun h => ⟨h.1, h.2, fun _ hv => nomatch hv⟩⟩
  · rw [hf3]
    change _ = fetchIdx p (r.toBank (respSlot u.pc i).1).f0_pc
    simp only [BranchPredictionRequest.toBank, hpc, BranchPredictionUpdate.slotUpdate,
      BankUpdate.component, BranchPredictionUpdate.split]
    split_ifs <;> rfl
  · rw [hf3]
    change _ = (if bank p r.pc = (respSlot u.pc i).1 then r.ghist.histories p false
      else r.ghist.histories p true).toNat
    simp only [hpc, hgh, BranchPredictionUpdate.slotUpdate, BankUpdate.component,
      BranchPredictionUpdate.split]
    split_ifs <;> rfl

theorem cfi_at_of_afterCfi (h : p.Shape m n) (hb : p.nBanks = 2) (hi : i < p.fetchWidth)
    (ha : u.afterCfi i) : (u.slotUpdate sizes k i).cfi_at (u.slotLane i) = false := by
  rw [Bool.eq_false_iff]
  intro hat
  exact absurd ha.2.2 (Nat.not_lt.2 (Nat.le_of_eq ((slot_cfi_at h hb hi).1 hat).2.symm))

/-- A bank that is not there gets no update. -/
theorem not_trainsLane_of_not_reaches (h : p.Shape m n) (hb : p.nBanks = 2)
    (hi : i < p.fetchWidth) (hr : ¬u.reaches i) {tageNTables : ℕ} {dontCare : TageUpdate p} :
    ¬(u.slotUpdate sizes k i).TrainsLane tageNTables dontCare (u.slotLane i) := by
  have hv : ¬(u.slotUpdate sizes k i).valid = true := fun hv => hr ((slot_valid h hb hi).1 hv)
  rintro (h | h | h | ⟨t, -, h⟩)
  · exact hv h.1
  · exact hv (BankUpdate.wbtb_mask_iff.1 h).1
  · simp only [BankUpdate.wmeta_mask, Bool.and_eq_true, Bool.or_eq_true] at h
    exact hv (h.2.elim And.left And.left)
  · have hp : (u.slotUpdate sizes k i).provides tageNTables t (u.slotLane i) = false :=
      Bool.eq_false_iff.2 fun h => hv (BankUpdate.provides_iff.1 h).1
    have ha : (u.slotUpdate sizes k i).allocates tageNTables t (u.slotLane i) = false :=
      Bool.eq_false_iff.2 fun h =>
        hv (BankUpdate.mispredicts_iff.1 (BankUpdate.mispredicts_of_allocates h)).1
    have hf : (u.slotUpdate sizes k i).forgets tageNTables t (u.slotLane i) = false :=
      Bool.eq_false_iff.2 fun h =>
        hv (BankUpdate.mispredicts_iff.1 (BankUpdate.mispredicts_of_forgets h)).1
    rcases h with h | h
    · change ((u.slotUpdate sizes k i).provides tageNTables t (u.slotLane i) ||
        (u.slotUpdate sizes k i).allocates tageNTables t (u.slotLane i)) = true at h
      rw [hp, ha] at h
      cases h
    · rw [BankUpdate.update_u, ha, hf, hp] at h
      cases h

/-- What is not trained behind the CFI is just what the update does not mark. -/
theorem untrained_iff_masked (h : p.Shape m n) (hb : p.nBanks = 2) (tageNTables : ℕ)
    (dontCare : TageUpdate p) :
    (∀ i < p.fetchWidth, present p u.pc ≤ i ∨ u.afterCfi i →
      ¬(u.slotUpdate sizes k i).TrainsLane tageNTables dontCare (u.slotLane i)) ↔ u.Masked := by
  constructor
  · intro hun i hi ha hr hbr
    have hno := hun i hi (.inr ha)
    rw [BankUpdate.trainsLane_iff (cfi_at_of_afterCfi h hb hi ha), slot_valid h hb hi,
      slot_br_mask h hb hi, slot_is_commit_update h hb hi, slot_btb_mispredicts h hb hi] at hno
    exact ⟨fun hc => hno ⟨hr, hbr, .inl hc⟩,
      Bool.eq_false_iff.2 fun hm => hno ⟨hr, hbr, .inr hm⟩⟩
  · rintro hm i hi (hp | ha)
    · exact not_trainsLane_of_not_reaches h hb hi fun hr => absurd hr.2.1 (Nat.not_lt.2 hp)
    · rw [BankUpdate.trainsLane_iff (cfi_at_of_afterCfi h hb hi ha), slot_valid h hb hi,
        slot_br_mask h hb hi, slot_is_commit_update h hb hi, slot_btb_mispredicts h hb hi]
      rintro ⟨hr, hbr, hc | hbtb⟩
      · exact (hm i hi ha hr hbr).1 hc
      · exact Bool.false_ne_true ((hm i hi ha hr hbr).2.symm.trans hbtb)

/-- TAGE takes no other slot for mispredicted just when no branch that it has
    predicted shares the lane of the CFI. -/
theorem mispredicted_iff_lanesApart (h : p.Shape m n) (hb : p.nBanks = 2) (tageNTables : ℕ) :
    (∀ i < p.fetchWidth,
      (u.slotUpdate sizes k i).MispredictsLane tageNTables (u.slotLane i) →
        u.saysMispredicted i) ↔ u.LanesApart tageNTables sizes k := by
  have hmask (i : ℕ) (hi : i < p.fetchWidth) :
      (u.slotUpdate sizes k i).mispredict_mask (u.slotLane i) = true ↔
        u.cfi_mispredicted = true ∧ i % p.bankWidth = u.cfi_idx.val % p.bankWidth := by
    rw [BankUpdate.mispredict_mask, slot_cfi_idx h, slotLane_eq h hb hi, Bool.and_eq_true,
      beq_iff_eq]
    exact ⟨fun h => ⟨h.2, h.1.symm⟩, fun h => ⟨h.2.symm, h.1⟩⟩
  have hprov (i t : ℕ) (hi : i < p.fetchWidth) :
      (u.slotUpdate sizes k i).provides tageNTables t (u.slotLane i) = true ↔
        u.reaches i ∧ u.commits i ∧ u.br_mask i = true ∧ (TageMeta.ofBits p tageNTables
          ((unpack sizes (u.metadata (respSlot u.pc i).1)).getD k 0)).provider
            (i % p.bankWidth) = some t := by
    rw [BankUpdate.provides_iff, slot_valid h hb hi, slot_is_commit_update h hb hi,
      slot_br_mask h hb hi, slotLane_eq h hb hi]
    rfl
  constructor
  · rintro hms hmp i hi hr hc hbr hlane ⟨t, ht, hpt⟩
    have := hms i hi ⟨t, ht, .inl ⟨(hprov i t hi).2 ⟨hr, hc, hbr, hpt⟩,
      (hmask i hi).2 ⟨hmp, hlane⟩⟩⟩
    exact ⟨this.1, this.2.1⟩
  · rintro hap i hi ⟨t, ht, ⟨hp, hm⟩ | ha | hf⟩
    · obtain ⟨hr, hc, hbr, hpt⟩ := (hprov i t hi).1 hp
      obtain ⟨hmp, hlane⟩ := (hmask i hi).1 hm
      obtain ⟨hv, he⟩ := hap hmp i hi hr hc hbr hlane ⟨t, ht, hpt⟩
      exact ⟨hv, he, hmp⟩
    · obtain ⟨-, -, hat, hmp⟩ :=
        BankUpdate.mispredicts_iff.1 (BankUpdate.mispredicts_of_allocates ha)
      obtain ⟨hv, he⟩ := (slot_cfi_at h hb hi).1 hat
      exact ⟨hv, he, hmp⟩
    · obtain ⟨-, -, hat, hmp⟩ :=
        BankUpdate.mispredicts_iff.1 (BankUpdate.mispredicts_of_forgets hf)
      obtain ⟨hv, he⟩ := (slot_cfi_at h hb hi).1 hat
      exact ⟨hv, he, hmp⟩

end Split

/-- A branch in the first lane of each bank; that of the second bank was taken
    and mispredicted, and a table has predicted both. -/
def secondBankMiss : BranchPredictionUpdate wideFetch 64 32 where
  valid := true
  is_mispredict_update := false
  is_repair_update := false
  btb_mispredicts _ := false
  pc := 0x1000
  br_mask i := i == 0 || i == 4
  cfi_idx_valid := true
  cfi_idx := ⟨4, by decide⟩
  cfi_taken := true
  cfi_mispredicted := true
  cfi_is_br := true
  cfi_is_jal := false
  cfi_is_jalr := false
  ghist := ⟨0, false, false, false, 0⟩
  lhist _ := 0
  target := 0x2000
  metadata _ := 2 ^ 43

/-- Nothing is left open. -/
def zeroUpdate : TageUpdate wideFetch :=
  ⟨fun _ => false, fun _ => false, fun _ => false, fun _ => 0, 0, 0⟩

end BoomStop.Bpd
