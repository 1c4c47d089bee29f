/-
  The frontend cuts the byte stream into the instructions that are there
  (`frontend.scala`, stage `f3`).

  * `Params.Supported`: the fetch widths and bank counts;
  * `parcel`, `fed`: the halves of a packet that count;
  * `scan_spec`: a packet continues the parse of the halves before it;
  * `fetchStage`: the stage over whole runs of sequential packets and clears;
  * `fetch_parses`: what the bundles mark valid is the parse of the memory from
    the start of the run, up to the first instruction that is predicted taken.
-/
import BoomStop.Frontend
import BoomStop.Lib.Parcels

namespace BoomStop.Ifu

open Sync Parcels

variable {p : Params}

/-! ## Alignment -/

/-- The configurations of the frontend: at least four halves a packet, and two
    banks when a packet has at least eight. -/
structure Params.Supported (p : Params) : Prop where
  fetchWidth : ∃ k, 2 ≤ k ∧ p.fetchWidth = 2 ^ k
  nBanks : p.nBanks = 1 ∨ p.nBanks = 2 ∧ 8 ≤ p.fetchWidth
  bankBytes : p.bankBytes = p.fetchBytes / p.nBanks
  icBlockBytes : ∃ n, p.icBlockBytes = 2 ^ n
  fits : p.fetchBytes ≤ p.icBlockBytes
  va : p.icBlockBytes ≤ 2 ^ p.va

/-- The sizes in terms of the width `2 ^ m` of a bank and the size `2 ^ n` of a block. -/
structure Params.Shape (p : Params) (m n : ℕ) : Prop where
  two_le : 2 ≤ m
  nBanks : p.nBanks = 1 ∨ p.nBanks = 2
  bankWidth : p.bankWidth = 2 ^ m
  bankBytes : p.bankBytes = 2 ^ (m + 1)
  fetchWidth : p.fetchWidth = p.nBanks * 2 ^ m
  clog_fetchWidth : Nat.clog 2 p.fetchWidth = m + (p.nBanks - 1)
  icBlockBytes : p.icBlockBytes = 2 ^ n
  fits : m + p.nBanks ≤ n
  va : n ≤ p.va

theorem Params.Supported.shape (h : p.Supported) : ∃ m n, p.Shape m n := by
  obtain ⟨k, hk, hfw⟩ := h.fetchWidth
  obtain ⟨n, hn⟩ := h.icBlockBytes
  have hva : n ≤ p.va := (Nat.pow_le_pow_iff_right one_lt_two).1 (hn ▸ h.va)
  have hfb : p.fetchBytes = 2 ^ (k + 1) := by
    rw [fetchBytes, hfw, pow_succ, mul_comm]
  have hkn : k + 1 ≤ n := (Nat.pow_le_pow_iff_right one_lt_two).1 (hn ▸ hfb ▸ h.fits)
  have hbb := h.bankBytes
  rcases h.nBanks with hb | ⟨hb, h8⟩
  · refine ⟨k, n, hk, .inl hb, ?_, ?_, ?_, ?_, hn, by omega, hva⟩
    · rw [bankWidth, hb, hfw, Nat.div_one]
    · rw [hbb, hb, hfb, Nat.div_one]
    · rw [hb, hfw, one_mul]
    · rw [hfw, hb, Nat.clog_pow 2 k one_lt_two]
      rfl
  · obtain ⟨m, rfl⟩ : ∃ m, k = m + 1 := ⟨k - 1, by omega⟩
    have hm : 2 ≤ m := by
      rw [hfw, show (8 : ℕ) = 2 ^ 3 from rfl, Nat.pow_le_pow_iff_right one_lt_two] at h8
      omega
    refine ⟨m, n, hm, .inr hb, ?_, ?_, ?_, ?_, hn, by omega, hva⟩
    · rw [bankWidth, hb, hfw, pow_succ, Nat.mul_div_cancel _ two_pos]
    · rw [hbb, hb, hfb, pow_succ, Nat.mul_div_cancel _ two_pos]
    · rw [hb, hfw, pow_succ, mul_comm]
    · rw [hfw, hb, Nat.clog_pow 2 _ one_lt_two]

/-- Clearing the lower bits. -/
theorem align_toNat {va : ℕ} (x : BitVec va) (m : ℕ) :
    (~~~(~~~x ||| BitVec.ofNat va (2 ^ m - 1))).toNat = x.toNat / 2 ^ m * 2 ^ m := by
  have hx : ~~~(~~~x ||| BitVec.ofNat va (2 ^ m - 1)) = (x >>> m) <<< m := by
    apply BitVec.eq_of_getLsbD_eq
    intro i hi
    simp only [BitVec.getLsbD_not, BitVec.getLsbD_or, BitVec.getLsbD_ofNat,
      Nat.testBit_two_pow_sub_one, BitVec.getLsbD_shiftLeft, BitVec.getLsbD_ushiftRight]
    by_cases h : i < m
    · simp [h, hi]
    · have : m + (i - m) = i := by omega
      simp [h, hi, this]
  have hle : x.toNat / 2 ^ m * 2 ^ m ≤ x.toNat := Nat.div_mul_le_self _ _
  rw [hx, BitVec.toNat_shiftLeft, BitVec.toNat_ushiftRight, Nat.shiftRight_eq_div_pow,
    Nat.shiftLeft_eq, Nat.mod_eq_of_lt (Nat.lt_of_le_of_lt hle x.isLt)]

/-- The place of an address in its bank. -/
def bankIdx (p : Params) (addr : BitVec p.va) : ℕ := addr.toNat / 2 % p.bankWidth

/-- An address with its lowest bit cleared, as the addresses of instructions are. -/
def halfAlign {va : ℕ} (addr : BitVec va) : BitVec va := addr &&& ~~~1

/-- The number of slots in the banks of a packet that are there. -/
def present (p : Params) (addr : BitVec p.va) : ℕ :=
  if isLastBankInBlock p addr then p.bankWidth else p.fetchWidth

section Shape

variable {m n : ℕ}

theorem bankAlign_toNat (h : p.Shape m n) (x : BitVec p.va) :
    (bankAlign p x).toNat = x.toNat / 2 ^ (m + 1) * 2 ^ (m + 1) := by
  rw [bankAlign, h.bankBytes]
  exact align_toNat x _

theorem halfAlign_toNat {va : ℕ} (x : BitVec va) :
    (halfAlign x).toNat = x.toNat / 2 * 2 := by
  have hx : halfAlign x = ~~~(~~~x ||| BitVec.ofNat va (2 ^ 1 - 1)) := by
    rw [halfAlign, BitVec.not_or, BitVec.not_not]
    rfl
  rw [hx, align_toNat, pow_one]

theorem halfAlign_eq (h : p.Shape m n) (x : BitVec p.va) :
    halfAlign x = bankAlign p x + BitVec.ofNat p.va (bankIdx p x <<< 1) := by
  have hle : x.toNat / 2 * 2 ≤ x.toNat := Nat.div_mul_le_self _ _
  have hdiv : x.toNat / 2 ^ (m + 1) = x.toNat / 2 / 2 ^ m := by
    rw [pow_succ', Nat.div_div_eq_div_mul]
  have hsum : x.toNat / 2 ^ (m + 1) * 2 ^ (m + 1) + x.toNat / 2 % 2 ^ m * 2 = x.toNat / 2 * 2 := by
    have := Nat.div_add_mod (x.toNat / 2) (2 ^ m)
    rw [hdiv, pow_succ, ← mul_assoc, ← add_mul, mul_comm _ (2 ^ m), this]
  have hlt : x.toNat / 2 % 2 ^ m * 2 < 2 ^ p.va := by
    have := x.isLt
    omega
  apply BitVec.eq_of_toNat_eq
  rw [halfAlign_toNat, BitVec.toNat_add, bankAlign_toNat h, BitVec.toNat_ofNat, bankIdx,
    h.bankWidth, Nat.shiftLeft_eq, pow_one, Nat.mod_eq_of_lt hlt, hsum, Nat.mod_eq_of_lt]
  exact Nat.lt_of_le_of_lt hle x.isLt

theorem bankIdx_lt (h : p.Shape m n) (x : BitVec p.va) : bankIdx p x < p.bankWidth := by
  rw [bankIdx, h.bankWidth]
  exact Nat.mod_lt _ (Nat.two_pow_pos m)

theorem present_le_fetchWidth (x : BitVec p.va) : present p x ≤ p.fetchWidth := by
  rw [present]
  split_ifs
  · exact Nat.div_le_self _ _
  · exact Nat.le_refl _

theorem bankIdx_lt_present (h : p.Shape m n) (x : BitVec p.va) : bankIdx p x < present p x := by
  have hb := bankIdx_lt h x
  have := Nat.div_le_self p.fetchWidth p.nBanks
  rw [present]
  split_ifs
  · exact hb
  · exact Nat.lt_of_lt_of_le hb this

theorem bankIdx_eq_mod (h : p.Shape m n) (x : BitVec p.va) {k : ℕ} (hk : m ≤ k) :
    x.toNat / 2 % 2 ^ k % 2 ^ m = bankIdx p x := by
  rw [bankIdx, h.bankWidth, Nat.mod_mod_of_dvd _ (Nat.pow_dvd_pow 2 hk)]

/-- The mask is the interval from the first half to the end of the banks that are there. -/
theorem fetchMask_getLsbD (h : p.Shape m n) (x : BitVec p.va) (i : ℕ) :
    (fetchMask p x).getLsbD i = true ↔ bankIdx p x ≤ i ∧ i < present p x := by
  have hidx : (x.extractLsb' 1 (Nat.clog 2 p.fetchWidth)).toNat =
      x.toNat / 2 % 2 ^ (m + (p.nBanks - 1)) := by
    rw [BitVec.extractLsb'_toNat, h.clog_fetchWidth, Nat.shiftRight_one]
  have hfw := h.fetchWidth
  rcases h.nBanks with hb | hb
  · have hp : present p x = p.fetchWidth := by
      rw [present, isLastBankInBlock, hb]
      rfl
    rw [fetchMask, if_pos hb, hidx, hb, hp, show m + (1 - 1) = m from rfl, ← h.bankWidth, ← bankIdx]
    simp only [BitVec.getLsbD_shiftLeft, BitVec.getLsbD_allOnes, Bool.and_eq_true,
      decide_eq_true_eq, Bool.not_eq_true', decide_eq_false_iff_not]
    omega
  · rw [hb] at hfw
    rw [fetchMask, if_neg (by omega), hidx, h.clog_fetchWidth, hb,
      show m + (2 - 1) - 1 = m from rfl, bankIdx_eq_mod h x (Nat.le_add_right m 1), present,
      h.bankWidth]
    cases isLastBankInBlock p x with
    | true =>
      simp only [if_true, BitVec.getLsbD_and, BitVec.getLsbD_shiftLeft, BitVec.getLsbD_allOnes,
        BitVec.getLsbD_setWidth, Bool.and_eq_true, decide_eq_true_eq, Bool.not_eq_true',
        decide_eq_false_iff_not]
      omega
    | false =>
      simp only [Bool.false_eq_true, if_false, BitVec.getLsbD_and, BitVec.getLsbD_shiftLeft,
        BitVec.getLsbD_allOnes, Bool.and_eq_true, decide_eq_true_eq, Bool.not_eq_true',
        decide_eq_false_iff_not]
      omega

/-- A bank is there when its slots are. -/
theorem bankMask_getLsbD (h : p.Shape m n) (x : BitVec p.va) {b : ℕ} (hb : b < p.nBanks) :
    (bankMask p x).getLsbD b = true ↔ b * p.bankWidth < present p x := by
  have hm : 0 < 2 ^ m := Nat.two_pow_pos m
  have hfw := h.fetchWidth
  rw [bankMask, present, h.bankWidth]
  rcases h.nBanks with hn | hn
  · obtain rfl : b = 0 := by omega
    rw [if_pos hn, isLastBankInBlock, hn, hfw]
    simp [hn]
  · rw [if_neg (by omega), hfw, hn]
    obtain rfl | rfl : b = 0 ∨ b = 1 := by omega
    · cases isLastBankInBlock p x <;> simp
    · cases isLastBankInBlock p x <;> simp

theorem nextFetch_eq (h : p.Shape m n) (x : BitVec p.va) :
    nextFetch p x = bankAlign p x + BitVec.ofNat p.va (present p x <<< 1) := by
  have hfw := h.fetchWidth
  rw [nextFetch, present, h.bankWidth, h.bankBytes, Params.fetchBytes, Nat.shiftLeft_eq, pow_one,
    pow_succ, mul_comm 2]
  congr 2
  rcases h.nBanks with hn | hn
  · rw [if_pos hn, hfw, hn, one_mul, ite_self]
  · rw [if_neg (by omega)]
    split_ifs
    · rfl
    · rfl

theorem dvd_nextFetch (h : p.Shape m n) (x : BitVec p.va) :
    2 ^ (m + 1) ∣ (nextFetch p x).toNat := by
  have hfit := h.fits
  have hva := h.va
  have hb : 1 ≤ p.nBanks := by rcases h.nBanks with h | h <;> omega
  have hpres : 2 ^ m ∣ present p x := by
    rw [present, h.bankWidth, h.fetchWidth]
    split_ifs
    · exact dvd_refl _
    · exact Dvd.intro_left _ rfl
  rw [nextFetch_eq h, BitVec.toNat_add, bankAlign_toNat h, BitVec.toNat_ofNat, Nat.add_mod_mod,
    Nat.shiftLeft_eq, pow_one]
  refine (Nat.dvd_mod_iff (Nat.pow_dvd_pow 2 (by omega))).2 ?_
  exact Nat.dvd_add (Dvd.intro_left _ rfl) (by rw [pow_succ]; exact Nat.mul_dvd_mul_right hpres 2)

/-- The next packet starts with a bank. -/
theorem bankIdx_nextFetch (h : p.Shape m n) (x : BitVec p.va) : bankIdx p (nextFetch p x) = 0 := by
  obtain ⟨k, hk⟩ := dvd_nextFetch h x
  have hhalf : 2 ^ (m + 1) * k / 2 = 2 ^ m * k := by
    rw [pow_succ, mul_right_comm, Nat.mul_div_cancel _ two_pos]
  rw [bankIdx, h.bankWidth, hk, hhalf, Nat.mul_mod_right]

theorem bankAlign_nextFetch (h : p.Shape m n) (x : BitVec p.va) :
    bankAlign p (nextFetch p x) = nextFetch p x := by
  apply BitVec.eq_of_toNat_eq
  rw [bankAlign_toNat h]
  exact Nat.div_mul_cancel (dvd_nextFetch h x)

end Shape

/-! ## Halves and instructions -/

/-- A half of the stream with its address. -/
abbrev Parcel (p : Params) := BitVec p.va × BitVec 16

/-- A half whose two low bits are set begins an instruction of two halves. -/
def isLong (a : Parcel p) : Bool := !isRVC (a.2.setWidth 32)

/-- What a bundle says of an instruction. -/
structure FetchedInst (p : Params) where
  pc : BitVec p.va
  exp_inst : BitVec 32
  is_rvc : Bool
  deriving DecidableEq

/-- The instruction that one or two halves are. -/
def FetchedInst.ofItem (cfg : F3Cfg) : Item (Parcel p) → FetchedInst p
  | .single a => ⟨a.1, cfg.ExpandRVC (a.2.setWidth 32), true⟩
  | .pair a b => ⟨a.1, cfg.ExpandRVC (b.2 ++ a.2), false⟩

/-- The instructions of a stream of halves. -/
def instructions (cfg : F3Cfg) (xs : List (Parcel p)) : List (FetchedInst p) :=
  (cut isLong xs).items.map (FetchedInst.ofItem cfg)

/-- The instruction of a slot. -/
def Slot.fetched (t : Slot p) : FetchedInst p := ⟨t.pc, t.exp_inst, isRVC t.inst⟩

/-- The expander does not look at the upper half of a compressed instruction. -/
def F3Cfg.ReadsLower (cfg : F3Cfg) : Prop :=
  ∀ x y : BitVec 32, isRVC x = true → x.setWidth 16 = y.setWidth 16 →
    cfg.ExpandRVC x = cfg.ExpandRVC y

theorem isRVC_append (h l : BitVec 16) : isRVC (h ++ l) = isRVC (l.setWidth 32) := by
  have : (h ++ l).extractLsb' 0 2 = (l.setWidth 32).extractLsb' 0 2 := by
    apply BitVec.eq_of_getLsbD_eq
    intro i hi
    have h16 : i < 16 := by omega
    have h32 : i < 32 := by omega
    simp only [BitVec.getLsbD_extractLsb', BitVec.getLsbD_append, BitVec.getLsbD_setWidth, hi, h16,
      h32, Nat.zero_add, decide_true, Bool.true_and, if_true]
  simp only [isRVC, this]

theorem isRVC_setWidth (x : BitVec 32) : isRVC ((x.setWidth 16).setWidth 32) = isRVC x := by
  have : ((x.setWidth 16).setWidth 32).extractLsb' 0 2 = x.extractLsb' 0 2 := by
    apply BitVec.eq_of_getLsbD_eq
    intro i hi
    have h16 : i < 16 := by omega
    have h32 : i < 32 := by omega
    simp only [BitVec.getLsbD_extractLsb', BitVec.getLsbD_setWidth, hi, h16, h32, Nat.zero_add,
      decide_true, Bool.true_and]
  simp only [isRVC, this]

theorem append_setWidth (h l : BitVec 16) : (h ++ l).setWidth 16 = l := by
  apply BitVec.eq_of_getLsbD_eq
  intro i hi
  simp only [BitVec.getLsbD_setWidth, BitVec.getLsbD_append, hi, decide_true, Bool.true_and,
    if_true]

theorem F3Cfg.ReadsLower.append {cfg : F3Cfg} (hc : cfg.ReadsLower) (h : BitVec 16)
    {l : BitVec 16} (hl : isRVC (l.setWidth 32) = true) :
    cfg.ExpandRVC (h ++ l) = cfg.ExpandRVC (l.setWidth 32) := by
  refine hc _ _ (by rw [isRVC_append]; exact hl) ?_
  apply BitVec.eq_of_getLsbD_eq
  intro i hi
  have h32 : i < 32 := by omega
  simp only [BitVec.getLsbD_setWidth, BitVec.getLsbD_append, hi, h32, decide_true, Bool.true_and,
    if_true]

theorem instructions_mono (cfg : F3Cfg) {xs zs : List (Parcel p)} (h : xs <+: zs) :
    instructions cfg xs <+: instructions cfg zs := by
  obtain ⟨ys, rfl⟩ := h
  exact (cut_mono xs ys).map _

/-! ## The halves of a packet -/

section Packet

variable (cfg : F3Cfg) (x : F3In p) (r : F3Regs) (hist : List (Parcel p))

/-- The half at a place of a packet. -/
def parcel (i : ℕ) : Parcel p := (bankAlign p x.pc + BitVec.ofNat p.va (i <<< 1), x.data i)

theorem ofNat_succ_shift (w k : ℕ) :
    BitVec.ofNat w ((k + 1) <<< 1) = BitVec.ofNat w (k <<< 1) + 2 := by
  rw [Nat.shiftLeft_eq, Nat.shiftLeft_eq, pow_one, Nat.add_mul, one_mul, BitVec.ofNat_add]
  rfl

theorem parcel_succ (i : ℕ) : (parcel x (i + 1)).1 - 2 = (parcel x i).1 := by
  have hs : (parcel x (i + 1)).1 = (parcel x i).1 + 2 := by
    rw [parcel, ofNat_succ_shift, ← BitVec.add_assoc]
    rfl
  rw [hs, BitVec.add_sub_cancel]

/-- The halves before a place that count. -/
def fed (i : ℕ) : List (Parcel p) :=
  ((List.range i).filter fun j => (fetchMask p x.pc).getLsbD j).map (parcel x)

variable {x} in
theorem cut_fed_of_mask {i : ℕ} (h : (fetchMask p x.pc).getLsbD i = true) :
    cut isLong (hist ++ fed x (i + 1)) =
      (cut isLong (hist ++ fed x i)).feed isLong (parcel x i) := by
  rw [fed, List.range_succ, List.filter_append, List.filter_singleton, h, List.map_append,
    ← List.append_assoc]
  exact cut_snoc _ _

variable {x} in
theorem fed_of_not_mask {i : ℕ} (h : (fetchMask p x.pc).getLsbD i = false) :
    fed x (i + 1) = fed x i := by
  rw [fed, List.range_succ, List.filter_append, List.filter_singleton, h]
  rw [cond_false, List.append_nil]
  rfl

theorem fed_mono {i k : ℕ} (h : i ≤ k) : hist ++ fed x i <+: hist ++ fed x k := by
  induction h with
  | refl => exact List.prefix_refl _
  | @step k _ ih =>
    refine ih.trans ?_
    cases hk : (fetchMask p x.pc).getLsbD k with
    | true =>
      rw [fed, fed, List.range_succ, List.filter_append, List.map_append, ← List.append_assoc]
      exact List.prefix_append _ _
    | false =>
      exact (fed_of_not_mask hk).symm ▸ List.prefix_refl _

/-! ## One slot -/

/-- The loop after a slot. -/
def Scan.push (s : Scan p) (t : Slot p) : Scan p :=
  { s with slots := t :: s.slots, redirect_found := s.redirect_found || t.redirects }

/-- The slots that are marked valid, in order. -/
def Scan.emitted (s : Scan p) : List (Slot p) := s.slots.reverse.filter Slot.mask

variable {s : Scan p} {t : Slot p}

theorem emitted_push_of_mask (h : t.mask = true) : (s.push t).emitted = s.emitted ++ [t] := by
  rw [Scan.emitted, Scan.push, List.reverse_cons, List.filter_append, List.filter_singleton, h]
  rfl

theorem emitted_push_of_not_mask (h : t.mask = false) : (s.push t).emitted = s.emitted := by
  rw [Scan.emitted, Scan.push, List.reverse_cons, List.filter_append, List.filter_singleton, h]
  exact List.append_nil _

/-- The instructions of the halves before the packet, and those of the packet so far. -/
def outs (s : Scan p) : List (FetchedInst p) :=
  instructions cfg hist ++ s.emitted.map Slot.fetched

variable {cfg hist} in
theorem outs_push_of_mask (h : t.mask = true) :
    outs cfg hist (s.push t) = outs cfg hist s ++ [t.fetched] := by
  rw [outs, outs, emitted_push_of_mask h, List.map_append, List.map_singleton, List.append_assoc]

variable {cfg hist} in
theorem outs_push_of_not_mask (h : t.mask = false) :
    outs cfg hist (s.push t) = outs cfg hist s := by
  rw [outs, outs, emitted_push_of_not_mask h]

/-- The slots before place `i` are the instructions of the halves before it; if the last one
    is `pending`, its second half is at `i`. -/
def Mid (i : ℕ) (pending : Bool) (s : Scan p) : Prop :=
  let c := cut isLong (hist ++ fed x i)
  if pending then
    ∃ a, c.rest = some a ∧ (fetchMask p x.pc).getLsbD i = true ∧
      outs cfg hist s =
        c.items.map (FetchedInst.ofItem cfg) ++ [FetchedInst.ofItem cfg (.pair a (parcel x i))]
  else c.rest = none ∧ outs cfg hist s = c.items.map (FetchedInst.ofItem cfg)

variable {cfg x r hist} {i : ℕ} {pending : Bool}

/-- What is emitted is part of the parse of all halves of the packet. -/
theorem Mid.mono (h : Mid cfg x hist i pending s) {k : ℕ} (hik : i ≤ k)
    (hk : ∀ j, (fetchMask p x.pc).getLsbD j = true → j < k) :
    outs cfg hist s <+: instructions cfg (hist ++ fed x k) := by
  cases pending with
  | true =>
    obtain ⟨a, hr, hm, he⟩ := h
    have hc := cut_fed_of_mask hist hm
    rw [feed_second hr] at hc
    have hpre := instructions_mono cfg (fed_mono x hist (hk i hm))
    rwa [instructions, hc, List.map_append, List.map_singleton, ← he] at hpre
  | false =>
    obtain ⟨-, he⟩ := h
    rw [he]
    exact instructions_mono cfg (fed_mono x hist hik)

/-- A slot whose instruction begins at its own half, unless the slot before has it. -/
theorem Mid.push (hc : cfg.ReadsLower) (h : Mid cfg x hist i pending s)
    (hpc : t.pc = (parcel x i).1) (hexp : t.exp_inst = cfg.ExpandRVC t.inst)
    (hinst : t.inst = x.data (i + 1) ++ x.data i)
    (hmask : t.mask = ((fetchMask p x.pc).getLsbD i && !pending))
    (hnext : (fetchMask p x.pc).getLsbD i = true → (fetchMask p x.pc).getLsbD (i + 1) = true) :
    Mid cfg x hist (i + 1) (t.mask && !isRVC t.inst) (s.push t) := by
  have hrvc : isRVC t.inst = isRVC ((x.data i).setWidth 32) := by rw [hinst, isRVC_append]
  cases pending with
  | true =>
    obtain ⟨a, hr, hm, he⟩ := h
    have hcut := cut_fed_of_mask hist hm
    rw [feed_second hr] at hcut
    rw [Bool.not_true, Bool.and_false] at hmask
    rw [hmask, Bool.false_and]
    refine ⟨?_, ?_⟩
    · rw [hcut]
    · rw [outs_push_of_not_mask hmask, he, hcut, List.map_append, List.map_singleton]
  | false =>
    obtain ⟨hr, he⟩ := h
    rw [Bool.not_false, Bool.and_true] at hmask
    cases hm : (fetchMask p x.pc).getLsbD i with
    | false =>
      rw [hm] at hmask
      rw [hmask, Bool.false_and]
      refine ⟨?_, ?_⟩
      · rw [fed_of_not_mask hm, hr]
      · rw [outs_push_of_not_mask hmask, he, fed_of_not_mask hm]
    | true =>
      rw [hm] at hmask
      have hcut := cut_fed_of_mask hist hm
      rw [hmask, Bool.true_and, hrvc]
      cases hl : isRVC ((x.data i).setWidth 32) with
      | true =>
        rw [feed_single hr (by rw [isLong, parcel, hl]; rfl)] at hcut
        refine ⟨?_, ?_⟩
        · rw [hcut]
        · have hsingle : t.fetched = FetchedInst.ofItem cfg (.single (parcel x i)) := by
            rw [Slot.fetched, hpc, hexp, hrvc, hl, hinst, hc.append _ hl]
            rfl
          rw [outs_push_of_mask hmask, he, hcut,
            List.map_append, List.map_singleton, hsingle]
      | false =>
        rw [feed_first hr (by rw [isLong, parcel, hl]; rfl)] at hcut
        refine ⟨parcel x i, ?_, hnext hm, ?_⟩
        · rw [hcut]
        · have hpair : t.fetched =
              FetchedInst.ofItem cfg (.pair (parcel x i) (parcel x (i + 1))) := by
            rw [Slot.fetched, hpc, hexp, hrvc, hl, hinst]
            rfl
          rw [outs_push_of_mask hmask, he, hcut, hpair]

/-- The first slot of a bank, whose instruction began in the bank before. -/
theorem push_edge {a : Parcel p} (hr : (cut isLong (hist ++ fed x i)).rest = some a)
    (he : outs cfg hist s = instructions cfg (hist ++ fed x i))
    (hm : (fetchMask p x.pc).getLsbD i = true) (hpc : t.pc = a.1)
    (hexp : t.exp_inst = cfg.ExpandRVC t.inst) (hinst : t.inst = x.data i ++ a.2)
    (hmask : t.mask = true) : Mid cfg x hist (i + 1) false (s.push t) := by
  have hl : isLong a = true := (parse_cut _).half a hr
  have hrvc : isRVC t.inst = false := by
    rw [hinst, isRVC_append]
    simpa only [isLong, Bool.not_eq_true'] using hl
  have hcut := cut_fed_of_mask hist hm
  rw [feed_second hr] at hcut
  have hpair : t.fetched = FetchedInst.ofItem cfg (.pair a (parcel x i)) := by
    rw [Slot.fetched, hrvc, hpc, hexp, hinst]
    rfl
  refine ⟨?_, ?_⟩
  · rw [hcut]
  · rw [outs_push_of_mask hmask, he, hcut, instructions,
      List.map_append, List.map_singleton, hpair]

/-- The last slot of a bank leaves the first half of an instruction to the next. -/
theorem Mid.push_last (hc : cfg.ReadsLower) (h : Mid cfg x hist i pending s)
    (hm : (fetchMask p x.pc).getLsbD i = true) (hpc : t.pc = (parcel x i).1)
    (hexp : t.exp_inst = cfg.ExpandRVC t.inst) (hinst : t.inst = (0 : BitVec 16) ++ x.data i)
    (hmask : t.mask = !(pending || !isRVC t.inst)) :
    (cut isLong (hist ++ fed x (i + 1))).rest =
        (if !pending && !isRVC t.inst then some (parcel x i) else none) ∧
      outs cfg hist (s.push t) = instructions cfg (hist ++ fed x (i + 1)) := by
  have hrvc : isRVC t.inst = isRVC ((x.data i).setWidth 32) := by rw [hinst, isRVC_append]
  have hcut := cut_fed_of_mask hist hm
  cases pending with
  | true =>
    obtain ⟨a, hr, -, he⟩ := h
    rw [feed_second hr] at hcut
    refine ⟨?_, ?_⟩
    · rw [hcut]
      rfl
    · rw [outs_push_of_not_mask (by rw [hmask, Bool.true_or, Bool.not_true]), he, instructions,
        hcut, List.map_append, List.map_singleton]
  | false =>
    obtain ⟨hr, he⟩ := h
    rw [Bool.false_or, Bool.not_not] at hmask
    cases hl : isRVC ((x.data i).setWidth 32) with
    | true =>
      rw [feed_single hr (by rw [isLong, parcel, hl]; rfl)] at hcut
      rw [hrvc, hl] at hmask
      refine ⟨?_, ?_⟩
      · rw [hcut, hrvc, hl]
        rfl
      · have hsingle : t.fetched = FetchedInst.ofItem cfg (.single (parcel x i)) := by
          rw [Slot.fetched, hpc, hexp, hrvc, hl, hinst, hc.append _ hl]
          rfl
        rw [outs_push_of_mask hmask, he, instructions,
          hcut, List.map_append, List.map_singleton, hsingle]
    | false =>
      rw [feed_first hr (by rw [isLong, parcel, hl]; rfl)] at hcut
      rw [hrvc, hl] at hmask
      refine ⟨?_, ?_⟩
      · rw [hcut, hrvc, hl]
        rfl
      · rw [outs_push_of_not_mask hmask, he, instructions, hcut]

/-! ## The loops -/

variable (cfg x hist) in
/-- What holds all through the loop: what is emitted is part of the parse, and
    nothing is emitted behind a redirect; an instruction from the bank before has
    two halves. -/
structure Kept (s : Scan p) : Prop where
  pref : outs cfg hist s <+: instructions cfg (hist ++ fed x p.fetchWidth)
  stop : ∀ t ∈ s.emitted.dropLast, t.redirects = false
  found : s.redirect_found = s.slots.any Slot.redirects
  masked : ∀ t ∈ s.slots, t.redirects = true → t.mask = true
  order : s.slots.Pairwise fun t u => t.mask = true → u.redirects = false
  edge : ∀ t ∈ s.slots, t.mask = true → t.edge_inst = true → isRVC t.inst = false

theorem Kept.not_redirects (h : Kept cfg x hist s) (hf : s.redirect_found = false) :
    ∀ t ∈ s.slots, t.redirects = false := by
  intro u hu
  have hany := h.found
  rw [hf] at hany
  exact Bool.not_eq_true _ ▸ List.any_eq_false.1 hany.symm u hu

theorem Kept.push (h : Kept cfg x hist s) (hr : t.redirects = true → t.mask = true)
    (hf : t.mask = true → s.redirect_found = false)
    (he : t.mask = true → t.edge_inst = true → isRVC t.inst = false)
    (hp : s.redirect_found = false →
      outs cfg hist (s.push t) <+: instructions cfg (hist ++ fed x p.fetchWidth)) :
    Kept cfg x hist (s.push t) := by
  refine ⟨?_, ?_, ?_, ?_, ?_, ?_⟩
  · cases hs : s.redirect_found with
    | false => exact hp hs
    | true =>
      have hm : t.mask = false := by
        cases hm : t.mask with
        | false => rfl
        | true => rw [hf hm] at hs; cases hs
      rw [outs_push_of_not_mask hm]
      exact h.pref
  · cases hm : t.mask with
    | false =>
      rw [emitted_push_of_not_mask hm]
      exact h.stop
    | true =>
      rw [emitted_push_of_mask hm, List.dropLast_concat]
      intro u hu
      exact h.not_redirects (hf hm) u (List.mem_reverse.1 (List.mem_of_mem_filter hu))
  · rw [Scan.push, h.found, List.any_cons, Bool.or_comm]
  · intro u hu
    rcases List.mem_cons.1 hu with rfl | hu
    · exact hr
    · exact h.masked u hu
  · exact List.pairwise_cons.2 ⟨fun u hu hm => h.not_redirects (hf hm) u hu, h.order⟩
  · intro u hu
    rcases List.mem_cons.1 hu with rfl | hu
    · exact he
    · exact h.edge u hu

theorem slot_redirects_mask (b w : ℕ) :
    (s.slot cfg x r b w).redirects = true → (s.slot cfg x r b w).mask = true := by
  intro h
  exact (Bool.and_eq_true_iff.1 h).1

theorem slot_mask_found (b w : ℕ) :
    (s.slot cfg x r b w).mask = true → s.redirect_found = false := by
  intro h
  exact Bool.not_eq_true'  _ |>.mp (Bool.and_eq_true_iff.1 h).2

/-- Whether the slot before has an instruction whose second half is here. -/
def pend (w : ℕ) (s : Scan p) : Bool :=
  if w = 0 then false
  else if w = 1 then s.prev_long && !s.bank_prev_is_half
  else s.prev_long

variable (cfg x r) in
theorem slot_plain {b w : ℕ} (he : (w == 0 && s.bank_prev_is_half) = false)
    (hw : w < 2 ∨ w ≠ p.bankWidth - 1) :
    let t := s.slot cfg x r b w
    let i := b * p.bankWidth + w
    t.inst = x.data (i + 1) ++ x.data i ∧ t.pc = (parcel x i).1 ∧
      t.mask = ((fetchMask p x.pc).getLsbD i && !pend w s && !s.redirect_found) := by
  have hlast : ¬(w ≠ 0 ∧ w ≠ 1 ∧ w = p.bankWidth - 1) := by omega
  refine ⟨?_, ?_, ?_⟩
  · simp only [Scan.slot, he, if_neg hlast, Bool.false_eq_true, if_false]
  · simp only [Scan.slot, he, Bool.false_eq_true, if_false]
    rfl
  · have hw' : w = 0 ∨ w = 1 ∨ w ≠ 0 ∧ w ≠ 1 ∧ w ≠ p.bankWidth - 1 := by omega
    simp only [Scan.slot, pend]
    rcases hw' with rfl | rfl | ⟨h0, h1, hl⟩
    · rfl
    · simp only [one_ne_zero, if_false, if_true, Bool.not_and, Bool.not_not, Bool.or_comm]
    · simp only [h0, h1, hl, if_false]

variable (cfg x r) in
theorem slot_last {b w : ℕ} (hw : 2 ≤ w) (hl : w = p.bankWidth - 1) :
    let t := s.slot cfg x r b w
    let i := b * p.bankWidth + w
    t.inst = (0 : BitVec 16) ++ x.data i ∧ t.pc = (parcel x i).1 ∧
      t.mask = ((fetchMask p x.pc).getLsbD i && !(pend w s || !isRVC t.inst) &&
        !s.redirect_found) := by
  have h0 : w ≠ 0 := by omega
  have h1 : w ≠ 1 := by omega
  have he : (w == 0 && s.bank_prev_is_half) = false := by
    rw [beq_eq_false_iff_ne.2 h0, Bool.false_and]
  refine ⟨?_, ?_, ?_⟩
  · simp only [Scan.slot, he, if_pos (And.intro h0 (And.intro h1 hl)), Bool.false_eq_true, if_false]
  · simp only [Scan.slot, he, Bool.false_eq_true, if_false]
    rfl
  · simp only [Scan.slot, pend, h0, h1, if_false, if_pos hl]

variable (cfg x r) in
theorem slot_edge {b : ℕ} (he : s.bank_prev_is_half = true) :
    let t := s.slot cfg x r b 0
    let i := b * p.bankWidth
    t.inst = x.data i ++ (if 0 < b ∧ (bankMask p x.pc).getLsbD (b - 1) then s.last_inst
        else r.f3_prev_half) ∧
      t.pc = (parcel x i).1 - 2 ∧
      t.mask = ((fetchMask p x.pc).getLsbD i && !s.redirect_found) := by
  refine ⟨?_, ?_, ?_⟩
  · simp only [Scan.slot, he, beq_self_eq_true, Bool.and_self, if_true, add_zero]
  · simp only [Scan.slot, he, beq_self_eq_true, Bool.and_self, if_true, add_zero]
    rfl
  · simp only [Scan.slot, if_true, add_zero, Bool.and_true]

theorem step_eq_push (b w : ℕ) : s.step cfg x r b w = s.push (s.slot cfg x r b w) := rfl

theorem pend_push (w : ℕ) (hw : w = 0 → s.bank_prev_is_half = false) :
    pend (w + 1) (s.push t) = (t.mask && !isRVC t.inst) := by
  rw [pend, if_neg (Nat.succ_ne_zero w)]
  split_ifs with h1
  · have hb : (s.push t).bank_prev_is_half = false := hw (by omega)
    rw [hb, Bool.not_false, Bool.and_true]
    rfl
  · rfl

variable (cfg x hist) in
/-- Before slot `w ≥ 1` of a bank. -/
def InBank (b w : ℕ) (s : Scan p) : Prop :=
  Kept cfg x hist s ∧
    (s.redirect_found = false → Mid cfg x hist (b * p.bankWidth + w) (pend w s) s)

variable (cfg x r hist) in
/-- Between two banks: the half that is carried is the one that is left of the parse. -/
structure AtBank (b : ℕ) (s : Scan p) : Prop where
  kept : Kept cfg x hist s
  carry : (if 0 < b ∧ (bankMask p x.pc).getLsbD (b - 1) then s.last_inst else r.f3_prev_half) =
    s.bank_prev_half
  half : s.bank_prev_is_half = true → bankIdx p x.pc ≤ b * p.bankWidth
  rest : s.redirect_found = false → (cut isLong (hist ++ fed x (b * p.bankWidth))).rest =
    if s.bank_prev_is_half then some ((parcel x (b * p.bankWidth)).1 - 2, s.bank_prev_half)
    else none
  emitted : s.redirect_found = false →
    outs cfg hist s = instructions cfg (hist ++ fed x (b * p.bankWidth))

section Bank

variable {m n b : ℕ} (h : p.Shape m n) (hc : cfg.ReadsLower)

include h

theorem mask_lt {j : ℕ} (hj : (fetchMask p x.pc).getLsbD j = true) : j < p.fetchWidth := by
  have hp := ((fetchMask_getLsbD h x.pc j).1 hj).2
  have hle : p.bankWidth ≤ p.fetchWidth := Nat.div_le_self _ _
  rw [present] at hp
  split_ifs at hp <;> omega

/-- The banks that are there end with a bank. -/
theorem present_le (hb : b * p.bankWidth < present p x.pc) :
    b * p.bankWidth + p.bankWidth ≤ present p x.pc := by
  have hfw := h.fetchWidth
  have hm : 0 < 2 ^ m := Nat.two_pow_pos m
  rw [present, h.bankWidth] at hb ⊢
  split_ifs at hb ⊢
  · have : b = 0 := by
      rcases Nat.eq_zero_or_pos b with h0 | h0
      · exact h0
      · have := Nat.mul_le_mul_right (2 ^ m) h0
        omega
    subst this
    omega
  · rw [hfw] at hb ⊢
    have hlt : b < p.nBanks := Nat.lt_of_mul_lt_mul_right hb
    have := Nat.mul_le_mul_right (2 ^ m) (Nat.succ_le_of_lt hlt)
    rwa [Nat.succ_mul] at this

include hc

theorem inBank_step {w : ℕ} (hb : b * p.bankWidth < present p x.pc) (hw : w + 1 < p.bankWidth)
    (hw0 : w = 0 → s.bank_prev_is_half = false) (hi : InBank cfg x hist b w s) :
    InBank cfg x hist b (w + 1) (s.step cfg x r b w) := by
  obtain ⟨hk, hmid⟩ := hi
  have hpres := present_le h hb
  have hfit : b * p.bankWidth + w + 1 < p.fetchWidth + 1 := by
    have hle := present_le_fetchWidth x.pc
    omega
  have hedge : (w == 0 && s.bank_prev_is_half) = false := by
    rcases Nat.eq_zero_or_pos w with h0 | h0
    · rw [hw0 h0, Bool.and_false]
    · rw [beq_eq_false_iff_ne.2 (by omega), Bool.false_and]
  obtain ⟨hinst, hpc, hmask⟩ := slot_plain cfg x r (b := b) hedge
    (.inr (by omega))
  have hnext : (fetchMask p x.pc).getLsbD (b * p.bankWidth + w) = true →
      (fetchMask p x.pc).getLsbD (b * p.bankWidth + w + 1) = true := by
    intro hm
    have hlo := ((fetchMask_getLsbD h x.pc _).1 hm).1
    exact (fetchMask_getLsbD h x.pc _).2 ⟨by omega, by omega⟩
  have hpush (hf : s.redirect_found = false) := (hmid hf).push hc hpc rfl hinst
    (by rw [hmask, hf, Bool.not_false, Bool.and_true]) hnext
  rw [step_eq_push]
  refine ⟨?_, ?_⟩
  · refine hk.push (slot_redirects_mask b w) (slot_mask_found b w) ?_ fun hf => ?_
    · intro _ he
      exact absurd (hedge.symm.trans he) Bool.false_ne_true
    exact (hpush hf).mono (by omega) fun j hj => mask_lt h hj
  · intro hf
    rw [pend_push w hw0]
    exact hpush (Bool.or_eq_false_iff.1 hf).1

/-- The first slot takes the half that is carried. -/
theorem inBank_first (hb : b * p.bankWidth < present p x.pc) (ha : AtBank cfg x r hist b s) :
    InBank cfg x hist b 1 (s.step cfg x r b 0) := by
  have hbw := h.bankWidth
  have hpow : 2 ^ 2 ≤ 2 ^ m := Nat.pow_le_pow_right two_pos h.two_le
  cases hh : s.bank_prev_is_half with
  | false =>
    refine inBank_step h hc hb (by omega) (fun _ => hh) ⟨ha.kept, fun hf => ?_⟩
    have hr := ha.rest hf
    rw [hh, if_neg Bool.false_ne_true] at hr
    exact ⟨hr, ha.emitted hf⟩
  | true =>
    obtain ⟨hinst, hpc, hmask⟩ := slot_edge cfg x r (b := b) hh
    have hm : (fetchMask p x.pc).getLsbD (b * p.bankWidth) = true :=
      (fetchMask_getLsbD h x.pc _).2 ⟨ha.half hh, hb⟩
    rw [ha.carry] at hinst
    have hpush (hf : s.redirect_found = false) :
        Mid cfg x hist (b * p.bankWidth + 1) false (s.push (s.slot cfg x r b 0)) := by
      have hr := ha.rest hf
      rw [hh, if_pos rfl] at hr
      exact push_edge hr (ha.emitted hf) hm hpc rfl hinst (by rw [hmask, hm, hf]; rfl)
    rw [step_eq_push]
    refine ⟨?_, ?_⟩
    · refine ha.kept.push (slot_redirects_mask b 0) (slot_mask_found b 0) ?_ fun hf => ?_
      · intro hmask' _
        have hr := ha.rest (slot_mask_found b 0 hmask')
        rw [hh, if_pos rfl] at hr
        rw [hinst, isRVC_append]
        simpa only [isLong, Bool.not_eq_true'] using (parse_cut _).half _ hr
      exact (hpush hf).mono (mask_lt h hm) fun j hj => mask_lt h hj
    · intro hf
      have hp : pend 1 (s.push (s.slot cfg x r b 0)) = false := by
        have hb' : (s.push (s.slot cfg x r b 0)).bank_prev_is_half = true := hh
        rw [pend, if_neg one_ne_zero, if_pos rfl, hb', Bool.not_true, Bool.and_false]
      rw [hp]
      exact hpush (Bool.or_eq_false_iff.1 hf).1

theorem inBank_foldl (hb : b * p.bankWidth < present p x.pc) (ha : AtBank cfg x r hist b s)
    (k : ℕ) (hk : k + 1 < p.bankWidth) :
    InBank cfg x hist b (k + 1) ((List.range (k + 1)).foldl (Scan.step cfg x r · b) s) := by
  induction k with
  | zero => exact inBank_first h hc hb ha
  | succ k ih =>
    rw [List.range_succ, List.foldl_append]
    exact inBank_step h hc hb hk (fun h0 => absurd h0 (Nat.succ_ne_zero k)) (ih (by omega))

/-- The last slot, and what the bank leaves. -/
theorem atBank_last (hb : b * p.bankWidth < present p x.pc) (hbn : b < p.nBanks)
    (hi : InBank cfg x hist b (p.bankWidth - 1) s) :
    AtBank cfg x r hist (b + 1) ((s.step cfg x r b (p.bankWidth - 1)).endBank x b) := by
  obtain ⟨hk, hmid⟩ := hi
  have hbw := h.bankWidth
  have hpow : 2 ^ 2 ≤ 2 ^ m := Nat.pow_le_pow_right two_pos h.two_le
  have hpres := present_le h hb
  have hidx := bankIdx_lt h x.pc
  have hsucc : (b + 1) * p.bankWidth = b * p.bankWidth + (p.bankWidth - 1) + 1 := by
    rw [Nat.succ_mul]
    omega
  have hbm : (bankMask p x.pc).getLsbD b = true := (bankMask_getLsbD h x.pc hbn).2 hb
  obtain ⟨hinst, hpc, hmask⟩ := slot_last cfg x r (s := s) (b := b) (by omega) rfl
  have hm : (fetchMask p x.pc).getLsbD (b * p.bankWidth + (p.bankWidth - 1)) = true :=
    (fetchMask_getLsbD h x.pc _).2 ⟨by omega, by omega⟩
  have hpush (hf : s.redirect_found = false) := (hmid hf).push_last hc hm hpc rfl hinst
    (by rw [hmask, hm, hf, Bool.not_false, Bool.and_true, Bool.true_and])
  have hlong : (s.step cfg x r b (p.bankWidth - 1)).prev_prev_long = pend (p.bankWidth - 1) s := by
    rw [pend, if_neg (by omega), if_neg (by omega)]
    cases hs : s.slots with
    | nil => simp only [Scan.step, Scan.prev_prev_long, Scan.prev_long, hs]
    | cons q l => simp only [Scan.step, Scan.prev_prev_long, Scan.prev_long, hs]
  have hlow : (s.slot cfg x r b (p.bankWidth - 1)).inst.setWidth 16 =
      x.data (b * p.bankWidth + (p.bankWidth - 1)) := by
    rw [hinst, append_setWidth]
  have hhalf : ((s.step cfg x r b (p.bankWidth - 1)).endBank x b).bank_prev_half =
      x.data (b * p.bankWidth + (p.bankWidth - 1)) := (if_pos hbm).trans hlow
  have hishalf : ((s.step cfg x r b (p.bankWidth - 1)).endBank x b).bank_prev_is_half =
      (!pend (p.bankWidth - 1) s && !isRVC (s.slot cfg x r b (p.bankWidth - 1)).inst) := by
    have hlast : isRVC (((s.slot cfg x r b (p.bankWidth - 1)).inst.setWidth 16).setWidth 32) =
        isRVC (s.slot cfg x r b (p.bankWidth - 1)).inst := by
      rw [hlow, hinst, isRVC_append]
    refine (if_pos hbm).trans ?_
    rw [hlong, ← hlast]
    rfl
  have hpc' : (parcel x ((b + 1) * p.bankWidth)).1 - 2 =
      (parcel x (b * p.bankWidth + (p.bankWidth - 1))).1 := by
    rw [hsucc]
    exact parcel_succ x _
  refine ⟨?_, ?_, ?_, ?_, ?_⟩
  · have hedge : (s.slot cfg x r b (p.bankWidth - 1)).edge_inst = false := by
      have h0 : (p.bankWidth - 1 == 0) = false := beq_eq_false_iff_ne.2 (by omega)
      simp only [Scan.slot, h0, Bool.false_and]
    have hk' := hk.push (slot_redirects_mask b _) (slot_mask_found b _)
      (fun _ he => absurd (hedge.symm.trans he) Bool.false_ne_true) fun hf => by
        rw [(hpush hf).2]
        exact instructions_mono cfg (fed_mono x hist (mask_lt h hm))
    exact ⟨hk'.pref, hk'.stop, hk'.found, hk'.masked, hk'.order, hk'.edge⟩
  · rw [if_pos ⟨Nat.succ_pos b, hbm⟩, hhalf]
    exact hlow
  · intro _
    omega
  · intro hf
    rw [hsucc, (hpush (Bool.or_eq_false_iff.1 hf).1).1, hishalf, hhalf, ← hsucc, hpc']
    rfl
  · intro hf
    rw [hsucc]
    exact (hpush (Bool.or_eq_false_iff.1 hf).1).2

/-- **A bank that is there** continues the parse. -/
theorem atBank_bank (hb : b * p.bankWidth < present p x.pc) (hbn : b < p.nBanks)
    (ha : AtBank cfg x r hist b s) : AtBank cfg x r hist (b + 1) (s.bank cfg x r b) := by
  have hbw := h.bankWidth
  have hpow : 2 ^ 2 ≤ 2 ^ m := Nat.pow_le_pow_right two_pos h.two_le
  obtain ⟨k, hk⟩ : ∃ k, p.bankWidth = k + 2 := ⟨p.bankWidth - 2, by omega⟩
  have hi := inBank_foldl h hc hb ha k (by omega)
  have hlast : p.bankWidth - 1 = k + 1 := by omega
  rw [← hlast] at hi
  have hfold : (List.range p.bankWidth).foldl (Scan.step cfg x r · b) s =
      ((List.range (p.bankWidth - 1)).foldl (Scan.step cfg x r · b) s).step cfg x r b
        (p.bankWidth - 1) := by
    rw [show p.bankWidth = p.bankWidth - 1 + 1 by omega, List.range_succ, List.foldl_append]
    rfl
  rw [Scan.bank, hfold]
  exact atBank_last h hc hb hbn hi

omit hc in
theorem fed_present {k : ℕ} (hk : present p x.pc ≤ k) : fed x k = fed x (present p x.pc) := by
  induction hk with
  | refl => rfl
  | @step k hk ih =>
    have hm : (fetchMask p x.pc).getLsbD k = false := by
      by_contra hne
      have := ((fetchMask_getLsbD h x.pc k).1 (Bool.not_eq_false _ ▸ hne)).2
      exact Nat.not_lt_of_le hk this
    rw [fed_of_not_mask hm, ih]

omit h hc

variable (cfg x hist) in
/-- After the banks that are there. -/
structure Done (s : Scan p) : Prop where
  kept : Kept cfg x hist s
  rest : s.redirect_found = false → (cut isLong (hist ++ fed x p.fetchWidth)).rest =
    if s.bank_prev_is_half then some (nextFetch p x.pc - 2, s.bank_prev_half) else none
  outs : s.redirect_found = false → outs cfg hist s = instructions cfg (hist ++ fed x p.fetchWidth)

include h in
theorem AtBank.done (ha : AtBank cfg x r hist b s) (hb : b * p.bankWidth = present p x.pc) :
    Done cfg x hist s := by
  have hle := present_le_fetchWidth x.pc
  have hfed := fed_present h hle
  refine ⟨ha.kept, ?_, ?_⟩
  · intro hf
    rw [hfed, ← hb, ha.rest hf, nextFetch_eq h, ← hb]
    rfl
  · intro hf
    rw [hfed, ← hb]
    exact ha.emitted hf

/-- A slot that is masked out changes nothing. -/
theorem Done.push (hd : Done cfg x hist s) (hm : t.mask = false) (hr : t.redirects = false) :
    Done cfg x hist (s.push t) := by
  have hf : (s.push t).redirect_found = s.redirect_found := by
    rw [Scan.push, hr, Bool.or_false]
  refine ⟨⟨?_, ?_, ?_, ?_, ?_, ?_⟩, ?_, ?_⟩
  · rw [outs_push_of_not_mask hm]
    exact hd.kept.pref
  · rw [emitted_push_of_not_mask hm]
    exact hd.kept.stop
  · rw [hf, hd.kept.found, Scan.push, List.any_cons, hr, Bool.false_or]
  · intro u hu
    rcases List.mem_cons.1 hu with rfl | hu
    · intro hr'
      rw [hr] at hr'
      cases hr'
    · exact hd.kept.masked u hu
  · refine List.pairwise_cons.2 ⟨fun u _ hm' => ?_, hd.kept.order⟩
    exact absurd (hm.symm.trans hm') Bool.false_ne_true
  · intro u hu
    rcases List.mem_cons.1 hu with rfl | hu
    · exact fun hm' => absurd (hm.symm.trans hm') Bool.false_ne_true
    · exact hd.kept.edge u hu
  · rw [hf]
    exact hd.rest
  · rw [hf, outs_push_of_not_mask hm]
    exact hd.outs

/-- **A bank that is absent** changes nothing. -/
theorem Done.bank (hd : Done cfg x hist s)
    (hm : ∀ w, (fetchMask p x.pc).getLsbD (b * p.bankWidth + w) = false)
    (hb : (bankMask p x.pc).getLsbD b = false) : Done cfg x hist (s.bank cfg x r b) := by
  have hfold (k : ℕ) : Done cfg x hist ((List.range k).foldl (Scan.step cfg x r · b) s) := by
    induction k with
    | zero => exact hd
    | succ k ih =>
      rw [List.range_succ, List.foldl_append]
      refine ih.push ?_ ?_
      · simp only [Scan.slot, hm, Bool.false_and]
      · simp only [Scan.slot, hm, Bool.false_and]
  have h' := hfold p.bankWidth
  refine ⟨⟨h'.kept.pref, h'.kept.stop, h'.kept.found, h'.kept.masked, h'.kept.order,
    h'.kept.edge⟩, ?_, h'.outs⟩
  intro hf
  rw [h'.rest hf]
  simp only [Scan.bank, Scan.endBank, hb, Bool.false_eq_true, if_false]

include h hc in
/-- **A packet continues the parse** of the halves before it. -/
theorem scan_spec (hrest : (cut isLong hist).rest =
      if r.f3_prev_is_half then some (bankAlign p x.pc - 2, r.f3_prev_half) else none)
    (hhalf : r.f3_prev_is_half = true → bankIdx p x.pc = 0) :
    Done cfg x hist (scan cfg x r) := by
  have h0 : AtBank cfg x r hist 0 (scan_start r) := by
    have hout : outs cfg hist (scan_start (p := p) r) = instructions cfg hist := List.append_nil _
    have hfed : hist ++ fed x 0 = hist := List.append_nil _
    refine ⟨⟨?_, ?_, rfl, ?_, .nil, ?_⟩, rfl, ?_, ?_, ?_⟩
    · rw [hout]
      exact instructions_mono cfg (List.prefix_append _ _)
    · intro t ht
      cases ht
    · intro t ht
      cases ht
    · intro t ht
      cases ht
    · intro hh
      rw [hhalf hh]
      exact Nat.zero_le _
    · intro _
      rw [Nat.zero_mul, hfed, hrest]
      have hbase : (parcel x 0).1 = bankAlign p x.pc := BitVec.add_zero _
      rw [hbase]
      rfl
    · intro _
      rw [Nat.zero_mul, hfed, hout]
  have hpos : 0 < p.bankWidth := by
    rw [h.bankWidth]
    exact Nat.two_pow_pos m
  have hfw : p.fetchWidth = p.nBanks * p.bankWidth := by rw [h.bankWidth, h.fetchWidth]
  have hp0 : 0 * p.bankWidth < present p x.pc := by
    rw [Nat.zero_mul, present, hfw]
    rcases h.nBanks with hn | hn <;> rw [hn] <;> split_ifs <;> omega
  have h1 := atBank_bank h hc hp0 (by rcases h.nBanks with hn | hn <;> omega) h0
  rcases h.nBanks with hn | hn
  · rw [scan, hn, List.range_one, List.foldl_cons, List.foldl_nil]
    refine h1.done h ?_
    rw [present, hfw, hn, zero_add, one_mul, ite_self]
  · rw [scan, hn, show List.range 2 = [0, 1] from rfl, List.foldl_cons, List.foldl_cons,
      List.foldl_nil]
    cases hl : isLastBankInBlock p x.pc with
    | true =>
      have hp : present p x.pc = p.bankWidth := by rw [present, hl, if_pos rfl]
      refine (h1.done h (by rw [hp, zero_add, one_mul])).bank ?_ ?_
      · intro w
        rw [← Bool.not_eq_true, fetchMask_getLsbD h, hp]
        omega
      · rw [← Bool.not_eq_true, bankMask_getLsbD h x.pc (by omega), hp]
        omega
    | false =>
      have hp : present p x.pc = 2 * p.bankWidth := by
        rw [present, hl, if_neg Bool.false_ne_true, hfw, hn]
      exact (atBank_bank h hc (by omega) (by omega) h1).done h hp.symm

end Bank

end Packet

/-! ## Runs -/

section Runs

variable (cfg : F3Cfg) (mem : BitVec p.va → BitVec 8)

/-- The half at an address. -/
def memHalf (a : BitVec p.va) : BitVec 16 := mem (a + 1) ++ mem a

/-- The first `n` halves from an address on. -/
def stream (a : BitVec p.va) (n : ℕ) : List (Parcel p) :=
  (List.range n).map fun k =>
    (a + BitVec.ofNat p.va (k <<< 1), memHalf mem (a + BitVec.ofNat p.va (k <<< 1)))

theorem stream_add (a : BitVec p.va) (k n : ℕ) :
    stream mem a (k + n) = stream mem a k ++ stream mem (a + BitVec.ofNat p.va (k <<< 1)) n := by
  have hadd (j : ℕ) : a + BitVec.ofNat p.va ((k + j) <<< 1) =
      a + BitVec.ofNat p.va (k <<< 1) + BitVec.ofNat p.va (j <<< 1) := by
    rw [Nat.shiftLeft_eq, Nat.shiftLeft_eq, Nat.shiftLeft_eq, Nat.add_mul, BitVec.ofNat_add,
      BitVec.add_assoc]
  simp only [stream, List.range_add, List.map_append, List.map_map, Function.comp_def, hadd]

/-- The cache delivers the memory, as far as the mask goes. -/
def Delivers (x : F3In p) : Prop :=
  ∀ i, (fetchMask p x.pc).getLsbD i = true → x.data i = memHalf mem (parcel x i).1

/-- The halves of a packet that count are those from its address to the next packet. -/
theorem fed_eq_map {m n : ℕ} (h : p.Shape m n) (x : F3In p) :
    fed x p.fetchWidth =
      (List.range (present p x.pc - bankIdx p x.pc)).map fun k => parcel x (bankIdx p x.pc + k) := by
  have hle := present_le_fetchWidth x.pc
  have hlt := bankIdx_lt_present h x.pc
  have hzero (k : ℕ) (hk : k ≤ bankIdx p x.pc) : fed x k = [] := by
    induction k with
    | zero => rfl
    | succ k ih =>
      have hm : (fetchMask p x.pc).getLsbD k = false := by
        rw [← Bool.not_eq_true, fetchMask_getLsbD h]
        omega
      rw [fed_of_not_mask hm, ih (by omega)]
  have hk (k : ℕ) (hk : bankIdx p x.pc + k ≤ present p x.pc) :
      fed x (bankIdx p x.pc + k) =
        (List.range k).map fun k => parcel x (bankIdx p x.pc + k) := by
    induction k with
    | zero => exact hzero _ (Nat.le_refl _)
    | succ k ih =>
      have hm : (fetchMask p x.pc).getLsbD (bankIdx p x.pc + k) = true := by
        rw [fetchMask_getLsbD h]
        omega
      rw [← Nat.add_assoc, fed, List.range_succ, List.filter_append, List.filter_singleton, hm,
        List.map_append, ← fed, ih (by omega), List.range_succ, List.map_append]
      rfl
  rw [fed_present h hle]
  have := hk (present p x.pc - bankIdx p x.pc) (by omega)
  rwa [Nat.add_sub_cancel' (Nat.le_of_lt hlt)] at this

theorem parcel_bankIdx {m n : ℕ} (h : p.Shape m n) (x : F3In p) (k : ℕ) :
    (parcel x (bankIdx p x.pc + k)).1 = halfAlign x.pc + BitVec.ofNat p.va (k <<< 1) := by
  rw [halfAlign_eq h, parcel, BitVec.add_assoc, ← BitVec.ofNat_add, Nat.shiftLeft_eq,
    Nat.shiftLeft_eq, Nat.shiftLeft_eq, ← Nat.add_mul]

theorem fed_eq_stream {m n : ℕ} (h : p.Shape m n) {x : F3In p} (hx : Delivers mem x) :
    fed x p.fetchWidth = stream mem (halfAlign x.pc) (present p x.pc - bankIdx p x.pc) := by
  rw [fed_eq_map h, stream]
  refine List.map_congr_left fun k hk => ?_
  have hm : (fetchMask p x.pc).getLsbD (bankIdx p x.pc + k) = true := by
    have := List.mem_range.1 hk
    rw [fetchMask_getLsbD h]
    omega
  rw [← parcel_bankIdx h, ← hx _ hm]
  rfl

/-- The stage, and what the run under way has done: where it started and where
    its next packet starts, the number of its halves, and the slots that its
    bundles mark valid. -/
structure FetchRun (p : Params) where
  regs : F3Regs
  /-- no run is under way, and a packet may start anywhere -/
  fresh : Bool
  start : BitVec p.va
  next_pc : BitVec p.va
  halves : ℕ
  out : List (Slot p)

/-- A cycle: the packet that goes on, if one does, and `f3_clear`. -/
structure FetchCycle (p : Params) where
  deq : Option (F3In p)
  f3_clear : Bool

/-- A packet that goes on. -/
def FetchRun.fire (s : FetchRun p) (x : F3In p) : FetchRun p where
  regs := F3Regs.fire cfg x s.regs
  -- a redirect ends the run
  fresh := cfi_idx_valid cfg x s.regs
  start := if s.fresh then halfAlign x.pc else s.start
  next_pc := nextFetch p x.pc
  halves := (if s.fresh then 0 else s.halves) +
    (List.range p.fetchWidth).countP fun i => (fetchMask p x.pc).getLsbD i
  out := (if s.fresh then [] else s.out) ++ (f3_slots cfg x s.regs).filter Slot.mask

/-- The stage over runs of packets, each of which starts where the one before
    it ended, with clears at any time. -/
def fetchStage : Machine (FetchRun p) (FetchCycle p) where
  start s := s.regs.f3_prev_is_half = false ∧ s.fresh = true ∧ s.halves = 0 ∧ s.out = []
  ok s i := ∀ x ∈ i.deq, Delivers mem x ∧ (s.fresh = false → x.pc = s.next_pc)
  next s i :=
    match i.deq, i.f3_clear with
    | none, false => s
    | none, true => { s with regs := s.regs.clear, fresh := true }
    | some x, false => s.fire cfg x
    -- a packet that is cleared leaves no bundle
    | some x, true => { s with regs := (F3Regs.fire cfg x s.regs).clear, fresh := true }

variable {cfg mem}

theorem halfAlign_add_present {m n : ℕ} (h : p.Shape m n) (a : BitVec p.va)
    (hlt : bankIdx p a ≤ present p a) :
    halfAlign a + BitVec.ofNat p.va ((present p a - bankIdx p a) <<< 1) = nextFetch p a := by
  rw [halfAlign_eq h, nextFetch_eq h, BitVec.add_assoc, ← BitVec.ofNat_add, Nat.shiftLeft_eq,
    Nat.shiftLeft_eq, Nat.shiftLeft_eq, ← Nat.add_mul, Nat.add_sub_cancel' hlt]

variable (cfg mem) in
/-- What the bundles of a run mark valid, against the parse of the memory. -/
structure Parsed (s : FetchRun p) : Prop where
  pref : s.out.map Slot.fetched <+: instructions cfg (stream mem s.start s.halves)
  stop : ∀ t ∈ s.out.dropLast, t.redirects = false
  all : (∀ t ∈ s.out, t.redirects = false) →
    s.out.map Slot.fetched = instructions cfg (stream mem s.start s.halves)

variable (cfg mem) in
/-- While a run is under way, the register holds what is left of the parse. -/
structure Underway (s : FetchRun p) : Prop where
  rest : (cut isLong (stream mem s.start s.halves)).rest =
    if s.regs.f3_prev_is_half then some (s.next_pc - 2, s.regs.f3_prev_half) else none
  none_taken : ∀ t ∈ s.out, t.redirects = false
  next_pc : s.next_pc = s.start + BitVec.ofNat p.va (s.halves <<< 1)
  aligned : bankAlign p s.next_pc = s.next_pc ∧ bankIdx p s.next_pc = 0

variable (cfg mem) in
/-- The invariant of the stage. -/
structure FetchInv (s : FetchRun p) : Prop where
  parsed : Parsed cfg mem s
  idle : s.fresh = true → s.regs.f3_prev_is_half = false
  underway : s.fresh = false → Underway mem s

theorem cfi_idx_valid_eq {x : F3In p} {r : F3Regs} {hist : List (Parcel p)}
    (h : Kept cfg x hist (scan cfg x r)) :
    cfi_idx_valid cfg x r = (scan cfg x r).redirect_found := by
  rw [h.found, cfi_idx_valid, f3_slots, List.any_reverse]

/-- No slot redirects when no valid one does. -/
theorem redirect_found_eq_false {x : F3In p} {hist : List (Parcel p)} {sc : Scan p}
    (h : Kept cfg x hist sc) (hn : ∀ t ∈ sc.emitted, t.redirects = false) :
    sc.redirect_found = false := by
  rw [h.found, List.any_eq_false]
  intro t ht hr
  have hm := h.masked t ht hr
  rw [hn t (List.mem_filter.2 ⟨List.mem_reverse.2 ht, hm⟩)] at hr
  cases hr

/-- What a packet adds to a run that stands where the packet starts. -/
theorem parsed_fire {m n : ℕ} (h : p.Shape m n) (hc : cfg.ReadsLower) {x : F3In p} {r : F3Regs}
    {start : BitVec p.va} {k : ℕ} {out : List (Slot p)}
    (hx : Delivers mem x) (hpc : halfAlign x.pc = start + BitVec.ofNat p.va (k <<< 1))
    (hrest : (cut isLong (stream mem start k)).rest =
      if r.f3_prev_is_half then some (bankAlign p x.pc - 2, r.f3_prev_half) else none)
    (hhalf : r.f3_prev_is_half = true → bankIdx p x.pc = 0)
    (hout : out.map Slot.fetched = instructions cfg (stream mem start k))
    (hnone : ∀ t ∈ out, t.redirects = false) :
    FetchInv cfg mem ⟨F3Regs.fire cfg x r, cfi_idx_valid cfg x r, start, nextFetch p x.pc,
      k + (List.range p.fetchWidth).countP fun i => (fetchMask p x.pc).getLsbD i,
      out ++ (f3_slots cfg x r).filter Slot.mask⟩ := by
  have hdone : Done cfg x (stream mem start k) (scan cfg x r) := scan_spec h hc hrest hhalf
  have hfed := fed_eq_stream mem h hx
  have hcount : (List.range p.fetchWidth).countP (fun i => (fetchMask p x.pc).getLsbD i) =
      present p x.pc - bankIdx p x.pc := by
    rw [List.countP_eq_length_filter, ← List.length_map (parcel x)]
    exact (congrArg List.length hfed).trans (by rw [stream, List.length_map, List.length_range])
  have hstream : stream mem start (k + (List.range p.fetchWidth).countP fun i =>
      (fetchMask p x.pc).getLsbD i) = stream mem start k ++ fed x p.fetchWidth := by
    rw [hcount, stream_add, ← hpc, hfed]
  have hmap : (out ++ (f3_slots cfg x r).filter Slot.mask).map Slot.fetched =
      outs cfg (stream mem start k) (scan cfg x r) := by
    rw [List.map_append, hout]
    rfl
  have hrun : Parsed cfg mem ⟨F3Regs.fire cfg x r, cfi_idx_valid cfg x r, start, nextFetch p x.pc,
      k + (List.range p.fetchWidth).countP fun i => (fetchMask p x.pc).getLsbD i,
      out ++ (f3_slots cfg x r).filter Slot.mask⟩ := by
    refine ⟨?_, ?_, ?_⟩
    · rw [hmap, hstream]
      exact hdone.kept.pref
    · intro t ht
      rcases List.eq_nil_or_concat (scan cfg x r).emitted with he | ⟨l, u, he⟩
      · have ht' : t ∈ (out ++ (scan cfg x r).emitted).dropLast := ht
        rw [he, List.append_nil] at ht'
        exact hnone t ((List.dropLast_sublist _).subset ht')
      · have ht' : t ∈ (out ++ (scan cfg x r).emitted).dropLast := ht
        have hstop := hdone.kept.stop
        rw [he, List.concat_eq_append, ← List.append_assoc, List.dropLast_concat] at ht'
        rw [he, List.concat_eq_append, List.dropLast_concat] at hstop
        rcases List.mem_append.1 ht' with ht' | ht'
        · exact hnone t ht'
        · exact hstop t ht'
    · intro hn
      rw [hmap, hstream]
      exact hdone.outs (redirect_found_eq_false hdone.kept fun t ht =>
        hn t (List.mem_append_right _ ht))
  refine ⟨hrun, ?_, ?_⟩
  · intro hf
    have hf' : cfi_idx_valid cfg x r = true := hf
    simp only [F3Regs.fire, hf', Bool.not_true, Bool.and_false]
  · intro hf
    have hf' : (scan cfg x r).redirect_found = false := cfi_idx_valid_eq hdone.kept ▸ hf
    refine ⟨?_, ?_, ?_, bankAlign_nextFetch h _, bankIdx_nextFetch h _⟩
    · have hh : (F3Regs.fire cfg x r).f3_prev_is_half = (scan cfg x r).bank_prev_is_half := by
        rw [F3Regs.fire, cfi_idx_valid_eq hdone.kept, hf', Bool.not_false, Bool.and_true]
      rw [hstream, hdone.rest hf', hh]
      rfl
    · intro t ht
      rcases List.mem_append.1 ht with ht | ht
      · exact hnone t ht
      · exact hdone.kept.not_redirects hf' t (List.mem_reverse.1 (List.mem_of_mem_filter ht))
    · rw [← halfAlign_add_present h x.pc (Nat.le_of_lt (bankIdx_lt_present h x.pc)), hpc, hcount, BitVec.add_assoc, ← BitVec.ofNat_add,
        Nat.shiftLeft_eq, Nat.shiftLeft_eq, Nat.shiftLeft_eq, ← Nat.add_mul]

theorem fetchInv_fire {m n : ℕ} (h : p.Shape m n) (hc : cfg.ReadsLower) {s : FetchRun p}
    {x : F3In p} (hs : FetchInv cfg mem s) (hx : Delivers mem x)
    (hpc : s.fresh = false → x.pc = s.next_pc) : FetchInv cfg mem (s.fire cfg x) := by
  cases hf : s.fresh with
  | true =>
    have hh := hs.idle hf
    rw [FetchRun.fire, hf]
    exact parsed_fire h hc hx (BitVec.add_zero _).symm (by rw [hh]; rfl)
      (by rw [hh]; intro h; cases h) rfl (by intro t ht; cases ht)
  | false =>
    have hu := hs.underway hf
    have hpc := hpc hf
    have hhalf : halfAlign x.pc = x.pc := by
      rw [halfAlign_eq h, hpc, hu.aligned.1, hu.aligned.2]
      exact BitVec.add_zero _
    simp only [FetchRun.fire, hf, Bool.false_eq_true, if_false]
    exact parsed_fire h hc hx (by rw [hhalf, hpc, hu.next_pc]) (by rw [hu.rest, hpc, hu.aligned.1])
      (fun _ => by rw [hpc, hu.aligned.2]) (hs.parsed.all hu.none_taken) hu.none_taken

theorem fetchInv_reach {m n : ℕ} (h : p.Shape m n) (hc : cfg.ReadsLower) {s : FetchRun p}
    (hs : (fetchStage cfg mem).Reach s) : FetchInv cfg mem s := by
  refine hs.inv ?_ ?_
  · rintro s ⟨hh, hf, hn, ho⟩
    refine ⟨⟨?_, ?_, ?_⟩, fun _ => hh, ?_⟩
    · rw [ho]
      exact List.nil_prefix
    · rw [ho]
      intro t ht
      cases ht
    · rw [ho, hn]
      intro _
      rfl
    · rw [hf]
      intro h
      cases h
  · rintro s ⟨deq, clear⟩ hs hok
    cases deq with
    | none =>
      cases clear with
      | false => exact hs
      | true => exact ⟨⟨hs.parsed.pref, hs.parsed.stop, hs.parsed.all⟩, fun _ => rfl, by rintro ⟨⟩⟩
    | some x =>
      cases clear with
      | false => exact fetchInv_fire h hc hs (hok x rfl).1 (hok x rfl).2
      | true => exact ⟨⟨hs.parsed.pref, hs.parsed.stop, hs.parsed.all⟩, fun _ => rfl, by rintro ⟨⟩⟩

/-- **Fetch cuts the byte stream correctly**: what the bundles of a run mark
    valid is the one parse of the halves from the start of the run, as far as
    the first instruction that redirects; and the next packet starts where the
    parsed halves end. -/
theorem fetch_parses (hp : p.Supported) (hc : cfg.ReadsLower) {s : FetchRun p}
    (hs : (fetchStage cfg mem).Reach s) :
    (∃ items rest,
      (∀ items' rest', Parse isLong (stream mem s.start s.halves) items' rest' ↔
        items' = items ∧ rest' = rest) ∧
      s.out.map Slot.fetched <+: items.map (FetchedInst.ofItem cfg) ∧
      ((∀ t ∈ s.out, t.redirects = false) →
        s.out.map Slot.fetched = items.map (FetchedInst.ofItem cfg))) ∧
    (∀ t ∈ s.out.dropLast, t.redirects = false) ∧
    (s.fresh = false → s.next_pc = s.start + BitVec.ofNat p.va (s.halves <<< 1)) := by
  obtain ⟨m, n, h⟩ := hp.shape
  have hinv := fetchInv_reach h hc hs
  refine ⟨⟨(cut isLong (stream mem s.start s.halves)).items,
    (cut isLong (stream mem s.start s.halves)).rest, ?_, hinv.parsed.pref, hinv.parsed.all⟩,
    hinv.parsed.stop, fun hf => (hinv.underway hf).next_pc⟩
  intro items' rest'
  rw [parse_iff]
  constructor
  · intro h
    rw [h]
    exact ⟨rfl, rfl⟩
  · rintro ⟨rfl, rfl⟩
    rfl

end Runs

/-! ## A run of two packets -/

/-- Two banks of four halves. -/
def wideFetch : Params := ⟨40, 8, 2, 8, 64⟩

theorem wideFetch_supported : wideFetch.Supported :=
  ⟨⟨3, by decide, rfl⟩, .inr ⟨rfl, by decide⟩, rfl, ⟨6, rfl⟩, by decide, by decide⟩

/-- `addi x1, x1, 1` twice, from the last half of a bank to the first of the next
    packet, between `c.nop`s; the expander of the one compressed instruction. -/
def straddleMem (a : BitVec wideFetch.va) : BitVec 8 :=
  if a ∈ [0x1006, 0x100e] then 0x93
  else if a ∈ [0x1007, 0x100f] then 0x80
  else if a ∈ [0x1008, 0x1010] then 0x10
  else if a.toNat % 2 = 0 ∧ a ∉ [0x1008, 0x1010] then 0x01
  else 0x00

/-- Every compressed instruction is expanded to a `nop`. -/
def nopCfg : F3Cfg := ⟨fun inst => if isRVC inst then 0x13 else inst, true, true⟩

theorem nopCfg_readsLower : nopCfg.ReadsLower := by
  intro x y hx hxy
  have hy : isRVC y = true := by rwa [← isRVC_setWidth, ← hxy, isRVC_setWidth]
  simp only [nopCfg, hx, hy, if_true]

/-- A packet of the memory. -/
def straddleIn (pc : BitVec wideFetch.va) : FetchCycle wideFetch :=
  ⟨some ⟨pc, fun i => memHalf straddleMem (bankAlign wideFetch pc + BitVec.ofNat _ (i <<< 1)),
    fun _ => false, fun _ => 0, 0⟩, false⟩

/-- The frontend before its first packet. -/
def straddleStart : FetchRun wideFetch := ⟨⟨0, false⟩, true, 0, 0, 0, []⟩

theorem delivers_straddleIn (pc : BitVec wideFetch.va) :
    ∀ x ∈ (straddleIn pc).deq, Delivers straddleMem x := by
  rintro x ⟨⟩ i _
  rfl

theorem straddle_reach : (fetchStage nopCfg straddleMem).Reach
    ((fetchStage nopCfg straddleMem).run straddleStart [straddleIn 0x1006, straddleIn 0x1010]) := by
  refine Machine.reach_run _ (.start ⟨rfl, rfl, rfl, rfl⟩) ⟨?_, ?_, trivial⟩
  · intro x hx
    exact ⟨delivers_straddleIn _ x hx, by rintro ⟨⟩⟩
  · intro x hx
    refine ⟨delivers_straddleIn _ x hx, fun _ => ?_⟩
    cases hx
    decide +kernel

theorem fetch_parses_straddle :
    let s := (fetchStage nopCfg straddleMem).run straddleStart
      [straddleIn 0x1006, straddleIn 0x1010]
    ((∃ items rest,
      (∀ items' rest', Parse isLong (stream straddleMem s.start s.halves) items' rest' ↔
        items' = items ∧ rest' = rest) ∧
      s.out.map Slot.fetched <+: items.map (FetchedInst.ofItem nopCfg) ∧
      ((∀ t ∈ s.out, t.redirects = false) →
        s.out.map Slot.fetched = items.map (FetchedInst.ofItem nopCfg))) ∧
    (∀ t ∈ s.out.dropLast, t.redirects = false) ∧
    (s.fresh = false → s.next_pc = s.start + BitVec.ofNat _ (s.halves <<< 1))) ∧
    (s.out.map Slot.fetched).take 4 =
      [⟨0x1006, 0x108093, false⟩, ⟨0x100a, 0x13, true⟩, ⟨0x100c, 0x13, true⟩,
        ⟨0x100e, 0x108093, false⟩] :=
  ⟨fetch_parses wideFetch_supported nopCfg_readsLower straddle_reach, by decide +kernel⟩

end BoomStop.Ifu
