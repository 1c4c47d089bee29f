/-
  The custom instructions `addi x0, rs1, tag` from decode to write-back
  (`decode.scala`, `util.scala`, `event_counter.scala`, the rename, ALU and
  write-back lines of `core.scala`).  The decoder turns the source register
  into the destination for two ranges of tags; the write-back stage and the
  counter bank supply a value for some of the tags in these ranges only.

  * `decodeADDI` is `DecodeUnit` on the `ADDI` row, `immGen` the immediate
    generator, `EventCounter.read` the two-cycle counter read;
  * `executeADDI` takes one such instruction through the pipeline;
  * `executeADDI_read`: what a register reads as afterwards;
  * `hint_iff`: an instruction with an unassigned tag leaves every register
    alone exactly when its tag lies outside both ranges, or `rs1` is `x0`;
  * `hint_changes_register`: tag `32` adds `32` to its source register.
-/
import Mathlib.Logic.Function.Basic
import Mathlib.Tactic.IntervalCases
import BoomStop.Lib.Sizes
import BoomStop.Ucsr

namespace BoomStop

/-! ## Immediates -/

/-- `imm_sel`. -/
inductive ImmSel
  | IS_I | IS_S | IS_B | IS_U | IS_J
  deriving DecidableEq

/-- `ImmGen`: the 32-bit immediate of a packed one. -/
def immGen (ip : BitVec 20) (isel : ImmSel) : BitVec 32 :=
  let sign := ip.extractLsb' 19 1
  let i30_20 := if isel = .IS_U then ip.extractLsb' 8 11 else sign.signExtend 11
  let i19_12 := if isel = .IS_U ∨ isel = .IS_J then ip.extractLsb' 0 8 else sign.signExtend 8
  let i11 := if isel = .IS_U then 0
    else if isel = .IS_J ∨ isel = .IS_B then ip.extractLsb' 8 1 else sign
  let i10_5 := if isel = .IS_U then 0 else ip.extractLsb' 14 5
  let i4_1 := if isel = .IS_U then 0 else ip.extractLsb' 9 5
  let i0 : BitVec 1 := if isel = .IS_S ∨ isel = .IS_I then ip.extractLsb' 8 1 else 0
  sign ++ i30_20 ++ i19_12 ++ i11 ++ i10_5 ++ i4_1 ++ i0

/-- The packed immediate of an instruction that is not a store or a branch. -/
def immPacked (inst : BitVec 32) : BitVec 20 :=
  inst.extractLsb' 25 7 ++ inst.extractLsb' 20 5 ++ inst.extractLsb' 12 8

/-- An `I` immediate survives packing. -/
theorem immGen_IS_I (inst : BitVec 32) :
    immGen (immPacked inst) .IS_I = (inst.extractLsb' 20 12).signExtend 32 := by
  apply BitVec.eq_of_getLsbD_eq
  intro i hi
  simp only [immGen, immPacked, reduceCtorEq, if_false, false_or, if_true, or_self,
    BitVec.getLsbD_append, BitVec.getLsbD_signExtend, BitVec.getLsbD_extractLsb',
    BitVec.msb_eq_getLsbD_last]
  interval_cases i <;> simp

/-! ## Decode -/

/-- The `ADDI` encodings: opcode `OP-IMM`, `funct3 = 0`. -/
def IsADDI (inst : BitVec 32) : Prop :=
  inst.extractLsb' 0 7 = 0b0010011 ∧ inst.extractLsb' 12 3 = 0

/-- The specifier fields and the immediate field. -/
def instRd (inst : BitVec 32) : BitVec 5 := inst.extractLsb' 7 5

/-- The field `rs1`. -/
def instRs1 (inst : BitVec 32) : BitVec 5 := inst.extractLsb' 15 5

/-- The immediate, which is the tag of a custom instruction. -/
def instTag (inst : BitVec 32) : BitVec 12 := inst.extractLsb' 20 12

/-- The fields of a `MicroOp` that the way of an `ADDI` depends on. -/
structure AddiUop where
  inst : BitVec 32
  ldst : BitVec 5
  lrs1 : BitVec 5
  ldst_val : Bool
  ucsrInst : Bool
  readCounter : Bool
  is_unique : Bool
  imm_packed : BitVec 20

/-- `DecodeUnit` on an `ADDI`: `uopc` is `uopADDI`, the destination and the
    first source are integer registers. -/
def decodeADDI (inst : BitVec 32) : AddiUop :=
  let event_tag := instTag inst
  let ucsrInst := decide (instRd inst = 0)
  let get_ucsr := ucsrInst && decide (event_tag.extractLsb' 5 7 = 1)
  let readCounter := ucsrInst && decide (event_tag.extractLsb' 7 5 = 1)
  let ldst := if readCounter || get_ucsr then instRs1 inst else instRd inst
  { inst, ldst, lrs1 := instRs1 inst, ldst_val := decide (ldst ≠ 0), ucsrInst, readCounter
    is_unique := ucsrInst
    imm_packed := if readCounter then 0 else immPacked inst }

/-! ## The counter read -/

namespace EventCounter

/-- One cycle of a read port: `reg_read_data` after it, for `n` banks of 16
    counters.  A number beyond the banks leaves the register as it was. -/
def step (n : ℕ) (counters : BitVec 7 → BitVec 64) (reg_read_data : BitVec 64) :
    Option (BitVec 7) → BitVec 64
  | some addr => if (addr.extractLsb' 4 3).toNat < n then counters addr else reg_read_data
  | none => 0

/-- The value that reaches execute for a read issued after a cycle without
    one; a custom instruction issues alone. -/
def read (n : ℕ) (counters : BitVec 7 → BitVec 64) (addr : BitVec 7) : BitVec 64 :=
  step n counters (step n counters 0 none) (some addr)

end EventCounter

/-! ## Rename, execute and write-back -/

/-- The map table and the integer register file. -/
structure RegState where
  map : BitVec 5 → ℕ
  rf : ℕ → BitVec 64

/-- What a register reads as: physical register `0` is zero. -/
def RegState.read (s : RegState) (r : BitVec 5) : BitVec 64 :=
  if s.map r = 0 then 0 else s.rf (s.map r)

/-- A state in which rename can allocate: the register on offer is free. -/
structure RenState extends RegState where
  alloc : ℕ
  map_zero : map 0 = 0
  alloc_pos : alloc ≠ 0
  alloc_free : ∀ r, map r ≠ alloc

/-- One `ADDI` from decode to write-back, in `n` banks of event counters. -/
def executeADDI {va : ℕ} (n : ℕ) (s : RenState) (u : Ucsr va) (counters : BitVec 7 → BitVec 64)
    (inst : BitVec 32) : RegState :=
  let uop := decodeADDI inst
  let prs1 := s.map uop.lrs1
  let pdst := if uop.ldst ≠ 0 then s.alloc else 0
  let rf_data := if prs1 = 0 then 0 else s.rf prs1
  let rs1_data := if uop.readCounter ∧ uop.ldst ≠ 0 then
      EventCounter.read n counters (uop.inst.extractLsb' 20 7) else rf_data
  let wbdata := rs1_data + (immGen uop.imm_packed .IS_I).signExtend 64
  let data := if uop.ucsrInst ∧ uop.ldst ≠ 0 then (u.getUCSR (instTag uop.inst)).getD wbdata
    else wbdata
  { map := if uop.ldst_val then Function.update s.map uop.ldst pdst else s.map
    rf := Function.update s.rf pdst data }

/-! ## Tags -/

/-- The tags that have a meaning with `n` banks of counters. -/
def Assigned (n : ℕ) (tag : BitVec 12) : Prop :=
  (1 ≤ tag.toNat ∧ tag.toNat ≤ 12) ∨ (33 ≤ tag.toNat ∧ tag.toNat ≤ 39) ∨
  (41 ≤ tag.toNat ∧ tag.toNat ≤ 45) ∨ tag.toNat = 64 ∨ tag.toNat = 127 ∨
  (128 ≤ tag.toNat ∧ tag.toNat < 128 + 16 * n)

/-- The tags for which the decoder makes `rs1` the destination. -/
def Retargeted (tag : BitVec 12) : Prop :=
  (32 ≤ tag.toNat ∧ tag.toNat < 64) ∨ (128 ≤ tag.toNat ∧ tag.toNat < 256)

instance (tag : BitVec 12) : Decidable (Retargeted tag) := inferInstanceAs (Decidable (_ ∨ _))

theorem getRange_iff (tag : BitVec 12) :
    tag.extractLsb' 5 7 = 1 ↔ 32 ≤ tag.toNat ∧ tag.toNat < 64 := by
  rw [← BitVec.toNat_inj, BitVec.extractLsb'_toNat, Nat.shiftRight_eq_div_pow]
  simp only [BitVec.ofNat_eq_ofNat, BitVec.toNat_ofNat]
  omega

theorem counterRange_iff (tag : BitVec 12) :
    tag.extractLsb' 7 5 = 1 ↔ 128 ≤ tag.toNat ∧ tag.toNat < 256 := by
  rw [← BitVec.toNat_inj, BitVec.extractLsb'_toNat, Nat.shiftRight_eq_div_pow]
  simp only [BitVec.ofNat_eq_ofNat, BitVec.toNat_ofNat]
  omega

/-- The write-back switch knows the assigned get tags and no other. -/
theorem getUCSR_eq_none {va : ℕ} (u : Ucsr va) {n : ℕ} {tag : BitVec 12} (h : ¬ Assigned n tag) :
    u.getUCSR tag = none := by
  have ne : ∀ c : BitVec 12, Assigned 0 c → tag ≠ c := by
    rintro c hc rfl
    apply h
    unfold Assigned at hc ⊢
    omega
  simp only [Ucsr.getUCSR]
  repeat rw [if_neg (ne _ (by unfold Assigned; decide))]

section

variable {va : ℕ} {n : ℕ} {s : RenState} {u : Ucsr va} {ctr : BitVec 7 → BitVec 64}
  {inst : BitVec 32}

/-- An instruction that keeps `x0` as its destination changes no register. -/
theorem executeADDI_read_of_ldst_zero (h : (decodeADDI inst).ldst = 0) (r : BitVec 5) :
    (executeADDI n s u ctr inst).read r = s.read r := by
  have hval : (decodeADDI inst).ldst_val = false := decide_eq_false (not_not.2 h)
  simp only [executeADDI, RegState.read, hval, h, ne_eq, not_true_eq_false, if_false, and_false,
    Bool.false_eq_true]
  by_cases hr : s.map r = 0
  · rw [if_pos hr, if_pos hr]
  · rw [if_neg hr, if_neg hr, Function.update_of_ne hr]

/-- An instruction with another destination changes that register only, to the
    value that reaches the write port. -/
theorem executeADDI_read_ldst (h : (decodeADDI inst).ldst ≠ 0) (hn : u.getUCSR (instTag inst) = none) :
    (executeADDI n s u ctr inst).read (decodeADDI inst).ldst =
      (if (decodeADDI inst).readCounter then EventCounter.read n ctr (inst.extractLsb' 20 7)
        else s.read (instRs1 inst)) +
        (immGen (decodeADDI inst).imm_packed .IS_I).signExtend 64 := by
  have hval : (decodeADDI inst).ldst_val = true := decide_eq_true h
  have hinst : (decodeADDI inst).inst = inst := rfl
  simp only [executeADDI, RegState.read, hval, h, ne_eq, not_false_eq_true, if_true, and_true,
    Function.update_self, s.alloc_pos, if_false, hinst, hn, Option.getD_none, ite_self]
  rfl

/-- The destination of a custom instruction: its source register for the tags
    of the two ranges, `x0` otherwise. -/
theorem decodeADDI_ldst (hrd : instRd inst = 0) :
    (decodeADDI inst).ldst = if Retargeted (instTag inst) then instRs1 inst else 0 := by
  simp only [decodeADDI, hrd, getRange_iff, counterRange_iff, decide_true, Bool.true_and,
    Bool.or_eq_true, decide_eq_true_eq]
  exact if_congr or_comm rfl rfl

theorem decodeADDI_readCounter (hrd : instRd inst = 0) :
    (decodeADDI inst).readCounter = true ↔
      128 ≤ (instTag inst).toNat ∧ (instTag inst).toNat < 256 := by
  simp only [decodeADDI, hrd, decide_true, Bool.true_and, decide_eq_true_eq, counterRange_iff]

/-- A counter that does not exist reads as zero. -/
theorem eventCounter_read_eq_zero {addr : BitVec 7} (h : n ≤ (addr.extractLsb' 4 3).toNat) :
    EventCounter.read n ctr addr = 0 := by
  simp only [EventCounter.read, EventCounter.step, if_neg (Nat.not_lt.2 h)]

/-- A tag below `2048` is a positive immediate. -/
theorem signExtend_tag {tag : BitVec 12} (h : tag.toNat < 2048) :
    (tag.signExtend 32).signExtend 64 = tag.setWidth 64 := by
  have h32 : tag.signExtend 32 = tag.setWidth 32 := by
    apply BitVec.signExtend_eq_setWidth_of_msb_false
    rw [BitVec.msb_eq_false_iff_two_mul_lt]
    omega
  have hmsb : (tag.setWidth 32).msb = false := by
    rw [BitVec.msb_eq_false_iff_two_mul_lt, BitVec.toNat_setWidth]
    omega
  rw [h32, BitVec.signExtend_eq_setWidth_of_msb_false hmsb, BitVec.setWidth_setWidth (by decide)]

/-- What an unassigned tag of the two ranges does to its source register: a
    register read adds the tag, a counter read clears it. -/
theorem executeADDI_read_retargeted (hrd : instRd inst = 0) (hrs1 : instRs1 inst ≠ 0)
    (hr : Retargeted (instTag inst)) (ha : ¬ Assigned n (instTag inst)) :
    (executeADDI n s u ctr inst).read (instRs1 inst) =
      if 128 ≤ (instTag inst).toNat then 0
      else s.read (instRs1 inst) + (instTag inst).setWidth 64 := by
  have hl : (decodeADDI inst).ldst = instRs1 inst := by rw [decodeADDI_ldst hrd, if_pos hr]
  have hnone := getUCSR_eq_none u ha
  rw [← hl] at hrs1 ⊢
  rw [executeADDI_read_ldst hrs1 hnone, hl]
  unfold Retargeted at hr
  unfold Assigned at ha
  split_ifs with hc h128 h128
  · have himm : (decodeADDI inst).imm_packed = 0 := if_pos hc
    have hbank : n ≤ ((inst.extractLsb' 20 7).extractLsb' 4 3).toNat := by
      have hb : ((inst.extractLsb' 20 7).extractLsb' 4 3).toNat = (instTag inst).toNat / 16 % 8 := by
        simp only [instTag, BitVec.extractLsb'_toNat, Nat.shiftRight_eq_div_pow]
        omega
      omega
    rw [eventCounter_read_eq_zero hbank, himm]
    decide
  · exact absurd ((decodeADDI_readCounter hrd).1 hc).1 h128
  · exact absurd ((decodeADDI_readCounter hrd).2 (by omega)) hc
  · have himm : (decodeADDI inst).imm_packed = immPacked inst := if_neg hc
    rw [himm, immGen_IS_I]
    congr 1
    have hlt : (instTag inst).toNat < 2048 := by omega
    exact signExtend_tag hlt

end

/-! ## Hints -/

/-- An instruction word `addi x0, rs1, tag`. -/
structure CustomWord where
  inst : BitVec 32
  isADDI : IsADDI inst
  rd_zero : instRd inst = 0

/-- Register `r` in physical register `r`, all of them holding `1`. -/
def onesState : RenState where
  map r := r.toNat
  rf _ := 1
  alloc := 32
  map_zero := rfl
  alloc_pos := by decide
  alloc_free r := by omega

/-- **A custom instruction with an unassigned tag leaves every register alone
    exactly when its source is `x0` or the decoder does not retarget it.** -/
theorem hint_iff {va n : ℕ} (w : CustomWord) (ha : ¬ Assigned n (instTag w.inst)) :
    (∀ (s : RenState) (u : Ucsr va) (ctr : BitVec 7 → BitVec 64) (r : BitVec 5),
      (executeADDI n s u ctr w.inst).read r = s.read r) ↔
      instRs1 w.inst = 0 ∨ ¬ Retargeted (instTag w.inst) := by
  constructor
  · intro h
    by_contra hn
    obtain ⟨hrs1, hr⟩ := not_or.1 hn
    have hr := not_not.1 hr
    have hone : onesState.read (instRs1 w.inst) = 1 := by
      have hmap : onesState.map (instRs1 w.inst) ≠ 0 := fun h0 =>
        hrs1 (BitVec.eq_of_toNat_eq h0)
      exact if_neg hmap
    have hs := h onesState .reset (fun _ => 0) (instRs1 w.inst)
    rw [executeADDI_read_retargeted w.rd_zero hrs1 hr ha, hone] at hs
    unfold Retargeted at hr
    split_ifs at hs with h128
    · exact absurd hs (by decide)
    · have ht : (1 + (instTag w.inst).setWidth 64 : BitVec 64).toNat = 1 := by rw [hs]; rfl
      simp only [BitVec.toNat_add, BitVec.toNat_setWidth, BitVec.ofNat_eq_ofNat,
        BitVec.toNat_ofNat] at ht
      omega
  · intro h s u ctr r
    apply executeADDI_read_of_ldst_zero
    rw [decodeADDI_ldst w.rd_zero]
    split_ifs with hr
    · exact h.resolve_right (not_not.2 hr)
    · rfl

/-- `addi x0, x5, 32`. -/
def addiTag32 : CustomWord := ⟨0x02028013, ⟨by decide, by decide⟩, by decide⟩

theorem hint_iff_tag32 :
    (∀ (s : RenState) (u : Ucsr 40) (ctr : BitVec 7 → BitVec 64) (r : BitVec 5),
      (executeADDI 4 s u ctr addiTag32.inst).read r = s.read r) ↔
      instRs1 addiTag32.inst = 0 ∨ ¬ Retargeted (instTag addiTag32.inst) :=
  hint_iff addiTag32 (by unfold Assigned; decide)

/-- `addi x0, x5, 32` with `x5 = 1` leaves `33` in `x5`. -/
theorem hint_changes_register :
    ¬ ∀ (w : CustomWord), ¬ Assigned 4 (instTag w.inst) →
      ∀ (s : RenState) (u : Ucsr 40) (ctr : BitVec 7 → BitVec 64) (r : BitVec 5),
        (executeADDI 4 s u ctr w.inst).read r = s.read r := by
  intro h
  have h5 := h addiTag32 (by unfold Assigned; decide) onesState .reset (fun _ => 0) 5
  exact absurd h5 (by decide)

end BoomStop
