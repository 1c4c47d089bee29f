/-
  Branch resolution (`functional-unit.scala`, class `ALUUnit`; the redirect of
  `core.scala`; the branch columns of `decode.scala` and
  `func-unit-decode.scala`).

  * `immB`, `immJ`, `immI`, `archNext`: the instruction set's view, where the
    next instruction is;
  * `brinfo`: what the unit says of a branch or a `JALR`;
  * `mispredict_target`: where the core redirects the frontend to;
  * `frontend_target`, `redirect_exact`, `not_mispredict`: both ends agree with
    the instruction set.
-/
import BoomStop.FetchParse
import Mathlib.Tactic.IntervalCases

namespace BoomStop.Exu

open Ifu

variable {p : Params}

/-! ## The instruction set -/

/-- The offset of a branch. -/
def immB (inst : BitVec 32) : BitVec 13 :=
  inst.extractLsb' 31 1 ++ inst.extractLsb' 7 1 ++ inst.extractLsb' 25 6 ++
    inst.extractLsb' 8 4 ++ (0 : BitVec 1)

/-- The offset of a `JAL`. -/
def immJ (inst : BitVec 32) : BitVec 21 :=
  inst.extractLsb' 31 1 ++ inst.extractLsb' 12 8 ++ inst.extractLsb' 20 1 ++
    inst.extractLsb' 25 6 ++ inst.extractLsb' 21 4 ++ (0 : BitVec 1)

/-- The offset of a `JALR`. -/
def immI (inst : BitVec 32) : BitVec 12 := inst.extractLsb' 20 12

/-- Whether a branch is taken, by its `funct3`. -/
def branchTaken (inst : BitVec 32) (rs1 rs2 : BitVec 64) : Bool :=
  let funct3 := inst.extractLsb' 12 3
  if funct3 = 0 then rs1 == rs2
  else if funct3 = 1 then rs1 != rs2
  else if funct3 = 4 then rs1.slt rs2
  else if funct3 = 5 then !rs1.slt rs2
  else if funct3 = 6 then rs1.ult rs2
  else !rs1.ult rs2

/-- `encodeVirtualAddress`: a 64-bit address in the bits of a program counter. -/
def encodeVirtualAddress (vaddrBits va : ℕ) (ea : BitVec 64) : BitVec va :=
  if va = vaddrBits then ea.setWidth va
  else
    let a := ea.sshiftRight vaddrBits
    -- an address that is not a sign extension becomes one that is bad as well
    let msb := if a = 0 ∨ a = -1 then ea.getLsbD vaddrBits else !ea.getLsbD (vaddrBits - 1)
    (BitVec.ofBool msb ++ ea.extractLsb' 0 vaddrBits).setWidth va

/-- Where the instruction after `inst` at `pc` is. -/
def archNext (vaddrBits : ℕ) {va : ℕ} (inst : BitVec 32) (is_rvc : Bool) (pc : BitVec va)
    (rs1 rs2 : BitVec 64) : BitVec va :=
  if cs_is_jal inst then pc + (immJ inst).signExtend va
  else if cs_is_jalr inst then
    encodeVirtualAddress vaddrBits va ((rs1 + (immI inst).signExtend 64) &&& ~~~1)
  else if cs_is_br inst && branchTaken inst rs1 rs2 then pc + (immB inst).signExtend va
  else pc + if is_rvc then 2 else 4

/-! ## Decode -/

/-- `br_type`. -/
inductive BrType
  | BR_N | BR_NE | BR_EQ | BR_GE | BR_GEU | BR_LT | BR_LTU | BR_J | BR_JR
  deriving DecidableEq

/-- `pc_sel`. -/
inductive PcSel
  | PC_PLUS4 | PC_BRJMP | PC_JALR
  deriving DecidableEq

/-- The branch type of an instruction: its `uopc`, and the row of that. -/
def br_type (inst : BitVec 32) : BrType :=
  let funct3 := inst.extractLsb' 12 3
  if cs_is_jal inst then .BR_J
  else if cs_is_jalr inst then .BR_JR
  else if !cs_is_br inst then .BR_N
  else if funct3 = 0 then .BR_EQ
  else if funct3 = 1 then .BR_NE
  else if funct3 = 4 then .BR_LT
  else if funct3 = 5 then .BR_GE
  else if funct3 = 6 then .BR_LTU
  else .BR_GEU

/-- `imm_sel`. -/
def imm_sel (inst : BitVec 32) : ImmSel :=
  if cs_is_jal inst then .IS_J else if cs_is_br inst then .IS_B else .IS_I

/-- `imm_packed`, of a branch or a jump. -/
def imm_packed (inst : BitVec 32) : BitVec 20 :=
  let di24_20 := if imm_sel inst = .IS_B ∨ imm_sel inst = .IS_S then inst.extractLsb' 7 5
    else inst.extractLsb' 20 5
  inst.extractLsb' 25 7 ++ di24_20 ++ inst.extractLsb' 12 8

/-! ## The unit -/

/-- `GetPCFromFtqIO`, as it is read a cycle before. -/
structure GetPCFromFtq (p : Params) where
  entry : FTQBundle p
  next_val : Bool
  next_pc : BitVec p.va

/-- `BrResolutionInfo`. -/
structure BrResolutionInfo (p : Params) where
  uop : MicroOp p
  mispredict : Bool
  taken : Bool
  cfi_type : CfiType
  pc_sel : PcSel
  jalr_target : BitVec p.va
  target_offset : BitVec 21

/-- `pc_sel` of the unit. -/
def pc_sel (inst : BitVec 32) (rs1 rs2 : BitVec 64) : PcSel :=
  let br_eq := rs1 == rs2
  let br_ltu := rs1.ult rs2
  let br_lt := !(rs1.getLsbD 63 ^^ rs2.getLsbD 63) && br_ltu || rs1.getLsbD 63 && !rs2.getLsbD 63
  let brjmp (taken : Bool) : PcSel := if taken then .PC_BRJMP else .PC_PLUS4
  match br_type inst with
  | .BR_N => .PC_PLUS4
  | .BR_NE => brjmp !br_eq
  | .BR_EQ => brjmp br_eq
  | .BR_GE => brjmp !br_lt
  | .BR_GEU => brjmp !br_ltu
  | .BR_LT => brjmp br_lt
  | .BR_LTU => brjmp br_ltu
  | .BR_J => .PC_BRJMP
  | .BR_JR => .PC_JALR

/-- `target_offset`. -/
def target_offset (inst : BitVec 32) : BitVec 21 :=
  (immGen (imm_packed inst) (imm_sel inst)).extractLsb' 0 21

/-- `cfi_idx`: the place in the packet of the instruction at `pc_lob`. -/
def cfi_idx (p : Params) (start_bank : Bool) (pc_lob : ℕ) : ℕ :=
  (pc_lob ^^^ (if start_bank then 1 <<< Nat.clog 2 p.bankBytes else 0)) / 2 %
    2 ^ Nat.clog 2 p.fetchWidth

/-- `jalr_target`. -/
def jalr_target (vaddrBits : ℕ) (p : Params) (inst : BitVec 32) (rs1 : BitVec 64) :
    BitVec p.va :=
  encodeVirtualAddress vaddrBits p.va (rs1 + (target_offset inst).signExtend 64) &&& ~~~1

/-- `ALUUnit`, for a uop that is not killed. -/
def brinfo (vaddrBits : ℕ) (uop : MicroOp p) (rs1 rs2 : BitVec 64) (ftq : GetPCFromFtq p) :
    BrResolutionInfo p :=
  let sel := pc_sel uop.inst rs1 rs2
  let is_br := cs_is_br uop.inst && !uop.is_sfb
  let is_jalr := cs_is_jalr uop.inst
  let target := jalr_target vaddrBits p uop.inst rs1
  { uop := uop
    mispredict :=
      match sel with
      | .PC_PLUS4 => (is_br || is_jalr) && uop.taken
      | .PC_BRJMP => (is_br || is_jalr) && !uop.taken
      | .PC_JALR => !ftq.next_val || ftq.next_pc != target || !ftq.entry.cfi_idx_valid ||
          ftq.entry.cfi_idx != cfi_idx p ftq.entry.start_bank uop.pc_lob
    taken := (cs_is_br uop.inst || is_jalr || cs_is_jal uop.inst) && sel != .PC_PLUS4
    cfi_type := if is_jalr then .CFI_JALR else if is_br then .CFI_BR else .CFI_X
    pc_sel := sel
    jalr_target := target
    target_offset := target_offset uop.inst }

/-- `AlignPCToBoundary`, for a block of the cache. -/
def AlignPCToBoundary (p : Params) (pc : BitVec p.va) : BitVec p.va :=
  ~~~(~~~pc ||| BitVec.ofNat p.va (p.icBlockBytes - 1))

/-- `uop_maybe_pc`. -/
def uop_maybe_pc (pc : BitVec p.va) (uop : MicroOp p) : BitVec p.va :=
  AlignPCToBoundary p pc ||| BitVec.ofNat p.va uop.pc_lob

/-- The address of a uop, from the address of its packet. -/
def uop_pc (pc : BitVec p.va) (uop : MicroOp p) : BitVec p.va :=
  uop_maybe_pc pc uop - if uop.edge_inst then 2 else 0

/-- `mispredict_target`. -/
def mispredict_target (pc : BitVec p.va) (b2 : BrResolutionInfo p) : BitVec p.va :=
  let npc := uop_maybe_pc pc b2.uop + if b2.uop.is_rvc || b2.uop.edge_inst then 2 else 4
  let jal_br_target := uop_maybe_pc pc b2.uop + b2.target_offset.signExtend p.va +
    if b2.uop.edge_inst then -2 else 0
  let bj_addr := if b2.cfi_type = .CFI_JALR then b2.jalr_target else jal_br_target
  if b2.pc_sel = .PC_PLUS4 then npc else bj_addr

/-! ## Immediates -/

theorem msb_signExtend_of_le {w v : ℕ} (x : BitVec w) (hw : 0 < w) (hv : w ≤ v) :
    (x.signExtend v).msb = x.msb := by
  have h1 : v - 1 < v := by omega
  rw [BitVec.msb_eq_getLsbD_last, BitVec.getLsbD_signExtend, BitVec.msb_eq_getLsbD_last,
    decide_eq_true h1, Bool.true_and]
  split_ifs with h
  · obtain rfl : v = w := by omega
    rfl
  · rfl

theorem signExtend_signExtend {w v : ℕ} (u : ℕ) (x : BitVec w) (hw : 0 < w) (hv : w ≤ v) :
    (x.signExtend v).signExtend u = x.signExtend u := by
  apply BitVec.eq_of_getLsbD_eq
  intro i hi
  rw [BitVec.getLsbD_signExtend, BitVec.getLsbD_signExtend, BitVec.getLsbD_signExtend,
    msb_signExtend_of_le x hw hv]
  by_cases hiv : i < v
  · simp [hiv]
  · have hiw : ¬i < w := by omega
    simp [hiv, hiw]

/-- The lower bits of a sign extension are a sign extension. -/
theorem extractLsb'_signExtend {w v u : ℕ} (x : BitVec w) (hu : u ≤ v) :
    (x.signExtend v).extractLsb' 0 u = x.signExtend u := by
  apply BitVec.eq_of_getLsbD_eq
  intro i hi
  have hiv : i < v := by omega
  simp only [BitVec.getLsbD_extractLsb', BitVec.getLsbD_signExtend, Nat.zero_add, hi, hiv,
    decide_true, Bool.true_and]

/-- The sign extends the upper part. -/
theorem signExtend_append {w v u : ℕ} {x : BitVec w} {x' : BitVec u} (hw : 0 < w)
    (hx : x.signExtend u = x') (y : BitVec v) : (x ++ y).signExtend (u + v) = x' ++ y := by
  have hmsb : (x ++ y).msb = x.msb := by
    rw [BitVec.msb_append, if_neg (Nat.ne_of_gt hw)]
  apply BitVec.eq_of_getLsbD_eq
  intro i hi
  rw [BitVec.getLsbD_signExtend, hmsb, decide_eq_true hi, Bool.true_and, BitVec.getLsbD_append,
    BitVec.getLsbD_append, ← hx]
  by_cases hv : i < v
  · rw [if_pos hv, if_pos hv, if_pos (by omega)]
  · have hu : i - v < u := by omega
    rw [if_neg hv, if_neg hv, BitVec.getLsbD_signExtend, decide_eq_true hu, Bool.true_and]
    exact if_congr (by omega) rfl rfl

theorem branch_imm32 (inst : BitVec 32) :
    ((inst.extractLsb' 31 1).signExtend 20 ++ inst.extractLsb' 7 1 ++ inst.extractLsb' 25 6 ++
      inst.extractLsb' 8 4 ++ (0 : BitVec 1) : BitVec 32) = (immB inst).signExtend 32 := by
  have h1 := signExtend_append (by decide) rfl (inst.extractLsb' 7 1)
    (x := inst.extractLsb' 31 1) (u := 20)
  have h2 := signExtend_append (by decide) h1 (inst.extractLsb' 25 6)
  have h3 := signExtend_append (by decide) h2 (inst.extractLsb' 8 4)
  exact (signExtend_append (by decide) h3 (0 : BitVec 1)).symm

theorem jal_imm32 (inst : BitVec 32) :
    ((inst.extractLsb' 31 1).signExtend 12 ++ inst.extractLsb' 12 8 ++ inst.extractLsb' 20 1 ++
      inst.extractLsb' 25 6 ++ inst.extractLsb' 21 4 ++ (0 : BitVec 1) : BitVec 32) =
      (immJ inst).signExtend 32 := by
  have h1 := signExtend_append (by decide) rfl (inst.extractLsb' 12 8)
    (x := inst.extractLsb' 31 1) (u := 12)
  have h2 := signExtend_append (by decide) h1 (inst.extractLsb' 20 1)
  have h3 := signExtend_append (by decide) h2 (inst.extractLsb' 25 6)
  have h4 := signExtend_append (by decide) h3 (inst.extractLsb' 21 4)
  exact (signExtend_append (by decide) h4 (0 : BitVec 1)).symm

theorem immGen_branch {inst : BitVec 32} (h : imm_sel inst = .IS_B) :
    immGen (imm_packed inst) (imm_sel inst) = (immB inst).signExtend 32 := by
  apply BitVec.eq_of_getLsbD_eq
  intro i hi
  simp only [immGen, imm_packed, immB, h, reduceCtorEq, if_false, or_false, if_true, or_true,
    BitVec.getLsbD_append, BitVec.getLsbD_signExtend, BitVec.getLsbD_extractLsb',
    BitVec.msb_eq_getLsbD_last]
  interval_cases i <;> simp

theorem immGen_jalr {inst : BitVec 32} (h : imm_sel inst = .IS_I) :
    immGen (imm_packed inst) (imm_sel inst) = (immI inst).signExtend 32 := by
  rw [imm_packed, h]
  exact immGen_IS_I inst

/-! ## Targets -/

theorem target_offset_branch {inst : BitVec 32} (h : imm_sel inst = .IS_B) (va : ℕ) :
    (target_offset inst).signExtend va = (immB inst).signExtend va := by
  rw [target_offset, immGen_branch h, extractLsb'_signExtend _ (by decide),
    signExtend_signExtend va _ (by decide) (by decide)]

theorem target_offset_jalr {inst : BitVec 32} (h : imm_sel inst = .IS_I) (va : ℕ) :
    (target_offset inst).signExtend va = (immI inst).signExtend va := by
  rw [target_offset, immGen_jalr h, extractLsb'_signExtend _ (by decide),
    signExtend_signExtend va _ (by decide) (by decide)]

/-- The addresses of instructions. -/
theorem halfAlign_eq_self_iff {va : ℕ} (x : BitVec va) : halfAlign x = x ↔ x.getLsbD 0 = false := by
  rw [halfAlign]
  constructor
  · intro h
    rw [← h, BitVec.getLsbD_and]
    simp
  · intro h
    apply BitVec.eq_of_getLsbD_eq
    intro i hi
    rcases Nat.eq_zero_or_pos i with rfl | h0
    · rw [BitVec.getLsbD_and, h, Bool.false_and]
    · have h1 : i ≠ 0 := by omega
      simp [hi, h1]

theorem getLsbD_zero_add {va : ℕ} {x y : BitVec va} (hx : x.getLsbD 0 = false)
    (hy : y.getLsbD 0 = false) : (x + y).getLsbD 0 = false := by
  rcases Nat.eq_zero_or_pos va with rfl | hva
  · exact BitVec.getLsbD_of_ge _ _ (Nat.le_refl 0)
  · rw [BitVec.getLsbD_add hva, hx, hy, BitVec.carry_zero]
    rfl

theorem halfAlign_add {va : ℕ} {x y : BitVec va} (hx : halfAlign x = x)
    (hy : y.getLsbD 0 = false) : halfAlign (x + y) = x + y :=
  (halfAlign_eq_self_iff _).2 (getLsbD_zero_add ((halfAlign_eq_self_iff x).1 hx) hy)

theorem immB_even (inst : BitVec 32) (va : ℕ) : ((immB inst).signExtend va).getLsbD 0 = false := by
  have h0 : (immB inst).getLsbD 0 = false := by
    rw [immB, BitVec.getLsbD_append]
    rfl
  rw [BitVec.getLsbD_signExtend, h0]
  simp

theorem immJ_even (inst : BitVec 32) (va : ℕ) : ((immJ inst).signExtend va).getLsbD 0 = false := by
  have h0 : (immJ inst).getLsbD 0 = false := by
    rw [immJ, BitVec.getLsbD_append]
    rfl
  rw [BitVec.getLsbD_signExtend, h0]
  simp

/-- **The frontend's own targets** are those of the instruction set. -/
theorem frontend_target_jal {va : ℕ} {inst : BitVec 32} {pc : BitVec va} (hpc : halfAlign pc = pc)
    (hj : cs_is_jal inst = true) :
    (BranchDecode inst pc).target = pc + (immJ inst).signExtend va := by
  have hbr : cs_is_br inst = false := by
    have : inst.extractLsb' 0 7 = 0b1101111 := by simpa [cs_is_jal] using hj
    rw [cs_is_br, this]
    rfl
  rw [BranchDecode, hbr, if_neg Bool.false_ne_true, ComputeJALTarget, jal_imm32,
    signExtend_signExtend va _ (by decide) (by decide)]
  exact halfAlign_add hpc (immJ_even inst va)

theorem frontend_target_branch {va : ℕ} {inst : BitVec 32} {pc : BitVec va}
    (hpc : halfAlign pc = pc) (hb : cs_is_br inst = true) :
    (BranchDecode inst pc).target = pc + (immB inst).signExtend va := by
  rw [BranchDecode, hb, if_pos rfl, ComputeBranchTarget, branch_imm32,
    signExtend_signExtend va _ (by decide) (by decide)]
  exact halfAlign_add hpc (immB_even inst va)

/-! ## Resolution -/

theorem not_jal_of_br {inst : BitVec 32} (h : cs_is_br inst = true) :
    cs_is_jal inst = false ∧ cs_is_jalr inst = false := by
  have hop : inst.extractLsb' 0 7 = 0b1100011 := by
    simp only [cs_is_br, Bool.and_eq_true, beq_iff_eq] at h
    exact h.1.1
  rw [cs_is_jal, cs_is_jalr, hop]
  exact ⟨rfl, rfl⟩

theorem not_jal_of_jalr {inst : BitVec 32} (h : cs_is_jalr inst = true) :
    cs_is_jal inst = false ∧ cs_is_br inst = false := by
  have hop : inst.extractLsb' 0 7 = 0b1100111 := by
    simp only [cs_is_jalr, Bool.and_eq_true, beq_iff_eq] at h
    exact h.1
  rw [cs_is_jal, cs_is_br, hop]
  exact ⟨rfl, rfl⟩

/-- The unit's signed comparison. -/
theorem br_lt_eq (x y : BitVec 64) :
    (!(x.getLsbD 63 ^^ y.getLsbD 63) && x.ult y || x.getLsbD 63 && !y.getLsbD 63) = x.slt y := by
  have hx : x.getLsbD 63 = x.msb := (BitVec.msb_eq_getLsbD_last x).symm
  have hy : y.getLsbD 63 = y.msb := (BitVec.msb_eq_getLsbD_last y).symm
  rw [hx, hy]
  by_cases h : x.msb = y.msb
  · rw [BitVec.slt_eq_ult_of_msb_eq h, h]
    cases y.msb <;> simp
  · rw [BitVec.slt_eq_not_ult_of_msb_neq h, BitVec.ult_eq_msb_of_msb_neq h]
    cases hx : x.msb <;> cases hy : y.msb <;> simp_all

theorem pc_sel_branch {inst : BitVec 32} (h : cs_is_br inst = true) (rs1 rs2 : BitVec 64) :
    pc_sel inst rs1 rs2 = if branchTaken inst rs1 rs2 then .PC_BRJMP else .PC_PLUS4 := by
  obtain ⟨hj, hr⟩ := not_jal_of_br h
  simp only [pc_sel, br_type, branchTaken, hj, hr, h, Bool.not_true, Bool.false_eq_true, if_false,
    br_lt_eq]
  by_cases h0 : inst.extractLsb' 12 3 = 0
  · simp only [if_pos h0]
  by_cases h1 : inst.extractLsb' 12 3 = 1
  · simp only [if_neg h0, if_pos h1]
    rfl
  by_cases h4 : inst.extractLsb' 12 3 = 4
  · simp only [if_neg h0, if_neg h1, if_pos h4]
  by_cases h5 : inst.extractLsb' 12 3 = 5
  · simp only [if_neg h0, if_neg h1, if_neg h4, if_pos h5]
  by_cases h6 : inst.extractLsb' 12 3 = 6
  · simp only [if_neg h0, if_neg h1, if_neg h4, if_neg h5, if_pos h6]
  · simp only [if_neg h0, if_neg h1, if_neg h4, if_neg h5, if_neg h6]

theorem pc_sel_jalr {inst : BitVec 32} (h : cs_is_jalr inst = true) (rs1 rs2 : BitVec 64) :
    pc_sel inst rs1 rs2 = .PC_JALR := by
  obtain ⟨hj, -⟩ := not_jal_of_jalr h
  simp only [pc_sel, br_type, hj, h, Bool.false_eq_true, if_false, if_true]

theorem getLsbD_and_not_one {w : ℕ} (x : BitVec w) (i : ℕ) :
    (x &&& ~~~1).getLsbD i = (x.getLsbD i && i != 0) := by
  rcases Nat.eq_zero_or_pos i with rfl | hi
  · simp
  · have h0 : i ≠ 0 := by omega
    by_cases hw : i < w
    · simp [hw, h0]
    · rw [BitVec.getLsbD_of_ge _ _ (Nat.le_of_not_lt hw),
        BitVec.getLsbD_of_ge _ _ (Nat.le_of_not_lt hw), Bool.false_and]

/-- The lowest bit may be cleared before or after the address is encoded. -/
theorem encodeVirtualAddress_and {vaddrBits va : ℕ} (hv : 2 ≤ vaddrBits) (ea : BitVec 64) :
    encodeVirtualAddress vaddrBits va ea &&& ~~~1 =
      encodeVirtualAddress vaddrBits va (ea &&& ~~~1) := by
  have hmsb : (ea &&& ~~~1).msb = ea.msb := by
    rw [BitVec.msb_eq_getLsbD_last, BitVec.msb_eq_getLsbD_last, getLsbD_and_not_one]
    simp
  have hshift : (ea &&& ~~~1).sshiftRight vaddrBits = ea.sshiftRight vaddrBits := by
    apply BitVec.eq_of_getLsbD_eq
    intro i hi
    have h0 : vaddrBits + i ≠ 0 := by omega
    rw [BitVec.getLsbD_sshiftRight, BitVec.getLsbD_sshiftRight, getLsbD_and_not_one, hmsb,
      bne_iff_ne.2 h0, Bool.and_true]
  have h1 : (ea &&& ~~~1).getLsbD vaddrBits = ea.getLsbD vaddrBits := by
    rw [getLsbD_and_not_one, bne_iff_ne.2 (by omega), Bool.and_true]
  have h2 : (ea &&& ~~~1).getLsbD (vaddrBits - 1) = ea.getLsbD (vaddrBits - 1) := by
    rw [getLsbD_and_not_one, bne_iff_ne.2 (by omega), Bool.and_true]
  simp only [encodeVirtualAddress, hshift, h1, h2]
  by_cases h : va = vaddrBits
  · apply BitVec.eq_of_getLsbD_eq
    intro i hi
    simp only [if_pos h, getLsbD_and_not_one, BitVec.getLsbD_setWidth, Bool.and_assoc]
  · apply BitVec.eq_of_getLsbD_eq
    intro i hi
    simp only [if_neg h]
    rw [getLsbD_and_not_one, BitVec.getLsbD_setWidth, BitVec.getLsbD_setWidth,
      BitVec.getLsbD_append, BitVec.getLsbD_append]
    by_cases hi' : i < vaddrBits
    · rw [if_pos hi', if_pos hi', BitVec.getLsbD_extractLsb', BitVec.getLsbD_extractLsb',
        getLsbD_and_not_one, Nat.zero_add]
      simp only [Bool.and_assoc]
    · rw [if_neg hi', if_neg hi', bne_iff_ne.2 (by omega), Bool.and_true]

/-- An address that a program counter can hold is encoded as itself. -/
theorem encodeVirtualAddress_signExtend {vaddrBits va : ℕ} (hv : 1 ≤ vaddrBits)
    (hva : va = if vaddrBits < 64 then vaddrBits + 1 else vaddrBits) (hle : vaddrBits ≤ 64)
    (pc : BitVec va) : encodeVirtualAddress vaddrBits va (pc.signExtend 64) = pc := by
  by_cases h : va = vaddrBits
  · subst h
    rw [encodeVirtualAddress, if_pos rfl]
    apply BitVec.eq_of_getLsbD_eq
    intro i hi
    have h64 : i < 64 := by omega
    simp only [BitVec.getLsbD_setWidth, BitVec.getLsbD_signExtend, hi, h64, decide_true,
      Bool.true_and, if_true]
  · have hv64 : vaddrBits < 64 := by
      by_contra hge
      exact h (hva.trans (if_neg hge))
    obtain rfl : va = vaddrBits + 1 := hva.trans (if_pos hv64)
    have hmsb : (pc.signExtend 64).msb = pc.msb := msb_signExtend_of_le pc (by omega) (by omega)
    have htop : pc.getLsbD vaddrBits = pc.msb := (BitVec.msb_eq_getLsbD_last pc).symm
    have hhigh (i : ℕ) (hi : vaddrBits + i < 64) :
        (pc.signExtend 64).getLsbD (vaddrBits + i) = pc.msb := by
      rw [BitVec.getLsbD_signExtend, decide_eq_true hi, Bool.true_and]
      split_ifs with h1
      · obtain rfl : i = 0 := by omega
        exact htop
      · rfl
    have ha : (pc.signExtend 64).sshiftRight vaddrBits = if pc.msb then -1 else 0 := by
      apply BitVec.eq_of_getLsbD_eq
      intro i hi
      rw [BitVec.getLsbD_sshiftRight, hmsb, decide_eq_false (Nat.not_le_of_lt hi), Bool.not_false,
        Bool.true_and]
      have hb : (if vaddrBits + i < 64 then (pc.signExtend 64).getLsbD (vaddrBits + i)
          else pc.msb) = pc.msb := by
        split_ifs with h1
        · exact hhigh i h1
        · rfl
      rw [hb]
      cases pc.msb with
      | true =>
        rw [if_pos rfl, show (-1 : BitVec 64) = BitVec.allOnes 64 from rfl, BitVec.getLsbD_allOnes,
          decide_eq_true hi]
      | false => rw [if_neg Bool.false_ne_true]; simp
    have hor : (pc.signExtend 64).sshiftRight vaddrBits = 0 ∨
        (pc.signExtend 64).sshiftRight vaddrBits = -1 := by
      rw [ha]
      cases pc.msb with
      | true => exact .inr rfl
      | false => exact .inl rfl
    simp only [encodeVirtualAddress, if_neg h, if_pos hor]
    apply BitVec.eq_of_getLsbD_eq
    intro i hi
    rw [BitVec.getLsbD_setWidth, decide_eq_true hi, Bool.true_and, BitVec.getLsbD_append]
    split_ifs with h1
    · have h64 : i < 64 := by omega
      rw [BitVec.getLsbD_extractLsb', Nat.zero_add, BitVec.getLsbD_signExtend, decide_eq_true h1,
        decide_eq_true h64, if_pos hi]
      rfl
    · obtain rfl : i = vaddrBits := by omega
      rw [Nat.sub_self, BitVec.getLsbD_ofBool, htop]
      exact hhigh 0 hv64

/-- **The target of a `JALR`** is that of the instruction set. -/
theorem jalr_target_eq {vaddrBits : ℕ} (hv : 2 ≤ vaddrBits) {inst : BitVec 32}
    (h : cs_is_jalr inst = true) (rs1 : BitVec 64) :
    jalr_target vaddrBits p inst rs1 =
      encodeVirtualAddress vaddrBits p.va ((rs1 + (immI inst).signExtend 64) &&& ~~~1) := by
  obtain ⟨hj, hb⟩ := not_jal_of_jalr h
  have hsel : imm_sel inst = .IS_I := by
    rw [imm_sel, hj, hb]
    rfl
  rw [jalr_target, target_offset_jalr hsel, encodeVirtualAddress_and hv]

theorem imm_sel_branch {inst : BitVec 32} (h : cs_is_br inst = true) : imm_sel inst = .IS_B := by
  rw [imm_sel, (not_jal_of_br h).1, h]
  rfl

/-- A uop whose address the core can build from that of its packet. -/
structure Placed (pc : BitVec p.va) (uop : MicroOp p) : Prop where
  maybe_pc : uop_maybe_pc pc uop = uop.debug_pc + if uop.edge_inst then 2 else 0
  edge : uop.edge_inst = true → uop.is_rvc = false

theorem Placed.uop_pc {pc : BitVec p.va} {uop : MicroOp p} (h : Placed pc uop) :
    uop_pc pc uop = uop.debug_pc := by
  rw [Exu.uop_pc, h.maybe_pc, BitVec.add_sub_cancel]

theorem two_add_two (w : ℕ) : (2 : BitVec w) + 2 = 4 := (BitVec.ofNat_add 2 2).symm

/-- **The core redirects to the next instruction.** -/
theorem redirect_exact {vaddrBits : ℕ} (hv : 2 ≤ vaddrBits) {pc : BitVec p.va} {uop : MicroOp p}
    (h : Placed pc uop) (hsfb : uop.is_sfb = false) (rs1 rs2 : BitVec 64) (ftq : GetPCFromFtq p)
    (hcfi : cs_is_br uop.inst = true ∨ cs_is_jalr uop.inst = true) :
    mispredict_target pc (brinfo vaddrBits uop rs1 rs2 ftq) =
      archNext vaddrBits uop.inst uop.is_rvc uop.debug_pc rs1 rs2 := by
  rcases hcfi with hb | hr
  · obtain ⟨hj, hr⟩ := not_jal_of_br hb
    cases ht : branchTaken uop.inst rs1 rs2 with
    | false =>
      have hsel : (brinfo vaddrBits uop rs1 rs2 ftq).pc_sel = .PC_PLUS4 := by
        rw [brinfo, pc_sel_branch hb, ht]
        rfl
      have huop : (brinfo vaddrBits uop rs1 rs2 ftq).uop = uop := rfl
      rw [mispredict_target, hsel, if_pos rfl, huop, h.maybe_pc, archNext, hj, hr, hb, ht]
      cases he : uop.edge_inst with
      | false =>
        simp only [Bool.false_eq_true, if_false, Bool.or_false, Bool.and_false, BitVec.ofNat_eq_ofNat,
          BitVec.add_zero]
      | true =>
        simp only [h.edge he, if_true, Bool.false_eq_true, if_false, Bool.or_true, Bool.and_false,
          BitVec.add_assoc, two_add_two]
    | true =>
      have hsel : (brinfo vaddrBits uop rs1 rs2 ftq).pc_sel = .PC_BRJMP := by
        rw [brinfo, pc_sel_branch hb, ht]
        rfl
      have huop : (brinfo vaddrBits uop rs1 rs2 ftq).uop = uop := rfl
      have htype : (brinfo vaddrBits uop rs1 rs2 ftq).cfi_type = .CFI_BR := by
        simp only [brinfo, hr, hb, hsfb, Bool.false_eq_true, if_false, Bool.not_false, Bool.and_self,
          if_true]
      have hoff : (brinfo vaddrBits uop rs1 rs2 ftq).target_offset = target_offset uop.inst := rfl
      rw [mispredict_target, hsel, htype, huop, hoff, h.maybe_pc,
        target_offset_branch (imm_sel_branch hb), archNext, hj, hr, hb, ht]
      cases he : uop.edge_inst with
      | false => simp only [Bool.false_eq_true, if_false, Bool.and_self, if_true,
          BitVec.ofNat_eq_ofNat, BitVec.add_zero, reduceCtorEq]
      | true =>
        simp only [Bool.false_eq_true, if_false, Bool.and_self, if_true, reduceCtorEq]
        rw [BitVec.add_assoc _ 2, BitVec.add_comm 2, ← BitVec.add_assoc, BitVec.add_assoc _ 2,
          BitVec.add_right_neg]
        exact BitVec.add_zero _
  · obtain ⟨hj, hb⟩ := not_jal_of_jalr hr
    have hsel : (brinfo vaddrBits uop rs1 rs2 ftq).pc_sel = .PC_JALR := pc_sel_jalr hr rs1 rs2
    have htype : (brinfo vaddrBits uop rs1 rs2 ftq).cfi_type = .CFI_JALR := if_pos hr
    have htarget : (brinfo vaddrBits uop rs1 rs2 ftq).jalr_target =
        jalr_target vaddrBits p uop.inst rs1 := rfl
    rw [mispredict_target, hsel, htype, htarget, if_neg (by decide), if_pos rfl, jalr_target_eq hv hr,
      archNext, hj, hr]
    rfl

/-- A branch that is not mispredicted goes the way its packet went. -/
theorem taken_of_not_mispredict {vaddrBits : ℕ} {uop : MicroOp p} (hsfb : uop.is_sfb = false)
    {rs1 rs2 : BitVec 64} {ftq : GetPCFromFtq p} (hb : cs_is_br uop.inst = true)
    (hm : (brinfo vaddrBits uop rs1 rs2 ftq).mispredict = false) :
    uop.taken = branchTaken uop.inst rs1 rs2 := by
  rw [brinfo, pc_sel_branch hb, hb, hsfb] at hm
  cases ht : branchTaken uop.inst rs1 rs2 with
  | false => simpa [ht] using hm
  | true => simpa [ht] using hm

/-- A `JALR` that is not mispredicted is followed by the packet at its target. -/
theorem next_of_not_mispredict {vaddrBits : ℕ} (hv : 2 ≤ vaddrBits) {uop : MicroOp p}
    {rs1 rs2 : BitVec 64} {ftq : GetPCFromFtq p} (hr : cs_is_jalr uop.inst = true)
    (hm : (brinfo vaddrBits uop rs1 rs2 ftq).mispredict = false) :
    ftq.next_val = true ∧
      ftq.next_pc = archNext vaddrBits uop.inst uop.is_rvc uop.debug_pc rs1 rs2 := by
  obtain ⟨hj, hb⟩ := not_jal_of_jalr hr
  rw [brinfo, pc_sel_jalr hr] at hm
  simp only [Bool.or_eq_false_iff, Bool.not_eq_false', bne_eq_false_iff_eq] at hm
  refine ⟨hm.1.1.1, ?_⟩
  rw [hm.1.1.2, jalr_target_eq hv hr, archNext, hj, hr]
  rfl

end BoomStop.Exu
