/-
  Immediates (`decode.scala`, `imm_packed`; `util.scala`, objects `ImmGen` and
  `DebugGetBJImm`; `functional-unit.scala`, class `ALUUnit`).

  * `immediate`: the immediate that the instruction set gives a word, by
    format;
  * `repackaged`: `imm_packed` of a word decoded to a given format; the read
    of a counter has none;
  * `immGen_repackaged`: `ImmGen` undoes the packing, for every format;
  * `immediates_survive`: and the branch unit's targets are those of
    `DebugGetBJImm`.
-/
import BoomStop.BranchUnit

namespace BoomStop.Exu

open Ifu

variable {p : Params}

/-! ## The formats -/

/-- The offset of a store. -/
def immS (inst : BitVec 32) : BitVec 12 := inst.extractLsb' 25 7 ++ inst.extractLsb' 7 5

/-- The immediate of a word of each format. -/
def immediate (inst : BitVec 32) : ImmSel → BitVec 32
  | .IS_I => (immI inst).signExtend 32
  | .IS_S => (immS inst).signExtend 32
  | .IS_B => (immB inst).signExtend 32
  | .IS_U => inst.extractLsb' 12 20 ++ (0 : BitVec 12)
  | .IS_J => (immJ inst).signExtend 32

/-! ## Packing -/

instance (inst : BitVec 32) : Decidable (IsADDI inst) := inferInstanceAs (Decidable (_ ∧ _))

/-- `readCounter`: the word is an `ADDI` to `x0` that reads a counter. -/
def readCounter (inst : BitVec 32) : Bool := decide (IsADDI inst) && (decodeADDI inst).readCounter

/-- `imm_packed`, of a word whose row has the format `isel`. -/
def repackaged (isel : ImmSel) (inst : BitVec 32) : BitVec 20 :=
  let di24_20 := if isel = .IS_B ∨ isel = .IS_S then inst.extractLsb' 7 5
    else inst.extractLsb' 20 5
  if readCounter inst then 0 else inst.extractLsb' 25 7 ++ di24_20 ++ inst.extractLsb' 12 8

theorem readCounter_of_opcode {inst : BitVec 32} (h : inst.extractLsb' 0 7 ≠ 0b0010011) :
    readCounter inst = false := by
  have hno : ¬IsADDI inst := fun ha => h ha.1
  rw [readCounter, decide_eq_false hno, Bool.false_and]

theorem imm_packed_eq {inst : BitVec 32} (h : readCounter inst = false) :
    imm_packed inst = repackaged (imm_sel inst) inst := by
  rw [repackaged, h, if_neg Bool.false_ne_true]
  rfl

/-- `DebugGetBJImm`. -/
def DebugGetBJImm (inst : BitVec 32) : BitVec 32 :=
  let is_br := inst.extractLsb' 0 7 == 0b1100011
  let br_targ := (inst.extractLsb' 31 1).signExtend 12 ++ (inst.extractLsb' 31 1).signExtend 8 ++
    inst.extractLsb' 7 1 ++ inst.extractLsb' 25 6 ++ inst.extractLsb' 8 4 ++ (0 : BitVec 1)
  let jal_targ := (inst.extractLsb' 31 1).signExtend 12 ++ inst.extractLsb' 12 8 ++
    inst.extractLsb' 20 1 ++ inst.extractLsb' 25 6 ++ inst.extractLsb' 21 4 ++ (0 : BitVec 1)
  if is_br then br_targ else jal_targ

/-! ## Unpacking

Both sides are rows of bits of one word; they are compared bit by bit. -/

theorem immGen_repackaged_S {inst : BitVec 32} (h : readCounter inst = false) :
    immGen (repackaged .IS_S inst) .IS_S = (immS inst).signExtend 32 := by
  apply BitVec.eq_of_getLsbD_eq
  intro i hi
  simp only [immGen, repackaged, h, immS, Bool.false_eq_true, reduceCtorEq, if_false, or_false, or_true, if_true,
    BitVec.getLsbD_append, BitVec.getLsbD_signExtend, BitVec.getLsbD_extractLsb',
    BitVec.msb_eq_getLsbD_last]
  interval_cases i <;> simp

theorem immGen_repackaged_B {inst : BitVec 32} (h : readCounter inst = false) :
    immGen (repackaged .IS_B inst) .IS_B = (immB inst).signExtend 32 := by
  apply BitVec.eq_of_getLsbD_eq
  intro i hi
  simp only [immGen, repackaged, h, immB, Bool.false_eq_true, reduceCtorEq, if_false, or_false, or_true, if_true,
    BitVec.getLsbD_append, BitVec.getLsbD_signExtend, BitVec.getLsbD_extractLsb',
    BitVec.msb_eq_getLsbD_last]
  interval_cases i <;> simp

theorem immGen_repackaged_U {inst : BitVec 32} (h : readCounter inst = false) :
    immGen (repackaged .IS_U inst) .IS_U = inst.extractLsb' 12 20 ++ (0 : BitVec 12) := by
  apply BitVec.eq_of_getLsbD_eq
  intro i hi
  simp only [immGen, repackaged, h, Bool.false_eq_true, reduceCtorEq, if_false, or_false, if_true,
    BitVec.getLsbD_append, BitVec.getLsbD_extractLsb']
  interval_cases i <;> simp

theorem immGen_repackaged_J {inst : BitVec 32} (h : readCounter inst = false) :
    immGen (repackaged .IS_J inst) .IS_J = (immJ inst).signExtend 32 := by
  apply BitVec.eq_of_getLsbD_eq
  intro i hi
  simp only [immGen, repackaged, h, immJ, Bool.false_eq_true, reduceCtorEq, if_false, or_false, or_true, if_true,
    BitVec.getLsbD_append, BitVec.getLsbD_signExtend, BitVec.getLsbD_extractLsb',
    BitVec.msb_eq_getLsbD_last]
  interval_cases i <;> simp

theorem immGen_repackaged_I {inst : BitVec 32} (h : readCounter inst = false) :
    immGen (repackaged .IS_I inst) .IS_I = (immI inst).signExtend 32 := by
  rw [repackaged, h, if_neg Bool.false_ne_true]
  exact immGen_IS_I inst

/-- `ImmGen` undoes the packing. -/
theorem immGen_repackaged {inst : BitVec 32} (h : readCounter inst = false) (isel : ImmSel) :
    immGen (repackaged isel inst) isel = immediate inst isel := by
  cases isel with
  | IS_I => exact immGen_repackaged_I h
  | IS_S => exact immGen_repackaged_S h
  | IS_B => exact immGen_repackaged_B h
  | IS_U => exact immGen_repackaged_U h
  | IS_J => exact immGen_repackaged_J h

theorem immGen_readCounter {inst : BitVec 32} (h : readCounter inst = true) (isel : ImmSel) :
    immGen (repackaged isel inst) isel = 0 := by
  rw [repackaged, h, if_pos rfl]
  cases isel <;> rfl

/-! ## The branch unit -/

theorem DebugGetBJImm_branch {inst : BitVec 32} (h : inst.extractLsb' 0 7 = 0b1100011) :
    DebugGetBJImm inst = (immB inst).signExtend 32 := by
  have hsign : ∀ x : BitVec 1, x.signExtend 12 ++ x.signExtend 8 = x.signExtend 20 := by decide
  rw [DebugGetBJImm, h, if_pos (beq_self_eq_true _)]
  simp only [hsign]
  exact branch_imm32 inst

theorem DebugGetBJImm_jal {inst : BitVec 32} (h : inst.extractLsb' 0 7 ≠ 0b1100011) :
    DebugGetBJImm inst = (immJ inst).signExtend 32 := by
  have hb : ¬(inst.extractLsb' 0 7 == (0b1100011 : BitVec 7)) = true := by simpa using h
  rw [DebugGetBJImm, if_neg hb]
  exact jal_imm32 inst

theorem opcode_of_br {inst : BitVec 32} (h : cs_is_br inst = true) :
    inst.extractLsb' 0 7 = 0b1100011 := by
  simp only [cs_is_br, Bool.and_eq_true, beq_iff_eq] at h
  exact h.1.1

theorem opcode_of_jal {inst : BitVec 32} (h : cs_is_jal inst = true) :
    inst.extractLsb' 0 7 = 0b1101111 := by
  simpa [cs_is_jal] using h

theorem opcode_ne_of_jal {inst : BitVec 32} (h : cs_is_jal inst = true) :
    inst.extractLsb' 0 7 ≠ 0b1100011 := by
  rw [opcode_of_jal h]
  decide

theorem opcode_ne_addi {inst : BitVec 32} (h : cs_is_br inst = true ∨ cs_is_jal inst = true) :
    inst.extractLsb' 0 7 ≠ 0b0010011 := by
  rcases h with hb | hj
  · rw [opcode_of_br hb]
    decide
  · rw [opcode_of_jal hj]
    decide

/-- What the branch unit makes of the packed immediate of a branch or a `JAL`. -/
theorem immGen_imm_packed {inst : BitVec 32} (h : cs_is_br inst = true ∨ cs_is_jal inst = true) :
    immGen (imm_packed inst) (imm_sel inst) = DebugGetBJImm inst := by
  have hno : readCounter inst = false := readCounter_of_opcode (opcode_ne_addi h)
  rw [imm_packed_eq hno, immGen_repackaged hno]
  rcases h with hb | hj
  · rw [imm_sel_branch hb, DebugGetBJImm_branch (opcode_of_br hb)]
    rfl
  · rw [imm_sel, hj, if_pos rfl, DebugGetBJImm_jal (opcode_ne_of_jal hj)]
    rfl

/-- The offsets of branches and of `JAL` fit in the 21 bits that the unit hands on. -/
theorem target_offset_signExtend {inst : BitVec 32}
    (h : cs_is_br inst = true ∨ cs_is_jal inst = true) (va : ℕ) :
    (target_offset inst).signExtend va = (DebugGetBJImm inst).signExtend va := by
  rw [target_offset, immGen_imm_packed h]
  rcases h with hb | hj
  · rw [DebugGetBJImm_branch (opcode_of_br hb), extractLsb'_signExtend _ (by decide),
      signExtend_signExtend va _ (by decide) (by decide),
      signExtend_signExtend va _ (by decide) (by decide)]
  · rw [DebugGetBJImm_jal (opcode_ne_of_jal hj), extractLsb'_signExtend _ (by decide),
      signExtend_signExtend va _ (by decide) (by decide),
      signExtend_signExtend va _ (by decide) (by decide)]

/-- The address that a redirect of a branch or a `JAL` that is taken goes to. -/
theorem mispredict_target_brjmp (vaddrBits : ℕ) (pc : BitVec p.va) {uop : MicroOp p}
    {rs1 rs2 : BitVec 64} (ftq : GetPCFromFtq p) (hr : cs_is_jalr uop.inst = false)
    (hsel : pc_sel uop.inst rs1 rs2 = .PC_BRJMP) :
    mispredict_target pc (brinfo vaddrBits uop rs1 rs2 ftq) =
      uop_pc pc uop + (target_offset uop.inst).signExtend p.va := by
  have htype : (brinfo vaddrBits uop rs1 rs2 ftq).cfi_type ≠ .CFI_JALR := by
    simp only [brinfo, hr, Bool.false_eq_true, if_false]
    split_ifs <;> decide
  have hpc : (brinfo vaddrBits uop rs1 rs2 ftq).pc_sel = .PC_BRJMP := hsel
  have hne : (brinfo vaddrBits uop rs1 rs2 ftq).pc_sel ≠ .PC_PLUS4 := by
    rw [hpc]
    decide
  rw [mispredict_target, if_neg hne, if_neg htype, uop_pc]
  change uop_maybe_pc pc uop + (target_offset uop.inst).signExtend p.va +
    (if uop.edge_inst then -2 else 0) = _
  by_cases he : uop.edge_inst = true
  · rw [if_pos he, if_pos he, BitVec.sub_eq_add_neg, BitVec.add_assoc, BitVec.add_assoc,
      BitVec.add_comm (-2)]
  · rw [if_neg he, if_neg he]
    simp

/-- The immediate of a read of a counter is lost: `addi x0, x5, 128`. -/
theorem immediate_lost : immediate 0x08028013 .IS_I = 128 ∧
    ¬∀ (inst : BitVec 32) (isel : ImmSel),
      immGen (repackaged isel inst) isel = immediate inst isel := by
  refine ⟨by decide, fun h => ?_⟩
  have hi := h 0x08028013 .IS_I
  rw [immGen_readCounter (by decide)] at hi
  exact absurd hi (by decide)

/-- **Immediates survive packing**, for every word but the read of a counter, which adds
    nothing. -/
theorem immediates_survive (inst : BitVec 32) :
    (∀ isel, immGen (repackaged isel inst) isel =
        if readCounter inst then 0 else immediate inst isel) ∧
      (inst.extractLsb' 0 7 = 0b1100011 →
        immGen (repackaged .IS_B inst) .IS_B = DebugGetBJImm inst) ∧
      (inst.extractLsb' 0 7 ≠ 0b1100011 → readCounter inst = false →
        immGen (repackaged .IS_J inst) .IS_J = DebugGetBJImm inst) ∧
      ∀ (p : Params) (vaddrBits : ℕ) (pc : BitVec p.va) (uop : MicroOp p) (rs1 rs2 : BitVec 64)
        (ftq : GetPCFromFtq p), uop.inst = inst → cs_is_br inst = true ∨ cs_is_jal inst = true →
        (target_offset inst).signExtend p.va = (DebugGetBJImm inst).signExtend p.va ∧
        (pc_sel inst rs1 rs2 = .PC_BRJMP →
          mispredict_target pc (brinfo vaddrBits uop rs1 rs2 ftq) =
            uop_pc pc uop + (DebugGetBJImm inst).signExtend p.va) := by
  refine ⟨fun isel => ?_, fun h => ?_, fun h hno => ?_, ?_⟩
  · cases h : readCounter inst with
    | true => exact immGen_readCounter h isel
    | false => exact immGen_repackaged h isel
  · have hno : readCounter inst = false := readCounter_of_opcode (by rw [h]; decide)
    rw [immGen_repackaged_B hno, DebugGetBJImm_branch h]
  · rw [immGen_repackaged_J hno, DebugGetBJImm_jal h]
  · rintro p vaddrBits pc uop rs1 rs2 ftq rfl h
    refine ⟨target_offset_signExtend h p.va, fun hsel => ?_⟩
    have hr : cs_is_jalr uop.inst = false := by
      rcases h with hb | hj
      · exact (not_jal_of_br hb).2
      · rw [cs_is_jalr, opcode_of_jal hj]
        rfl
    rw [mispredict_target_brjmp vaddrBits pc ftq hr hsel, target_offset_signExtend h]

/-- `beq x0, x0, -4` at the start of its packet. -/
def loopBranch : MicroOp wideFetch where
  debug_pc := 0x1040
  pc_lob := 0
  edge_inst := false
  is_sfb := false
  ftq_idx := 0
  inst := 0xfe000ee3
  debug_inst := 0xfe000ee3
  is_rvc := false
  taken := true
  xcpt_pf_if := false
  xcpt_ae_if := false
  bp_debug_if := false
  bp_xcpt_if := false
  debug_fsrc := 0

/-- The entry of a packet that has no branch. -/
def plainEntry (pc : BitVec 40) : GetPCFromFtq wideFetch where
  entry :=
    { cfi_idx_valid := false, cfi_idx := 0, cfi_taken := false, cfi_mispredicted := false
      cfi_type := 0, br_mask := 0, cfi_is_call := false, cfi_is_ret := false
      cfi_npc_plus4 := false, ras_top := 0, ras_idx := 0, start_bank := false }
  next_val := true
  next_pc := pc

/-- A branch back by four bytes, and the `JAL` of that offset. -/
theorem immediates_survive_loop :
    immGen (repackaged .IS_B 0xfe000ee3) .IS_B = DebugGetBJImm 0xfe000ee3 ∧
      immGen (repackaged .IS_J 0xffdff06f) .IS_J = DebugGetBJImm 0xffdff06f ∧
      mispredict_target 0x1040 (brinfo 39 loopBranch 0 0 (plainEntry 0x1050)) =
        uop_pc 0x1040 loopBranch + (DebugGetBJImm 0xfe000ee3).signExtend wideFetch.va :=
  ⟨(immediates_survive 0xfe000ee3).2.1 rfl, (immediates_survive 0xffdff06f).2.2.1 (by decide) (by decide),
    ((immediates_survive 0xfe000ee3).2.2.2 wideFetch 39 0x1040 loopBranch 0 0 (plainEntry 0x1050)
      rfl (.inl rfl)).2 rfl⟩

end BoomStop.Exu
