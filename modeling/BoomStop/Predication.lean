/-
  Custom instructions in the shadow of a short forward branch, with
  `enableSFBOpt`.  `BranchDecode` lets every `ADDI` be there; decode gives it
  the old value of `rd` as a second source, and the ALU copies that value when
  the predicate says that the branch was taken (`decode.scala`,
  `functional-unit.scala`).  The custom reads and writes of `core.scala` do not
  look at the predicate.

  * `sfbOperands` is the rewrite of `DecodeUnit`, `aluOut` the choice of the
    ALU, `executeShadow` the way of one such instruction;
  * `executeShadow_not_taken`: with the branch not taken, the registers are
    those of `executeADDI`;
  * `skip_iff`: the instructions that are skipped when the branch is taken.
-/
import BoomStop.Decode

namespace BoomStop

/-! ## The model -/

/-- The sources of a shadow instruction. -/
structure SfbOperands where
  mov : Bool
  lrs1 : BitVec 5
  lrs2 : BitVec 5
  ldst_is_rs1 : Bool

/-- The rewrite of `DecodeUnit` for a shadow instruction: it has no second
    source (`rs2_type` is `RT_X`), or it is `add rd, x0, rs2`, or `rs1` is
    `rd`. -/
def sfbOperands (rs2_x add : Bool) (inst : BitVec 32) : SfbOperands :=
  if rs2_x then ⟨false, instRs1 inst, instRd inst, false⟩
  else if add && decide (instRs1 inst = 0) then
    ⟨true, instRd inst, inst.extractLsb' 20 5, true⟩
  else ⟨false, instRs1 inst, inst.extractLsb' 20 5, true⟩

/-- `alu_out`, for the result `out` of the ALU; `pred_data` is set when the
    branch was taken. -/
def aluOut (op : SfbOperands) (pred_data : Bool) (rs1_data rs2_data out : BitVec 64) : BitVec 64 :=
  if pred_data then if op.ldst_is_rs1 then rs1_data else rs2_data
  else if op.mov then rs2_data else out

/-- The registers, the custom registers and the event counters. -/
structure ArchState (va : ℕ) where
  regs : RegState
  ucsr : Ucsr va
  counters : BitVec 7 → BitVec 64

/-- An `ADDI` in the shadow, from decode to commit. -/
def executeShadow {va : ℕ} (n : ℕ) (s : RenState) (u : Ucsr va) (counters : BitVec 7 → BitVec 64)
    (pred_data : Bool) (inst : BitVec 32) : ArchState va :=
  let uop := decodeADDI inst
  let op := sfbOperands true false inst
  let pdst := if uop.ldst ≠ 0 then s.alloc else 0
  let rf_rs1 := if s.map op.lrs1 = 0 then 0 else s.rf (s.map op.lrs1)
  let rf_rs2 := if s.map op.lrs2 = 0 then 0 else s.rf (s.map op.lrs2)
  let rs1_data := if uop.readCounter ∧ uop.ldst ≠ 0 then
      EventCounter.read n counters (uop.inst.extractLsb' 20 7) else rf_rs1
  let wbdata := aluOut op pred_data rs1_data rf_rs2
    (rs1_data + (immGen uop.imm_packed .IS_I).signExtend 64)
  let data := if uop.ucsrInst ∧ uop.ldst ≠ 0 then (u.getUCSR (instTag uop.inst)).getD wbdata
    else wbdata
  { regs.map := if uop.ldst_val then Function.update s.map uop.ldst pdst else s.map
    regs.rf := Function.update s.rf pdst data
    ucsr := if uop.ucsrInst ∧ uop.ldst = 0 then u.setUCSR (instTag uop.inst) rf_rs1 else u
    counters := if uop.ucsrInst ∧ instTag uop.inst = specialInst_RstPFC then fun _ => 0
      else counters }

/-- Nothing has happened. -/
structure ArchState.Untouched {va : ℕ} (a : ArchState va) (s : RenState) (u : Ucsr va)
    (counters : BitVec 7 → BitVec 64) : Prop where
  regs : ∀ r, a.regs.read r = s.read r
  ucsr : a.ucsr = u
  counters : a.counters = counters

/-- The tags that write a custom register. -/
def SetTag (tag : BitVec 12) : Prop := 1 ≤ tag.toNat ∧ tag.toNat ≤ 12

/-! ## What the instruction does -/

section

variable {va n : ℕ} {s : RenState} {u : Ucsr va} {ctr : BitVec 7 → BitVec 64} {inst : BitVec 32}
  {pred : Bool}

/-- With the branch not taken it is an `ADDI` like any other. -/
theorem executeShadow_not_taken :
    (executeShadow n s u ctr false inst).regs = executeADDI n s u ctr inst := rfl

/-- An instruction that keeps `x0` as its destination changes no register. -/
theorem executeShadow_read_of_ldst_zero (h : (decodeADDI inst).ldst = 0) (r : BitVec 5) :
    (executeShadow n s u ctr pred inst).regs.read r = s.read r := by
  have hval : (decodeADDI inst).ldst_val = false := decide_eq_false (not_not.2 h)
  simp only [executeShadow, RegState.read, hval, h, ne_eq, not_true_eq_false, if_false,
    Bool.false_eq_true]
  by_cases hr : s.map r = 0
  · rw [if_pos hr, if_pos hr]
  · rw [if_neg hr, if_neg hr, Function.update_of_ne hr]

variable (ctr) in
/-- **A skipped instruction with another destination** puts the custom register
    there, or the value of `x0`, its encoded destination. -/
theorem executeShadow_read_ldst (hrd : instRd inst = 0) (h : (decodeADDI inst).ldst ≠ 0) :
    (executeShadow n s u ctr true inst).regs.read (decodeADDI inst).ldst =
      (u.getUCSR (instTag inst)).getD 0 := by
  have hval : (decodeADDI inst).ldst_val = true := decide_eq_true h
  have hucsr : (decodeADDI inst).ucsrInst = true := decide_eq_true hrd
  have hinst : (decodeADDI inst).inst = inst := rfl
  simp only [executeShadow, RegState.read, hval, hucsr, h, ne_eq, not_false_eq_true, if_true,
    and_self, Function.update_self, s.alloc_pos, if_false, hinst, sfbOperands, aluOut, hrd,
    s.map_zero, Bool.false_eq_true]

theorem executeShadow_ucsr (hrd : instRd inst = 0) :
    (executeShadow n s u ctr pred inst).ucsr =
      if (decodeADDI inst).ldst = 0 then u.setUCSR (instTag inst) (s.read (instRs1 inst)) else u := by
  have hucsr : (decodeADDI inst).ucsrInst = true := decide_eq_true hrd
  simp only [executeShadow, hucsr, true_and]
  rfl

theorem executeShadow_counters (hrd : instRd inst = 0) :
    (executeShadow n s u ctr pred inst).counters =
      if instTag inst = specialInst_RstPFC then fun _ => 0 else ctr := by
  have hucsr : (decodeADDI inst).ucsrInst = true := decide_eq_true hrd
  simp only [executeShadow, hucsr, true_and]
  rfl

end

/-! ## Which instructions are skipped -/

/-- A state in which every register reads as zero. -/
def zerosState : RenState := { onesState with rf := fun _ => 0 }

theorem zerosState_read (r : BitVec 5) : zerosState.read r = 0 := ite_self _

theorem onesState_read {r : BitVec 5} (hr : r ≠ 0) : onesState.read r = 1 := by
  have hmap : onesState.map r ≠ 0 := fun h => hr (BitVec.eq_of_toNat_eq h)
  exact if_neg hmap

section

variable {va : ℕ}

/-- Every custom register holds one. -/
def Ucsr.ones : Ucsr va := ⟨1, 1, 1, 1, 1, 1, 1, 1, 1, 1, 1, 1, 1, 1, 1⟩

/-- A read of the reset bank is zero, known or not. -/
theorem reset_getUCSR (tag : BitVec 12) :
    ((Ucsr.reset : Ucsr va).getUCSR tag).getD 0 = 0 := by
  have step : ∀ {c : Prop} [Decidable c] {v : BitVec 64} {x : Option (BitVec 64)}, v = 0 →
      x.getD 0 = 0 → (if c then some v else x).getD 0 = 0 := by
    rintro c _ v x rfl hx
    split_ifs
    · rfl
    · exact hx
  unfold Ucsr.getUCSR
  repeat refine step (by simp [Ucsr.reset]) ?_
  rfl

/-- A set tag does write something. -/
theorem ones_setUCSR (hva : 0 < va) {tag : BitVec 12} (h : SetTag tag) :
    (Ucsr.ones : Ucsr va).setUCSR tag 0 ≠ Ucsr.ones := by
  have hone : (0 : BitVec va) ≠ 1 := by
    intro h01
    have h01 := congrArg BitVec.toNat h01
    simp [Nat.mod_eq_of_lt (Nat.one_lt_two_pow hva.ne')] at h01
  have htag : tag = 1 ∨ tag = 2 ∨ tag = 3 ∨ tag = 4 ∨ tag = 5 ∨ tag = 6 ∨ tag = 7 ∨ tag = 8 ∨
      tag = 9 ∨ tag = 10 ∨ tag = 11 ∨ tag = 12 := by
    obtain ⟨h1, h12⟩ := h
    bv_omega
  intro hs
  rcases htag with rfl | rfl | rfl | rfl | rfl | rfl | rfl | rfl | rfl | rfl | rfl | rfl
  · exact absurd (show (0 : BitVec 32) = 1 from congrArg Ucsr.procTag hs) (by decide)
  · exact hone ((BitVec.setWidth_zero va 64).symm.trans (congrArg Ucsr.exitFuncAddr hs))
  · exact absurd (show (0 : BitVec 3) = 1 from congrArg Ucsr.sampleEventSel hs) (by decide)
  · exact absurd (show (0 : BitVec 64) = 1 from congrArg Ucsr.maxEventNum hs) (by decide)
  · exact absurd (show (0 : BitVec 64) = 1 from congrArg Ucsr.warmupInstNum hs) (by decide)
  · exact absurd (show (0 : BitVec 2) = 1 from congrArg Ucsr.pfc_maxPriv hs) (by decide)
  · exact absurd (show (0 : BitVec 1) = 1 from congrArg Ucsr.pfc_enable hs) (by decide)
  · exact absurd (show (0 : BitVec 32) = 1 from congrArg Ucsr.sampleHappen hs) (by decide)
  · exact absurd (show (0 : BitVec 64) = 1 from congrArg Ucsr.tempReg1 hs) (by decide)
  · exact absurd (show (0 : BitVec 64) = 1 from congrArg Ucsr.tempReg2 hs) (by decide)
  · exact absurd (show (0 : BitVec 64) = 1 from congrArg Ucsr.tempReg3 hs) (by decide)
  · exact absurd (show (0 : BitVec 64) = 1 from congrArg Ucsr.tempReg4 hs) (by decide)

end

/-- The word, when its branch is taken, leaves everything as it was. -/
def Skipped (va n : ℕ) (w : CustomWord) : Prop :=
  ∀ (s : RenState) (u : Ucsr va) (ctr : BitVec 7 → BitVec 64),
    (executeShadow n s u ctr true w.inst).Untouched s u ctr

section

variable {va n : ℕ} {w : CustomWord}

theorem not_skipped_of_set (hva : 0 < va) (h : SetTag (instTag w.inst)) : ¬ Skipped va n w := by
  intro hs
  have hl : (decodeADDI w.inst).ldst = 0 := by
    rw [decodeADDI_ldst w.rd_zero, if_neg]
    rintro (⟨h1, -⟩ | ⟨h1, -⟩) <;> have h2 := h.2 <;> omega
  have hu := (hs zerosState .ones (fun _ => 0)).ucsr
  rw [executeShadow_ucsr w.rd_zero, if_pos hl, zerosState_read] at hu
  exact ones_setUCSR hva h hu

theorem not_skipped_of_rstPFC (h : instTag w.inst = specialInst_RstPFC) : ¬ Skipped va n w := by
  intro hs
  have hc := (hs zerosState .reset (fun _ => 1)).counters
  rw [executeShadow_counters w.rd_zero, if_pos h] at hc
  exact absurd (congrFun hc 0) (by decide)

theorem not_skipped_of_retargeted (hrs1 : instRs1 w.inst ≠ 0)
    (h : Retargeted (instTag w.inst)) : ¬ Skipped va n w := by
  intro hs
  have hl : (decodeADDI w.inst).ldst = instRs1 w.inst := by
    rw [decodeADDI_ldst w.rd_zero, if_pos h]
  have hr := (hs onesState .reset (fun _ => 0)).regs (instRs1 w.inst)
  have hread := executeShadow_read_ldst (n := n) (s := onesState) (u := (Ucsr.reset : Ucsr va))
    (fun _ => 0) w.rd_zero (by rw [hl]; exact hrs1)
  rw [hl, hr, onesState_read hrs1, reset_getUCSR] at hread
  exact absurd hread (by decide)

/-- **The custom instructions that a taken branch skips**: those that write no
    custom register, do not reset the counters, and have no destination. -/
theorem skip_iff (hva : 0 < va) : Skipped va n w ↔
    ¬ SetTag (instTag w.inst) ∧ instTag w.inst ≠ specialInst_RstPFC ∧
      (instRs1 w.inst = 0 ∨ ¬ Retargeted (instTag w.inst)) := by
  constructor
  · intro hs
    refine ⟨fun h => not_skipped_of_set hva h hs, fun h => not_skipped_of_rstPFC h hs, ?_⟩
    by_contra hn
    obtain ⟨hrs1, hr⟩ := not_or.1 hn
    exact not_skipped_of_retargeted hrs1 (not_not.1 hr) hs
  · rintro ⟨hset, hrst, hdst⟩ s u ctr
    have hl : (decodeADDI w.inst).ldst = 0 := by
      rw [decodeADDI_ldst w.rd_zero]
      split_ifs with hr
      · exact hdst.resolve_right (not_not.2 hr)
      · rfl
    refine ⟨executeShadow_read_of_ldst_zero hl, ?_, ?_⟩
    · rw [executeShadow_ucsr w.rd_zero, if_pos hl, Ucsr.setUCSR_eq_self hset]
    · rw [executeShadow_counters w.rd_zero, if_neg hrst]

/-- `addi x0, x5, 65`, a hint. -/
def addiTag65 : CustomWord := ⟨0x04128013, ⟨by decide, by decide⟩, by decide⟩

theorem skip_iff_tag65 : Skipped 40 4 addiTag65 :=
  (skip_iff (by decide)).2
    ⟨by unfold SetTag; decide, by decide, .inr (by decide)⟩

/-- `addi x0, x5, 9`, a write of `tempReg1`. -/
def addiTag9 : CustomWord := ⟨0x00928013, ⟨by decide, by decide⟩, by decide⟩

/-- **It is not skipped.** -/
theorem write_not_skipped : ¬ ∀ w : CustomWord, Skipped 40 4 w := fun h =>
  not_skipped_of_set (w := addiTag9) (by decide) (by unfold SetTag; decide) (h addiTag9)

end

end BoomStop
