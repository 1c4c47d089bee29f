/-
  The custom registers of the core and the instructions `addi x0, rs1, tag`
  that read and write them (`consts.scala`, the register bank, the execute-stage
  writes and the write-back override of `core.scala`).

  * `Ucsr.setUCSR tag d` is the write made in the execute stage, `getUCSR tag`
    the value put on the register-file write port;
  * `Ucsr.setUCSR_eq_self`: a tag that is not a set tag writes nothing;
  * `Ucsr.setUCSR_procTag` and so on: the one tag that writes a register, and
    that every other tag keeps it.
-/
import Mathlib.Tactic.SplitIfs
import Mathlib.Data.Nat.Notation

namespace BoomStop

/-! ## Tags -/

def setUCSR_ProcTag : BitVec 12 := 1
def setUCSR_SampleFuncAddr : BitVec 12 := 2
def setUCSR_EventSel : BitVec 12 := 3
def setUCSR_MaxEventNum : BitVec 12 := 4
def setUCSR_WarmupInst : BitVec 12 := 5
def setUCSR_MaxPriv : BitVec 12 := 6
def setUCSR_PfcEnable : BitVec 12 := 7
def setUCSR_SampleHappen : BitVec 12 := 8
def setUCSR_Temp1 : BitVec 12 := 9
def setUCSR_Temp2 : BitVec 12 := 10
def setUCSR_Temp3 : BitVec 12 := 11
def setUCSR_Temp4 : BitVec 12 := 12

def getUCSR_ProcTag : BitVec 12 := 33
def getUCSR_SampleHappen : BitVec 12 := 34
def getUCSR_ExitNPC : BitVec 12 := 35
def getUCSR_Temp1 : BitVec 12 := 36
def getUCSR_Temp2 : BitVec 12 := 37
def getUCSR_Temp3 : BitVec 12 := 38
def getUCSR_Temp4 : BitVec 12 := 39
def getUCSR_SampleFuncAddr : BitVec 12 := 41
def getUCSR_MaxEvents : BitVec 12 := 42
def getUCSR_NowEvents : BitVec 12 := 43
def getUCSR_EventSel : BitVec 12 := 44
def getUCSR_Maxpriv : BitVec 12 := 45

def specialInst_URet : BitVec 12 := 64
def specialInst_RstPFC : BitVec 12 := 127

/-- The private cause of a sample. -/
def cause_OverFlow : ℕ := 17

/-! ## The register bank -/

/-- The custom registers; `va` is `vaddrBitsExtended`. -/
@[ext]
structure Ucsr (va : ℕ) where
  procTag : BitVec 32
  exitFuncAddr : BitVec va
  warmupInstNum : BitVec 64
  maxEventNum : BitVec 64
  sampleEventSel : BitVec 3
  pfc_maxPriv : BitVec 2
  pfc_enable : BitVec 1
  sampleHappen : BitVec 32
  userExitPC : BitVec 64
  nowWarmupInsts : BitVec 64
  nowEventNum : BitVec 64
  tempReg1 : BitVec 64
  tempReg2 : BitVec 64
  tempReg3 : BitVec 64
  tempReg4 : BitVec 64
  deriving DecidableEq

namespace Ucsr

variable {va : ℕ}

/-- Every custom register resets to zero. -/
def reset : Ucsr va :=
  ⟨0, 0, 0, 0, 0, 0, 0, 0, 0, 0, 0, 0, 0, 0, 0⟩

/-- The execute-stage write of `addi x0, rs1, tag` with `rs1_data = d`. -/
def setUCSR (u : Ucsr va) (tag : BitVec 12) (d : BitVec 64) : Ucsr va :=
  if tag = setUCSR_ProcTag then { u with procTag := d.setWidth 32 }
  else if tag = setUCSR_SampleFuncAddr then { u with exitFuncAddr := d.setWidth va }
  else if tag = setUCSR_MaxPriv then { u with pfc_maxPriv := d.setWidth 2 }
  else if tag = setUCSR_Temp1 then { u with tempReg1 := d }
  else if tag = setUCSR_Temp2 then { u with tempReg2 := d }
  else if tag = setUCSR_Temp3 then { u with tempReg3 := d }
  else if tag = setUCSR_Temp4 then { u with tempReg4 := d }
  else if tag = setUCSR_EventSel then { u with sampleEventSel := d.setWidth 3 }
  else if tag = setUCSR_PfcEnable then { u with pfc_enable := d.setWidth 1 }
  else if tag = setUCSR_SampleHappen then { u with sampleHappen := d.setWidth 32 }
  else if tag = setUCSR_WarmupInst then { u with warmupInstNum := d, nowWarmupInsts := 0 }
  else if tag = setUCSR_MaxEventNum then { u with maxEventNum := d, nowEventNum := 0 }
  else u

/-- The value that the write-back stage puts in place of the ALU result for a
    register read, if `tag` is one of the tags it knows. -/
def getUCSR (u : Ucsr va) (tag : BitVec 12) : Option (BitVec 64) :=
  if tag = getUCSR_ProcTag then some (u.procTag.setWidth 64)
  else if tag = getUCSR_ExitNPC then some u.userExitPC
  else if tag = getUCSR_Temp1 then some u.tempReg1
  else if tag = getUCSR_Temp2 then some u.tempReg2
  else if tag = getUCSR_Temp3 then some u.tempReg3
  else if tag = getUCSR_Temp4 then some u.tempReg4
  else if tag = getUCSR_SampleHappen then some (u.sampleHappen.setWidth 64)
  else if tag = getUCSR_SampleFuncAddr then some (u.exitFuncAddr.setWidth 64)
  else if tag = getUCSR_MaxEvents then some u.maxEventNum
  else if tag = getUCSR_NowEvents then some u.nowEventNum
  else if tag = getUCSR_EventSel then some (u.sampleEventSel.setWidth 64)
  else if tag = getUCSR_Maxpriv then some (u.pfc_maxPriv.setWidth 64)
  else none

/-- The temporary register that `addi x0, x{rtemp}, 64` jumps through: the low
    two bits of the source specifier select it. -/
def tempReg (u : Ucsr va) (rtemp : BitVec 2) : BitVec 64 :=
  if rtemp = 0 then u.tempReg1 else if rtemp = 1 then u.tempReg2
  else if rtemp = 2 then u.tempReg3 else u.tempReg4

/-! ## Frame facts -/

/-- The tags of the execute-stage switch are `1` to `12`. -/
theorem setUCSR_eq_self {u : Ucsr va} {tag : BitVec 12} {d : BitVec 64}
    (h : ¬ (1 ≤ tag.toNat ∧ tag.toNat ≤ 12)) : u.setUCSR tag d = u := by
  have ne : ∀ c : BitVec 12, 1 ≤ c.toNat → c.toNat ≤ 12 → tag ≠ c := by
    rintro c h1 h2 rfl
    exact h ⟨h1, h2⟩
  simp only [setUCSR]
  repeat rw [if_neg (ne _ (by decide) (by decide))]

theorem setUCSR_procTag (u : Ucsr va) (tag : BitVec 12) (d : BitVec 64) :
    (u.setUCSR tag d).procTag = if tag = setUCSR_ProcTag then d.setWidth 32 else u.procTag := by
  simp only [setUCSR, apply_ite Ucsr.procTag, ite_self]

theorem setUCSR_tempReg4 (u : Ucsr va) (tag : BitVec 12) (d : BitVec 64) :
    (u.setUCSR tag d).tempReg4 = if tag = setUCSR_Temp4 then d else u.tempReg4 := by
  simp only [setUCSR, apply_ite Ucsr.tempReg4, ite_self]
  by_cases h : tag = setUCSR_Temp4
  · subst h; rfl
  · simp only [if_neg h, ite_self]

theorem setUCSR_warmupInstNum (u : Ucsr va) (tag : BitVec 12) (d : BitVec 64) :
    (u.setUCSR tag d).warmupInstNum = if tag = setUCSR_WarmupInst then d else u.warmupInstNum := by
  simp only [setUCSR, apply_ite Ucsr.warmupInstNum, ite_self]
  by_cases h : tag = setUCSR_WarmupInst
  · subst h; rfl
  · simp only [if_neg h, ite_self]

theorem setUCSR_maxEventNum (u : Ucsr va) (tag : BitVec 12) (d : BitVec 64) :
    (u.setUCSR tag d).maxEventNum = if tag = setUCSR_MaxEventNum then d else u.maxEventNum := by
  simp only [setUCSR, apply_ite Ucsr.maxEventNum]
  by_cases h : tag = setUCSR_MaxEventNum
  · subst h; rfl
  · simp only [if_neg h, ite_self]

theorem setUCSR_nowEventNum (u : Ucsr va) (tag : BitVec 12) (d : BitVec 64) :
    (u.setUCSR tag d).nowEventNum = if tag = setUCSR_MaxEventNum then 0 else u.nowEventNum := by
  simp only [setUCSR, apply_ite Ucsr.nowEventNum]
  by_cases h : tag = setUCSR_MaxEventNum
  · subst h; rfl
  · simp only [if_neg h, ite_self]

end Ucsr

end BoomStop
