/-
  The assembly level of the sampling and checkpoint tools: the registers and
  the memory of a user program, the few instructions the `asm volatile` macros
  are made of, and the macros of `define.h` and `ckptinfo.h` as instruction
  lists.

  * `Instr.exec` runs one instruction, `execAll` a macro; an instruction
    `addi x0, rs1, tag` acts on the custom registers (`Cpu.custom`);
  * a C operand `"r"(value)` of a macro is its value: `mv t0, %[value]` is
    `Instr.li t0 value`;
  * `execAll_tempReg4`: a macro without a write to `tempReg4` keeps it, and
    `setSampleCtrlReg_tempReg4`: the macro `SetSampleCtrlReg` sets it to `1`.
-/
import Mathlib.Logic.Function.Basic
import Mathlib.Data.List.Basic
import BoomStop.Lib.Sizes
import BoomStop.Ucsr

namespace BoomStop

/-! ## Memory -/

/-- Byte-addressed memory. -/
abbrev Mem := BitVec 64 → BitVec 8

namespace Mem

/-- Little-endian store of the low `n` bytes of `v`. -/
def store (m : Mem) (n : ℕ) (a v : BitVec 64) : Mem := fun p =>
  if (p - a).toNat < n then v.extractLsb' (8 * (p - a).toNat) 8 else m p

/-- `sd`. -/
def st64 (m : Mem) (a v : BitVec 64) : Mem := m.store 8 a v

/-- `sw`. -/
def st32 (m : Mem) (a v : BitVec 64) : Mem := m.store 4 a v

/-- `sb`. -/
def st8 (m : Mem) (a v : BitVec 64) : Mem := m.store 1 a v

/-- `lbu`. -/
def ld8 (m : Mem) (a : BitVec 64) : BitVec 8 := m a

/-- `lw`. -/
def ld32 (m : Mem) (a : BitVec 64) : BitVec 32 := m (a + 3) ++ m (a + 2) ++ m (a + 1) ++ m a

/-- `ld`. -/
def ld64 (m : Mem) (a : BitVec 64) : BitVec 64 := m.ld32 (a + 4) ++ m.ld32 a

/-! ### A word that is read back -/

theorem store_of_lt {m : Mem} {n : ℕ} {a v p : BitVec 64} (h : (p - a).toNat < n) :
    m.store n a v p = v.extractLsb' (8 * (p - a).toNat) 8 := if_pos h

theorem store_of_le {m : Mem} {n : ℕ} {a v p : BitVec 64} (h : n ≤ (p - a).toNat) :
    m.store n a v p = m p := if_neg (by omega)

theorem st64_byte (m : Mem) (a v : BitVec 64) {k : BitVec 64} (h : k.toNat < 8) :
    m.st64 a v (a + k) = v.extractLsb' (8 * k.toNat) 8 := by
  have hk : a + k - a = k := by rw [BitVec.add_comm, BitVec.add_sub_cancel]
  rw [st64, store_of_lt (by rw [hk]; exact h), hk]

/-- A word reads as it was stored. -/
theorem ld64_st64_same (m : Mem) (a v : BitVec 64) : (m.st64 a v).ld64 a = v := by
  have h0 : m.st64 a v a = v.extractLsb' 0 8 := by
    have h := st64_byte m a v (k := 0) (by decide)
    rwa [show a + 0 = a from BitVec.add_zero a] at h
  have append : ∀ s l n : ℕ, v.extractLsb' (s + n) l ++ v.extractLsb' s n =
      v.extractLsb' s (l + n) := fun _ _ _ => BitVec.extractLsb'_append_extractLsb'_eq_extractLsb' rfl
  simp only [ld64, ld32, BitVec.add_assoc, h0]
  rw [st64_byte m a v (k := 4 + 3) (by decide), st64_byte m a v (k := 4 + 2) (by decide),
    st64_byte m a v (k := 4 + 1) (by decide), st64_byte m a v (k := 4) (by decide),
    st64_byte m a v (k := 3) (by decide), st64_byte m a v (k := 2) (by decide),
    st64_byte m a v (k := 1) (by decide)]
  have hlo : v.extractLsb' 24 8 ++ v.extractLsb' 16 8 ++ v.extractLsb' 8 8 ++ v.extractLsb' 0 8 =
      v.extractLsb' 0 32 := by
    rw [append 16 8 8, append 8 16 8, append 0 24 8]
  have hhi : v.extractLsb' 56 8 ++ v.extractLsb' 48 8 ++ v.extractLsb' 40 8 ++ v.extractLsb' 32 8 =
      v.extractLsb' 32 32 := by
    rw [append 48 8 8, append 40 16 8, append 32 24 8]
  show (v.extractLsb' 56 8 ++ v.extractLsb' 48 8 ++ v.extractLsb' 40 8 ++ v.extractLsb' 32 8) ++
    (v.extractLsb' 24 8 ++ v.extractLsb' 16 8 ++ v.extractLsb' 8 8 ++ v.extractLsb' 0 8) = v
  rw [hlo, hhi]
  exact BitVec.extractLsb'_append_extractLsb'

/-- Two words that do not overlap. -/
def Apart (a b : BitVec 64) : Prop := 8 ≤ (a - b).toNat ∧ 8 ≤ (b - a).toNat

theorem st64_byte_apart (m : Mem) {a b : BitVec 64} (v : BitVec 64) (h : Apart a b) {k : BitVec 64}
    (hk : k.toNat < 8) : m.st64 b v (a + k) = m (a + k) := by
  refine store_of_le ?_
  obtain ⟨h1, h2⟩ := h
  bv_omega

/-- A word is its bytes. -/
theorem ld32_congr {m m' : Mem} {a a' : BitVec 64}
    (h : ∀ k : BitVec 64, k.toNat < 4 → m' (a' + k) = m (a + k)) : m'.ld32 a' = m.ld32 a := by
  have h0 := h 0 (by decide)
  rw [show a' + 0 = a' from BitVec.add_zero a', show a + 0 = a from BitVec.add_zero a] at h0
  simp only [ld32, h0, h 3 (by decide), h 2 (by decide), h 1 (by decide)]

theorem ld64_congr {m m' : Mem} {a a' : BitVec 64}
    (h : ∀ k : BitVec 64, k.toNat < 8 → m' (a' + k) = m (a + k)) : m'.ld64 a' = m.ld64 a := by
  have hhi : m'.ld32 (a' + 4) = m.ld32 (a + 4) := by
    refine ld32_congr fun k hk => ?_
    rw [BitVec.add_assoc, BitVec.add_assoc]
    exact h (4 + k) (by bv_omega)
  rw [ld64, ld64, hhi, ld32_congr fun k hk => h k (by omega)]

theorem ld64_st64_apart (m : Mem) {a b : BitVec 64} (v : BitVec 64) (h : Apart a b) :
    (m.st64 b v).ld64 a = m.ld64 a := ld64_congr fun _ hk => st64_byte_apart m v h hk

/-- The place of register `n` in a save area. -/
def slot (base : BitVec 64) (n : ℕ) : BitVec 64 := base + BitVec.ofNat 64 (8 * n)

theorem slot_apart (base : BitVec 64) {n m : ℕ} (hn : n < 1024) (hm : m < 1024) (h : n ≠ m) :
    Apart (slot base n) (slot base m) := by
  unfold Apart slot
  constructor <;> bv_omega

end Mem

/-! ## Registers and instructions -/

/-- A register specifier. -/
abbrev Reg := BitVec 5

namespace Reg

/-- The return address. -/
def ra : Reg := 1

/-- The stack pointer. -/
def sp : Reg := 2

/-- The global pointer. -/
def gp : Reg := 3

/-- The thread pointer. -/
def tp : Reg := 4

/-- The temporary that most macros use. -/
def t0 : Reg := 5

/-- The temporary of `ReadCounter8`. -/
def t1 : Reg := 6

/-- The first saved register. -/
def s0 : Reg := 8

/-- The frame pointer, another name for `s0`. -/
def fp : Reg := 8

/-- The first argument. -/
def a0 : Reg := 10

/-- The second argument. -/
def a1 : Reg := 11

end Reg

/-- The user-visible state of the hart. -/
structure Cpu (va : ℕ) where
  x : Reg → BitVec 64
  f : Reg → BitVec 64
  mem : Mem
  /-- where control goes after a jump through a temporary register -/
  pc : BitVec 64
  ucsr : Ucsr va
  /-- the event counters, by their number -/
  counters : BitVec 7 → BitVec 64

/-- The instructions of the macros. -/
inductive Instr
  /-- `li`, `la`, or `mv` from a C operand: the value is known to the macro -/
  | li (rd : Reg) (v : BitVec 64)
  | addi (rd rs1 : Reg) (imm : BitVec 12)
  | ld (rd : Reg) (off : BitVec 12) (rs1 : Reg)
  | sd (rs2 : Reg) (off : BitVec 12) (rs1 : Reg)
  | fld (rd : Reg) (off : BitVec 12) (rs1 : Reg)
  deriving DecidableEq

namespace Cpu

variable {va : ℕ}

/-- `x0` reads as zero. -/
def get (c : Cpu va) (r : Reg) : BitVec 64 := if r = 0 then 0 else c.x r

/-- A write of `x0` is dropped. -/
def set (c : Cpu va) (r : Reg) (v : BitVec 64) : Cpu va :=
  if r = 0 then c else { c with x := Function.update c.x r v }

/-- `addi x0, rs1, tag` with an assigned tag: a jump through a temporary
    register, a counter reset, a counter read, a register read or a write. -/
def custom (c : Cpu va) (rs1 : Reg) (tag : BitVec 12) : Cpu va :=
  if tag = specialInst_URet then { c with pc := c.ucsr.tempReg (rs1.setWidth 2) }
  else if tag = specialInst_RstPFC then { c with counters := fun _ => 0 }
  else if 128 ≤ tag.toNat ∧ tag.toNat < 256 then c.set rs1 (c.counters (tag.setWidth 7))
  else match c.ucsr.getUCSR tag with
    | some v => c.set rs1 v
    | none => { c with ucsr := c.ucsr.setUCSR tag (c.get rs1) }

end Cpu

namespace Instr

variable {va : ℕ}

/-- One instruction; `addi` to `x0` is a custom instruction. -/
def exec (c : Cpu va) : Instr → Cpu va
  | li rd v => c.set rd v
  | addi rd rs1 imm =>
    if rd = 0 then c.custom rs1 imm else c.set rd (c.get rs1 + imm.signExtend 64)
  | ld rd off rs1 => c.set rd (c.mem.ld64 (c.get rs1 + off.signExtend 64))
  | sd rs2 off rs1 => { c with mem := c.mem.st64 (c.get rs1 + off.signExtend 64) (c.get rs2) }
  | fld rd off rs1 =>
    { c with f := Function.update c.f rd (c.mem.ld64 (c.get rs1 + off.signExtend 64)) }

/-- A macro: its instructions in order. -/
def execAll (is : List Instr) (c : Cpu va) : Cpu va := is.foldl exec c

@[simp] theorem execAll_nil (c : Cpu va) : execAll [] c = c := rfl

@[simp] theorem execAll_cons (i : Instr) (is : List Instr) (c : Cpu va) :
    execAll (i :: is) c = execAll is (exec c i) := rfl

/-- What every instruction of a macro keeps, the macro keeps. -/
theorem execAll_same {α : Type} (f : Cpu va → α) {is : List Instr}
    (h : ∀ i ∈ is, ∀ c, f (exec c i) = f c) (c : Cpu va) : f (execAll is c) = f c := by
  induction is generalizing c with
  | nil => rfl
  | cons i is ih =>
    rw [execAll_cons, ih (fun j hj => h j (List.mem_cons_of_mem _ hj)), h i List.mem_cons_self]

theorem execAll_append (is js : List Instr) (c : Cpu va) :
    execAll (is ++ js) c = execAll js (execAll is c) := List.foldl_append

/-! ## The macros of `define.h` -/

open Reg

/-- `Set_ProcTag`: the tag that marks the process. -/
def set_ProcTag (r : Reg) : Instr := addi 0 r 1

/-- `Set_SampleFuncAddr`: the function that a sample jumps to. -/
def set_SampleFuncAddr (r : Reg) : Instr := addi 0 r 2

/-- `Set_EventSel`: the event that is counted. -/
def set_EventSel (r : Reg) : Instr := addi 0 r 3

/-- `Set_MaxEvents`: the number of events to a sample. -/
def set_MaxEvents (r : Reg) : Instr := addi 0 r 4

/-- `Set_WarmupInsts`: the instructions of the warm-up. -/
def set_WarmupInsts (r : Reg) : Instr := addi 0 r 5

/-- `Set_MaxPriv`: the privilege up to which events count. -/
def set_MaxPriv (r : Reg) : Instr := addi 0 r 6

/-- `Set_PfcEnable`: the counters run. -/
def set_PfcEnable (r : Reg) : Instr := addi 0 r 7

/-- `Set_TempReg`: one of the four temporary registers. -/
def set_TempReg (r : Reg) (rtemp : Fin 4) : Instr := addi 0 r (9 + BitVec.ofNat 12 rtemp)

/-- `Get_ExitNPC`: where the process goes on after a sample. -/
def get_ExitNPC (r : Reg) : Instr := addi 0 r 35

/-- `Get_TempReg`: one of the four temporary registers. -/
def get_TempReg (r : Reg) (rtemp : Fin 4) : Instr := addi 0 r (36 + BitVec.ofNat 12 rtemp)

/-- `SpecialInst_URet`: the jump to a temporary register. -/
def uRet (rtemp : Fin 4) : Instr := addi 0 (BitVec.ofNat 5 rtemp) 64

/-- `SpecialInst_RstPFC`: every event counter is cleared. -/
def rstPFC : Instr := addi 0 0 127

/-- `SetCounterLevel`. -/
def setCounterLevel (priv : BitVec 64) : List Instr := [li t0 priv, set_MaxPriv t0]

/-- `SetTempReg`, with a value. -/
def setTempReg (value : BitVec 64) (n : Fin 4) : List Instr := [li t0 value, set_TempReg t0 n]

/-- `SetPfcEnable`, with a value. -/
def setPfcEnable (n : BitVec 64) : List Instr := [li t0 n, set_PfcEnable t0]

/-- `JmpTempReg`. -/
def jmpTempReg (n : Fin 4) : List Instr := [uRet n]

/-- `SetSampleBaseInfo`: the tag and the function of a sample. -/
def setSampleBaseInfo (ptag sampleFuncAddr : BitVec 64) : List Instr :=
  [li t0 ptag, set_ProcTag t0, li t0 sampleFuncAddr, set_SampleFuncAddr t0]

/-- `SetSampleCtrlReg` of `readckpt/define.h`; the last line carries the
    comment `SetPfcEnable`. -/
def setSampleCtrlReg (maxevent warmupinst eventsel : BitVec 64) : List Instr :=
  [li t0 maxevent, set_MaxEvents t0, li t0 warmupinst, set_WarmupInsts t0,
    li t0 eventsel, set_EventSel t0, li t0 1, addi 0 t0 12]

/-- `GetExitPC`; the value is left in `t0`. -/
def getExitPC : List Instr := [get_ExitNPC t0]

/-- `Load_Basic_Regs`. -/
def load_Basic_Regs (tempStackMem : BitVec 64) : List Instr :=
  [li t0 tempStackMem, addi t0 t0 256, ld sp 0 t0, ld s0 8 t0, ld ra 16 t0, ld gp 24 t0,
    ld tp 32 t0]

/-- `Save_Basic_Regs`; the stack pointer is not saved. -/
def save_Basic_Regs (tempStackMem : BitVec 64) : List Instr :=
  [li t0 tempStackMem, addi t0 t0 256, sd s0 8 t0, sd ra 16 t0, sd gp 24 t0, sd tp 32 t0]

/-- `Regs_Operations(Op)`: every register but `x0` and `a0`. -/
def regs_Operations (op : Reg → BitVec 12 → Reg → Instr) : List Instr :=
  ((List.range 32).filter fun n => n ≠ 0 ∧ n ≠ 10).map fun n =>
    op (BitVec.ofNat 5 n) (BitVec.ofNat 12 (8 * n)) a0

/-- `Save_ALLIntRegs`: `a0` waits in a temporary register while it is the base. -/
def save_ALLIntRegs (tempStackMem : BitVec 64) : List Instr :=
  [set_TempReg a0 0, li a0 tempStackMem] ++ regs_Operations sd ++ [get_TempReg a1 0, sd a1 80 a0]

/-- `Load_ALLIntRegs`: `a0` is the base, and loaded last. -/
def load_ALLIntRegs (tempStackMem : BitVec 64) : List Instr :=
  [li a0 tempStackMem] ++ regs_Operations ld ++ [ld a0 80 a0]

/-- `GetCounter("t1", "t0", start, n)`. -/
def getCounter (start n : ℕ) : List Instr :=
  [addi 0 t0 (BitVec.ofNat 12 (128 + start + n)), sd t0 (BitVec.ofNat 12 (n * 8)) t1]

/-- `ReadCounter8`: eight counters to memory. -/
def readCounter8 (base : BitVec 64) (start : ℕ) : List Instr :=
  li t1 base :: (List.range 8).flatMap (getCounter start)

/-- `ReadCounter16`. -/
def readCounter16 (base : BitVec 64) (start : ℕ) : List Instr :=
  readCounter8 base start ++ readCounter8 (base + 64) (start + 8)

/-! ## The macros of `ckptinfo.h` -/

/-- `Context_Operation(Op, BaseAddr)`: every register, `a0` last. -/
def context_Operation (op : Reg → BitVec 12 → Reg → Instr) (baseAddr : BitVec 64) : List Instr :=
  li a0 baseAddr :: ((List.range 32).filter (· ≠ 10) ++ [10]).map fun n =>
    op (BitVec.ofNat 5 n) (BitVec.ofNat 12 (8 * n)) a0

/-- `Load_necessary`: what the compiler relies on. -/
def load_necessary (baseAddr : BitVec 64) : List Instr :=
  [li a0 baseAddr, ld sp 16 a0, ld gp 24 a0, ld tp 32 a0, ld fp 64 a0]

/-! ## Saving and restoring registers -/

end Instr

namespace Cpu

variable {va : ℕ} {c : Cpu va}

theorem get_set {r : Reg} (hr : r ≠ 0) (v : BitVec 64) (r' : Reg) :
    (c.set r v).get r' = if r' = r then v else c.get r' := by
  unfold Cpu.set
  rw [if_neg hr]
  by_cases h : r' = r
  · subst h
    rw [if_pos rfl, Cpu.get, if_neg hr]
    exact Function.update_self ..
  · simp [Cpu.get, h]

theorem set_mem (r : Reg) (v : BitVec 64) : (c.set r v).mem = c.mem := by
  unfold Cpu.set
  split_ifs <;> rfl

@[simp] theorem set_ucsr (c : Cpu va) (r : Reg) (v : BitVec 64) : (c.set r v).ucsr = c.ucsr := by
  unfold set
  split_ifs <;> rfl

theorem custom_mem (r : Reg) (tag : BitVec 12) : (c.custom r tag).mem = c.mem := by
  unfold Cpu.custom
  split_ifs
  · rfl
  · rfl
  · exact set_mem _ _
  · cases c.ucsr.getUCSR tag with
    | some v => exact set_mem _ _
    | none => rfl

end Cpu

namespace Instr

open Cpu

variable {va : ℕ} {c : Cpu va} {base : BitVec 64}

/-- The offset of a register in the save area. -/
theorem signExtend_offset {n : ℕ} (h : n < 32) :
    (BitVec.ofNat 12 (8 * n)).signExtend 64 = BitVec.ofNat 64 (8 * n) := by
  have hpos : (BitVec.ofNat 12 (8 * n)).msb = false := by
    rw [BitVec.msb_eq_decide, BitVec.toNat_ofNat, decide_eq_false_iff_not]
    omega
  rw [BitVec.signExtend_eq_setWidth_of_msb_false hpos, BitVec.setWidth_ofNat_of_le_of_lt]
  · decide
  · omega

theorem ofNat_five {n m : ℕ} (hn : n < 32) (hm : m < 32) :
    (BitVec.ofNat 5 n : Reg) = BitVec.ofNat 5 m ↔ n = m := by
  rw [← BitVec.toNat_inj, BitVec.toNat_ofNat, BitVec.toNat_ofNat]
  omega

/-- `sd x{n}, 8*n(a0)` for the registers of a list. -/
theorem execAll_sd {l : List ℕ} (hl : ∀ n ∈ l, n < 32) (hc : c.get Reg.a0 = base) :
    let c' := execAll (l.map fun n => sd (BitVec.ofNat 5 n) (BitVec.ofNat 12 (8 * n)) Reg.a0) c
    (c'.x = c.x ∧ c'.pc = c.pc ∧ c'.ucsr = c.ucsr) ∧
      (∀ n < 32, c'.mem.ld64 (Mem.slot base n) = if n ∈ l then c.get (BitVec.ofNat 5 n) else
        c.mem.ld64 (Mem.slot base n)) ∧
      ∀ a, 256 ≤ (a - base).toNat → c'.mem a = c.mem a := by
  induction l generalizing c with
  | nil => exact ⟨⟨rfl, rfl, rfl⟩, fun n _ => by simp, fun _ _ => rfl⟩
  | cons m l ih =>
    have hm := hl m List.mem_cons_self
    have hstore : exec c (sd (BitVec.ofNat 5 m) (BitVec.ofNat 12 (8 * m)) Reg.a0) =
        { c with mem := c.mem.st64 (Mem.slot base m) (c.get (BitVec.ofNat 5 m)) } := by
      simp only [exec, hc, signExtend_offset hm]
      rfl
    obtain ⟨hframe, hmem, hout⟩ := ih (c := { c with
      mem := c.mem.st64 (Mem.slot base m) (c.get (BitVec.ofNat 5 m)) })
      (fun n hn => hl n (List.mem_cons_of_mem _ hn)) hc
    rw [List.map_cons, execAll_cons, hstore]
    refine ⟨hframe, fun n hn => (hmem n hn).trans ?_, fun a ha => (hout a ha).trans ?_⟩
    · by_cases hnm : n = m
      · subst hnm
        rw [if_pos List.mem_cons_self, Mem.ld64_st64_same]
        exact ite_self _
      · rw [Mem.ld64_st64_apart _ _ (Mem.slot_apart base (by omega) (by omega) hnm)]
        simp only [List.mem_cons, hnm, false_or]
        rfl
    · refine Mem.store_of_le ?_
      unfold Mem.slot
      bv_omega

/-- `ld x{n}, 8*n(a0)` for the registers of a list. -/
theorem execAll_ld {l : List ℕ} (hl : ∀ n ∈ l, n < 32 ∧ n ≠ 0 ∧ n ≠ 10)
    (hc : c.get Reg.a0 = base) :
    let c' := execAll (l.map fun n => ld (BitVec.ofNat 5 n) (BitVec.ofNat 12 (8 * n)) Reg.a0) c
    (c'.mem = c.mem ∧ c'.get Reg.a0 = base) ∧ ∀ n < 32,
      c'.get (BitVec.ofNat 5 n) = if n ∈ l then c.mem.ld64 (Mem.slot base n) else
        c.get (BitVec.ofNat 5 n) := by
  induction l generalizing c with
  | nil => exact ⟨⟨rfl, hc⟩, fun n _ => by simp⟩
  | cons m l ih =>
    obtain ⟨hm, hm0, hm10⟩ := hl m List.mem_cons_self
    have hr0 : (BitVec.ofNat 5 m : Reg) ≠ 0 := fun h => hm0 ((ofNat_five (m := 0) hm (by decide)).1 h)
    have hr10 : Reg.a0 ≠ BitVec.ofNat 5 m :=
      fun h => hm10 ((ofNat_five (n := 10) (by decide) hm).1 h).symm
    have hload : exec c (ld (BitVec.ofNat 5 m) (BitVec.ofNat 12 (8 * m)) Reg.a0) =
        c.set (BitVec.ofNat 5 m) (c.mem.ld64 (Mem.slot base m)) := by
      simp only [exec, hc, signExtend_offset hm]
      rfl
    obtain ⟨⟨hmem, ha0⟩, hget⟩ := ih (c := c.set (BitVec.ofNat 5 m) (c.mem.ld64 (Mem.slot base m)))
      (fun n hn => hl n (List.mem_cons_of_mem _ hn)) (by rw [get_set hr0, if_neg hr10, hc])
    rw [List.map_cons, execAll_cons, hload]
    refine ⟨⟨hmem.trans (set_mem _ _), ha0⟩, fun n hn => (hget n hn).trans ?_⟩
    rw [set_mem, get_set hr0]
    by_cases hnm : n = m
    · subst hnm
      simp
    · simp [hnm, ofNat_five hn hm]

/-- The one instruction that writes memory. -/
def stores : Instr → Bool
  | sd .. => true
  | _ => false

theorem exec_mem (c : Cpu va) {i : Instr} (h : i.stores = false) : (exec c i).mem = c.mem := by
  cases i with
  | li => exact set_mem _ _
  | addi rd rs1 imm =>
    simp only [exec]
    split_ifs
    · exact custom_mem rs1 imm
    · exact set_mem _ _
  | ld => exact set_mem _ _
  | sd => exact absurd h (by simp [stores])
  | fld => rfl

theorem execAll_mem {is : List Instr} (h : ∀ i ∈ is, i.stores = false) (c : Cpu va) :
    (execAll is c).mem = c.mem := execAll_same Cpu.mem (fun i hi c => exec_mem c (h i hi)) c

/-- `Context_Operation(ld x)` and `Context_Operation(fld f)`. -/
theorem context_Operation_stores {op : Reg → BitVec 12 → Reg → Instr}
    (h : ∀ r off b, (op r off b).stores = false) (base : BitVec 64) :
    ∀ i ∈ context_Operation op base, i.stores = false := by
  intro i hi
  rcases List.mem_cons.1 hi with rfl | hi
  · rfl
  · obtain ⟨n, -, rfl⟩ := List.mem_map.1 hi
    exact h ..

theorem context_Operation_ucsr {op : Reg → BitVec 12 → Reg → Instr}
    (h : ∀ r off b, ∀ c : Cpu va, (exec c (op r off b)).ucsr = c.ucsr) (c : Cpu va) (base : BitVec 64) :
    (execAll (context_Operation op base) c).ucsr = c.ucsr := by
  refine execAll_same Cpu.ucsr (fun i hi c => ?_) c
  rcases List.mem_cons.1 hi with rfl | hi
  · exact set_ucsr ..
  · obtain ⟨n, -, rfl⟩ := List.mem_map.1 hi
    exact h ..

theorem context_Operation_eq (op : Reg → BitVec 12 → Reg → Instr) (base : BitVec 64) :
    context_Operation op base = li Reg.a0 base :: op 0 0 Reg.a0 ::
      (((List.range 32).filter fun n => n ≠ 0 ∧ n ≠ 10).map fun n =>
        op (BitVec.ofNat 5 n) (BitVec.ofNat 12 (8 * n)) Reg.a0) ++ [op 10 80 Reg.a0] := by
  have hl : (List.range 32).filter (· ≠ 10) =
      0 :: (List.range 32).filter fun n => n ≠ 0 ∧ n ≠ 10 := by decide
  rw [context_Operation, hl]
  rfl

/-- `Context_Operation(sd x)` saves every register but `a0`. -/
theorem execAll_context_sd (c : Cpu va) (base : BitVec 64) :
    (execAll (context_Operation sd base) c).ucsr = c.ucsr ∧
      (∀ n < 32, n ≠ 10 → (execAll (context_Operation sd base) c).mem.ld64 (Mem.slot base n) =
        c.get (BitVec.ofNat 5 n)) ∧
      ∀ a, 256 ≤ (a - base).toNat → (execAll (context_Operation sd base) c).mem a = c.mem a := by
  have hmem_iff : ∀ n, n ∈ (List.range 32).filter (· ≠ 10) ++ [10] ↔ n < 32 := by
    intro n
    simp only [List.mem_append, List.mem_filter, List.mem_range, List.mem_singleton,
      decide_eq_true_eq]
    omega
  have ha0 : (c.set Reg.a0 base).get Reg.a0 = base := by rw [get_set (by decide), if_pos rfl]
  obtain ⟨⟨-, -, hu⟩, hmem, hout⟩ := execAll_sd (fun n hn => (hmem_iff n).1 hn) ha0
  rw [context_Operation, execAll_cons, exec]
  refine ⟨hu.trans (set_ucsr ..), fun n hn h10 => (hmem n hn).trans ?_,
    fun a ha => (hout a ha).trans (congrFun (set_mem ..) a)⟩
  rw [if_pos ((hmem_iff n).2 hn), get_set (by decide), if_neg]
  exact fun h => h10 ((ofNat_five (m := 10) hn (by decide)).1 h)

/-- `Context_Operation(ld x)` loads every register, `a0` last. -/
theorem execAll_context_ld (c : Cpu va) (base : BitVec 64) {n : ℕ} (hn : n < 32) (h0 : n ≠ 0) :
    (execAll (context_Operation ld base) c).get (BitVec.ofNat 5 n) =
      c.mem.ld64 (Mem.slot base n) := by
  have ha0 : (exec (exec c (li Reg.a0 base)) (ld 0 0 Reg.a0)).get Reg.a0 = base := by
    show (c.set Reg.a0 base).get Reg.a0 = base
    rw [get_set (by decide), if_pos rfl]
  have hmem₀ : (exec (exec c (li Reg.a0 base)) (ld 0 0 Reg.a0)).mem = c.mem :=
    (exec_mem _ rfl).trans (exec_mem _ rfl)
  have hl : ∀ n ∈ (List.range 32).filter fun n => n ≠ 0 ∧ n ≠ 10, n < 32 ∧ n ≠ 0 ∧ n ≠ 10 := by
    simp [List.mem_filter]
  obtain ⟨⟨hmem, hbase⟩, hget⟩ := execAll_ld hl ha0
  rw [context_Operation_eq, List.cons_append, List.cons_append, execAll_cons, execAll_cons,
    execAll_append]
  generalize execAll (((List.range 32).filter fun n => n ≠ 0 ∧ n ≠ 10).map fun n =>
    ld (BitVec.ofNat 5 n) (BitVec.ofNat 12 (8 * n)) Reg.a0)
      (exec (exec c (li Reg.a0 base)) (ld 0 0 Reg.a0)) = c' at hmem hbase hget ⊢
  have hlast : execAll [ld 10 80 Reg.a0] c' = c'.set Reg.a0 (c.mem.ld64 (Mem.slot base 10)) := by
    have hoff : (80 : BitVec 12).signExtend 64 = BitVec.ofNat 64 (8 * 10) := by decide
    rw [execAll_cons, execAll_nil, exec, hbase, hoff, hmem, hmem₀]
    rfl
  rw [hlast, get_set (by decide)]
  split_ifs with h10
  · rw [(ofNat_five (m := 10) hn (by decide)).1 h10]
  · have hne : n ≠ 10 := by
      rintro rfl
      exact h10 rfl
    rw [hget n hn, if_pos (by simp [hn, h0, hne]), hmem₀]

/-! ## Who writes `tempReg4` -/

/-- The one instruction that writes `tempReg4`. -/
def writesTemp4 : Instr → Bool
  | addi rd _ imm => rd = 0 && imm = setUCSR_Temp4
  | _ => false

end Instr

namespace Cpu

variable {va : ℕ}

theorem custom_tempReg4 (c : Cpu va) (r : Reg) {tag : BitVec 12} (h : tag ≠ setUCSR_Temp4) :
    (c.custom r tag).ucsr.tempReg4 = c.ucsr.tempReg4 := by
  unfold custom
  split_ifs
  · rfl
  · rfl
  · rw [set_ucsr]
  · cases c.ucsr.getUCSR tag with
    | some v => exact congrArg _ (c.set_ucsr r v)
    | none => exact (Ucsr.setUCSR_tempReg4 ..).trans (if_neg h)

end Cpu

namespace Instr

variable {va : ℕ}

theorem exec_tempReg4 (c : Cpu va) {i : Instr} (h : i.writesTemp4 = false) :
    (exec c i).ucsr.tempReg4 = c.ucsr.tempReg4 := by
  cases i with
  | li rd v => exact congrArg _ (c.set_ucsr rd v)
  | addi rd rs1 imm =>
    simp only [writesTemp4, Bool.and_eq_false_iff, decide_eq_false_iff_not] at h
    simp only [exec]
    split_ifs with hrd
    · exact c.custom_tempReg4 rs1 (h.resolve_left (not_not.2 hrd))
    · exact congrArg _ (c.set_ucsr rd _)
  | ld rd off rs1 => exact congrArg _ (c.set_ucsr rd _)
  | sd => rfl
  | fld => rfl

/-- A macro without a write to `tempReg4` keeps it. -/
theorem execAll_tempReg4 {is : List Instr} (h : ∀ i ∈ is, i.writesTemp4 = false) (c : Cpu va) :
    (execAll is c).ucsr.tempReg4 = c.ucsr.tempReg4 :=
  execAll_same (fun c => c.ucsr.tempReg4) (fun i hi c => exec_tempReg4 c (h i hi)) c

/-- **`SetSampleCtrlReg` ends with a write of `1` to `tempReg4`.** -/
theorem setSampleCtrlReg_tempReg4 (maxevent warmupinst eventsel : BitVec 64) (c : Cpu va) :
    (execAll (setSampleCtrlReg maxevent warmupinst eventsel) c).ucsr.tempReg4 = 1 := by
  simp only [setSampleCtrlReg, execAll_cons, execAll_nil]
  generalize exec _ (set_EventSel Reg.t0) = c
  rfl

theorem setTempReg_writes {value : BitVec 64} {n : Fin 4} (h : n ≠ 3) :
    ∀ i ∈ setTempReg value n, i.writesTemp4 = false := by
  simp only [setTempReg, List.forall_mem_cons, List.not_mem_nil, false_imp_iff, implies_true,
    and_true]
  refine ⟨rfl, ?_⟩
  revert n
  decide

theorem regs_Operations_writes {op : Reg → BitVec 12 → Reg → Instr}
    (h : ∀ r o b, (op r o b).writesTemp4 = false) :
    ∀ i ∈ regs_Operations op, i.writesTemp4 = false := by
  intro i hi
  obtain ⟨n, -, rfl⟩ := List.mem_map.1 hi
  exact h _ _ _

theorem context_Operation_writes {op : Reg → BitVec 12 → Reg → Instr} {base : BitVec 64}
    (h : ∀ r o b, (op r o b).writesTemp4 = false) :
    ∀ i ∈ context_Operation op base, i.writesTemp4 = false := by
  intro i hi
  rcases List.mem_cons.1 hi with rfl | hi
  · rfl
  · obtain ⟨n, -, rfl⟩ := List.mem_map.1 hi
    exact h _ _ _

end Instr

end BoomStop
