/-
  The self-handled sampler (`example/self_handle`): a sample sends the program
  to `based_sample_func`, which saves the registers, calls `sample_func`, arms
  the sampler again, restores the registers and jumps back.

  * `Hart.retire`: an instruction, and the events that are counted for it;
  * `Handler.asm`: a macro, which a new sample may interrupt;
  * `transparent_iff`: the program goes on where and as it was interrupted
    exactly when the instructions between the write of `maxEventNum` and the
    jump back cause no more than `maxevent` events;
  * `fits_insts`: when instructions are the events, that is from 41 on.
-/
import BoomStop.Asm

namespace BoomStop.SelfHandle

open Instr Cpu

variable {va : ℕ}

/-! ## Events -/

/-- The tag of the process that is sampled. -/
def targetTag : BitVec 32 := 0x1234567

/-- The program runs in user mode. -/
def sampleValid (u : Ucsr va) : Prop :=
  u.procTag = targetTag ∧ u.maxEventNum ≠ 0 ∧ u.warmupInstNum = 0

/-- Instructions of the warm-up are counted. -/
def warmupValid (u : Ucsr va) : Prop := u.procTag = targetTag ∧ u.warmupInstNum ≠ 0

/-- More events were counted than a sample has. -/
def overflow_event (u : Ucsr va) : Prop := sampleValid u ∧ u.maxEventNum < u.nowEventNum

instance (u : Ucsr va) : Decidable (sampleValid u) :=
  inferInstanceAs (Decidable (_ ∧ _ ∧ _))

instance (u : Ucsr va) : Decidable (warmupValid u) :=
  inferInstanceAs (Decidable (_ ∧ _))

instance (u : Ucsr va) : Decidable (overflow_event u) :=
  inferInstanceAs (Decidable (_ ∧ _))

/-- What an instruction adds to `nowEventNum`; `other` are its mispredictions
    or cache and TLB misses. -/
def event (sel : BitVec 3) (other : BitVec 64) : BitVec 64 :=
  if sel = 0 then 1 else if sel.toNat < 4 then other else 0

/-- The registers after an instruction has been counted. -/
def count (u : Ucsr va) (other : BitVec 64) : Ucsr va :=
  if sampleValid u then
    { u with nowEventNum := u.nowEventNum + event u.sampleEventSel other }
  else if warmupValid u then
    if u.warmupInstNum < u.nowWarmupInsts then
      { u with warmupInstNum := 0, nowWarmupInsts := 0, nowEventNum := 0 }
    else { u with nowWarmupInsts := u.nowWarmupInsts + 1 }
  else u

theorem count_valid {u : Ucsr va} (h : sampleValid u) (o : BitVec 64) :
    count u o = { u with nowEventNum := u.nowEventNum + event u.sampleEventSel o } := if_pos h

/-- The hart, and the number of instructions since `maxEventNum` was written. -/
structure Hart (va : ℕ) where
  cpu : Cpu va
  age : ℕ

/-- The jump to the handler, with what the sample does to the registers. -/
def sampleTrap (c : Cpu va) : Cpu va :=
  { c with
    pc := c.ucsr.exitFuncAddr.setWidth 64
    ucsr := { c.ucsr with
      procTag := 0, maxEventNum := 0, nowEventNum := 0, pfc_enable := 0, userExitPC := c.pc } }

/-- The instruction sets the number of events to a sample. -/
def writesMaxEvents : Instr → Bool
  | addi rd _ imm => rd = 0 && imm = setUCSR_MaxEventNum
  | _ => false

/-- An instruction commits; `other k` are the other events of the `k`-th one
    since the write of `maxEventNum`. -/
def Hart.retire (other : ℕ → BitVec 64) (h : Hart va) (i : Instr) : Hart va :=
  let c := i.exec h.cpu
  let age := if writesMaxEvents i then 0 else h.age
  { cpu := { c with ucsr := count c.ucsr (other age) }, age := age + 1 }

/-- A list of instructions, up to the first one that is sampled. -/
def Hart.runInsts (other : ℕ → BitVec 64) : List Instr → Hart va → Except (Hart va) (Hart va)
  | [], h => .ok h
  | i :: is, h =>
    if overflow_event h.cpu.ucsr then .error h else runInsts other is (h.retire other i)

/-! ## The program and its surroundings -/

/-- The addresses the linker chose; the two arrays do not overlap. -/
structure Image where
  tempStackMem : BitVec 64
  hpcounters : BitVec 64
  sampleFucAddr : BitVec 64
  apart : 8 * 64 ≤ (tempStackMem - hpcounters).toNat ∧ 8 * 32 ≤ (hpcounters - tempStackMem).toNat

/-- The word of a register in the save area. -/
def Image.slot (img : Image) (n : ℕ) : BitVec 64 := img.tempStackMem + BitVec.ofNat 64 (8 * n)

/-- The lines that `sample_func` prints. -/
inductive Line
  | max_inst (times cycles inst : BitVec 64)
  | event (n : ℕ) (value : BitVec 64)

/-- `sprintf` and `write`, in the stack of the handler: they know neither the
    custom registers nor the save area. -/
structure Libc (va : ℕ) (img : Image) where
  print : Line → Cpu va → Cpu va
  keeps_ucsr : ∀ l c, (print l c).ucsr = c.ucsr
  keeps_saved : ∀ l c n, n < 32 →
    (print l c).mem.ld64 (img.slot n) = c.mem.ld64 (img.slot n)

/-- One reading of the `cycle` and `instret` counters. -/
structure Csrs where
  cycle : BitVec 64
  instret : BitVec 64

/-- The C globals of `ctrl.h`. -/
structure Globals where
  sampleHapTimes : BitVec 64
  maxevent : BitVec 64
  eventsel : BitVec 64
  warmupinst : BitVec 64
  startcycle : BitVec 64
  endcycle : BitVec 64
  startinst : BitVec 64
  endinst : BitVec 64

/-- The tag that the process gives itself. -/
def procTag : BitVec 64 := 0x1234567

/-! ## The macros of `define.h` -/

/-- `la`: `auipc` and `addi`. -/
def la (rd : Reg) (v : BitVec 64) : List Instr :=
  [li rd (v - (v.setWidth 12).signExtend 64), addi rd rd (v.setWidth 12)]

/-- `SetSampleCtrlReg`. -/
def setSampleCtrlReg (maxevent warmupinst eventsel : BitVec 64) : List Instr :=
  [li Reg.t0 maxevent, set_MaxEvents Reg.t0, li Reg.t0 warmupinst, set_WarmupInsts Reg.t0,
    li Reg.t0 eventsel, set_EventSel Reg.t0, li Reg.t0 1, set_PfcEnable Reg.t0]

/-- `Load_Basic_Regs`. -/
def load_Basic_Regs (img : Image) : List Instr :=
  la Reg.t0 img.tempStackMem ++ [addi Reg.t0 Reg.t0 256, ld Reg.sp 0 Reg.t0, ld Reg.s0 8 Reg.t0,
    ld Reg.ra 16 Reg.t0, ld Reg.gp 24 Reg.t0, ld Reg.tp 32 Reg.t0]

/-- `Save_ALLIntRegs`. -/
def save_ALLIntRegs (img : Image) : List Instr :=
  set_TempReg Reg.a0 0 :: la Reg.a0 img.tempStackMem ++ regs_Operations sd ++
    [get_TempReg Reg.a1 0, sd Reg.a1 80 Reg.a0]

/-- `Load_ALLIntRegs`. -/
def load_ALLIntRegs (img : Image) : List Instr :=
  la Reg.a0 img.tempStackMem ++ regs_Operations ld ++ [ld Reg.a0 80 Reg.a0]

/-! ## The handler -/

/-- The hart and the globals. -/
structure Handler (va : ℕ) where
  hart : Hart va
  g : Globals

namespace Handler

variable {img : Image} (other : ℕ → BitVec 64)

/-- Inline assembly of the handler. -/
def asm (is : List Instr) (s : Handler va) : Except (Hart va) (Handler va) := do
  let h ← s.hart.runInsts other is
  .ok { s with hart := h }

/-- C code, which is sampled no later than at its start. -/
def call (f : Cpu va → Cpu va) (s : Handler va) : Except (Hart va) (Handler va) :=
  if overflow_event s.hart.cpu.ucsr then .error s.hart
  else .ok { s with hart := { s.hart with cpu := f s.hart.cpu } }

/-- `hpcounters[n]` -/
def hpcounter (img : Image) (n : ℕ) (s : Handler va) : BitVec 64 :=
  s.hart.cpu.mem.ld64 (img.hpcounters + BitVec.ofNat 64 (8 * n))

/-- The end of the period is read. -/
def readTimes (t : Csrs) (s : Handler va) : Handler va :=
  { s with g := { s.g with endcycle := t.cycle, endinst := t.instret } }

/-- The next period starts where this one ended. -/
def nextTimes (s : Handler va) : Handler va :=
  { s with g := { s.g with startcycle := s.g.endcycle, startinst := s.g.endinst } }

/-- `sample_func`. -/
def sample_func (libc : Libc va img) (t : Csrs) (sampletimes : BitVec 64) (s : Handler va) :
    Except (Hart va) (Handler va) := do
  let s := s.readTimes t
  let s ← s.call (libc.print (.max_inst sampletimes (s.g.endcycle - s.g.startcycle)
    (s.g.endinst - s.g.startinst)))
  let s := s.nextTimes
  let s ← s.asm other (readCounter16 img.hpcounters 0)
  let s ← s.asm other (readCounter16 (img.hpcounters + 8 * 16) 16)
  let s ← s.asm other (readCounter16 (img.hpcounters + 8 * 32) 32)
  let s ← s.asm other (readCounter16 (img.hpcounters + 8 * 48) 48)
  let s ← s.call (libc.print (.event 0 (s.hpcounter img 0)))
  s.call (libc.print (.event 1 (s.hpcounter img 1)))

/-- The sample is counted, and the warm-up is over. -/
def countSample (s : Handler va) : Handler va :=
  { s with g := { s.g with sampleHapTimes := s.g.sampleHapTimes + 1, warmupinst := 0 } }

/-- `based_sample_func`. -/
def based_sample_func (libc : Libc va img) (t : Csrs) (s : Handler va) :
    Except (Hart va) (Handler va) := do
  let s ← s.asm other (save_ALLIntRegs img)
  let s ← s.asm other (load_Basic_Regs img)
  let s ← s.asm other getExitPC
  let s ← s.asm other (setTempReg (s.hart.cpu.get Reg.t0) 0)
  let s ← s.sample_func other libc t s.g.sampleHapTimes
  let s := s.countSample
  let s ← s.asm other (setPfcEnable 1)
  let s ← s.asm other (setSampleBaseInfo procTag img.sampleFucAddr)
  let s ← s.asm other (setSampleCtrlReg s.g.maxevent s.g.warmupinst s.g.eventsel)
  let s ← s.asm other [rstPFC]
  let s ← s.asm other (load_ALLIntRegs img)
  s.asm other (jmpTempReg 0)

end Handler

/-- The program is interrupted: there is an overflow, and the handler is
    there. -/
structure Sampled (img : Image) (c : Cpu va) : Prop where
  overflow : overflow_event c.ucsr
  handler : c.ucsr.exitFuncAddr = img.sampleFucAddr.setWidth va
  handler_ne : c.ucsr.exitFuncAddr ≠ 0

/-- No new sample is taken up to the jump, and the program goes on at its `pc`
    with its registers. -/
def Transparent (other : ℕ → BitVec 64) {img : Image} (libc : Libc va img) (t : Csrs)
    (g : Globals) (c : Cpu va) : Prop :=
  ∃ s, Handler.based_sample_func other libc t ⟨⟨sampleTrap c, 0⟩, g⟩ = .ok s ∧
    s.hart.cpu.pc = c.pc ∧ ∀ r, s.hart.cpu.get r = c.get r

/-- The events of the first `k` instructions from the write of `maxEventNum`
    on; the fifth one writes the event selector. -/
def counted (other : ℕ → BitVec 64) (old new : BitVec 3) : ℕ → BitVec 64
  | 0 => 0
  | k + 1 => counted other old new k + event (if k < 4 then old else new) (other k)

/-- The events up to the jump back do not exceed the limit. -/
def Fits (other : ℕ → BitVec 64) (old new : BitVec 3) (maxevent : BitVec 64) : Prop :=
  ∀ k ≤ 41, counted other old new k ≤ maxevent

/-! ## While sampling is off -/

/-- An instruction that writes a custom register under a tag of `T`. -/
def writes (T : List (BitVec 12)) : Instr → Bool
  | addi rd _ imm => rd = 0 && imm ∈ T
  | _ => false

theorem writes_mono {T T' : List (BitVec 12)} (h : T ⊆ T') {i : Instr} (hi : writes T' i = false) :
    writes T i = false := by
  cases i with
  | addi rd _ imm =>
    simp only [writes, Bool.and_eq_false_iff, decide_eq_false_iff_not] at hi ⊢
    exact hi.imp_right fun hn hm => hn (h hm)
  | _ => rfl

/-- What only the tags of `T` write is kept by the other instructions. -/
theorem exec_keeps {α : Type} {f : Ucsr va → α} {T : List (BitVec 12)}
    (hf : ∀ u tag d, tag ∉ T → f (Ucsr.setUCSR u tag d) = f u) (c : Cpu va) {i : Instr}
    (hi : writes T i = false) : f (i.exec c).ucsr = f c.ucsr := by
  cases i with
  | li rd v => exact congrArg f (c.set_ucsr rd v)
  | addi rd rs1 imm =>
    simp only [writes, Bool.and_eq_false_iff, decide_eq_false_iff_not] at hi
    simp only [exec, Cpu.custom]
    split_ifs with hrd h1 h2 h3
    · rfl
    · rfl
    · exact congrArg f (c.set_ucsr rs1 _)
    · cases c.ucsr.getUCSR imm with
      | some v => exact congrArg f (c.set_ucsr rs1 v)
      | none => exact hf _ _ _ (hi.resolve_left (not_not.2 hrd))
    · exact congrArg f (c.set_ucsr rd _)
  | ld rd off rs1 => exact congrArg f (c.set_ucsr rd _)
  | sd => rfl
  | fld => rfl

/-- The tags of the sampling condition. -/
def armTags : List (BitVec 12) := [setUCSR_EventSel, setUCSR_MaxEventNum, setUCSR_WarmupInst]

/-- The sampler is off, and its selector is `sel`. -/
structure Off (sel : BitVec 3) (u : Ucsr va) : Prop where
  maxEventNum : u.maxEventNum = 0
  warmupInstNum : u.warmupInstNum = 0
  sampleEventSel : u.sampleEventSel = sel

section

variable {sel : BitVec 3} {other : ℕ → BitVec 64} {is : List Instr} {h : Hart va} {img : Image}

theorem Off.count {u : Ucsr va} (hu : Off sel u) (o : BitVec 64) : count u o = u := by
  unfold SelfHandle.count
  rw [if_neg (fun h => h.2.1 hu.maxEventNum), if_neg (fun h => h.2 hu.warmupInstNum)]

theorem Off.not_overflow {u : Ucsr va} (hu : Off sel u) : ¬ overflow_event u :=
  fun h => h.1.2.1 hu.maxEventNum

theorem setUCSR_sampleEventSel (u : Ucsr va) (tag : BitVec 12) (d : BitVec 64) :
    (u.setUCSR tag d).sampleEventSel =
      if tag = setUCSR_EventSel then d.setWidth 3 else u.sampleEventSel := by
  simp only [Ucsr.setUCSR, apply_ite Ucsr.sampleEventSel]
  by_cases h : tag = setUCSR_EventSel
  · subst h; rfl
  · simp only [if_neg h, ite_self]

theorem Off.exec {c : Cpu va} (hc : Off sel c.ucsr) {i : Instr} (hi : writes armTags i = false) :
    Off sel (i.exec c).ucsr := by
  refine ⟨?_, ?_, ?_⟩
  · rw [exec_keeps (f := Ucsr.maxEventNum) (fun u tag d ht => ?_) c hi]
    · exact hc.maxEventNum
    · rw [Ucsr.setUCSR_maxEventNum, if_neg (by rintro rfl; exact ht (by simp [armTags]))]
  · rw [exec_keeps (f := Ucsr.warmupInstNum) (fun u tag d ht => ?_) c hi]
    · exact hc.warmupInstNum
    · rw [Ucsr.setUCSR_warmupInstNum, if_neg (by rintro rfl; exact ht (by simp [armTags]))]
  · rw [exec_keeps (f := Ucsr.sampleEventSel) (fun u tag d ht => ?_) c hi]
    · exact hc.sampleEventSel
    · rw [setUCSR_sampleEventSel, if_neg (by rintro rfl; exact ht (by simp [armTags]))]

/-- While it is off, a macro runs as if there were no sampler. -/
theorem runInsts_off (hu : Off sel h.cpu.ucsr) (hi : ∀ i ∈ is, writes armTags i = false) :
    ∃ n, h.runInsts other is = .ok ⟨execAll is h.cpu, n⟩ ∧ Off sel (execAll is h.cpu).ucsr := by
  induction is generalizing h with
  | nil => exact ⟨h.age, rfl, hu⟩
  | cons i is ih =>
    have hu' : Off sel (i.exec h.cpu).ucsr := hu.exec (hi i List.mem_cons_self)
    have hret : (h.retire other i).cpu = i.exec h.cpu := by
      simp only [Hart.retire, hu'.count]
    obtain ⟨n, hn, hoff⟩ := ih (h := h.retire other i) (by rw [hret]; exact hu')
      fun j hj => hi j (List.mem_cons_of_mem _ hj)
    rw [hret] at hn hoff
    refine ⟨n, ?_, hoff⟩
    rw [Hart.runInsts, if_neg hu.not_overflow, hn, execAll_cons]

end

/-! ## Saving and restoring -/

section

variable {img : Image} {c : Cpu va}

theorem execAll_la {r : Reg} (hr : r ≠ 0) (v : BitVec 64) : execAll (la r v) c = c.set r v := by
  simp only [la, execAll_cons, execAll_nil, exec, if_neg hr, get_set hr, if_true]
  rw [BitVec.sub_add_cancel]
  simp only [Cpu.set, if_neg hr, Function.update_idem]

theorem slot_counter_apart {n k : ℕ} (hn : n < 32) (hk : k < 64) :
    Mem.Apart (img.slot n) (img.hpcounters + BitVec.ofNat 64 (8 * k)) := by
  obtain ⟨h1, h2⟩ := img.apart
  unfold Mem.Apart Image.slot
  constructor <;> bv_omega

/-- The save area holds the registers of `c₀`. -/
def Saved (img : Image) (c₀ c : Cpu va) : Prop :=
  ∀ n < 32, n ≠ 0 → c.mem.ld64 (img.slot n) = c₀.get (BitVec.ofNat 5 n)

theorem mem_regs {n : ℕ} : n ∈ (List.range 32).filter (fun n => n ≠ 0 ∧ n ≠ 10) ↔
    n < 32 ∧ n ≠ 0 ∧ n ≠ 10 := by
  simp [List.mem_filter]

variable (img) in
/-- **`Save_ALLIntRegs` saves every register**, `a0` by way of `tempReg1`. -/
theorem execAll_save (c : Cpu va) :
    Saved img c (execAll (save_ALLIntRegs img) c) ∧
      (execAll (save_ALLIntRegs img) c).ucsr = { c.ucsr with tempReg1 := c.get Reg.a0 } := by
  have htemp : exec c (set_TempReg Reg.a0 0) =
      { c with ucsr := { c.ucsr with tempReg1 := c.get Reg.a0 } } := rfl
  generalize hc₁ : ({ c with ucsr := { c.ucsr with tempReg1 := c.get Reg.a0 } } : Cpu va) = c₁
    at htemp
  have hget₁ : ∀ r, c₁.get r = c.get r := by
    intro r
    rw [← hc₁]
    rfl
  have ha0 : (c₁.set Reg.a0 img.tempStackMem).get Reg.a0 = img.tempStackMem := by
    rw [get_set (by decide), if_pos rfl]
  obtain ⟨⟨hx, -, hu⟩, hmem, -⟩ := execAll_sd (c := c₁.set Reg.a0 img.tempStackMem)
    (fun n hn => (mem_regs.1 hn).1) ha0
  generalize hc₃ : execAll (((List.range 32).filter fun n => n ≠ 0 ∧ n ≠ 10).map fun n =>
    sd (BitVec.ofNat 5 n) (BitVec.ofNat 12 (8 * n)) Reg.a0) (c₁.set Reg.a0 img.tempStackMem) = c₃
    at hx hu hmem
  have hu₃ : c₃.ucsr = { c.ucsr with tempReg1 := c.get Reg.a0 } := by
    rw [hu, Cpu.set_ucsr, ← hc₁]
  have hall : execAll (save_ALLIntRegs img) c =
      exec (exec c₃ (get_TempReg Reg.a1 0)) (sd Reg.a1 80 Reg.a0) := by
    rw [save_ALLIntRegs, List.append_assoc, List.cons_append, execAll_cons, htemp,
      execAll_append, execAll_la (by decide), execAll_append, regs_Operations, hc₃]
    rfl
  have htemp₃ : exec c₃ (get_TempReg Reg.a1 0) = c₃.set Reg.a1 (c.get Reg.a0) := by
    have hread : exec c₃ (get_TempReg Reg.a1 0) = c₃.set Reg.a1 c₃.ucsr.tempReg1 := rfl
    rw [hread, hu₃]
  have hbase : (c₃.set Reg.a1 (c.get Reg.a0)).get Reg.a0 = img.tempStackMem := by
    rw [get_set (by decide), if_neg (by decide), Cpu.get, hx]
    exact ha0
  have hval : (c₃.set Reg.a1 (c.get Reg.a0)).get Reg.a1 = c.get Reg.a0 := by
    rw [get_set (by decide), if_pos rfl]
  have hstore : exec (c₃.set Reg.a1 (c.get Reg.a0)) (sd Reg.a1 80 Reg.a0) =
      { c₃.set Reg.a1 (c.get Reg.a0) with
        mem := c₃.mem.st64 (img.slot 10) (c.get Reg.a0) } := by
    simp only [exec, hbase, hval, set_mem]
    rfl
  rw [hall, htemp₃, hstore]
  refine ⟨fun n hn hn0 => ?_, (Cpu.set_ucsr ..).trans hu₃⟩
  show (c₃.mem.st64 (img.slot 10) (c.get Reg.a0)).ld64 (img.slot n) = _
  by_cases hn10 : n = 10
  · subst hn10
    rw [Mem.ld64_st64_same]
    rfl
  · have hapart : Mem.Apart (img.slot n) (img.slot 10) :=
      Mem.slot_apart _ (by omega) (by decide) hn10
    rw [Mem.ld64_st64_apart _ _ hapart]
    refine (hmem n hn).trans ?_
    rw [if_pos (mem_regs.2 ⟨hn, hn0, hn10⟩), get_set (by decide), if_neg, hget₁]
    exact fun h => hn10 ((ofNat_five (m := 10) hn (by decide)).1 h)

/-- **`Load_ALLIntRegs` restores every register.** -/
theorem execAll_load {c₀ : Cpu va} (hs : Saved img c₀ c) (r : Reg) :
    (execAll (load_ALLIntRegs img) c).get r = c₀.get r := by
  have ha0 : (c.set Reg.a0 img.tempStackMem).get Reg.a0 = img.tempStackMem := by
    rw [get_set (by decide), if_pos rfl]
  obtain ⟨⟨hmem, hbase⟩, hget⟩ := execAll_ld (c := c.set Reg.a0 img.tempStackMem)
    (fun n hn => mem_regs.1 hn) ha0
  generalize hc₃ : execAll (((List.range 32).filter fun n => n ≠ 0 ∧ n ≠ 10).map fun n =>
    ld (BitVec.ofNat 5 n) (BitVec.ofNat 12 (8 * n)) Reg.a0) (c.set Reg.a0 img.tempStackMem) = c₃
    at hmem hbase hget
  have hall : execAll (load_ALLIntRegs img) c = exec c₃ (ld Reg.a0 80 Reg.a0) := by
    rw [load_ALLIntRegs, execAll_append, execAll_append, execAll_la (by decide),
      regs_Operations, hc₃]
    rfl
  have hlast : exec c₃ (ld Reg.a0 80 Reg.a0) = c₃.set Reg.a0 (c₃.mem.ld64 (img.slot 10)) := by
    simp only [exec, hbase]
    rfl
  have hr : r = BitVec.ofNat 5 r.toNat := by simp
  have hn : r.toNat < 32 := r.isLt
  rw [hall, hlast, get_set (by decide), hmem, set_mem]
  generalize r.toNat = n at hr hn
  subst hr
  split_ifs with h10
  · rw [h10]
    exact hs 10 (by decide) (by decide)
  · by_cases hn0 : n = 0
    · subst hn0
      rfl
    · have hn10 : n ≠ 10 := by
        rintro rfl
        exact h10 rfl
      rw [hget n hn, if_pos (mem_regs.2 ⟨hn, hn0, hn10⟩), set_mem]
      exact hs n hn hn0

end

/-! ## Before the sampler is armed again -/

section

variable {img : Image} {c₀ c : Cpu va} {sel : BitVec 3} {other : ℕ → BitVec 64}

theorem Saved.of_mem {c' : Cpu va} (h : Saved img c₀ c) (hm : c'.mem = c.mem) :
    Saved img c₀ c' := by
  unfold Saved
  rw [hm]
  exact h

theorem custom_get {r q : Reg} (hr : r ≠ 0) (h : q ≠ r) (tag : BitVec 12) :
    (c.custom r tag).get q = c.get q := by
  have hset : ∀ v, (c.set r v).get q = c.get q := fun v => by rw [get_set hr, if_neg h]
  unfold Cpu.custom
  split_ifs
  · rfl
  · rfl
  · exact hset _
  · cases c.ucsr.getUCSR tag with
    | some v => exact hset v
    | none => rfl

/-- The counters are read to words outside the save area. -/
theorem saved_getCounter {l : List ℕ} {start k : ℕ} (hl : ∀ n ∈ l, n < 8) (hk : k ≤ 56)
    (hc : c.get Reg.t1 = img.hpcounters + BitVec.ofNat 64 (8 * k)) (h : Saved img c₀ c) :
    Saved img c₀ (execAll (l.flatMap (getCounter start)) c) := by
  induction l generalizing c with
  | nil => exact h
  | cons m l ih =>
    have hm := hl m List.mem_cons_self
    rw [List.flatMap_cons, execAll_append]
    have hread : execAll (getCounter start m) c =
        exec (c.custom Reg.t0 (BitVec.ofNat 12 (128 + start + m)))
          (sd Reg.t0 (BitVec.ofNat 12 (m * 8)) Reg.t1) := rfl
    have hbase := (custom_get (c := c) (r := Reg.t0) (q := Reg.t1) (by decide) (by decide)
      (BitVec.ofNat 12 (128 + start + m))).trans hc
    rw [hread]
    refine ih (fun n hn => hl n (List.mem_cons_of_mem _ hn)) hbase fun n hn hn0 => ?_
    have haddr : img.hpcounters + BitVec.ofNat 64 (8 * k) +
        (BitVec.ofNat 12 (m * 8)).signExtend 64 =
        img.hpcounters + BitVec.ofNat 64 (8 * (k + m)) := by
      rw [Nat.mul_comm m, signExtend_offset (by omega)]
      bv_omega
    simp only [exec, hbase, haddr]
    rw [Mem.ld64_st64_apart _ _ (slot_counter_apart hn (by omega)), custom_mem]
    exact h n hn hn0

theorem saved_readCounter16 (start : ℕ) {k : ℕ} (hk : k ≤ 48) (h : Saved img c₀ c) :
    Saved img c₀
      (execAll (readCounter16 (img.hpcounters + BitVec.ofNat 64 (8 * k)) start) c) := by
  have eight : ∀ {c : Cpu va} {base : BitVec 64} {k start : ℕ}, k ≤ 56 →
      base = img.hpcounters + BitVec.ofNat 64 (8 * k) → Saved img c₀ c →
      Saved img c₀ (execAll (readCounter8 base start) c) := by
    rintro c base k start hk rfl h
    have hset : (c.set Reg.t1 (img.hpcounters + BitVec.ofNat 64 (8 * k))).get Reg.t1 =
        img.hpcounters + BitVec.ofNat 64 (8 * k) := by rw [get_set (by decide), if_pos rfl]
    exact saved_getCounter (fun n hn => List.mem_range.1 hn) hk hset (h.of_mem (set_mem _ _))
  rw [readCounter16, execAll_append]
  exact eight (k := k + 8) (by omega) (by bv_omega) (eight (k := k) (by omega) rfl h)

theorem readCounter16_not_writes {T : List (BitVec 12)} (hT : ∀ tag ∈ T, tag.toNat < 128)
    (base : BitVec 64) {start : ℕ} (h : start ≤ 64) :
    ∀ i ∈ readCounter16 base start, writes T i = false := by
  have eight : ∀ (base : BitVec 64) (start : ℕ), start ≤ 72 →
      ∀ i ∈ readCounter8 base start, writes T i = false := by
    intro base start h i hi
    rcases List.mem_cons.1 hi with rfl | hi
    · rfl
    · obtain ⟨n, hn, hi⟩ := List.mem_flatMap.1 hi
      have hn := List.mem_range.1 hn
      simp only [getCounter, List.mem_cons, List.not_mem_nil, or_false] at hi
      rcases hi with rfl | rfl
      · have hnot : BitVec.ofNat 12 (128 + start + n) ∉ T := by
          intro hm
          have hlt := hT _ hm
          rw [BitVec.toNat_ofNat] at hlt
          omega
        simp [writes, hnot]
      · rfl
  intro i hi
  rcases List.mem_append.1 hi with hi | hi
  · exact eight base start (by omega) i hi
  · exact eight _ _ (by omega) i hi

/-- The handler can go back: the registers are saved, `tempReg1` is where to,
    and the sampler is off. -/
structure Ready (img : Image) (sel : BitVec 3) (c₀ c : Cpu va) : Prop where
  saved : Saved img c₀ c
  temp : c.ucsr.tempReg1 = c₀.pc
  off : Off sel c.ucsr

theorem setUCSR_tempReg1 (u : Ucsr va) (tag : BitVec 12) (d : BitVec 64) :
    (u.setUCSR tag d).tempReg1 = if tag = setUCSR_Temp1 then d else u.tempReg1 := by
  simp only [Ucsr.setUCSR, apply_ite Ucsr.tempReg1]
  by_cases h : tag = setUCSR_Temp1
  · subst h; rfl
  · simp only [if_neg h, ite_self]

theorem exec_tempReg1 {i : Instr} (hi : writes [setUCSR_Temp1] i = false) :
    (i.exec c).ucsr.tempReg1 = c.ucsr.tempReg1 := by
  refine exec_keeps (f := Ucsr.tempReg1) (fun u tag d ht => ?_) c hi
  rw [setUCSR_tempReg1, if_neg fun h => ht (by simp [h])]

theorem execAll_tempReg1 {is : List Instr} (hi : ∀ i ∈ is, writes [setUCSR_Temp1] i = false) :
    (execAll is c).ucsr.tempReg1 = c.ucsr.tempReg1 := by
  induction is generalizing c with
  | nil => rfl
  | cons i is ih =>
    rw [execAll_cons, ih fun j hj => hi j (List.mem_cons_of_mem _ hj)]
    exact exec_tempReg1 (hi i List.mem_cons_self)

namespace Handler

variable {s : Handler va}

theorem ok_bind {ε α β : Type} (a : α) (f : α → Except ε β) : (Except.ok a >>= f) = f a := rfl

variable (other) in
theorem asm_off {is : List Instr} (hu : Off sel s.hart.cpu.ucsr)
    (hi : ∀ i ∈ is, writes armTags i = false) :
    ∃ n, s.asm other is = .ok { s with hart := ⟨execAll is s.hart.cpu, n⟩ } ∧
      Off sel (execAll is s.hart.cpu).ucsr := by
  obtain ⟨n, hn, hoff⟩ := runInsts_off hu hi
  refine ⟨n, ?_, hoff⟩
  rw [asm, hn]
  rfl

variable (other) in
/-- A macro that touches neither the save area nor `tempReg1`. -/
theorem asm_ready (is : List Instr) (h : Ready img sel c₀ s.hart.cpu)
    (hi : ∀ i ∈ is, writes (setUCSR_Temp1 :: armTags) i = false)
    (hs : Saved img c₀ (execAll is s.hart.cpu)) :
    ∃ n, s.asm other is = .ok { s with hart := ⟨execAll is s.hart.cpu, n⟩ } ∧
      Ready img sel c₀ (execAll is s.hart.cpu) := by
  obtain ⟨n, hn, hoff⟩ := asm_off other h.off fun i h =>
    writes_mono (List.subset_cons_self _ _) (hi i h)
  refine ⟨n, hn, hs, (execAll_tempReg1 fun i h => ?_).trans h.temp, hoff⟩
  exact writes_mono (List.cons_subset_cons _ (List.nil_subset _)) (hi i h)

theorem print_ready (libc : Libc va img) (h : Ready img sel c₀ s.hart.cpu) (l : Line) :
    ∃ s', s.call (libc.print l) = .ok s' ∧ Ready img sel c₀ s'.hart.cpu ∧ s'.g = s.g := by
  refine ⟨_, if_neg h.off.not_overflow, ⟨fun n hn hn0 => ?_, ?_, ?_⟩, rfl⟩
  · exact (libc.keeps_saved l _ n hn).trans (h.saved n hn hn0)
  · show (libc.print l s.hart.cpu).ucsr.tempReg1 = _
    rw [libc.keeps_ucsr]
    exact h.temp
  · show Off sel (libc.print l s.hart.cpu).ucsr
    rw [libc.keeps_ucsr]
    exact h.off

theorem tags_lt : ∀ tag ∈ setUCSR_Temp1 :: armTags, tag.toNat < 128 := by
  intro tag h
  simp only [armTags, List.mem_cons, List.not_mem_nil, or_false] at h
  rcases h with rfl | rfl | rfl | rfl <;> decide

variable (other) in
theorem readCounter16_ready (k start : ℕ) (hk : k ≤ 48) (hstart : start ≤ 64)
    (h : Ready img sel c₀ s.hart.cpu) :
    ∃ s', s.asm other (readCounter16 (img.hpcounters + BitVec.ofNat 64 (8 * k)) start) = .ok s' ∧
      Ready img sel c₀ s'.hart.cpu ∧ s'.g = s.g := by
  obtain ⟨n, hn, hr⟩ := asm_ready other _ h
    (readCounter16_not_writes tags_lt _ hstart)
    (saved_readCounter16 start hk h.saved)
  exact ⟨_, hn, hr, rfl⟩

variable (other) in
theorem sample_func_ready (libc : Libc va img) (t : Csrs) (k : BitVec 64)
    (h : Ready img sel c₀ s.hart.cpu) :
    ∃ s', s.sample_func other libc t k = .ok s' ∧ Ready img sel c₀ s'.hart.cpu ∧
      s'.g.maxevent = s.g.maxevent ∧ s'.g.eventsel = s.g.eventsel := by
  obtain ⟨s1, h1, r1, g1⟩ := print_ready libc (s := s.readTimes t) h
    (.max_inst k ((s.readTimes t).g.endcycle - (s.readTimes t).g.startcycle)
      ((s.readTimes t).g.endinst - (s.readTimes t).g.startinst))
  obtain ⟨s2, h2, r2, g2⟩ := readCounter16_ready other 0 0 (s := s1.nextTimes) (by decide)
    (by decide) r1
  obtain ⟨s3, h3, r3, g3⟩ := readCounter16_ready other 16 16 (by decide) (by decide) r2
  obtain ⟨s4, h4, r4, g4⟩ := readCounter16_ready other 32 32 (by decide) (by decide) r3
  obtain ⟨s5, h5, r5, g5⟩ := readCounter16_ready other 48 48 (by decide) (by decide) r4
  obtain ⟨s6, h6, r6, g6⟩ := print_ready libc r5 (.event 0 (s5.hpcounter img 0))
  obtain ⟨s7, h7, r7, g7⟩ := print_ready libc r6 (.event 1 (s6.hpcounter img 1))
  have h2' : s1.nextTimes.asm other (readCounter16 img.hpcounters 0) = .ok s2 := by
    rw [← h2]
    simp
  refine ⟨s7, ?_, r7, ?_⟩
  · dsimp only [sample_func]
    rw [h1, ok_bind]
    show (s1.nextTimes.asm other _ >>= _) = _
    rw [h2', ok_bind]
    show (s2.asm other (readCounter16 (img.hpcounters + BitVec.ofNat 64 (8 * 16)) 16) >>= _) = _
    rw [h3, ok_bind]
    show (s3.asm other (readCounter16 (img.hpcounters + BitVec.ofNat 64 (8 * 32)) 32) >>= _) = _
    rw [h4, ok_bind]
    show (s4.asm other (readCounter16 (img.hpcounters + BitVec.ofNat 64 (8 * 48)) 48) >>= _) = _
    rw [h5, ok_bind, h6, ok_bind, h7]
  · rw [g7, g6, g5, g4, g3, g2]
    show s1.g.maxevent = _ ∧ s1.g.eventsel = _
    rw [g1]
    exact ⟨rfl, rfl⟩

end Handler

end

/-! ## The handler up to the arming -/

section

variable {img : Image} {c : Cpu va} {other : ℕ → BitVec 64}

/-- A load, or an address computation. -/
theorem execAll_set {is : List Instr}
    (hi : ∀ i ∈ is, ∀ c : Cpu va, ∃ r v, i.exec c = c.set r v) :
    (execAll is c).mem = c.mem ∧ (execAll is c).ucsr = c.ucsr := by
  induction is generalizing c with
  | nil => exact ⟨rfl, rfl⟩
  | cons i is ih =>
    obtain ⟨r, v, he⟩ := hi i List.mem_cons_self c
    obtain ⟨hm, hu⟩ := ih (c := i.exec c) fun j hj => hi j (List.mem_cons_of_mem _ hj)
    rw [execAll_cons, hm, hu, he]
    exact ⟨set_mem _ _, Cpu.set_ucsr ..⟩

theorem exec_addi {rd : Reg} (hrd : rd ≠ 0) (rs1 : Reg) (imm : BitVec 12) (c : Cpu va) :
    (addi rd rs1 imm).exec c = c.set rd (c.get rs1 + imm.signExtend 64) := if_neg hrd

variable (img) in
theorem execAll_load_Basic : (execAll (load_Basic_Regs img) c).mem = c.mem ∧
    (execAll (load_Basic_Regs img) c).ucsr = c.ucsr := by
  refine execAll_set fun i hi c => ?_
  simp only [load_Basic_Regs, la, List.mem_append, List.mem_cons, List.not_mem_nil, or_false] at hi
  rcases hi with (rfl | rfl) | rfl | rfl | rfl | rfl | rfl | rfl
  · exact ⟨_, _, rfl⟩
  · exact ⟨Reg.t0, _, exec_addi (by decide) _ _ _⟩
  · exact ⟨Reg.t0, _, exec_addi (by decide) _ _ _⟩
  all_goals exact ⟨_, _, rfl⟩

variable (img) in
theorem save_not_writes : ∀ i ∈ save_ALLIntRegs img, writes armTags i = false := by
  intro i hi
  simp only [save_ALLIntRegs, la, regs_Operations, List.mem_append, List.mem_cons, List.mem_map,
    List.not_mem_nil, or_false] at hi
  rcases hi with ((rfl | rfl | rfl) | ⟨n, -, rfl⟩) | rfl | rfl <;> rfl

variable (img) in
theorem load_Basic_not_writes : ∀ i ∈ load_Basic_Regs img, writes armTags i = false := by
  intro i hi
  simp only [load_Basic_Regs, la, List.mem_append, List.mem_cons, List.not_mem_nil, or_false] at hi
  rcases hi with (rfl | rfl) | rfl | rfl | rfl | rfl | rfl | rfl <;> rfl

/-- A macro that moves a value to a custom register. -/
theorem pair_not_writes {T : List (BitVec 12)} {r : Reg} {v : BitVec 64} {tag : BitVec 12}
    (h : tag ∉ T) : ∀ i ∈ [li r v, addi 0 r tag], writes T i = false := by
  intro i hi
  simp only [List.mem_cons, List.not_mem_nil, or_false] at hi
  rcases hi with rfl | rfl
  · rfl
  · simp only [writes, Bool.and_eq_false_iff, decide_eq_false_iff_not]
    exact .inr h

theorem execAll_pair_mem (r : Reg) (v : BitVec 64) (tag : BitVec 12) (c : Cpu va) :
    (execAll [li r v, addi 0 r tag] c).mem = c.mem := by
  rw [execAll_cons, execAll_cons, execAll_nil]
  exact (custom_mem r tag).trans (set_mem r v)

theorem off_sampleTrap (h : Sampled img c) : Off c.ucsr.sampleEventSel (sampleTrap c).ucsr :=
  ⟨rfl, h.overflow.1.2.2, rfl⟩

end

namespace Handler

variable {img : Image} {c : Cpu va} {other : ℕ → BitVec 64} {libc : Libc va img} {t : Csrs}
  {g : Globals}

/-- **The first half of the handler**: the second half is the window, from a
    state in which everything is ready. -/
theorem based_sample_func_eq (h : Sampled img c) :
    ∃ s : Handler va, Ready img c.ucsr.sampleEventSel c s.hart.cpu ∧
      s.hart.cpu.ucsr.procTag = targetTag ∧
      based_sample_func other libc t ⟨⟨sampleTrap c, 0⟩, g⟩ =
        (s.asm other (setSampleCtrlReg g.maxevent 0 g.eventsel) >>= fun s =>
          s.asm other [rstPFC] >>= fun s =>
          s.asm other (load_ALLIntRegs img) >>= fun s => s.asm other (jmpTempReg 0)) := by
  obtain ⟨hsave, husave⟩ := execAll_save img (sampleTrap c)
  obtain ⟨n1, h1, o1⟩ := asm_off other (s := ⟨⟨sampleTrap c, 0⟩, g⟩) (off_sampleTrap h)
    (save_not_writes img)
  dsimp only at h1 o1
  generalize execAll (save_ALLIntRegs img) (sampleTrap c) = c1 at hsave husave h1 o1
  -- the registers of the handler
  obtain ⟨hm2, hu2⟩ := execAll_load_Basic img (c := c1)
  obtain ⟨n2, h2, o2⟩ := asm_off other (s := ⟨⟨c1, n1⟩, g⟩) o1 (load_Basic_not_writes img)
  dsimp only at h2 o2
  generalize execAll (load_Basic_Regs img) c1 = c2 at hm2 hu2 h2 o2
  -- the `pc` of the sample
  have hread : execAll getExitPC c2 = c2.set Reg.t0 c.pc := by
    have hexec : execAll getExitPC c2 = c2.set Reg.t0 c2.ucsr.userExitPC := rfl
    rw [hexec, hu2, husave]
    rfl
  obtain ⟨n3, h3, o3⟩ := asm_off other (s := ⟨⟨c2, n2⟩, g⟩) o2
    (show ∀ i ∈ getExitPC, writes armTags i = false by decide)
  dsimp only at h3 o3
  rw [hread] at h3 o3
  have hget : (c2.set Reg.t0 c.pc).get Reg.t0 = c.pc := by rw [get_set (by decide), if_pos rfl]
  obtain ⟨n4, h4, o4⟩ := asm_off other (s := ⟨⟨c2.set Reg.t0 c.pc, n3⟩, g⟩) o3
    (show ∀ i ∈ setTempReg c.pc 0, writes armTags i = false from pair_not_writes (by decide))
  dsimp only at h4 o4
  have hmem4 : (execAll (setTempReg c.pc 0) (c2.set Reg.t0 c.pc)).mem = c1.mem :=
    (execAll_pair_mem ..).trans ((set_mem ..).trans hm2)
  have htemp4 : (execAll (setTempReg c.pc 0) (c2.set Reg.t0 c.pc)).ucsr.tempReg1 = c.pc := rfl
  have hready : Ready img c.ucsr.sampleEventSel c
      (execAll (setTempReg c.pc 0) (c2.set Reg.t0 c.pc)) :=
    ⟨Saved.of_mem hsave hmem4, htemp4, o4⟩
  generalize execAll (setTempReg c.pc 0) (c2.set Reg.t0 c.pc) = c4 at h4 hready
  -- the handler's own work
  obtain ⟨s5, h5, r5, hg5, he5⟩ := sample_func_ready other libc t g.sampleHapTimes
    (s := ⟨⟨c4, n4⟩, g⟩) hready
  obtain ⟨n6, h6, r6⟩ := asm_ready other (setPfcEnable 1) (s := s5.countSample) r5
    (pair_not_writes (by decide)) (r5.saved.of_mem (execAll_pair_mem ..))
  generalize execAll (setPfcEnable 1) s5.countSample.hart.cpu = c6 at h6 r6
  have hbase : setSampleBaseInfo procTag img.sampleFucAddr =
      [li Reg.t0 procTag, addi 0 Reg.t0 1] ++ [li Reg.t0 img.sampleFucAddr, addi 0 Reg.t0 2] := rfl
  obtain ⟨n7, h7, r7⟩ := asm_ready other (setSampleBaseInfo procTag img.sampleFucAddr)
    (s := { s5.countSample with hart := ⟨c6, n6⟩ }) r6 (by
      intro i hi
      rw [hbase, List.mem_append] at hi
      rcases hi with hi | hi <;> exact pair_not_writes (by decide) i hi) (r6.saved.of_mem (by
      rw [hbase, execAll_append, execAll_pair_mem, execAll_pair_mem]))
  dsimp only at h7 r7
  have htag : (execAll (setSampleBaseInfo procTag img.sampleFucAddr) c6).ucsr.procTag =
      targetTag := rfl
  generalize execAll (setSampleBaseInfo procTag img.sampleFucAddr) c6 = c7 at h7 r7 htag
  refine ⟨{ s5.countSample with hart := ⟨c7, n7⟩ }, r7, htag, ?_⟩
  dsimp only [based_sample_func]
  rw [h1, ok_bind, h2, ok_bind, h3, ok_bind]
  dsimp only
  rw [hget, h4, ok_bind, h5, ok_bind]
  show (s5.countSample.asm other (setPfcEnable 1) >>= _) = _
  rw [h6, ok_bind, h7, ok_bind]
  show (Handler.asm other (setSampleCtrlReg s5.g.maxevent 0 s5.g.eventsel) _ >>= _) = _
  rw [hg5, he5]

end Handler

/-! ## From the write of `maxEventNum` to the jump -/

/-- `k` instructions have been counted. -/
structure Armed (other : ℕ → BitVec 64) (old new : BitVec 3) (maxevent : BitVec 64) (k : ℕ)
    (h : Hart va) : Prop where
  age : h.age = k
  procTag : h.cpu.ucsr.procTag = targetTag
  maxEventNum : h.cpu.ucsr.maxEventNum = maxevent
  warmupInstNum : h.cpu.ucsr.warmupInstNum = 0
  nowEventNum : h.cpu.ucsr.nowEventNum = counted other old new k
  sampleEventSel : h.cpu.ucsr.sampleEventSel = if k < 5 then old else new

section

variable {other : ℕ → BitVec 64} {old new : BitVec 3} {maxevent : BitVec 64} {k : ℕ} {h : Hart va}
  {i : Instr} {is : List Instr} {hart : Hart va}

theorem Armed.overflow_iff (ha : Armed other old new maxevent k h) (hM : maxevent ≠ 0) :
    ¬ overflow_event h.cpu.ucsr ↔ counted other old new k ≤ maxevent := by
  unfold overflow_event sampleValid
  rw [ha.procTag, ha.maxEventNum, ha.warmupInstNum, ha.nowEventNum]
  refine ⟨fun ho => BitVec.not_lt.1 fun hlt => ho ⟨⟨rfl, hM, rfl⟩, hlt⟩, fun hle ho => ?_⟩
  exact BitVec.not_lt.2 hle ho.2

/-- One more instruction has been counted. -/
theorem Armed.retire (ha : Armed other old new maxevent k h) (hM : maxevent ≠ 0)
    (hi : writesMaxEvents i = false)
    (hp : (i.exec h.cpu).ucsr.procTag = h.cpu.ucsr.procTag)
    (hmax : (i.exec h.cpu).ucsr.maxEventNum = h.cpu.ucsr.maxEventNum)
    (hw : (i.exec h.cpu).ucsr.warmupInstNum = 0)
    (hn : (i.exec h.cpu).ucsr.nowEventNum = h.cpu.ucsr.nowEventNum)
    (hs : (i.exec h.cpu).ucsr.sampleEventSel = if k < 4 then old else new) :
    Armed other old new maxevent (k + 1) (h.retire other i) := by
  have hvalid : sampleValid (i.exec h.cpu).ucsr :=
    ⟨hp.trans ha.procTag, by rw [hmax, ha.maxEventNum]; exact hM, hw⟩
  have hret : (h.retire other i).cpu.ucsr = { (i.exec h.cpu).ucsr with
      nowEventNum := counted other old new k + event (if k < 4 then old else new) (other k) } := by
    simp only [Hart.retire, hi, Bool.false_eq_true, if_false, count_valid hvalid, hs, hn,
      ha.nowEventNum, ha.age]
  refine ⟨?_, ?_, ?_, ?_, ?_, ?_⟩
  · simp only [Hart.retire, hi, Bool.false_eq_true, if_false, ha.age]
  · rw [hret]
    exact hp.trans ha.procTag
  · rw [hret]
    exact hmax.trans ha.maxEventNum
  · rw [hret]
    exact hw
  · rw [hret]
    rfl
  · rw [hret]
    refine hs.trans ?_
    simp only [Nat.add_lt_add_iff_right, show (5 : ℕ) = 4 + 1 from rfl]

/-- An instruction that is no custom write. -/
def Quiet (va : ℕ) (i : Instr) : Prop :=
  writesMaxEvents i = false ∧ ∀ c : Cpu va, (i.exec c).ucsr = c.ucsr

theorem Armed.quiet (ha : Armed other old new maxevent k h) (hM : maxevent ≠ 0) (hi : Quiet va i)
    (hk : k ≠ 4) : Armed other old new maxevent (k + 1) (h.retire other i) := by
  refine ha.retire hM hi.1 ?_ ?_ ?_ ?_ ?_ <;> rw [hi.2]
  · exact ha.warmupInstNum
  · rw [ha.sampleEventSel]
    have : k < 5 ↔ k < 4 := by omega
    simp only [this]

/-- The instructions run through iff the limit is not exceeded before one of
    them. -/
def Walks (other : ℕ → BitVec 64) (old new : BitVec 3) (maxevent : BitVec 64) (k : ℕ)
    (is : List Instr) (h : Hart va) : Prop :=
  ∀ h', h.runInsts other is = .ok h' ↔
    (∀ j < is.length, counted other old new (k + j) ≤ maxevent) ∧ h' = is.foldl (Hart.retire other) h

theorem walks_nil : Walks other old new maxevent k [] h := by
  intro h'
  simp [Hart.runInsts, eq_comm]

theorem walks_cons (ha : Armed other old new maxevent k h) (hM : maxevent ≠ 0)
    (hw : Walks other old new maxevent (k + 1) is (h.retire other i)) :
    Walks other old new maxevent k (i :: is) h := by
  intro h'
  have hall : (∀ j < (i :: is).length, counted other old new (k + j) ≤ maxevent) ↔
      counted other old new k ≤ maxevent ∧
        ∀ j < is.length, counted other old new (k + 1 + j) ≤ maxevent := by
    constructor
    · intro h
      refine ⟨h 0 (Nat.succ_pos _), fun j hj => ?_⟩
      rw [Nat.add_assoc, Nat.add_comm 1 j]
      exact h (j + 1) (Nat.succ_lt_succ hj)
    · rintro ⟨h0, h⟩ (_ | j) hj
      · exact h0
      · rw [show k + (j + 1) = k + 1 + j by omega]
        exact h j (Nat.lt_of_succ_lt_succ hj)
  rw [hall, List.foldl_cons, and_assoc, ← hw h', ← ha.overflow_iff hM, Hart.runInsts]
  split_ifs with ho <;> simp [ho]

theorem walks_quiet (ha : Armed other old new maxevent k h) (hM : maxevent ≠ 0) (hk : 5 ≤ k)
    (hi : ∀ i ∈ is, Quiet va i) : Walks other old new maxevent k is h := by
  induction is generalizing k h with
  | nil => exact walks_nil
  | cons i is ih =>
    have hq := hi i List.mem_cons_self
    exact walks_cons ha hM (ih (ha.quiet hM hq (by omega)) (by omega)
      fun j hj => hi j (List.mem_cons_of_mem _ hj))

/-! ### The seven macros -/

/-- What follows the write of `maxEventNum`. -/
def rearm (img : Image) (eventsel : BitVec 64) : List Instr :=
  [li Reg.t0 0, set_WarmupInsts Reg.t0, li Reg.t0 eventsel, set_EventSel Reg.t0, li Reg.t0 1,
    set_PfcEnable Reg.t0] ++ (rstPFC :: load_ALLIntRegs img ++ jmpTempReg 0)

theorem quiet_li (r : Reg) (v : BitVec 64) : Quiet va (li r v) := ⟨rfl, fun c => c.set_ucsr r v⟩

theorem quiet_addi {rd : Reg} (hrd : rd ≠ 0) (rs1 : Reg) (imm : BitVec 12) :
    Quiet va (addi rd rs1 imm) := by
  refine ⟨Bool.and_eq_false_iff.2 (.inl (decide_eq_false hrd)), fun c => ?_⟩
  rw [exec, if_neg hrd]
  exact c.set_ucsr rd _

theorem quiet_ld (rd : Reg) (off : BitVec 12) (rs1 : Reg) : Quiet va (ld rd off rs1) :=
  ⟨rfl, fun c => c.set_ucsr rd _⟩

theorem quiet_load (img : Image) : ∀ i ∈ load_ALLIntRegs img, Quiet va i := by
  intro i hi
  simp only [load_ALLIntRegs, la, regs_Operations, List.mem_append, List.mem_cons, List.mem_map,
    List.not_mem_nil, or_false] at hi
  rcases hi with ((rfl | rfl) | ⟨n, -, rfl⟩) | rfl
  · exact quiet_li _ _
  · exact quiet_addi (by decide) _ _
  · exact quiet_ld _ _ _
  · exact quiet_ld _ _ _

theorem quiet_tail (img : Image) :
    ∀ i ∈ rstPFC :: load_ALLIntRegs img ++ jmpTempReg 0, Quiet va i := by
  intro i hi
  simp only [List.cons_append, List.mem_cons, List.mem_append, jmpTempReg, List.not_mem_nil,
    or_false] at hi
  rcases hi with rfl | hi | rfl
  · exact ⟨rfl, fun c => rfl⟩
  · exact quiet_load img i hi
  · exact ⟨rfl, fun c => rfl⟩

/-- The hart after the write of `maxEventNum`. -/
def Hart.arm (other : ℕ → BitVec 64) (maxevent : BitVec 64) (h : Hart va) : Hart va :=
  (h.retire other (li Reg.t0 maxevent)).retire other (set_MaxEvents Reg.t0)

variable (other) in
theorem armed_arm (new : BitVec 3) (hu : Off old h.cpu.ucsr)
    (hp : h.cpu.ucsr.procTag = targetTag) (hM : maxevent ≠ 0) : Armed other old new maxevent 1 (h.arm other maxevent) := by
  have hli : (h.retire other (li Reg.t0 maxevent)).cpu = h.cpu.set Reg.t0 maxevent := by
    have hoff : Off old ((li Reg.t0 maxevent).exec h.cpu).ucsr := by
      rw [(quiet_li _ _).2]
      exact hu
    simp only [Hart.retire, hoff.count]
    rfl
  generalize hh : h.retire other (li Reg.t0 maxevent) = h' at hli
  have hu' : h'.cpu.ucsr = h.cpu.ucsr := by rw [hli, Cpu.set_ucsr]
  have hget : h'.cpu.get Reg.t0 = maxevent := by rw [hli, get_set (by decide), if_pos rfl]
  have hexec : ((set_MaxEvents Reg.t0).exec h'.cpu).ucsr =
      { h.cpu.ucsr with maxEventNum := maxevent, nowEventNum := 0 } := by
    rw [← hu', ← hget]
    rfl
  have hvalid : sampleValid ((set_MaxEvents Reg.t0).exec h'.cpu).ucsr := by
    rw [hexec]
    exact ⟨hp, hM, hu.warmupInstNum⟩
  have hret : (h'.retire other (set_MaxEvents Reg.t0)).cpu.ucsr =
      { h.cpu.ucsr with maxEventNum := maxevent, nowEventNum := 0 + event old (other 0) } := by
    show count ((set_MaxEvents Reg.t0).exec h'.cpu).ucsr (other 0) = _
    rw [count_valid hvalid, hexec]
    show ({ h.cpu.ucsr with
      maxEventNum := maxevent, nowEventNum := 0 + event h.cpu.ucsr.sampleEventSel (other 0) } :
      Ucsr va) = _
    rw [hu.sampleEventSel]
  unfold Hart.arm
  rw [hh]
  refine ⟨rfl, ?_, ?_, ?_, ?_, ?_⟩ <;> rw [hret]
  · exact hp
  · exact hu.warmupInstNum
  · rfl
  · exact hu.sampleEventSel

variable (other) in
theorem get_retire_li {r : Reg} (hr : r ≠ 0) (v : BitVec 64) :
    (h.retire other (li r v)).cpu.get r = v := by
  show (h.cpu.set r v).get r = v
  rw [get_set hr, if_pos rfl]

/-- The registers that arm the sampler. -/
def Hart.rearmed (other : ℕ → BitVec 64) (eventsel : BitVec 64) (h : Hart va) : Hart va :=
  [li Reg.t0 0, set_WarmupInsts Reg.t0, li Reg.t0 eventsel, set_EventSel Reg.t0, li Reg.t0 1,
    set_PfcEnable Reg.t0].foldl (Hart.retire other) h

/-- The six instructions from there on, one by one. -/
theorem walks_rearm {img : Image} {eventsel : BitVec 64} (hM : maxevent ≠ 0)
    (ha : Armed other old (eventsel.setWidth 3) maxevent 1 h) :
    Armed other old (eventsel.setWidth 3) maxevent 7 (h.rearmed other eventsel) ∧
      Walks other old (eventsel.setWidth 3) maxevent 1 (rearm img eventsel) h := by
  have a2 := ha.quiet hM (quiet_li Reg.t0 0) (by decide)
  have t2 := get_retire_li other (h := h) (r := Reg.t0) (by decide) 0
  generalize hh2 : h.retire other (li Reg.t0 0) = h2 at a2 t2
  have e3 : ((set_WarmupInsts Reg.t0).exec h2.cpu).ucsr =
      { h2.cpu.ucsr with warmupInstNum := h2.cpu.get Reg.t0, nowWarmupInsts := 0 } := rfl
  rw [t2] at e3
  have a3 : Armed other old (eventsel.setWidth 3) maxevent 3
      (h2.retire other (set_WarmupInsts Reg.t0)) := by
    refine a2.retire hM rfl ?_ ?_ ?_ ?_ ?_ <;> rw [e3]
    exact a2.sampleEventSel
  generalize hh3 : h2.retire other (set_WarmupInsts Reg.t0) = h3 at a3
  have a4 := a3.quiet hM (quiet_li Reg.t0 eventsel) (by decide)
  have t4 := get_retire_li other (h := h3) (r := Reg.t0) (by decide) eventsel
  generalize hh4 : h3.retire other (li Reg.t0 eventsel) = h4 at a4 t4
  have e5 : ((set_EventSel Reg.t0).exec h4.cpu).ucsr =
      { h4.cpu.ucsr with sampleEventSel := eventsel.setWidth 3 } := by
    rw [← t4]
    rfl
  have a5 : Armed other old (eventsel.setWidth 3) maxevent 5
      (h4.retire other (set_EventSel Reg.t0)) := by
    refine a4.retire hM rfl ?_ ?_ ?_ ?_ ?_ <;> rw [e5]
    · exact a4.warmupInstNum
    · rfl
  generalize hh5 : h4.retire other (set_EventSel Reg.t0) = h5 at a5
  have a6 := a5.quiet hM (quiet_li Reg.t0 1) (by decide)
  generalize hh6 : h5.retire other (li Reg.t0 1) = h6 at a6
  have e7 : ((set_PfcEnable Reg.t0).exec h6.cpu).ucsr =
      { h6.cpu.ucsr with pfc_enable := (h6.cpu.get Reg.t0).setWidth 1 } := rfl
  have a7 : Armed other old (eventsel.setWidth 3) maxevent 7
      (h6.retire other (set_PfcEnable Reg.t0)) := by
    refine a6.retire hM rfl ?_ ?_ ?_ ?_ ?_ <;> rw [e7]
    · exact a6.warmupInstNum
    · exact a6.sampleEventSel
  have htail := walks_quiet a7 hM (by decide) (quiet_tail img)
  subst hh2 hh3 hh4 hh5 hh6
  refine ⟨a7, ?_⟩
  exact walks_cons ha hM (walks_cons a2 hM (walks_cons a3 hM (walks_cons a4 hM
    (walks_cons a5 hM (walks_cons a6 hM htail)))))

/-! ### The registers and the jump -/

/-- The state that the user sees, the `pc` apart. -/
def SameUser (c c' : Cpu va) : Prop := c.x = c'.x ∧ c.mem = c'.mem

theorem sameUser_set {c c' : Cpu va} (h : SameUser c c') (r : Reg) (v : BitVec 64) :
    SameUser (c.set r v) (c'.set r v) := by
  unfold Cpu.set
  split_ifs
  · exact h
  · exact ⟨congrArg (fun x => Function.update x r v) h.1, h.2⟩

theorem SameUser.get {c c' : Cpu va} (h : SameUser c c') (r : Reg) : c.get r = c'.get r := by
  unfold Cpu.get
  rw [h.1]

variable (other hart) in
/-- Counting is not seen by the user. -/
theorem foldl_sameUser {c : Cpu va} (h : SameUser hart.cpu c)
    (hi : ∀ i ∈ is, ∀ c c' : Cpu va, SameUser c c' → SameUser (i.exec c) (i.exec c')) :
    SameUser (is.foldl (Hart.retire other) hart).cpu (execAll is c) := by
  induction is generalizing hart c with
  | nil => exact h
  | cons i is ih =>
    have hstep := hi i List.mem_cons_self _ _ h
    exact ih _ ⟨hstep.1, hstep.2⟩ fun j hj => hi j (List.mem_cons_of_mem _ hj)

theorem sameUser_ld {c c' : Cpu va} (h : SameUser c c') (rd : Reg) (off : BitVec 12) (rs1 : Reg) :
    SameUser ((ld rd off rs1).exec c) ((ld rd off rs1).exec c') := by
  simp only [exec]
  rw [h.get rs1, h.2]
  exact sameUser_set h _ _

theorem sameUser_load (img : Image) : ∀ i ∈ rstPFC :: load_ALLIntRegs img,
    ∀ c c' : Cpu va, SameUser c c' → SameUser (i.exec c) (i.exec c') := by
  intro i hi c c' h
  simp only [load_ALLIntRegs, la, regs_Operations, List.mem_append, List.mem_cons, List.mem_map,
    List.not_mem_nil, or_false] at hi
  rcases hi with rfl | ((rfl | rfl) | ⟨n, -, rfl⟩) | rfl
  · exact h
  · exact sameUser_set h _ _
  · simp only [exec]
    rw [if_neg (by decide), if_neg (by decide), h.get]
    exact sameUser_set h _ _
  · exact sameUser_ld h _ _ _
  · exact sameUser_ld h _ _ _

theorem count_tempReg1 (u : Ucsr va) (o : BitVec 64) : (count u o).tempReg1 = u.tempReg1 := by
  unfold SelfHandle.count
  split_ifs <;> rfl

variable (other hart) in
theorem foldl_tempReg1 (hi : ∀ i ∈ is, writes [setUCSR_Temp1] i = false) :
    (is.foldl (Hart.retire other) hart).cpu.ucsr.tempReg1 = hart.cpu.ucsr.tempReg1 := by
  induction is generalizing hart with
  | nil => rfl
  | cons i is ih =>
    rw [List.foldl_cons, ih _ fun j hj => hi j (List.mem_cons_of_mem _ hj)]
    exact (count_tempReg1 _ _).trans (exec_tempReg1 (hi i List.mem_cons_self))

theorem foldl_mem (hi : ∀ i ∈ is, ∀ c : Cpu va, (i.exec c).mem = c.mem) :
    (is.foldl (Hart.retire other) hart).cpu.mem = hart.cpu.mem := by
  induction is generalizing hart with
  | nil => rfl
  | cons i is ih =>
    rw [List.foldl_cons, ih fun j hj => hi j (List.mem_cons_of_mem _ hj)]
    exact hi i List.mem_cons_self _

theorem exec_uRet (c : Cpu va) : (uRet 0).exec c = { c with pc := c.ucsr.tempReg1 } := by
  simp only [uRet, exec, if_true, Cpu.custom]
  rfl

variable (other) in
theorem retire_uRet : (h.retire other (uRet 0)).cpu.pc = h.cpu.ucsr.tempReg1 ∧
    ∀ r, (h.retire other (uRet 0)).cpu.get r = h.cpu.get r := by
  unfold Hart.retire
  rw [exec_uRet]
  exact ⟨rfl, fun r => rfl⟩

/-- From the restored registers back to the program. -/
theorem foldl_back {img : Image} {c₀ : Cpu va} (hs : Saved img c₀ hart.cpu)
    (ht : hart.cpu.ucsr.tempReg1 = c₀.pc) :
    let h' := (rstPFC :: load_ALLIntRegs img ++ jmpTempReg 0).foldl (Hart.retire other) hart
    h'.cpu.pc = c₀.pc ∧ ∀ r, h'.cpu.get r = c₀.get r := by
  have hload : ∀ i ∈ rstPFC :: load_ALLIntRegs img, writes [setUCSR_Temp1] i = false := by
    intro i hi
    simp only [load_ALLIntRegs, la, regs_Operations, List.mem_append, List.mem_cons, List.mem_map,
      List.not_mem_nil, or_false] at hi
    rcases hi with rfl | ((rfl | rfl) | ⟨n, -, rfl⟩) | rfl <;> rfl
  have huser := foldl_sameUser other hart ⟨rfl, rfl⟩ (sameUser_load img)
  have hback := foldl_tempReg1 other hart hload
  have hregs : ∀ r, (execAll (rstPFC :: load_ALLIntRegs img) hart.cpu).get r = c₀.get r := by
    intro r
    have hmem : (exec hart.cpu rstPFC).mem = hart.cpu.mem := rfl
    rw [execAll_cons]
    exact execAll_load (hs.of_mem hmem) r
  have hsplit : (rstPFC :: load_ALLIntRegs img ++ jmpTempReg 0).foldl (Hart.retire other) hart =
      ((rstPFC :: load_ALLIntRegs img).foldl (Hart.retire other) hart).retire other (uRet 0) := by
    rw [List.foldl_append, jmpTempReg, List.foldl_cons, List.foldl_nil]
  rw [hsplit]
  generalize (rstPFC :: load_ALLIntRegs img).foldl (Hart.retire other) hart = h at huser hback
  obtain ⟨hpc, hget⟩ := retire_uRet other (h := h)
  refine ⟨hpc.trans (hback.trans ht), fun r => ?_⟩
  rw [hget, huser.get, hregs]

/-- The instructions of the window. -/
def window (img : Image) (maxevent eventsel : BitVec 64) : List Instr :=
  [li Reg.t0 maxevent, set_MaxEvents Reg.t0] ++ rearm img eventsel

theorem foldl_window {img : Image} {eventsel : BitVec 64} :
    (window img maxevent eventsel).foldl (Hart.retire other) hart =
      (rstPFC :: load_ALLIntRegs img ++ jmpTempReg 0).foldl (Hart.retire other)
        ((hart.arm other maxevent).rearmed other eventsel) := by
  rw [window, rearm, List.foldl_append, List.foldl_append]
  rfl

/-- Arming the sampler touches neither the memory nor `tempReg1`. -/
theorem rearmed_frame {eventsel : BitVec 64} :
    ((hart.arm other maxevent).rearmed other eventsel).cpu.mem = hart.cpu.mem ∧
      ((hart.arm other maxevent).rearmed other eventsel).cpu.ucsr.tempReg1 =
        hart.cpu.ucsr.tempReg1 := by
  have harm : hart.arm other maxevent =
      [li Reg.t0 maxevent, set_MaxEvents Reg.t0].foldl (Hart.retire other) hart := rfl
  have hcustom : ∀ (r : Reg) (tag : BitVec 12) (c : Cpu va),
      ((addi 0 r tag).exec c).mem = c.mem := fun r tag c => custom_mem r tag
  unfold Hart.rearmed
  rw [harm]
  refine ⟨(foldl_mem ?_).trans (foldl_mem ?_), (foldl_tempReg1 _ _ ?_).trans (foldl_tempReg1 _ _ ?_)⟩ <;>
    intro i hi <;> simp only [List.mem_cons, List.not_mem_nil, or_false] at hi
  · rcases hi with rfl | rfl | rfl | rfl | rfl | rfl <;> intro c
    · exact set_mem _ _
    · exact hcustom _ _ _
    · exact set_mem _ _
    · exact hcustom _ _ _
    · exact set_mem _ _
    · exact hcustom _ _ _
  · rcases hi with rfl | rfl <;> intro c
    · exact set_mem _ _
    · exact hcustom _ _ _
  · rcases hi with rfl | rfl | rfl | rfl | rfl | rfl <;> rfl
  · rcases hi with rfl | rfl <;> rfl

/-- **Where the window leads**: to the saved `pc`, with the saved registers. -/
theorem window_back {img : Image} {c₀ : Cpu va} {eventsel : BitVec 64}
    (hs : Saved img c₀ hart.cpu) (ht : hart.cpu.ucsr.tempReg1 = c₀.pc) :
    let h' := (window img maxevent eventsel).foldl (Hart.retire other) hart
    h'.cpu.pc = c₀.pc ∧ ∀ r, h'.cpu.get r = c₀.get r := by
  rw [foldl_window]
  obtain ⟨hmem, htemp⟩ := rearmed_frame
  exact foldl_back (hs.of_mem hmem) (htemp.trans ht)

end

/-! ## Transparency -/

section

variable {img : Image} {c : Cpu va} {other : ℕ → BitVec 64} {libc : Libc va img} {t : Csrs}
  {g : Globals}

theorem runInsts_append (is js : List Instr) (h : Hart va) :
    h.runInsts other (is ++ js) = h.runInsts other is >>= Hart.runInsts other js := by
  induction is generalizing h with
  | nil => rfl
  | cons i is ih =>
    rw [List.cons_append, Hart.runInsts, Hart.runInsts]
    split_ifs with ho
    · rfl
    · exact ih _

theorem asm_asm (is js : List Instr) (s : Handler va) :
    (s.asm other is >>= fun s => s.asm other js) = s.asm other (is ++ js) := by
  unfold Handler.asm
  rw [runInsts_append]
  cases s.hart.runInsts other is <;> rfl

theorem asm_eq_ok {is : List Instr} {s s' : Handler va} :
    s.asm other is = .ok s' ↔ ∃ h, s.hart.runInsts other is = .ok h ∧ s' = { s with hart := h } := by
  unfold Handler.asm
  cases hr : s.hart.runInsts other is with
  | error e =>
    refine ⟨fun he => ?_, fun ⟨h, he, _⟩ => ?_⟩
    · cases he
    · cases he
  | ok h =>
    constructor
    · intro he
      exact ⟨h, rfl, (Except.ok.inj he).symm⟩
    · rintro ⟨h', he, rfl⟩
      rw [Except.ok.inj he]
      rfl

/-- The window starts with sampling off. -/
theorem runInsts_window {h : Hart va} {sel : BitVec 3} {maxevent eventsel : BitVec 64}
    (hu : Off sel h.cpu.ucsr) : h.runInsts other (window img maxevent eventsel) =
      (h.arm other maxevent).runInsts other (rearm img eventsel) := by
  have hli : (h.retire other (li Reg.t0 maxevent)).cpu.ucsr = h.cpu.ucsr := by
    have hq : ((li Reg.t0 maxevent).exec h.cpu).ucsr = h.cpu.ucsr := (quiet_li _ _).2 _
    dsimp only [Hart.retire]
    rw [hq, hu.count]
  rw [window, List.cons_append, List.cons_append, List.nil_append, Hart.runInsts,
    if_neg hu.not_overflow, Hart.runInsts, if_neg (by rw [hli]; exact hu.not_overflow)]
  rfl

theorem length_rearm (img : Image) (eventsel : BitVec 64) : (rearm img eventsel).length = 41 := rfl

/-- The handler ends iff nothing is sampled on the way back. -/
theorem window_ok_iff (img : Image) {h : Hart va} {sel : BitVec 3} {maxevent eventsel : BitVec 64}
    (hu : Off sel h.cpu.ucsr) (hp : h.cpu.ucsr.procTag = targetTag) (hM : maxevent ≠ 0)
    {h' : Hart va} : h.runInsts other (window img maxevent eventsel) = .ok h' ↔
      Fits other sel (eventsel.setWidth 3) maxevent ∧
        h' = (window img maxevent eventsel).foldl (Hart.retire other) h := by
  have ha := armed_arm other (eventsel.setWidth 3) hu hp hM
  rw [runInsts_window hu, (walks_rearm hM ha).2 h', length_rearm, window, List.foldl_append]
  refine and_congr ⟨fun hall k hk => ?_, fun hfit j hj => hfit (1 + j) (by omega)⟩ Iff.rfl
  rcases k with _ | k
  · exact BitVec.le_def.2 (Nat.zero_le _)
  · rw [Nat.add_comm k 1]
    exact hall k (by omega)

variable (other libc t g) in
theorem based_sample_func_window (h : Sampled img c) :
    ∃ s : Handler va, Ready img c.ucsr.sampleEventSel c s.hart.cpu ∧
      s.hart.cpu.ucsr.procTag = targetTag ∧
      Handler.based_sample_func other libc t ⟨⟨sampleTrap c, 0⟩, g⟩ =
        s.asm other (window img g.maxevent g.eventsel) := by
  obtain ⟨s, hready, htag, heq⟩ := Handler.based_sample_func_eq (t := t) (g := g) h
  refine ⟨s, hready, htag, heq.trans ?_⟩
  simp only [asm_asm]
  rfl

theorem ne_zero_of_pos {v : BitVec 64} (h : 0 < v) : v ≠ 0 :=
  fun he => absurd (he ▸ h) (BitVec.lt_irrefl _)

theorem fits_of_transparent (h : Sampled img c) (hM : 0 < g.maxevent)
    (ht : Transparent other libc t g c) :
    Fits other c.ucsr.sampleEventSel (g.eventsel.setWidth 3) g.maxevent := by
  obtain ⟨s, hready, htag, heq⟩ := based_sample_func_window other libc t g h
  obtain ⟨s', hok, -⟩ := ht
  obtain ⟨h', hrun, -⟩ := asm_eq_ok.1 (heq.symm.trans hok)
  exact ((window_ok_iff img hready.off htag (ne_zero_of_pos hM)).1 hrun).1

theorem transparent_of_fits (h : Sampled img c) (hM : 0 < g.maxevent)
    (hfit : Fits other c.ucsr.sampleEventSel (g.eventsel.setWidth 3) g.maxevent) :
    Transparent other libc t g c := by
  obtain ⟨s, hready, htag, heq⟩ := based_sample_func_window other libc t g h
  obtain ⟨hpc, hget⟩ := window_back hready.saved hready.temp
  have hrun := (window_ok_iff img hready.off htag (ne_zero_of_pos hM)).2 ⟨hfit, rfl⟩
  exact ⟨_, heq.trans (asm_eq_ok.2 ⟨_, hrun, rfl⟩), hpc, hget⟩

/-- **Self-handled sampling is transparent exactly when the instructions from
    the write of `maxEventNum` to the jump back cause no more than `maxevent`
    events.** -/
theorem transparent_iff (h : Sampled img c) (hM : 0 < g.maxevent) :
    Transparent other libc t g c ↔
      Fits other c.ucsr.sampleEventSel (g.eventsel.setWidth 3) g.maxevent :=
  ⟨fits_of_transparent h hM, transparent_of_fits h hM⟩

/-- When every instruction is an event, the limit must be at least 41. -/
theorem fits_insts {maxevent : BitVec 64} : Fits other 0 0 maxevent ↔ 41 ≤ maxevent := by
  have hcount : ∀ k, counted other 0 0 k = BitVec.ofNat 64 k := by
    intro k
    induction k with
    | zero => rfl
    | succ k ih =>
      rw [counted, ih, ite_self, BitVec.ofNat_add]
      rfl
  unfold Fits
  simp only [hcount]
  refine ⟨fun h => h 41 (Nat.le_refl 41), fun h k hk => ?_⟩
  bv_omega

end

/-! ## Two limits -/

/-- Where the variables of the program are. -/
def linked : Image := ⟨0x12000, 0x10000, 0x8000, by decide⟩

/-- The registers that a call may change: `ra`, the temporaries and the arguments. -/
def callerSaved (r : Reg) : Bool :=
  r = 1 || (5 ≤ r && r ≤ 7) || (10 ≤ r && r ≤ 17) || 28 ≤ r

/-- A C library that prints nothing, and leaves something else in all of them. -/
def clobbering : Libc 40 linked where
  print _ c := { c with x := fun r => if callerSaved r then ~~~(c.x r) else c.x r }
  keeps_ucsr _ _ := rfl
  keeps_saved _ _ _ _ := rfl

/-- A program whose counter has passed its limit. -/
def interrupted : Cpu 40 where
  x r := r.setWidth 64
  f _ := 0
  mem _ := 0
  pc := 0x9000
  ucsr := { (Ucsr.reset : Ucsr 40) with
    procTag := targetTag, exitFuncAddr := 0x8000, maxEventNum := 1, nowEventNum := 2 }
  counters _ := 0

theorem interrupted_sampled : Sampled linked interrupted := ⟨by decide, rfl, by decide⟩

/-- Every `n` instructions. -/
def every (n : BitVec 64) : Globals := ⟨0, n, 0, 0, 0, 0, 0, 0⟩

theorem transparent_default :
    Transparent (fun _ => 0) clobbering ⟨0, 0⟩ (every 20000) interrupted :=
  (transparent_iff interrupted_sampled (by decide)).2 ((fits_insts).2 (by decide))

/-- **The handler is sampled before it has jumped back.** -/
theorem sampled_on_the_way_back : ¬ ∀ (g : Globals) (c : Cpu 40), Sampled linked c →
    0 < g.maxevent → Transparent (fun _ => 0) clobbering ⟨0, 0⟩ g c := by
  intro hall
  have hfit := fits_of_transparent interrupted_sampled (g := every 40) (by decide)
    (hall (every 40) interrupted interrupted_sampled (by decide))
  exact absurd ((fits_insts).1 hfit) (by decide)

end BoomStop.SelfHandle
