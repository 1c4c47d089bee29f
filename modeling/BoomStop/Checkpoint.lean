/-
  Checkpoint replay (`readckpt/`): `read_ckptinfo` restores a checkpoint and
  starts it, `init_start` arms the sampler, `sample_func` is its handler, and
  `takeoverSyscall` stands for the replaced `ecall` instructions, which jump
  through `tempReg4`.

  * the C functions under their own names, over `Replay`: the hart, with the
    memory that holds `RunningInfo`, and the C globals of `ctrl.h`;
  * `replay`: the machine of a started checkpoint: the program runs, is
    sampled, and has its system calls taken over, in any order;
  * `readCkptinfo_tempReg4`: after start-up `tempReg4` is `1`, whatever the
    checkpoint, although step 6 has just put `takeOverAddr` there;
  * `replay_ecall_lost`: it stays `1`, so that no replaced `ecall` ever
    reaches `takeOverAddr`.
-/
import BoomStop.Asm
import BoomStop.Lib.Machine

namespace BoomStop

open Sync Instr

/-! ## The linked program and its surroundings -/

/-- The addresses the linker chose.  The two labels stand before instructions,
    which RISC-V aligns to two bytes. -/
structure Image where
  tempStackMem : BitVec 64
  hpcounters : BitVec 64
  sampleFucAddr : BitVec 64
  takeOverAddr : BitVec 64
  takeOver_even : takeOverAddr.getLsbD 0 = false

/-- The rest of a file that is being read, or the bytes of a variable. -/
abbrev File := List (BitVec 8)

/-- The variables that the loader reads into without initialising them. -/
structure Fresh where
  siminfo : File
  npc : File
  memrange : File
  linfos : File
  ehdr : File
  phdr : File
  string_shdr : File
  shdr : File

/-- What the loader finds around it: whether the system grants a fixed mapping,
    where it puts the system call table, whether `malloc` has the space, and
    what is in fresh variables. -/
structure Os where
  mmapFixed : BitVec 64 → BitVec 64 → Bool
  allocVaddr : BitVec 64 → BitVec 64
  malloc : BitVec 64 → Bool
  fresh : Fresh

/-- One reading of the `cycle` and `instret` counters. -/
structure Csrs where
  cycle : BitVec 64
  instret : BitVec 64

/-- The C globals of `ctrl.h`. -/
structure Globals where
  procTag : BitVec 64
  maxevent : BitVec 64
  warmupinst : BitVec 64
  eventsel : BitVec 64
  maxperiod : BitVec 64
  sampleHapTimes : BitVec 64
  startcycle : BitVec 64
  endcycle : BitVec 64
  startinst : BitVec 64
  endinst : BitVec 64

/-- The initial values of the globals. -/
def Globals.init : Globals := ⟨0x1234567, 10000, 1000, 0, 0, 0, 0, 0, 0, 0⟩

/-- The hart and the globals. -/
structure Replay (va : ℕ) where
  cpu : Cpu va
  g : Globals

/-! ## `RunningInfo` -/

def runningInfoAddr : BitVec 64 := 0x150000
def storeIntRegAddr : BitVec 64 := 0x150028
def storeFpRegAddr : BitVec 64 := 0x150128
def oldIntRegAddr : BitVec 64 := 0x150228

namespace RunningInfo

def exitpc : BitVec 64 := runningInfoAddr
def exit_cause : BitVec 64 := runningInfoAddr + 8
def syscall_info_addr : BitVec 64 := runningInfoAddr + 16
def nowcallnum : BitVec 64 := runningInfoAddr + 24
def totalcallnum : BitVec 64 := runningInfoAddr + 32
def intregs (n : ℕ) : BitVec 64 := storeIntRegAddr + BitVec.ofNat 64 (8 * n)
def fpregs (n : ℕ) : BitVec 64 := storeFpRegAddr + BitVec.ofNat 64 (8 * n)
def cycles : BitVec 64 := runningInfoAddr + 808
def insts : BitVec 64 := runningInfoAddr + 816
def lastcycles : BitVec 64 := runningInfoAddr + 824
def lastinsts : BitVec 64 := runningInfoAddr + 832
def startcycles : BitVec 64 := runningInfoAddr + 840
def startinsts : BitVec 64 := runningInfoAddr + 848

end RunningInfo

/-- `addi x0, x3, 64`. -/
def eCall_Replace : BitVec 64 := 0x04018013
def cause_ExitInst : BitVec 64 := 2

/-- The offsets of `SyscallInfo`. -/
def syscallInfo_num : BitVec 64 := 8
def syscallInfo_p0 : BitVec 64 := 16
def syscallInfo_ret : BitVec 64 := 24
def syscallInfo_data_offset : BitVec 64 := 32
def sizeof_SyscallInfo : BitVec 64 := 40

/-- The record of the `i`-th system call of the table at `syscall_info_addr`. -/
def syscallInfo (m : Mem) (i : BitVec 64) : BitVec 64 :=
  let base := m.ld64 RunningInfo.syscall_info_addr
  let infoaddr := base + 8 + m.ld64 RunningInfo.totalcallnum * 4
  infoaddr + (m.ld32 (base + 8 + 4 * i)).setWidth 64 * sizeof_SyscallInfo

/-! ## Arming the sampler -/

namespace Replay

variable {va : ℕ}

/-- A macro executed by C code. -/
def asm (r : Replay va) (is : List Instr) : Replay va := { r with cpu := execAll is r.cpu }

/-- A C store of a 64-bit word. -/
def st64 (r : Replay va) (a v : BitVec 64) : Replay va :=
  { r with cpu := { r.cpu with mem := r.cpu.mem.st64 a v } }

/-- The memory after C code has run. -/
def setMem (r : Replay va) (m : Mem) : Replay va := { r with cpu := { r.cpu with mem := m } }

/-- `init_start`: the two lengths are only printed. -/
def initStart (r : Replay va) (img : Image) (t : Csrs)
    (_max_inst _warmup_inst max_period : BitVec 64) : Replay va :=
  let r := { r with g := { r.g with startcycle := t.cycle, startinst := t.instret } }
  let r := r.asm (save_Basic_Regs img.tempStackMem)
  let r := r.st64 (img.tempStackMem + 8 * 32) (img.tempStackMem + 8 * 2048)
  let r := r.st64 (img.tempStackMem + 8 * 33) (img.tempStackMem + 8 * 2560)
  let r := { r with g := { r.g with
    maxevent := 10000000, warmupinst := 10000000, eventsel := 0, maxperiod := max_period } }
  let r := (r.asm (setCounterLevel 0)).asm [rstPFC]
  let r := r.asm (setSampleBaseInfo r.g.procTag img.sampleFucAddr)
  let r := r.asm (setSampleCtrlReg r.g.maxevent r.g.warmupinst r.g.eventsel)
  r.asm (setPfcEnable 1)

/-- `read_counters`. -/
def readCounters (r : Replay va) (img : Image) : Replay va :=
  let r := r.asm (readCounter16 img.hpcounters 0)
  let r := r.asm (readCounter16 (img.hpcounters + 8 * 16) 16)
  let r := r.asm (readCounter16 (img.hpcounters + 8 * 32) 32)
  r.asm (readCounter16 (img.hpcounters + 8 * 48) 48)

/-- `sample_func`, entered at `__sampleFucAddr`. -/
def sampleFunc (r : Replay va) (img : Image) (t : Csrs) : Replay va :=
  let r := (r.asm (save_ALLIntRegs img.tempStackMem)).asm (load_Basic_Regs img.tempStackMem)
  let r := r.asm getExitPC
  let r := r.asm (setTempReg (r.cpu.get Reg.t0) 0)
  let r := { r with g := { r.g with
    sampleHapTimes := r.g.sampleHapTimes + 1, endcycle := t.cycle, endinst := t.instret } }
  let r := r.readCounters img
  let r := { r with g := { r.g with
    startcycle := r.g.endcycle, startinst := r.g.endinst, warmupinst := 0 } }
  let r := (r.asm [rstPFC]).asm (setPfcEnable 1)
  let r := r.asm (setSampleBaseInfo r.g.procTag img.sampleFucAddr)
  let r := r.asm (setSampleCtrlReg r.g.maxevent r.g.warmupinst r.g.eventsel)
  (r.asm (load_ALLIntRegs img.tempStackMem)).asm (jmpTempReg 0)

/-! ## The taken-over system call -/

/-- The copy loop `dst[c] = data[c]`. -/
def copyBytes (m : Mem) (dst data : BitVec 64) : ℕ → Mem
  | 0 => m
  | n + 1 =>
    let m := copyBytes m dst data n
    m.st8 (dst + BitVec.ofNat 64 n) ((m.ld8 (data + BitVec.ofNat 64 n)).setWidth 64)

/-- The memory results of a system call, when its record has any. -/
def writeResult (m : Mem) (infos : BitVec 64) : Mem :=
  let data_offset := m.ld64 (infos + syscallInfo_data_offset) >>> 8
  let base := m.ld64 RunningInfo.syscall_info_addr
  let data_size := (m.ld64 (infos + syscallInfo_num) <<< 32) >>> 32
  let bufaddr := m.ld64 (base + data_offset)
  if data_offset = 0xffffffff then m
  else if bufaddr = 0 then m
  else copyBytes m bufaddr (base + data_offset + 8) data_size.toNat

/-- The body of `takeoverSyscall` on the memory: the memory it leaves and the
    address to return to; `none` when it ends the program with `exit(0)`. -/
def takeoverMem (m : Mem) (t : Csrs) : Option (Mem × BitVec 64) :=
  let m := m.st64 RunningInfo.cycles
    (m.ld64 RunningInfo.cycles + (t.cycle - m.ld64 RunningInfo.lastcycles))
  let m := m.st64 RunningInfo.insts
    (m.ld64 RunningInfo.insts + (t.instret - m.ld64 RunningInfo.lastinsts))
  if m.ld64 RunningInfo.nowcallnum ≥ m.ld64 RunningInfo.totalcallnum then none
  else
    let infos := syscallInfo m (m.ld64 RunningInfo.nowcallnum)
    let m := m.st64 (RunningInfo.intregs 10) (m.ld64 (infos + syscallInfo_p0))
    let sysnum := m.ld64 (infos + syscallInfo_num) >>> 32
    if m.ld64 (RunningInfo.intregs 17) ≠ sysnum then none
    else
      let m := writeResult m infos
      let hasret := m.ld64 (infos + syscallInfo_data_offset) % 256
      let m := if hasret ≠ 0 then
          m.st64 (RunningInfo.intregs 10) (m.ld64 (infos + syscallInfo_ret))
        else m
      let m := m.st64 RunningInfo.nowcallnum (m.ld64 RunningInfo.nowcallnum + 1)
      let m := if m.ld64 RunningInfo.nowcallnum = m.ld64 RunningInfo.totalcallnum ∧
            m.ld64 RunningInfo.exit_cause = cause_ExitInst then
          m.st32 (m.ld64 RunningInfo.exitpc) eCall_Replace
        else m
      some (m, m.ld64 infos + 4)

/-- `takeoverSyscall`, entered at `__takeOverSys_Addr`. -/
def takeoverSyscall (r : Replay va) (t t' : Csrs) : Option (Replay va) := do
  let r := (r.asm (context_Operation sd storeIntRegAddr)).asm (load_necessary oldIntRegAddr)
  let (m, npc) ← takeoverMem r.cpu.mem t
  let r := (r.setMem m).asm (setTempReg npc 2)
  let r := (r.st64 RunningInfo.lastcycles t'.cycle).st64 RunningInfo.lastinsts t'.instret
  some ((r.asm (context_Operation ld storeIntRegAddr)).asm (jmpTempReg 2))

end Replay

/-! ## Files and mappings -/

/-- The bytes of a variable, as a memory that starts at address 0. -/
def bytes (q : File) : Mem := fun a => (q[a.toNat]?).getD 0

/-- `fread` of `n` bytes into a variable that holds `old`, of which a short
    read leaves the rest; nobody looks at the result. -/
def fread (n : ℕ) (old p : File) : File × File := (p.take n ++ old.drop (p.take n).length, p.drop n)

/-- `fread` of one 64-bit word. -/
def fread64 (old p : File) : BitVec 64 × File := ((bytes (fread 8 old p).1).ld64 0, p.drop 8)

/-- `fseek(p, off, SEEK_SET)`: a negative offset is refused, and the position,
    here after the first word, stays. -/
def fseek (file : File) (off : BitVec 64) : File :=
  if off.msb then file.drop 8 else file.drop off.toNat

/-- `fread` of all of `q` to memory. -/
def freadRest (m : Mem) (dst : BitVec 64) : File → Mem
  | [] => m
  | b :: p => freadRest (m.st8 dst (b.setWidth 64)) (dst + 1) p

/-- The pages of `n` bytes. -/
def pages (n : ℕ) : ℕ := (n + 4095) / 4096 * 4096

/-- An anonymous mapping of `n` bytes reads as zero. -/
def mmapZero (m : Mem) (addr : BitVec 64) (n : ℕ) : Mem := fun p =>
  if (p - addr).toNat < pages n then 0 else m p

/-- The memory of the loader, and where it has any. -/
structure Space where
  mem : Mem
  mapped : BitVec 64 → Bool

namespace Space

/-- The `n` bytes from `a` on are mapped. -/
def Has (s : Space) (a : BitVec 64) (n : ℕ) : Prop :=
  ∀ k < n, s.mapped (a + BitVec.ofNat 64 k) = true

instance (s : Space) (a : BitVec 64) (n : ℕ) : Decidable (s.Has a n) :=
  inferInstanceAs (Decidable (∀ k < n, _))

/-- A store of a word; where nothing is mapped it ends the program. -/
def st64 (s : Space) (a v : BitVec 64) : Option Space :=
  if s.Has a 8 then some { s with mem := s.mem.st64 a v } else none

/-- `fread` of all of `q` to memory. -/
def fread (s : Space) (dst : BitVec 64) (q : File) : Option Space :=
  if s.Has dst q.length then some { s with mem := freadRest s.mem dst q } else none

/-- `mmap` with `MAP_FIXED`, whatever was there. -/
def mmap (s : Space) (addr : BitVec 64) (n : ℕ) : Space where
  mem := mmapZero s.mem addr n
  mapped p := decide ((p - addr).toNat < pages n) || s.mapped p

theorem mmap_mapped (s : Space) (addr : BitVec 64) (n : ℕ) (p : BitVec 64) :
    (s.mmap addr n).mapped p = (decide ((p - addr).toNat < pages n) || s.mapped p) := rfl

end Space

/-! ## Reading the checkpoint file -/

/-- A range of addresses. -/
structure MemRangeInfo where
  addr : BitVec 64
  size : BitVec 64
  deriving DecidableEq

/-- The structure in the bytes of the variable. -/
def MemRangeInfo.ofBytes (memrange : File) : MemRangeInfo :=
  ⟨(bytes memrange).ld64 0, (bytes memrange).ld64 8⟩

/-- A word that the program loads before it stores to it. -/
structure LoadInfo where
  addr : BitVec 64
  data : BitVec 64
  deriving DecidableEq

/-- The loop of `alloc_memrange`; `none` when its assertion fails. -/
def allocRanges (os : Os) (s : Space) (memrange : File) : ℕ → File → Option (Space × File)
  | 0, p => some (s, p)
  | n + 1, p =>
    let (memrange, p) := fread 16 memrange p
    let r := MemRangeInfo.ofBytes memrange
    if r.size = 0 then allocRanges os s memrange n p
    else if os.mmapFixed r.addr r.size then
      allocRanges os (s.mmap r.addr r.size.toNat) memrange n p
    else none

/-- `alloc_memrange`. -/
def alloc_memrange (os : Os) (s : Space) (p : File) : Option (Space × File) :=
  let (mrange_num, p) := fread64 [] p
  allocRanges os s os.fresh.memrange mrange_num.toNat p

/-- The array `linfos` as it is read, of `n` records. -/
def loadInfos (linfos : File) (n : ℕ) : List LoadInfo := (List.range n).map fun j =>
  ⟨(bytes linfos).ld64 (BitVec.ofNat 64 (16 * j)), (bytes linfos).ld64 (BitVec.ofNat 64 (16 * j + 8))⟩

/-- The loop of `setFistLoad`. -/
def storeLoads (s : Space) : List LoadInfo → Option Space
  | [] => some s
  | l :: ls => do
    let s ← s.st64 l.addr l.data
    storeLoads s ls

/-- `setFistLoad`: without an array, or with one whose size has overflowed, the
    loop ends the program. -/
def setFistLoad (os : Os) (s : Space) (p : File) : Option (Space × File) :=
  let (loadnum, p) := fread64 [] p
  let (linfos, p) := fread (16 * loadnum.toNat) os.fresh.linfos p
  if loadnum = 0 ∨ 16 * loadnum.toNat < 2 ^ 64 ∧ os.malloc (16 * loadnum) then do
    let s ← storeLoads s (loadInfos linfos loadnum.toNat)
    some (s, p)
  else none

/-- The loop that replaces the `ecall` of every system call of the table once,
    `i` the next index of `sysidxs`. -/
def replaceEcalls (m : Mem) (i : BitVec 64) (rep_idxs : List (BitVec 32)) : ℕ → Mem
  | 0 => m
  | n + 1 =>
    let idx := m.ld32 (m.ld64 RunningInfo.syscall_info_addr + 8 + 4 * i)
    if idx ∈ rep_idxs then replaceEcalls m (i + 1) rep_idxs n
    else
      let m := m.st32 (m.ld64 (syscallInfo m i)) eCall_Replace
      replaceEcalls m (i + 1) (idx :: rep_idxs) n

/-- `allocsize`: whole pages, with one more than the file needs where it ends
    at a page. -/
def allocsize (p : File) : BitVec 64 :=
  let filesize := BitVec.ofNat 64 p.length
  filesize + (4096 - filesize % 4096)

/-- `read_ckptsyscall`: the rest of the file is the system call table. -/
def read_ckptsyscall (os : Os) (m : Mem) (p : File) : Mem :=
  let alloc_vaddr := os.allocVaddr (allocsize p)
  let m := mmapZero m alloc_vaddr (allocsize p).toNat
  let m := freadRest m alloc_vaddr p
  let m := m.st64 RunningInfo.syscall_info_addr alloc_vaddr
  let m := m.st64 RunningInfo.nowcallnum 0
  let m := m.st64 RunningInfo.totalcallnum (m.ld64 alloc_vaddr)
  replaceEcalls m 0 [] (m.ld64 RunningInfo.totalcallnum).toNat

/-- What `read_ckptinfo` keeps in local variables. -/
structure SimInfo where
  npc : BitVec 64
  simNum : BitVec 64
  warmup : BitVec 64
  runLength : BitVec 64

/-- Steps 1 and 2 of `read_ckptinfo`, with the rest of the file. -/
def ckptHead (os : Os) (s : Space) (file : File) : Option (SimInfo × Space × File) := do
  let (temp, _) := fread64 [] file
  let p := fseek file (16 * temp + 8)
  let (siminfo, p) := fread 32 os.fresh.siminfo p
  let simNum := (bytes siminfo).ld64 8
  let exit_cause := (bytes siminfo).ld64 24
  let s ← s.st64 RunningInfo.exit_cause (exit_cause % 4)
  let s ← s.st64 RunningInfo.exitpc ((bytes siminfo).ld64 16)
  let (npc, p) := fread64 os.fresh.npc p
  let s ← s.fread (RunningInfo.intregs 0) (p.take 256)
  let p := p.drop 256
  let s ← s.fread (RunningInfo.fpregs 0) (p.take 256)
  some ({ npc, simNum := simNum <<< 32 >>> 32, warmup := simNum >>> 32,
          runLength := exit_cause >>> 2 }, s, p.drop 256)

/-- Step 5: the system call table, and the exit instruction of a checkpoint
    without system calls. -/
def step5 (os : Os) (m : Mem) (p : File) : Mem :=
  let m := read_ckptsyscall os m p
  if m.ld64 RunningInfo.totalcallnum = 0 ∧ m.ld64 RunningInfo.exit_cause = cause_ExitInst then
    m.st32 (m.ld64 RunningInfo.exitpc) eCall_Replace
  else m

/-- `fseek` goes past the end of the file. -/
def pastEnd (file : File) : Prop :=
  let off := 16 * (fread64 [] file).1 + 8
  off.msb = false ∧ file.length < off.toNat

instance (file : File) : Decidable (pastEnd file) := inferInstanceAs (Decidable (_ ∧ _))

/-- Steps 1 to 5 of `read_ckptinfo`: the locals, and the memory they leave. -/
def loadCkpt (os : Os) (s : Space) (file : File) : Option (SimInfo × Mem) := do
  let (info, s, p) ← ckptHead os s file
  let (s, p) ← alloc_memrange os s p
  let (s, p) ← setFistLoad os s p
  -- the rest of the file has a negative size, for which there is no mapping
  if pastEnd file then none else some (info, step5 os s.mem p)

namespace Replay

variable {va : ℕ}

/-- Step 6: the start address and the hook. -/
def step6 (r : Replay va) (img : Image) (npc : BitVec 64) : Replay va :=
  (r.asm (setTempReg npc 2)).asm (setTempReg img.takeOverAddr 3)

/-- The two calls of `init_start`: a checkpoint without a run length warms up
    for a twentieth of the simulated instructions. -/
def initLength (r : Replay va) (img : Image) (t : Csrs) (info : SimInfo) : Replay va :=
  if info.runLength ≠ 0 then r.initStart img t info.runLength info.warmup 1
  else r.initStart img t (info.simNum - info.simNum / 20) (info.simNum / 20) 1

/-- Steps 7 to 9: save the loader's registers, arm the sampler, load the
    program's registers and jump to it. -/
def step789 (r : Replay va) (img : Image) (t : Csrs) (info : SimInfo) : Replay va :=
  let r := r.asm (context_Operation sd oldIntRegAddr)
  let r := (r.st64 RunningInfo.cycles 0).st64 RunningInfo.insts 0
  let r := (r.st64 RunningInfo.lastcycles t.cycle).st64 RunningInfo.lastinsts t.instret
  let r := (r.st64 RunningInfo.startcycles t.cycle).st64 RunningInfo.startinsts t.instret
  let r := r.initLength img t info
  let r := r.asm (context_Operation fld storeFpRegAddr)
  (r.asm (context_Operation ld storeIntRegAddr)).asm (jmpTempReg 2)

/-- `read_ckptinfo`, from memory that is `mapped`; `none` for a file it does not
    accept. -/
def readCkptinfo (r : Replay va) (img : Image) (os : Os) (mapped : BitVec 64 → Bool) (t : Csrs)
    (file : File) : Option (Replay va) := do
  let (info, m) ← loadCkpt os ⟨r.cpu.mem, mapped⟩ file
  some (((r.setMem m).step6 img info.npc).step789 img t info)

/-! ## Replay -/

/-- What happens to a started checkpoint. -/
inductive Act (va : ℕ)
  /-- the program's own instructions, of which none is a custom one, and the
      counting of the hardware -/
  | program (c : Cpu va)
  /-- a sample -/
  | sample (t : Csrs)
  /-- a taken-over system call -/
  | takeover (t t' : Csrs)

/-- A started checkpoint, until it exits. -/
def replay (img : Image) (os : Os) : Machine (Replay va) (Act va) where
  start r := ∃ (r₀ : Replay va) (mapped : BitVec 64 → Bool) (t : Csrs) (file : File),
    r₀.readCkptinfo img os mapped t file = some r
  ok r
    | .program c => c.ucsr.tempReg1 = r.cpu.ucsr.tempReg1 ∧ c.ucsr.tempReg2 = r.cpu.ucsr.tempReg2 ∧
        c.ucsr.tempReg3 = r.cpu.ucsr.tempReg3 ∧ c.ucsr.tempReg4 = r.cpu.ucsr.tempReg4
    | .sample _ => True
    | .takeover t t' => (r.takeoverSyscall t t').isSome
  next r
    | .program c => { r with cpu := c }
    | .sample t => r.sampleFunc img t
    | .takeover t t' => (r.takeoverSyscall t t').getD r

/-- The word put in place of an `ecall`, executed. -/
def ecall (c : Cpu va) : Cpu va :=
  c.custom (eCall_Replace.extractLsb' 15 5) (eCall_Replace.extractLsb' 20 12)

/-- A replaced `ecall` jumps through `tempReg4`. -/
theorem ecall_pc (c : Cpu va) : (ecall c).pc = c.ucsr.tempReg4 := rfl

@[simp] theorem st64_ucsr (r : Replay va) (a v : BitVec 64) :
    (r.st64 a v).cpu.ucsr = r.cpu.ucsr := rfl

@[simp] theorem setMem_ucsr (r : Replay va) (m : Mem) :
    (r.setMem m).cpu.ucsr = r.cpu.ucsr := rfl

theorem asm_tempReg4 {is : List Instr} (h : ∀ i ∈ is, i.writesTemp4 = false) (r : Replay va) :
    (r.asm is).cpu.ucsr.tempReg4 = r.cpu.ucsr.tempReg4 := execAll_tempReg4 h r.cpu

theorem asm_setSampleCtrlReg (r : Replay va) (maxevent warmupinst eventsel : BitVec 64) :
    (r.asm (setSampleCtrlReg maxevent warmupinst eventsel)).cpu.ucsr.tempReg4 = 1 :=
  setSampleCtrlReg_tempReg4 maxevent warmupinst eventsel r.cpu

/-- `init_start` overwrites the hook: `SetSampleCtrlReg` does, and what comes
    after it keeps its value. -/
theorem initStart_tempReg4 (r : Replay va) (img : Image) (t : Csrs)
    (max_inst warmup_inst max_period : BitVec 64) :
    (r.initStart img t max_inst warmup_inst max_period).cpu.ucsr.tempReg4 = 1 := by
  unfold initStart
  extract_lets
  rw [asm_tempReg4 (by decide), asm_setSampleCtrlReg]

theorem step789_tempReg4 (r : Replay va) (img : Image) (t : Csrs) (info : SimInfo) :
    (r.step789 img t info).cpu.ucsr.tempReg4 = 1 := by
  unfold step789
  extract_lets
  rw [asm_tempReg4 (by decide), asm_tempReg4 (context_Operation_writes fun _ _ _ => rfl),
    asm_tempReg4 (context_Operation_writes fun _ _ _ => rfl)]
  change (initLength _ img t info).cpu.ucsr.tempReg4 = 1
  unfold initLength
  split_ifs <;> exact initStart_tempReg4 ..

theorem readCkptinfo_tempReg4 {r₀ r : Replay va} {img : Image} {os : Os}
    {mapped : BitVec 64 → Bool} {t : Csrs} {file : File}
    (h : r₀.readCkptinfo img os mapped t file = some r) : r.cpu.ucsr.tempReg4 = 1 := by
  unfold readCkptinfo at h
  obtain ⟨⟨info, m⟩, -, h⟩ := Option.bind_eq_some_iff.1 h
  obtain rfl := Option.some.inj h
  exact step789_tempReg4 ..

/-- The handler arms the sampler the same way. -/
theorem sampleFunc_tempReg4 (r : Replay va) (img : Image) (t : Csrs) :
    (r.sampleFunc img t).cpu.ucsr.tempReg4 = 1 := by
  have hload : ∀ i ∈ load_ALLIntRegs img.tempStackMem, i.writesTemp4 = false := by
    simp only [load_ALLIntRegs, List.mem_append]
    rintro i ((hi | hi) | hi)
    · rw [List.mem_singleton.1 hi]; rfl
    · exact regs_Operations_writes (fun _ _ _ => rfl) i hi
    · rw [List.mem_singleton.1 hi]; rfl
  unfold sampleFunc
  extract_lets
  rw [asm_tempReg4 (by decide), asm_tempReg4 hload, asm_setSampleCtrlReg]

/-- The taken-over system call leaves `tempReg4` alone. -/
theorem takeoverSyscall_tempReg4 {r r' : Replay va} {t t' : Csrs}
    (h : r.takeoverSyscall t t' = some r') : r'.cpu.ucsr.tempReg4 = r.cpu.ucsr.tempReg4 := by
  unfold takeoverSyscall at h
  obtain ⟨⟨m, npc⟩, -, h⟩ := Option.bind_eq_some_iff.1 h
  obtain rfl := Option.some.inj h
  rw [asm_tempReg4 (by decide), asm_tempReg4 (context_Operation_writes fun _ _ _ => rfl),
    st64_ucsr, st64_ucsr, asm_tempReg4 (setTempReg_writes (by decide)), setMem_ucsr,
    asm_tempReg4 (by decide), asm_tempReg4 (context_Operation_writes fun _ _ _ => rfl)]

theorem replay_tempReg4 {img : Image} {os : Os} {r : Replay va} (h : (replay img os).Reach r) :
    r.cpu.ucsr.tempReg4 = 1 := by
  refine h.inv (P := fun r => r.cpu.ucsr.tempReg4 = 1) ?_ ?_
  · rintro r ⟨r₀, mapped, t, file, hr⟩
    exact readCkptinfo_tempReg4 hr
  · rintro r (c | t | ⟨t, t'⟩) hr hok
    · exact hok.2.2.2.trans hr
    · exact sampleFunc_tempReg4 r img t
    · obtain ⟨r', hr'⟩ := Option.isSome_iff_exists.1 (show (r.takeoverSyscall t t').isSome from hok)
      simp only [replay, hr', Option.getD_some]
      exact (takeoverSyscall_tempReg4 hr').trans hr

/-- **No replaced `ecall` of any replayed checkpoint reaches `takeOverAddr`**:
    the hook is gone before the program starts, and every replaced `ecall`
    jumps to address `1`. -/
theorem replay_ecall_lost {img : Image} {os : Os} {r : Replay va} (h : (replay img os).Reach r) :
    r.cpu.ucsr.tempReg4 ≠ img.takeOverAddr ∧ (ecall r.cpu).pc = 1 ∧
      (ecall r.cpu).pc ≠ img.takeOverAddr := by
  have hne : (1 : BitVec 64) ≠ img.takeOverAddr := by
    intro he
    have heven := img.takeOver_even
    rw [← he] at heven
    exact absurd heven (by decide)
  rw [ecall_pc, replay_tempReg4 h]
  exact ⟨hne, rfl, hne⟩

/-- A linked loader; the labels stand where the committed binary has them. -/
def sampleImage : Image := ⟨0x7dd00, 0x85d00, 0x1107c, 0x10726, rfl⟩

/-- An operating system that grants every request where it is asked to, and
    leaves nothing in memory. -/
def sampleOs : Os :=
  ⟨fun _ _ => true, fun _ => 0x2000000, fun _ => true, ⟨[], [], [], [], [], [], [], []⟩⟩

/-- `RunningInfo`, and the page of the program. -/
def sampleMapped (a : BitVec 64) : Bool :=
  decide ((a - runningInfoAddr).toNat < 8192) || decide ((a - 0x200000).toNat < 4096)

/-- A word in a file. -/
def le64 (v : BitVec 64) : File := (List.range 8).map fun i => v.extractLsb' (8 * i) 8

/-- A checkpoint without memory ranges or loads, all registers zero, with one
    recorded call: number 64, at `0x200010`. -/
def callCkpt : File :=
  (List.replicate 568 0 : File) ++ le64 0 ++ le64 1 ++ (List.replicate 4 0 : File) ++ le64 0x200010 ++
    le64 (64 <<< 32) ++ le64 1 ++ le64 7 ++ le64 (0xffffffff <<< 8 ||| 1)

/-- The loader before it reads the file. -/
def loader : Replay 40 := ⟨⟨fun _ => 0, fun _ => 0, fun _ => 0, 0, .reset, fun _ => 0⟩, .init⟩

/-- It is accepted, and the instruction of its call is replaced. -/
theorem readCkptinfo_callCkpt :
    ∃ r, loader.readCkptinfo sampleImage sampleOs sampleMapped ⟨0, 0⟩ callCkpt = some r ∧
      r.cpu.mem.ld32 0x200010 = eCall_Replace.setWidth 32 := by
  have hpatch : (loader.readCkptinfo sampleImage sampleOs sampleMapped ⟨0, 0⟩ callCkpt).map
      (fun r => r.cpu.mem.ld32 0x200010) = some (eCall_Replace.setWidth 32) := by
    decide +kernel
  exact Option.map_eq_some_iff.1 hpatch

/-- The call of `callCkpt`, after a sample. -/
theorem replay_ecall_lost_call :
    ∃ r : Replay 40,
      loader.readCkptinfo sampleImage sampleOs sampleMapped ⟨0, 0⟩ callCkpt = some r ∧
      r.cpu.mem.ld32 0x200010 = eCall_Replace.setWidth 32 ∧
      (r.sampleFunc sampleImage ⟨0, 0⟩).cpu.ucsr.tempReg4 ≠ sampleImage.takeOverAddr ∧
      (ecall (r.sampleFunc sampleImage ⟨0, 0⟩).cpu).pc = 1 ∧
      (ecall (r.sampleFunc sampleImage ⟨0, 0⟩).cpu).pc ≠ sampleImage.takeOverAddr := by
  obtain ⟨r, hr, hpatch⟩ := readCkptinfo_callCkpt
  have hreach : (replay sampleImage sampleOs).Reach r :=
    .start ⟨loader, sampleMapped, ⟨0, 0⟩, callCkpt, hr⟩
  have hok : (replay sampleImage sampleOs).ok r (.sample ⟨0, 0⟩) := trivial
  exact ⟨r, hr, hpatch, replay_ecall_lost (hreach.step hok)⟩

/-- Its hook is lost during start-up. -/
theorem hook_not_kept :
    ¬ ∀ (img : Image) (os : Os) (r : Replay 40), (replay img os).Reach r →
      r.cpu.ucsr.tempReg4 = img.takeOverAddr ∧ (ecall r.cpu).pc = img.takeOverAddr := by
  intro h
  obtain ⟨r, hr, -⟩ := readCkptinfo_callCkpt
  have hreach : (replay sampleImage sampleOs).Reach r :=
    .start ⟨loader, sampleMapped, ⟨0, 0⟩, callCkpt, hr⟩
  have hhook := (h sampleImage sampleOs r hreach).1
  rw [replay_tempReg4 hreach] at hhook
  exact absurd hhook (by decide)

end Replay

end BoomStop
