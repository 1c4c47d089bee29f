/-
  The replay of recorded system calls: the table that `read_ckptsyscall` puts
  in memory, and the calls `takeoverSyscall` answers from it.

  * `SysTable`: the table as the file has it, decoded independently of where
    it is loaded; `SysTable.Wf`: every record and result block lies inside;
  * `Replayed`: what a replayed call does to registers, memory and control;
  * `session`: a started checkpoint whose program runs and makes system calls;
  * `Ready`: what the loader's memory holds after `calls` of them, kept by
    every step;
  * `calls_replayed`: the `i`-th call is answered from record `sysidxs[i]`.
-/
import BoomStop.Restore

namespace BoomStop

open Sync Instr Cpu Replay

variable {va : ℕ}

/-! ## The table in the file -/

/-- The fields of `SyscallInfo`. -/
structure SyscallInfo where
  pc : BitVec 64
  num : BitVec 64
  p0 : BitVec 64
  ret : BitVec 64
  data_offset : BitVec 64

namespace SyscallInfo

/-- The number of the call. -/
def sysnum (info : SyscallInfo) : BitVec 64 := info.num >>> 32

/-- The bytes of the result block. -/
def data_size (info : SyscallInfo) : BitVec 64 := (info.num <<< 32) >>> 32

/-- Where the result block is in the table. -/
def offset (info : SyscallInfo) : BitVec 64 := info.data_offset >>> 8

/-- The call has a result of its own. -/
def hasret (info : SyscallInfo) : Prop := info.data_offset % 256 ≠ 0

instance (info : SyscallInfo) : Decidable info.hasret := inferInstanceAs (Decidable (_ ≠ _))

/-- What `a0` is after the call. -/
def result (info : SyscallInfo) : BitVec 64 := if info.hasret then info.ret else info.p0

end SyscallInfo

/-- The bytes a call leaves in the memory of the program. -/
structure Block where
  addr : BitVec 64
  data : File
  deriving DecidableEq

/-- The block in memory. -/
def Block.write (b : Block) (m : Mem) : Mem := fun a => (b.data[(a - b.addr).toNat]?).getD (m a)

/-- The rest of a checkpoint file after the first loads. -/
abbrev SysTable := File

namespace SysTable

variable (p : SysTable)

/-- The table read like a memory that starts at address 0. -/
def mem : Mem := bytes p

/-- The number of calls. -/
def totalcallnum : BitVec 64 := (mem p).ld64 0

/-- `sysidxs[i]`. -/
def sysidx (i : ℕ) : BitVec 32 := (mem p).ld32 (8 + 4 * BitVec.ofNat 64 i)

/-- Where record `sysidxs[i]` starts. -/
def infoOff (i : ℕ) : BitVec 64 :=
  8 + totalcallnum p * 4 + (sysidx p i).setWidth 64 * sizeof_SyscallInfo

/-- The record of the `i`-th call. -/
def info (i : ℕ) : SyscallInfo where
  pc := (mem p).ld64 (infoOff p i)
  num := (mem p).ld64 (infoOff p i + syscallInfo_num)
  p0 := (mem p).ld64 (infoOff p i + syscallInfo_p0)
  ret := (mem p).ld64 (infoOff p i + syscallInfo_ret)
  data_offset := (mem p).ld64 (infoOff p i + syscallInfo_data_offset)

/-- The result block of the `i`-th call. -/
def block (i : ℕ) : Option Block :=
  let off := (info p i).offset
  let bufaddr := (mem p).ld64 off
  if off = 0xffffffff ∨ bufaddr = 0 then none
  else some ⟨bufaddr, (p.drop (off.toNat + 8)).take (info p i).data_size.toNat⟩

/-- A table whose indices, records and result blocks lie inside it. -/
structure Wf : Prop where
  len : p.length < 2 ^ 63
  idxs : 8 + 4 * (totalcallnum p).toNat ≤ p.length
  infos : ∀ i < (totalcallnum p).toNat,
    8 + 4 * (totalcallnum p).toNat + 40 * ((sysidx p i).toNat + 1) ≤ p.length
  bufaddr : ∀ i < (totalcallnum p).toNat, (info p i).offset ≠ 0xffffffff →
    (info p i).offset.toNat + 8 ≤ p.length
  data : ∀ i < (totalcallnum p).toNat, ∀ b, block p i = some b →
    (info p i).offset.toNat + 8 + (info p i).data_size.toNat ≤ p.length

end SysTable

/-! ## The memory of the loader -/

/-- The loader's memory: `RunningInfo` and the table. -/
def Loader (base : BitVec 64) (p : SysTable) (a : BitVec 64) : Prop :=
  (a - runningInfoAddr).toNat < 8192 ∨ (a - base).toNat < p.length

/-- How the program leaves a checkpoint: the instruction at `exitpc`, and why. -/
structure Exit where
  pc : BitVec 64
  cause : BitVec 64

/-- The table is at `base`. -/
def TableAt (base : BitVec 64) (p : SysTable) (m : Mem) : Prop :=
  ∀ k : BitVec 64, k.toNat < p.length → m (base + k) = p.mem k

/-- The loader's memory after `i` calls. -/
structure Ready (base : BitVec 64) (p : SysTable) (e : Exit) (i : ℕ) (m : Mem) : Prop where
  exitpc : m.ld64 RunningInfo.exitpc = e.pc
  exit_cause : m.ld64 RunningInfo.exit_cause = e.cause
  syscall_info_addr : m.ld64 RunningInfo.syscall_info_addr = base
  nowcallnum : m.ld64 RunningInfo.nowcallnum = BitVec.ofNat 64 i
  totalcallnum : m.ld64 RunningInfo.totalcallnum = p.totalcallnum
  table : TableAt base p m

/-- The exit instruction is replaced after the last call. -/
def exitPatch (p : SysTable) (e : Exit) (i : ℕ) (m : Mem) : Mem :=
  if i = p.totalcallnum.toNat ∧ e.cause = cause_ExitInst then m.st32 e.pc eCall_Replace else m

/-- The `i`-th call, replayed: `c` before, `c'` after it. -/
structure Replayed (base : BitVec 64) (p : SysTable) (e : Exit) (i : ℕ) (c c' : Cpu va) : Prop where
  mem : ∀ a, ¬ Loader base p a →
    c'.mem a = exitPatch p e (i + 1) ((p.block i).elim c.mem fun b => b.write c.mem) a
  a0 : c'.get Reg.a0 = (p.info i).result
  regs : ∀ r, r ≠ Reg.a0 → c'.get r = c.get r
  pc : c'.pc = (p.info i).pc + 4

/-- What the program and its system calls touch is not the loader's. -/
structure Clear (base : BitVec 64) (p : SysTable) (e : Exit) : Prop where
  table : ∀ a, (a - base).toNat < p.length → 8192 ≤ (a - runningInfoAddr).toNat
  pcs : ∀ i < p.totalcallnum.toNat, ∀ a, (a - (p.info i).pc).toNat < 4 → ¬ Loader base p a
  exitpc : e.cause = cause_ExitInst → ∀ a, (a - e.pc).toNat < 4 → ¬ Loader base p a
  blocks : ∀ i < p.totalcallnum.toNat, ∀ b, p.block i = some b →
    ∀ a, (a - b.addr).toNat < b.data.length → ¬ Loader base p a

/-! ## A view of the loader's memory -/

/-- `RunningInfo` as an array of words, the table, and everything else. -/
structure View (base : BitVec 64) (p : SysTable) (m : Mem) (w : ℕ → BitVec 64) (o : Mem) :
    Prop where
  words : ∀ j < 1024, m.ld64 (Mem.slot runningInfoAddr j) = w j
  table : TableAt base p m
  out : ∀ a, ¬ Loader base p a → m a = o a

section

variable {base : BitVec 64} {p : SysTable} {e : Exit} {m : Mem} {w : ℕ → BitVec 64} {o : Mem}

/-- A word of `RunningInfo` lies in its mapping. -/
theorem slot_info {j : ℕ} (hj : j < 1024) {k : BitVec 64} (hk : k.toNat < 8) :
    (Mem.slot runningInfoAddr j + k - runningInfoAddr).toNat < 8192 := by
  unfold Mem.slot
  bv_omega

theorem table_loader {k : BitVec 64} (hk : k.toNat < p.length) : Loader base p (base + k) := by
  refine .inr ?_
  rwa [BitVec.add_comm, BitVec.add_sub_cancel]

theorem TableAt.view (h : TableAt base p m) :
    View base p m (fun j => m.ld64 (Mem.slot runningInfoAddr j)) m :=
  ⟨fun _ _ => rfl, h, fun _ _ => rfl⟩

/-- A write outside the loader's memory. -/
theorem View.outside (h : View base p m w o) {m' o' : Mem}
    (hin : ∀ a, Loader base p a → m' a = m a) (hout : ∀ a, ¬ Loader base p a → m' a = o' a) :
    View base p m' w o' where
  words j hj := (Mem.ld64_congr fun _ hk => hin _ (.inl (slot_info hj hk))).trans (h.words j hj)
  table k hk := (hin _ (table_loader hk)).trans (h.table k hk)
  out := hout

/-- A store to a word of `RunningInfo`. -/
theorem View.st64 (hc : Clear base p e) (h : View base p m w o) {k : ℕ} (hk : k < 1024)
    (v : BitVec 64) :
    View base p (m.st64 (Mem.slot runningInfoAddr k) v) (Function.update w k v) o := by
  have hfar : ∀ a, 8192 ≤ (a - runningInfoAddr).toNat →
      m.st64 (Mem.slot runningInfoAddr k) v a = m a := by
    intro a ha
    refine Mem.store_of_le ?_
    unfold Mem.slot
    bv_omega
  refine ⟨fun j hj => ?_, fun x hx => ?_, fun a ha => ?_⟩
  · by_cases hjk : j = k
    · subst hjk
      rw [Mem.ld64_st64_same, Function.update_self]
    · rw [Mem.ld64_st64_apart _ _ (Mem.slot_apart _ hj hk hjk), h.words j hj,
        Function.update_of_ne hjk]
  · rw [hfar _ (hc.table _ ?_), h.table x hx]
    rwa [BitVec.add_comm, BitVec.add_sub_cancel]
  · rw [hfar _ (Nat.le_of_not_lt fun hin => ha (.inl hin)), h.out a ha]

/-! ### Reading the table -/

theorem TableAt.ld32 (h : TableAt base p m) {k : BitVec 64} (hk : k.toNat + 4 ≤ p.length)
    (hlen : p.length < 2 ^ 63) : m.ld32 (base + k) = p.mem.ld32 k := by
  refine Mem.ld32_congr fun x hx => ?_
  rw [BitVec.add_assoc]
  exact h (k + x) (by bv_omega)

theorem TableAt.ld64 (h : TableAt base p m) {k : BitVec 64} (hk : k.toNat + 8 ≤ p.length)
    (hlen : p.length < 2 ^ 63) : m.ld64 (base + k) = p.mem.ld64 k := by
  refine Mem.ld64_congr fun x hx => ?_
  rw [BitVec.add_assoc]
  exact h (k + x) (by bv_omega)

namespace SysTable

theorem infoOff_toNat (hp : p.Wf) {i : ℕ} (hi : i < p.totalcallnum.toNat) :
    (p.infoOff i).toNat = 8 + 4 * p.totalcallnum.toNat + 40 * (p.sysidx i).toNat := by
  have hidx := hp.infos i hi
  have hlen := hp.len
  have hsize : sizeof_SyscallInfo.toNat = 40 := rfl
  have hext : ((p.sysidx i).setWidth 64).toNat = (p.sysidx i).toNat := by
    rw [BitVec.toNat_setWidth]
    exact Nat.mod_eq_of_lt (by omega)
  rw [infoOff, BitVec.toNat_add, BitVec.toNat_add, BitVec.toNat_mul, BitVec.toNat_mul, hext, hsize]
  change (((8 + p.totalcallnum.toNat * 4 % 2 ^ 64) % 2 ^ 64 + _) % 2 ^ 64) = _
  omega

/-- A field of a record. -/
theorem ld64_info (hp : p.Wf) (h : TableAt base p m) {i : ℕ} (hi : i < p.totalcallnum.toNat)
    {k : BitVec 64} (hk : k.toNat ≤ 32) :
    m.ld64 (base + p.infoOff i + k) = p.mem.ld64 (p.infoOff i + k) := by
  have hoff := infoOff_toNat hp hi
  have hidx := hp.infos i hi
  have hlen := hp.len
  rw [BitVec.add_assoc]
  exact h.ld64 (by bv_omega) hlen

end SysTable

/-! ## The handler -/

/-- The copy loop, to a place apart from its source. -/
theorem copyBytes_apply {dst data : BitVec 64} {N : ℕ} (hN : N ≤ 2 ^ 63)
    (hapart : ∀ k < N, N ≤ (data + BitVec.ofNat 64 k - dst).toNat) {n : ℕ} (hn : n ≤ N)
    (a : BitVec 64) :
    copyBytes m dst data n a = if (a - dst).toNat < n then m (data + (a - dst)) else m a := by
  induction n generalizing a with
  | zero => exact (if_neg (Nat.not_lt_zero _)).symm
  | succ n ih =>
    have hread : (copyBytes m dst data n).ld8 (data + BitVec.ofNat 64 n) =
        m (data + BitVec.ofNat 64 n) := by
      have hfar := hapart n (by omega)
      rw [Mem.ld8, ih (by omega), if_neg (by omega)]
    rw [copyBytes, hread]
    by_cases ha : a = dst + BitVec.ofNat 64 n
    · have hsub : a - dst = BitVec.ofNat 64 n := by rw [ha, BitVec.add_comm, BitVec.add_sub_cancel]
      have hlt : (a - dst).toNat < n + 1 := by
        rw [hsub, BitVec.toNat_ofNat]
        omega
      rw [if_pos hlt, hsub, ha, Mem.st8, Mem.store_of_lt (by rw [BitVec.sub_self]; decide),
        BitVec.sub_self]
      ext i hi
      simp [BitVec.getLsbD_eq_getElem hi, show i < 64 by omega]
    · have hne : 1 ≤ (a - (dst + BitVec.ofNat 64 n)).toNat := by bv_omega
      rw [Mem.st8, Mem.store_of_le hne, ih (by omega)]
      refine if_congr ?_ rfl rfl
      have hn' : (a - dst).toNat ≠ n := by bv_omega
      omega

namespace SysTable

/-- The record of the `i`-th call, where the handler looks for it. -/
theorem syscallInfo_eq (hp : p.Wf) (h : View base p m w o) (hbase : w 2 = base)
    (htotal : w 4 = p.totalcallnum) {i : ℕ} (hi : i < p.totalcallnum.toNat) :
    syscallInfo m (BitVec.ofNat 64 i) = base + p.infoOff i := by
  have h2 : m.ld64 RunningInfo.syscall_info_addr = base := (h.words 2 (by decide)).trans hbase
  have h4 : m.ld64 RunningInfo.totalcallnum = p.totalcallnum := (h.words 4 (by decide)).trans htotal
  have hidxs := hp.idxs
  have hlen := hp.len
  have hidx : m.ld32 (base + 8 + 4 * BitVec.ofNat 64 i) = p.sysidx i := by
    rw [BitVec.add_assoc]
    exact h.table.ld32 (by bv_omega) hlen
  simp only [syscallInfo, h2, h4, hidx]
  simp only [infoOff, BitVec.add_assoc]

/-- The memory results are those of the block. -/
theorem writeResult_view (hp : p.Wf) (hc : Clear base p e) (h : View base p m w o)
    (hbase : w 2 = base) {i : ℕ} (hi : i < p.totalcallnum.toNat) :
    View base p (writeResult m (base + p.infoOff i)) w ((p.block i).elim o fun b => b.write o) := by
  have h2 : m.ld64 RunningInfo.syscall_info_addr = base := (h.words 2 (by decide)).trans hbase
  have hoff : m.ld64 (base + p.infoOff i + syscallInfo_data_offset) = (p.info i).data_offset :=
    ld64_info hp h.table hi (by decide)
  have hnum : m.ld64 (base + p.infoOff i + syscallInfo_num) = (p.info i).num :=
    ld64_info hp h.table hi (by decide)
  have hlen := hp.len
  simp only [writeResult, h2, hoff, hnum]
  change View base p (if (p.info i).offset = 0xffffffff then m else if
    m.ld64 (base + (p.info i).offset) = 0 then m else copyBytes m (m.ld64 (base + (p.info i).offset))
      (base + (p.info i).offset + 8) (p.info i).data_size.toNat) w _
  by_cases hnone : (p.info i).offset = 0xffffffff
  · have hb : p.block i = none := by simp only [block, hnone, true_or, if_true]
    rw [if_pos hnone, hb]
    exact h
  · have hin := hp.bufaddr i hi hnone
    rw [if_neg hnone, h.table.ld64 hin hlen]
    by_cases hzero : p.mem.ld64 (p.info i).offset = 0
    · have hb : p.block i = none := by simp only [block, hzero, or_true, if_true]
      rw [if_pos hzero, hb]
      exact h
    · rw [if_neg hzero]
      set addr := p.mem.ld64 (p.info i).offset with haddr
      set off := (p.info i).offset with hoff'
      set size := (p.info i).data_size.toNat with hsize
      have hb : p.block i = some ⟨addr, (p.drop (off.toNat + 8)).take size⟩ := by
        simp only [block, ← hoff', ← haddr, ← hsize, hnone, hzero, or_self, if_false]
      have hdata : off.toNat + 8 + size ≤ p.length := hp.data i hi _ hb
      have hlength : ((p.drop (off.toNat + 8)).take size).length = size := by
        rw [List.length_take, List.length_drop]
        omega
      have hout : ∀ a, (a - addr).toNat < size → ¬ Loader base p a :=
        fun a ha => hc.blocks i hi _ hb a (hlength.symm ▸ ha)
      have hsource : ∀ k : BitVec 64, k.toNat < size →
          (off + 8 + k).toNat = off.toNat + 8 + k.toNat := fun k hk => by bv_omega
      have hcopy := @copyBytes_apply m addr (base + off + 8) size (by omega)
        (fun k hk => Nat.le_of_not_lt fun hin => hout _ hin ?_) size (Nat.le_refl _)
      · rw [hb]
        refine h.outside (fun a ha => ?_) (fun a ha => ?_)
        · rw [hcopy, if_neg fun hin => hout a hin ha]
        · rw [hcopy, Option.elim_some, Block.write, List.getElem?_take, List.getElem?_drop]
          split_ifs with hin
          · have hk := hsource (a - addr) hin
            have hlt : (off + 8 + (a - addr)).toNat < p.length := by omega
            rw [BitVec.add_assoc base, BitVec.add_assoc base, h.table _ hlt, mem, bytes, hk,
              List.getElem?_eq_getElem (by omega)]
            rfl
          · exact h.out a ha
      · have hk : (BitVec.ofNat 64 k).toNat = k := by
          rw [BitVec.toNat_ofNat]
          omega
        have hlt : (off + 8 + BitVec.ofNat 64 k).toNat < p.length := by
          rw [hsource _ (by omega)]
          omega
        rw [BitVec.add_assoc base, BitVec.add_assoc base]
        exact table_loader hlt

end SysTable

/-- A patched instruction outside the loader's memory. -/
theorem View.st32 (h : View base p m w o) {pc : BitVec 64}
    (hpc : ∀ a, (a - pc).toNat < 4 → ¬ Loader base p a) (v : BitVec 64) :
    View base p (m.st32 pc v) w (o.st32 pc v) := by
  refine h.outside (fun a ha => Mem.store_of_le (Nat.le_of_not_lt fun hin => hpc a hin ha))
    (fun a ha => ?_)
  simp only [Mem.st32, Mem.store]
  split_ifs
  · rfl
  · exact h.out a ha

/-- **One call, on the memory**: the record is the one `sysidxs` names, the
    call counter moves on by one, and the saved registers are kept but for
    `a0`. -/
theorem takeoverMem_eq (hp : p.Wf) (hc : Clear base p e) (h : View base p m w o)
    (he : w 0 = e.pc ∧ w 1 = e.cause) (hbase : w 2 = base) {i : ℕ} (hi : i < p.totalcallnum.toNat)
    (hcall : w 3 = BitVec.ofNat 64 i) (htotal : w 4 = p.totalcallnum)
    (ha7 : w 22 = (p.info i).sysnum) (t : Csrs) :
    ∃ m' w', takeoverMem m t = some (m', (p.info i).pc + 4) ∧
      View base p m' w' (exitPatch p e (i + 1) ((p.block i).elim o fun b => b.write o)) ∧
      w' 3 = BitVec.ofNat 64 (i + 1) ∧ w' 15 = (p.info i).result ∧
      ∀ j < 42, j ≠ 3 → j ≠ 15 → w' j = w j := by
  have hinfo : ∀ {m : Mem} {w o} (h : View base p m w o) {k : BitVec 64}, k.toNat ≤ 32 →
      m.ld64 (base + p.infoOff i + k) = p.mem.ld64 (p.infoOff i + k) :=
    fun h _ hk => SysTable.ld64_info hp h.table hi hk
  unfold takeoverMem
  extract_lets m₁ m₂ infos m₃ sysnum m₄ hasret m₅ m₆ m₇
  -- the counters of cycles and instructions
  obtain ⟨w₂, h₂, hw⟩ : ∃ w₂, View base p m₂ w₂ o ∧ ∀ j < 42, w₂ j = w j := by
    refine ⟨_, (h.st64 hc (k := 101) (by decide) _).st64 hc (k := 102) (by decide) _, fun j hj => ?_⟩
    rw [Function.update_of_ne (by omega), Function.update_of_ne (by omega)]
  have hnow : m₂.ld64 RunningInfo.nowcallnum = BitVec.ofNat 64 i :=
    (h₂.words 3 (by decide)).trans ((hw 3 (by decide)).trans hcall)
  have htot : m₂.ld64 RunningInfo.totalcallnum = p.totalcallnum :=
    (h₂.words 4 (by decide)).trans ((hw 4 (by decide)).trans htotal)
  have hlt : ¬ m₂.ld64 RunningInfo.nowcallnum ≥ m₂.ld64 RunningInfo.totalcallnum := by
    rw [hnow, htot]
    bv_omega
  have hinfos : infos = base + p.infoOff i := by
    show syscallInfo m₂ (m₂.ld64 RunningInfo.nowcallnum) = _
    rw [hnow]
    exact SysTable.syscallInfo_eq hp h₂ ((hw 2 (by decide)).trans hbase)
      ((hw 4 (by decide)).trans htotal) hi
  have hp0 : m₂.ld64 (infos + syscallInfo_p0) = (p.info i).p0 := by
    rw [hinfos]
    exact hinfo h₂ (by decide)
  -- the first argument
  have h₃ : View base p m₃ (Function.update w₂ 15 (p.info i).p0) o := by
    rw [← hp0]
    exact h₂.st64 hc (k := 15) (by decide) _
  have hnum : m₃.ld64 (RunningInfo.intregs 17) = sysnum := by
    have hrec : m₃.ld64 (infos + syscallInfo_num) = (p.info i).num := by
      rw [hinfos]
      exact hinfo h₃ (by decide)
    show _ = m₃.ld64 (infos + syscallInfo_num) >>> 32
    rw [hrec]
    refine (h₃.words 22 (by decide)).trans ?_
    rw [Function.update_of_ne (by decide), hw 22 (by decide)]
    exact ha7
  -- the memory results
  have h₄ : View base p m₄ (Function.update w₂ 15 (p.info i).p0)
      ((p.block i).elim o fun b => b.write o) := by
    show View base p (writeResult m₃ infos) _ _
    rw [hinfos]
    refine SysTable.writeResult_view hp hc h₃ ?_ hi
    rw [Function.update_of_ne (by decide), hw 2 (by decide), hbase]
  generalize (p.block i).elim o (fun b => b.write o) = o' at h₄ ⊢
  -- the return value
  have h₅ : View base p m₅ (Function.update w₂ 15 (p.info i).result) o' := by
    have hflag : hasret = (p.info i).data_offset % 256 := by
      show m₄.ld64 (infos + syscallInfo_data_offset) % 256 = _
      rw [hinfos, hinfo h₄ (by decide)]
      rfl
    show View base p (if hasret ≠ 0 then _ else m₄) _ o'
    rw [hflag]
    change View base p (if (p.info i).hasret then _ else m₄)
      (Function.update w₂ 15 (if (p.info i).hasret then (p.info i).ret else (p.info i).p0)) o'
    by_cases hret : (p.info i).hasret
    · rw [if_pos hret, if_pos hret]
      have hval : m₄.ld64 (infos + syscallInfo_ret) = (p.info i).ret := by
        rw [hinfos]
        exact hinfo h₄ (by decide)
      have h₅ := h₄.st64 hc (k := 15) (by decide) (m₄.ld64 (infos + syscallInfo_ret))
      rw [Function.update_idem, hval] at h₅
      rw [hval]
      exact h₅
    · rw [if_neg hret, if_neg hret]
      exact h₄
  -- the next call
  have h₆ : View base p m₆ (Function.update (Function.update w₂ 15 (p.info i).result) 3
      (BitVec.ofNat 64 (i + 1))) o' := by
    have hval : m₅.ld64 RunningInfo.nowcallnum + 1 = BitVec.ofNat 64 (i + 1) := by
      rw [show m₅.ld64 RunningInfo.nowcallnum = BitVec.ofNat 64 i from
        (h₅.words 3 (by decide)).trans ((Function.update_of_ne (by decide) ..).trans
          ((hw 3 (by decide)).trans hcall)), BitVec.ofNat_add]
      rfl
    rw [← hval]
    exact h₅.st64 hc (k := 3) (by decide) _
  generalize hw' : Function.update (Function.update w₂ 15 (p.info i).result) 3
    (BitVec.ofNat 64 (i + 1)) = w' at h₆
  have hkeep : ∀ j < 42, j ≠ 3 → j ≠ 15 → w' j = w j := by
    intro j hj h3 h15
    rw [← hw', Function.update_of_ne h3, Function.update_of_ne h15, hw j hj]
  have h₇ : View base p m₇ w' (exitPatch p e (i + 1) o') := by
    have hcond : (m₆.ld64 RunningInfo.nowcallnum = m₆.ld64 RunningInfo.totalcallnum ∧
        m₆.ld64 RunningInfo.exit_cause = cause_ExitInst) ↔
        i + 1 = p.totalcallnum.toNat ∧ e.cause = cause_ExitInst := by
      rw [show m₆.ld64 RunningInfo.nowcallnum = w' 3 from h₆.words 3 (by decide),
        show m₆.ld64 RunningInfo.totalcallnum = w' 4 from h₆.words 4 (by decide),
        show m₆.ld64 RunningInfo.exit_cause = w' 1 from h₆.words 1 (by decide),
        hkeep 4 (by decide) (by decide) (by decide), hkeep 1 (by decide) (by decide) (by decide),
        htotal, he.2, ← hw', Function.update_self]
      refine and_congr_left fun _ => ?_
      bv_omega
    have hpc : m₆.ld64 RunningInfo.exitpc = e.pc := by
      rw [show m₆.ld64 RunningInfo.exitpc = w' 0 from h₆.words 0 (by decide),
        hkeep 0 (by decide) (by decide) (by decide), he.1]
    show View base p (if _ then m₆.st32 (m₆.ld64 RunningInfo.exitpc) eCall_Replace else m₆) w' _
    unfold exitPatch
    rw [hpc]
    by_cases hlast : i + 1 = p.totalcallnum.toNat ∧ e.cause = cause_ExitInst
    · rw [if_pos (hcond.2 hlast), if_pos hlast]
      exact h₆.st32 (hc.exitpc hlast.2) _
    · rw [if_neg (hcond.not.2 hlast), if_neg hlast]
      exact h₆
  have hres : m₇.ld64 infos = (p.info i).pc := by
    have hrec := hinfo h₇ (k := 0) (by decide)
    have hzero : ∀ a : BitVec 64, a + 0 = a := BitVec.add_zero
    rw [hzero, hzero] at hrec
    rw [hinfos]
    exact hrec
  refine ⟨m₇, w', ?_, h₇, ?_, ?_, hkeep⟩
  · rw [if_neg hlt, if_neg (not_not.2 hnum), hres]
  · rw [← hw', Function.update_self]
  · rw [← hw', Function.update_of_ne (by decide), Function.update_self]

/-! ### The handler on the hart -/

/-- A save area among the words of `RunningInfo`. -/
theorem View.save (hc : Clear base p e) {c : Cpu va} (h : View base p c.mem w o) {k : ℕ}
    (hk : k + 32 ≤ 1024) :
    ∃ w', View base p
        (execAll (context_Operation sd (Mem.slot runningInfoAddr k)) c).mem w' o ∧
      (∀ n < 32, n ≠ 10 → w' (k + n) = c.get (BitVec.ofNat 5 n)) ∧
      ∀ j < 1024, j < k ∨ k + 32 ≤ j → w' j = w j := by
  obtain ⟨-, hsaved, hout⟩ := execAll_context_sd c (Mem.slot runningInfoAddr k)
  generalize (execAll (context_Operation sd (Mem.slot runningInfoAddr k)) c).mem = m' at hsaved hout
  have hfar : ∀ a, 8192 ≤ (a - runningInfoAddr).toNat → m' a = c.mem a := by
    intro a ha
    refine hout a ?_
    unfold Mem.slot
    bv_omega
  refine ⟨fun j => m'.ld64 (Mem.slot runningInfoAddr j), ⟨fun _ _ => rfl, fun x hx => ?_,
    fun a ha => ?_⟩, fun n hn h10 => ?_, fun j hj hjk => ?_⟩
  · rw [hfar _ (hc.table _ ?_), h.table x hx]
    rwa [BitVec.add_comm, BitVec.add_sub_cancel]
  · rw [hfar _ (Nat.le_of_not_lt fun hin => ha (.inl hin)), h.out a ha]
  · have hslot : Mem.slot runningInfoAddr (k + n) = Mem.slot (Mem.slot runningInfoAddr k) n := by
      unfold Mem.slot
      bv_omega
    show m'.ld64 (Mem.slot runningInfoAddr (k + n)) = _
    rw [hslot]
    exact hsaved n hn h10
  · rw [← h.words j hj]
    refine Mem.ld64_congr fun x hx => hout _ ?_
    unfold Mem.slot
    bv_omega

theorem load_necessary_stores (b : BitVec 64) : ∀ i ∈ load_necessary b, i.stores = false := by
  simp [load_necessary, stores]

theorem View.ready {i : ℕ} (h : View base p m w o) (h0 : w 0 = e.pc) (h1 : w 1 = e.cause)
    (h2 : w 2 = base) (h3 : w 3 = BitVec.ofNat 64 i) (h4 : w 4 = p.totalcallnum) :
    Ready base p e i m where
  exitpc := (h.words 0 (by decide)).trans h0
  exit_cause := (h.words 1 (by decide)).trans h1
  syscall_info_addr := (h.words 2 (by decide)).trans h2
  nowcallnum := (h.words 3 (by decide)).trans h3
  totalcallnum := (h.words 4 (by decide)).trans h4
  table := h.table

theorem asm_cpu (r : Replay va) (is : List Instr) : (r.asm is).cpu = execAll is r.cpu := rfl

theorem asm_mem {is : List Instr} (h : ∀ i ∈ is, i.stores = false) (r : Replay va) :
    (r.asm is).cpu.mem = r.cpu.mem := execAll_mem h r.cpu

theorem jmpTempReg_stores (n : Fin 4) : ∀ i ∈ jmpTempReg n, i.stores = false := by
  simp [jmpTempReg, stores, uRet]

theorem setTempReg_stores (v : BitVec 64) (n : Fin 4) : ∀ i ∈ setTempReg v n, i.stores = false := by
  simp [setTempReg, stores, set_TempReg]

/-- `JmpTempReg(2)` leaves the registers alone. -/
theorem jmp_get (r : Replay va) (x : Reg) : (r.asm (jmpTempReg 2)).cpu.get x = r.cpu.get x := rfl

theorem jmp_pc (r : Replay va) : (r.asm (jmpTempReg 2)).cpu.pc = r.cpu.ucsr.tempReg3 := rfl

theorem setTempReg_two (r : Replay va) (v : BitVec 64) :
    (r.asm (setTempReg v 2)).cpu.ucsr.tempReg3 = v := rfl

/-- The end of `takeoverSyscall`, after the C body has left `m` and `npc`. -/
def resume (r : Replay va) (m : Mem) (npc : BitVec 64) (t' : Csrs) : Replay va :=
  let r := (r.setMem m).asm (setTempReg npc 2)
  let r := (r.st64 RunningInfo.lastcycles t'.cycle).st64 RunningInfo.lastinsts t'.instret
  (r.asm (context_Operation ld storeIntRegAddr)).asm (jmpTempReg 2)

theorem takeoverSyscall_eq (r : Replay va) (t t' : Csrs) :
    r.takeoverSyscall t t' =
      (takeoverMem (execAll (context_Operation sd storeIntRegAddr) r.cpu).mem t).map fun x =>
        resume ((r.asm (context_Operation sd storeIntRegAddr)).asm (load_necessary oldIntRegAddr))
          x.1 x.2 t' := by
  have hmem : ((r.asm (context_Operation sd storeIntRegAddr)).asm
      (load_necessary oldIntRegAddr)).cpu.mem =
        (execAll (context_Operation sd storeIntRegAddr) r.cpu).mem :=
    asm_mem (load_necessary_stores _) _
  simp only [takeoverSyscall]
  rw [hmem]
  cases takeoverMem (execAll (context_Operation sd storeIntRegAddr) r.cpu).mem t <;> rfl

theorem resume_mem (r : Replay va) (m : Mem) (npc : BitVec 64) (t' : Csrs) :
    (resume r m npc t').cpu.mem =
      (m.st64 RunningInfo.lastcycles t'.cycle).st64 RunningInfo.lastinsts t'.instret := by
  have hset : ((r.setMem m).asm (setTempReg npc 2)).cpu.mem = m :=
    asm_mem (setTempReg_stores npc 2) (r.setMem m)
  rw [resume, asm_mem (jmpTempReg_stores 2), asm_mem (context_Operation_stores (fun _ _ _ => rfl) _)]
  simp only [Replay.st64]
  rw [hset]

theorem resume_get (r : Replay va) (m : Mem) (npc : BitVec 64) (t' : Csrs) {n : ℕ} (hn : n < 32)
    (h0 : n ≠ 0) :
    (resume r m npc t').cpu.get (BitVec.ofNat 5 n) =
      (resume r m npc t').cpu.mem.ld64 (Mem.slot storeIntRegAddr n) := by
  rw [resume, jmp_get, asm_mem (jmpTempReg_stores 2)]
  generalize (Replay.st64 (Replay.st64 _ _ _) _ _) = r
  rw [asm_mem (context_Operation_stores (fun _ _ _ => rfl) _), asm_cpu,
    execAll_context_ld r.cpu storeIntRegAddr hn h0]

theorem resume_pc (r : Replay va) (m : Mem) (npc : BitVec 64) (t' : Csrs) :
    (resume r m npc t').cpu.pc = npc := by
  have hld : ∀ rd off b, ∀ c : Cpu va, (exec c (ld rd off b)).ucsr = c.ucsr :=
    fun _ _ _ c => set_ucsr c _ _
  rw [resume, jmp_pc, asm_cpu, context_Operation_ucsr hld, st64_ucsr, st64_ucsr, setTempReg_two]

/-- **One call, on the hart.** -/
theorem takeoverSyscall_replayed (hp : p.Wf) (hc : Clear base p e) {r : Replay va} {i : ℕ}
    (h : Ready base p e i r.cpu.mem) (hi : i < p.totalcallnum.toNat)
    (ha7 : r.cpu.get 17 = (p.info i).sysnum) (t t' : Csrs) :
    ∃ r', r.takeoverSyscall t t' = some r' ∧ Ready base p e (i + 1) r'.cpu.mem ∧
      Replayed base p e i r.cpu r'.cpu := by
  obtain ⟨w₁, h₁, hsaved, hold⟩ := h.table.view.save hc (k := 5) (by decide)
  have hword : ∀ j < 5, w₁ j = r.cpu.mem.ld64 (Mem.slot runningInfoAddr j) :=
    fun j hj => hold j (by omega) (.inl hj)
  obtain ⟨m', w', htake, h', hcall, ha0, hkeep⟩ := takeoverMem_eq hp hc h₁
    ⟨(hword 0 (by decide)).trans h.exitpc, (hword 1 (by decide)).trans h.exit_cause⟩
    ((hword 2 (by decide)).trans h.syscall_info_addr) hi
    ((hword 3 (by decide)).trans h.nowcallnum) ((hword 4 (by decide)).trans h.totalcallnum)
    ((hsaved 17 (by decide) (by decide)).trans ha7) t
  let r' := resume ((r.asm (context_Operation sd storeIntRegAddr)).asm
    (load_necessary oldIntRegAddr)) m' ((p.info i).pc + 4) t'
  have hr' : r.takeoverSyscall t t' = some r' := by
    rw [takeoverSyscall_eq]
    exact congrArg (Option.map _) htake
  obtain ⟨w₃, h₃, hw₃⟩ : ∃ w₃, View base p r'.cpu.mem w₃
      (exitPatch p e (i + 1) ((p.block i).elim r.cpu.mem fun b => b.write r.cpu.mem)) ∧
      ∀ j < 42, w₃ j = w' j := by
    rw [show r'.cpu.mem = _ from resume_mem ..]
    refine ⟨_, (h'.st64 hc (k := 103) (by decide) t'.cycle).st64 hc (k := 104) (by decide) t'.instret,
      fun j hj => ?_⟩
    rw [Function.update_of_ne (by omega), Function.update_of_ne (by omega)]
  have hget : ∀ n < 32, n ≠ 0 → r'.cpu.get (BitVec.ofNat 5 n) = w' (5 + n) := by
    intro n hn h0
    rw [← hw₃ (5 + n) (by omega), ← h₃.words (5 + n) (by omega)]
    have hslot : Mem.slot runningInfoAddr (5 + n) = Mem.slot storeIntRegAddr n := by
      unfold Mem.slot storeIntRegAddr runningInfoAddr
      bv_omega
    rw [hslot]
    exact resume_get _ _ _ _ hn h0
  have hcore : ∀ j < 5, j ≠ 3 → w₃ j = r.cpu.mem.ld64 (Mem.slot runningInfoAddr j) :=
    fun j hj h3 => (hw₃ j (by omega)).trans ((hkeep j (by omega) h3 (by omega)).trans (hword j hj))
  refine ⟨r', hr', ?_, h₃.out, (hget 10 (by decide) (by decide)).trans ha0, fun x hx => ?_,
    resume_pc ..⟩
  · exact h₃.ready ((hcore 0 (by decide) (by decide)).trans h.exitpc)
      ((hcore 1 (by decide) (by decide)).trans h.exit_cause)
      ((hcore 2 (by decide) (by decide)).trans h.syscall_info_addr)
      ((hw₃ 3 (by decide)).trans hcall) ((hcore 4 (by decide) (by decide)).trans h.totalcallnum)
  · have hx' : x = BitVec.ofNat 5 x.toNat := by simp
    have hn : x.toNat < 32 := x.isLt
    generalize x.toNat = n at hx' hn
    subst hx'
    by_cases h0 : n = 0
    · subst h0
      rfl
    · have h10 : n ≠ 10 := by
        rintro rfl
        exact hx rfl
      rw [hget n hn h0, hkeep (5 + n) (by omega) (by omega) (by omega), hsaved n hn h10]

/-- A call past the end of the table ends the program. -/
theorem takeoverSyscall_exit (hc : Clear base p e) {r : Replay va}
    (h : Ready base p e p.totalcallnum.toNat r.cpu.mem) (t t' : Csrs) :
    r.takeoverSyscall t t' = none := by
  obtain ⟨w₁, h₁, -, hold⟩ := h.table.view.save hc (k := 5) (by decide)
  have h3 : w₁ 3 = p.totalcallnum := by
    rw [hold 3 (by decide) (.inl (by decide))]
    refine h.nowcallnum.trans ?_
    simp
  have h4 : w₁ 4 = p.totalcallnum :=
    (hold 4 (by decide) (.inl (by decide))).trans h.totalcallnum
  have hnone : takeoverMem (execAll (context_Operation sd storeIntRegAddr) r.cpu).mem t = none := by
    unfold takeoverMem
    extract_lets m₁ m₂
    obtain ⟨w₂, h₂, hw⟩ : ∃ w₂, View base p m₂ w₂ r.cpu.mem ∧ ∀ j < 42, w₂ j = w₁ j := by
      refine ⟨_, (h₁.st64 hc (k := 101) (by decide) _).st64 hc (k := 102) (by decide) _,
        fun j hj => ?_⟩
      rw [Function.update_of_ne (by omega), Function.update_of_ne (by omega)]
    refine if_pos ?_
    rw [show m₂.ld64 RunningInfo.nowcallnum = w₂ 3 from h₂.words 3 (by decide),
      show m₂.ld64 RunningInfo.totalcallnum = w₂ 4 from h₂.words 4 (by decide), hw 3 (by decide),
      hw 4 (by decide), h3, h4]
    exact BitVec.le_refl _
  rw [takeoverSyscall_eq, hnone]
  rfl

/-! ## Start-up -/

/-- Where the table is loaded. -/
def tableAddr (os : Os) (p : SysTable) : BitVec 64 := os.allocVaddr (allocsize p)

/-- The memory with the mapping for the table. -/
def tableSpace (os : Os) (m : Mem) (p : SysTable) : Mem :=
  mmapZero m (tableAddr os p) (allocsize p).toNat

/-- The mapping for the table is a fresh one. -/
def FreshTable (os : Os) (p : SysTable) : Prop :=
  ∀ a, (a - tableAddr os p).toNat < pages (allocsize p).toNat → 8192 ≤ (a - runningInfoAddr).toNat

theorem replaceEcalls_view (hp : p.Wf) (hc : Clear base p e) (hbase : w 2 = base)
    (htotal : w 4 = p.totalcallnum) {k i : ℕ} {rep_idxs : List (BitVec 32)} {m o : Mem}
    (h : View base p m w o) (hk : i + k ≤ p.totalcallnum.toNat) :
    ∃ o', View base p (replaceEcalls m (BitVec.ofNat 64 i) rep_idxs k) w o' ∧
      ∀ a, (∀ j < p.totalcallnum.toNat, 4 ≤ (a - (p.info j).pc).toNat) → o' a = o a := by
  induction k generalizing i rep_idxs m o with
  | zero => exact ⟨o, h, fun _ _ => rfl⟩
  | succ k ih =>
    have hnext : BitVec.ofNat 64 i + 1 = BitVec.ofNat 64 (i + 1) := (BitVec.ofNat_add ..).symm
    have hpc : m.ld64 (syscallInfo m (BitVec.ofNat 64 i)) = (p.info i).pc := by
      have hrec := SysTable.ld64_info hp h.table (i := i) (by omega) (k := 0) (by decide)
      have hzero : ∀ a : BitVec 64, a + 0 = a := BitVec.add_zero
      rw [hzero, hzero] at hrec
      rw [SysTable.syscallInfo_eq hp h hbase htotal (by omega)]
      exact hrec
    rw [replaceEcalls]
    simp only [hnext, hpc]
    split_ifs
    · exact ih (i := i + 1) h (by omega)
    · obtain ⟨o', h', hsame⟩ := ih (i := i + 1) (h.st32 (hc.pcs i (by omega)) eCall_Replace)
        (by omega)
      exact ⟨o', h', fun a ha => (hsame a ha).trans (Mem.store_of_le (ha i (by omega)))⟩

/-- Step 5 loads the table and starts to count. -/
theorem step5_view (os : Os) {m₀ : Mem} (hp : p.Wf) (hfresh : FreshTable os p)
    (hc : Clear (tableAddr os p) p ⟨m₀.ld64 RunningInfo.exitpc, m₀.ld64 RunningInfo.exit_cause⟩) :
    ∃ w o, View (tableAddr os p) p (step5 os m₀ p) w o ∧ (w 0 = m₀.ld64 RunningInfo.exitpc ∧
      w 1 = m₀.ld64 RunningInfo.exit_cause ∧ w 2 = tableAddr os p ∧ w 3 = 0 ∧
      w 4 = p.totalcallnum) ∧
      ∀ a, (∀ j < p.totalcallnum.toNat, 4 ≤ (a - (p.info j).pc).toNat) → o a = exitPatch p
        ⟨m₀.ld64 RunningInfo.exitpc, m₀.ld64 RunningInfo.exit_cause⟩ 0 (tableSpace os m₀ p) a := by
  have hlen := hp.len
  have hidxs := hp.idxs
  have hread : ∀ a, freadRest (tableSpace os m₀ p) (tableAddr os p) p a =
      (p[(a - tableAddr os p).toNat]?).getD (tableSpace os m₀ p a) :=
    fun a => freadRest_apply _ _ _ _ (by omega)
  have h₁ : View (tableAddr os p) p (freadRest (tableSpace os m₀ p) (tableAddr os p) p)
      (fun j => m₀.ld64 (Mem.slot runningInfoAddr j)) (tableSpace os m₀ p) := by
    refine ⟨fun j hj => Mem.ld64_congr fun x hx => ?_, fun k hk => ?_, fun a ha => ?_⟩
    · have hfar : p.length ≤ (Mem.slot runningInfoAddr j + x - tableAddr os p).toNat :=
        Nat.le_of_not_lt fun hin => absurd (hc.table _ hin) (Nat.not_le.2 (slot_info hj hx))
      have hold : tableSpace os m₀ p (Mem.slot runningInfoAddr j + x) =
          m₀ (Mem.slot runningInfoAddr j + x) :=
        if_neg fun hin => absurd (hfresh _ hin) (Nat.not_le.2 (slot_info hj hx))
      rw [hread, List.getElem?_eq_none hfar, Option.getD_none, hold]
    · rw [hread, BitVec.add_comm, BitVec.add_sub_cancel, List.getElem?_eq_getElem hk, SysTable.mem,
        bytes, List.getElem?_eq_getElem hk]
      rfl
    · rw [hread, List.getElem?_eq_none (Nat.le_of_not_lt fun hin => ha (.inr hin)), Option.getD_none]
  have h₃ := (h₁.st64 hc (k := 2) (by decide) (tableAddr os p)).st64 hc (k := 3) (by decide) 0
  have htotal := h₃.table.ld64 (k := 0) (by show 0 + 8 ≤ _; omega) hlen
  rw [show tableAddr os p + 0 = tableAddr os p from BitVec.add_zero _] at htotal
  change _ = p.totalcallnum at htotal
  have h₄ := h₃.st64 hc (k := 4) (by decide) p.totalcallnum
  generalize hm₄ : Mem.st64 (Mem.st64 (Mem.st64
    (freadRest (tableSpace os m₀ p) (tableAddr os p) p) _ _) _ _) _ _ = m₄
    at h₄
  generalize hw₄ : Function.update (Function.update (Function.update
    (fun j => m₀.ld64 (Mem.slot runningInfoAddr j)) 2 (tableAddr os p)) 3 0) 4 p.totalcallnum = w
    at h₄
  have h2 : w 2 = tableAddr os p := by rw [← hw₄]; rfl
  have h4 : w 4 = p.totalcallnum := by rw [← hw₄]; rfl
  have hcount : m₄.ld64 RunningInfo.totalcallnum = p.totalcallnum :=
    (h₄.words 4 (by decide)).trans h4
  obtain ⟨o', h₅, hout⟩ : ∃ o', View (tableAddr os p) p
      (replaceEcalls m₄ (BitVec.ofNat 64 0) [] p.totalcallnum.toNat) w o' ∧
      ∀ a, (∀ j < p.totalcallnum.toNat, 4 ≤ (a - (p.info j).pc).toNat) →
        o' a = tableSpace os m₀ p a :=
    replaceEcalls_view hp hc h2 h4 h₄ (Nat.le_of_eq (Nat.zero_add _))
  have hread₅ : read_ckptsyscall os m₀ p =
      replaceEcalls m₄ (BitVec.ofNat 64 0) [] p.totalcallnum.toNat := by
    rw [← hcount, ← hm₄, ← htotal]
    rfl
  have hw₀ : w 0 = m₀.ld64 RunningInfo.exitpc := by rw [← hw₄]; rfl
  have hw₁ : w 1 = m₀.ld64 RunningInfo.exit_cause := by rw [← hw₄]; rfl
  have hw₃ : w 3 = 0 := by rw [← hw₄]; rfl
  rw [step5, hread₅]
  generalize replaceEcalls m₄ (BitVec.ofNat 64 0) [] p.totalcallnum.toNat = m₅ at h₅ ⊢
  have hcause : m₅.ld64 RunningInfo.exit_cause = m₀.ld64 RunningInfo.exit_cause :=
    (h₅.words 1 (by decide)).trans hw₁
  have hpc : m₅.ld64 RunningInfo.exitpc = m₀.ld64 RunningInfo.exitpc :=
    (h₅.words 0 (by decide)).trans hw₀
  have hiff : (m₅.ld64 RunningInfo.totalcallnum = 0 ∧
      m₀.ld64 RunningInfo.exit_cause = cause_ExitInst) ↔
      0 = p.totalcallnum.toNat ∧ m₀.ld64 RunningInfo.exit_cause = cause_ExitInst := by
    rw [show m₅.ld64 RunningInfo.totalcallnum = p.totalcallnum from (h₅.words 4 (by decide)).trans h4]
    refine and_congr_left fun _ => ?_
    bv_omega
  simp only [hcause, hpc, exitPatch, if_congr hiff rfl rfl]
  by_cases hzero : 0 = p.totalcallnum.toNat ∧ m₀.ld64 RunningInfo.exit_cause = cause_ExitInst
  · rw [if_pos hzero]
    refine ⟨w, _, h₅.st32 (hc.exitpc hzero.2) eCall_Replace, ⟨hw₀, hw₁, h2, hw₃, h4⟩, fun a ha => ?_⟩
    rw [if_pos hzero, Mem.st32, Mem.st32, Mem.store, Mem.store, hout a ha]
  · rw [if_neg hzero]
    refine ⟨w, _, h₅, ⟨hw₀, hw₁, h2, hw₃, h4⟩, fun a ha => ?_⟩
    rw [if_neg hzero, hout a ha]

/-! ### Up to the first instruction -/

/-- Steps 5 to 9, from the memory and the rest of the file they find. -/
def started (r₀ : Replay va) (img : Image) (os : Os) (t : Csrs) (m₀ : Mem) (p : SysTable)
    (info : SimInfo) : Replay va :=
  ((r₀.setMem (step5 os m₀ p)).step6 img info.npc).step789 img t info

/-- Every accepted checkpoint is started so. -/
theorem readCkptinfo_started {r₀ r : Replay va} {img : Image} {os : Os}
    {mapped : BitVec 64 → Bool} {t : Csrs} {file : File}
    (h : r₀.readCkptinfo img os mapped t file = some r) :
    ∃ m₀ p info, r = started r₀ img os t m₀ p info := by
  obtain ⟨⟨info, m⟩, hload, h⟩ := Option.bind_eq_some_iff.1 h
  obtain ⟨⟨info', s₁, p₁⟩, -, hload⟩ := Option.bind_eq_some_iff.1 hload
  obtain ⟨⟨s₂, p₂⟩, -, hload⟩ := Option.bind_eq_some_iff.1 hload
  obtain ⟨⟨s₃, p₃⟩, -, hload⟩ := Option.bind_eq_some_iff.1 hload
  simp only at hload
  split_ifs at hload
  obtain ⟨rfl, rfl⟩ := Prod.mk.inj (Option.some.inj hload)
  exact ⟨s₃.mem, p₃, info', (Option.some.inj h).symm⟩

/-- `Save_Basic_Regs` writes four words. -/
theorem save_Basic_Regs_mem (c : Cpu va) (stack : BitVec 64) {a : BitVec 64}
    (ha : 40 ≤ (a - (stack + 256)).toNat) :
    (execAll (save_Basic_Regs stack) c).mem a = c.mem a := by
  have hmem : ∃ v₁ v₂ v₃ v₄, (execAll (save_Basic_Regs stack) c).mem =
      (((c.mem.st64 (stack + 256 + 8) v₁).st64 (stack + 256 + 16) v₂).st64 (stack + 256 + 24) v₃).st64
        (stack + 256 + 32) v₄ := ⟨_, _, _, _, rfl⟩
  obtain ⟨v₁, v₂, v₃, v₄, hmem⟩ := hmem
  rw [hmem]
  simp only [Mem.st64]
  rw [Mem.store_of_le (by bv_omega), Mem.store_of_le (by bv_omega), Mem.store_of_le (by bv_omega),
    Mem.store_of_le (by bv_omega)]

/-- `init_start` writes to its stack only. -/
theorem initStart_mem (r : Replay va) (img : Image) (t : Csrs)
    (max_inst warmup_inst max_period : BitVec 64) {a : BitVec 64}
    (ha : 40 ≤ (a - (img.tempStackMem + 256)).toNat) :
    (r.initStart img t max_inst warmup_inst max_period).cpu.mem a = r.cpu.mem a := by
  have hctrl : ∀ u v w : BitVec 64, ∀ i ∈ setSampleCtrlReg u v w, i.stores = false := by
    simp [setSampleCtrlReg, stores, set_MaxEvents, set_WarmupInsts, set_EventSel]
  have hbase : ∀ u v : BitVec 64, ∀ i ∈ setSampleBaseInfo u v, i.stores = false := by
    simp [setSampleBaseInfo, stores, set_ProcTag, set_SampleFuncAddr]
  unfold initStart
  extract_lets
  rw [asm_mem (by simp [setPfcEnable, stores, set_PfcEnable]), asm_mem (hctrl _ _ _),
    asm_mem (hbase _ _), asm_mem (by simp [rstPFC, stores]),
    asm_mem (by simp [setCounterLevel, stores, set_MaxPriv])]
  show (((execAll (save_Basic_Regs img.tempStackMem) r.cpu).mem.st64 _ _).st64 _ _) a = _
  rw [Mem.st64, Mem.st64, Mem.store_of_le (by bv_omega), Mem.store_of_le (by bv_omega),
    save_Basic_Regs_mem _ _ ha]

theorem initLength_mem (r : Replay va) (img : Image) (t : Csrs) (info : SimInfo) {a : BitVec 64}
    (ha : 40 ≤ (a - (img.tempStackMem + 256)).toNat) :
    (r.initLength img t info).cpu.mem a = r.cpu.mem a := by
  unfold initLength
  split_ifs <;> exact initStart_mem _ _ _ _ _ _ ha

theorem initLength_view {r : Replay va} (h : View base p r.cpu.mem w o) (img : Image) (t : Csrs)
    (info : SimInfo)
    (hstack : ∀ a, Loader base p a → 40 ≤ (a - (img.tempStackMem + 256)).toNat) :
    View base p (r.initLength img t info).cpu.mem w (r.initLength img t info).cpu.mem :=
  h.outside (fun a ha => initLength_mem _ _ _ _ (hstack a ha)) (fun _ _ => rfl)

theorem step6_mem (r : Replay va) (img : Image) (npc : BitVec 64) :
    (r.step6 img npc).cpu.mem = r.cpu.mem := by
  rw [step6, asm_mem (setTempReg_stores _ 3), asm_mem (setTempReg_stores _ 2)]

/-- Steps 7 to 9 use their own words of `RunningInfo`, and the stack of the
    sampler. -/
theorem step789_view (hc : Clear base p e) {r : Replay va} (h : View base p r.cpu.mem w o)
    (img : Image) (t : Csrs) (info : SimInfo)
    (hstack : ∀ a, Loader base p a → 40 ≤ (a - (img.tempStackMem + 256)).toNat) :
    ∃ w' o', View base p (r.step789 img t info).cpu.mem w' o' ∧ (∀ j < 69, w' j = w j) ∧
      ∀ a, ¬ Loader base p a → 40 ≤ (a - (img.tempStackMem + 256)).toNat → o' a = o a := by
  obtain ⟨w₁, h₁, -, hold⟩ := h.save hc (k := 69) (by decide)
  have h₂ := (((((h₁.st64 hc (k := 101) (by decide) 0).st64 hc (k := 102) (by decide) 0).st64 hc
    (k := 103) (by decide) t.cycle).st64 hc (k := 104) (by decide) t.instret).st64 hc
    (k := 105) (by decide) t.cycle).st64 hc (k := 106) (by decide) t.instret
  rw [step789, asm_mem (jmpTempReg_stores 2), asm_mem (context_Operation_stores (fun _ _ _ => rfl) _),
    asm_mem (context_Operation_stores (fun _ _ _ => rfl) _)]
  refine ⟨_, _, initLength_view h₂ img t info hstack, fun j hj => ?_, fun a ha hfar => ?_⟩
  · have hne : ∀ k, 101 ≤ k → j ≠ k := fun k hk => by omega
    rw [Function.update_of_ne (hne 106 (by decide)), Function.update_of_ne (hne 105 (by decide)),
      Function.update_of_ne (hne 104 (by decide)), Function.update_of_ne (hne 103 (by decide)),
      Function.update_of_ne (hne 102 (by decide)), Function.update_of_ne (hne 101 (by decide))]
    exact hold j (by omega) (.inl hj)
  · exact (initLength_mem _ _ _ _ hfar).trans (h₂.out a ha)

/-- **A started checkpoint is ready for its first call**, and its exit
    instruction is replaced if there will be none. -/
theorem started_ready (r₀ : Replay va) (img : Image) (os : Os) (t : Csrs) {m₀ : Mem}
    (info : SimInfo) (hp : p.Wf) (hfresh : FreshTable os p)
    (hc : Clear (tableAddr os p) p ⟨m₀.ld64 RunningInfo.exitpc, m₀.ld64 RunningInfo.exit_cause⟩)
    (hstack : ∀ a, Loader (tableAddr os p) p a → 40 ≤ (a - (img.tempStackMem + 256)).toNat) :
    Ready (tableAddr os p) p ⟨m₀.ld64 RunningInfo.exitpc, m₀.ld64 RunningInfo.exit_cause⟩ 0
        (started r₀ img os t m₀ p info).cpu.mem ∧
      ∀ a, ¬ Loader (tableAddr os p) p a → 40 ≤ (a - (img.tempStackMem + 256)).toNat →
        (∀ j < p.totalcallnum.toNat, 4 ≤ (a - (p.info j).pc).toNat) →
        (started r₀ img os t m₀ p info).cpu.mem a = exitPatch p
          ⟨m₀.ld64 RunningInfo.exitpc, m₀.ld64 RunningInfo.exit_cause⟩ 0
          (tableSpace os m₀ p) a := by
  obtain ⟨w, o, h₅, ⟨h0, h1, h2, h3, h4⟩, hout⟩ := step5_view os hp hfresh hc
  have h₆ : View (tableAddr os p) p ((r₀.setMem (step5 os m₀ p)).step6 img info.npc).cpu.mem w o := by
    rw [step6_mem]
    exact h₅
  obtain ⟨w', o', h', hw, ho⟩ := step789_view hc h₆ img t info hstack
  refine ⟨h'.ready ((hw 0 (by decide)).trans h0) ((hw 1 (by decide)).trans h1)
    ((hw 2 (by decide)).trans h2) ((hw 3 (by decide)).trans h3) ((hw 4 (by decide)).trans h4),
    fun a ha hfar hpcs => ?_⟩
  exact (h'.out a ha).trans ((ho a ha hfar).trans (hout a hpcs))

end

/-! ## Sessions -/

/-- A replayed checkpoint; `calls` counts the system calls it has made. -/
structure Session (va : ℕ) where
  r : Replay va
  calls : ℕ

namespace Session

/-- What happens in a session. -/
inductive Act (va : ℕ)
  /-- the program, and the sampler, up to the next system call -/
  | program (c : Cpu va)
  /-- a replaced `ecall`, in the handler -/
  | takeover (t t' : Csrs)

end Session

/-- The replay of a table: the program leaves the loader's memory alone and
    makes the recorded calls in the recorded order. -/
def session (img : Image) (os : Os) (m₀ : Mem) (p : SysTable) :
    Machine (Session va) (Session.Act va) where
  start s := s.calls = 0 ∧ ∃ r₀ t info, s.r = started r₀ img os t m₀ p info
  ok s
    | .program c => ∀ a, Loader (tableAddr os p) p a → c.mem a = s.r.cpu.mem a
    | .takeover _ _ => s.calls < p.totalcallnum.toNat ∧
        s.r.cpu.get 17 = (p.info s.calls).sysnum
  next s
    | .program c => { s with r := { s.r with cpu := c } }
    | .takeover t t' => ⟨(s.r.takeoverSyscall t t').getD s.r, s.calls + 1⟩

/-- What the loader's surroundings promise. -/
structure Placed (img : Image) (os : Os) (m₀ : Mem) (p : SysTable) : Prop where
  wf : p.Wf
  fresh : FreshTable os p
  clear : Clear (tableAddr os p) p
    ⟨m₀.ld64 RunningInfo.exitpc, m₀.ld64 RunningInfo.exit_cause⟩
  stack : ∀ a, Loader (tableAddr os p) p a → 40 ≤ (a - (img.tempStackMem + 256)).toNat

section

variable {img : Image} {os : Os} {m₀ : Mem} {p : SysTable}

theorem Ready.congr {base : BitVec 64} {e : Exit} {i : ℕ} {m m' : Mem} (h : Ready base p e i m)
    (hm : ∀ a, Loader base p a → m' a = m a) : Ready base p e i m' := by
  have hword : ∀ j < 1024,
      m'.ld64 (Mem.slot runningInfoAddr j) = m.ld64 (Mem.slot runningInfoAddr j) :=
    (h.table.view.outside hm fun _ _ => rfl).words
  exact {
    exitpc := (hword 0 (by decide)).trans h.exitpc
    exit_cause := (hword 1 (by decide)).trans h.exit_cause
    syscall_info_addr := (hword 2 (by decide)).trans h.syscall_info_addr
    nowcallnum := (hword 3 (by decide)).trans h.nowcallnum
    totalcallnum := (hword 4 (by decide)).trans h.totalcallnum
    table := fun k hk => (hm _ (table_loader hk)).trans (h.table k hk) }

/-- Before every call of every session the next record is the one to replay. -/
theorem session_ready (hpl : Placed img os m₀ p) {s : Session va}
    (hs : (session img os m₀ p).Reach s) :
    s.calls ≤ p.totalcallnum.toNat ∧ Ready (tableAddr os p) p
      ⟨m₀.ld64 RunningInfo.exitpc, m₀.ld64 RunningInfo.exit_cause⟩ s.calls s.r.cpu.mem := by
  refine hs.inv (P := fun s => s.calls ≤ p.totalcallnum.toNat ∧ Ready (tableAddr os p) p
    ⟨m₀.ld64 RunningInfo.exitpc, m₀.ld64 RunningInfo.exit_cause⟩ s.calls s.r.cpu.mem) ?_ ?_
  · rintro s ⟨h0, r₀, t, info, hr⟩
    rw [h0, hr]
    exact ⟨Nat.zero_le _, (started_ready r₀ img os t info hpl.wf hpl.fresh hpl.clear hpl.stack).1⟩
  · rintro s (c | ⟨t, t'⟩) ⟨hle, hready⟩ hok
    · exact ⟨hle, hready.congr hok⟩
    · obtain ⟨hlt, ha7⟩ : s.calls < _ ∧ _ := hok
      obtain ⟨r', hr', hready', -⟩ :=
        takeoverSyscall_replayed hpl.wf hpl.clear hready hlt ha7 t t'
      simp only [session, hr', Option.getD_some]
      exact ⟨hlt, hready'⟩

/-- **The replay follows the table**: in every session the `i`-th call is
    answered from record `sysidxs[i]`, a call past the end ends the program,
    and a program without calls starts with its exit replaced. -/
theorem calls_replayed (hpl : Placed img os m₀ p) {s : Session va}
    (hs : (session img os m₀ p).Reach s) :
    ((session img os m₀ p).start s → ∀ a, ¬ Loader (tableAddr os p) p a →
      40 ≤ (a - (img.tempStackMem + 256)).toNat →
      (∀ j < p.totalcallnum.toNat, 4 ≤ (a - (p.info j).pc).toNat) →
      s.r.cpu.mem a = exitPatch p
        ⟨m₀.ld64 RunningInfo.exitpc, m₀.ld64 RunningInfo.exit_cause⟩ 0 (tableSpace os m₀ p) a) ∧
    s.calls ≤ p.totalcallnum.toNat ∧
    (s.calls < p.totalcallnum.toNat → s.r.cpu.get 17 = (p.info s.calls).sysnum → ∀ t t',
      ∃ r', s.r.takeoverSyscall t t' = some r' ∧ Replayed (tableAddr os p) p
        ⟨m₀.ld64 RunningInfo.exitpc, m₀.ld64 RunningInfo.exit_cause⟩ s.calls s.r.cpu r'.cpu) ∧
    (s.calls = p.totalcallnum.toNat → ∀ t t', s.r.takeoverSyscall t t' = none) := by
  obtain ⟨hle, hready⟩ := session_ready hpl hs
  refine ⟨?_, hle, fun hlt ha7 t t' => ?_, fun heq t t' => ?_⟩
  · rintro ⟨-, r₀, t, info, hr⟩
    rw [hr]
    exact (started_ready r₀ img os t info hpl.wf hpl.fresh hpl.clear hpl.stack).2
  · obtain ⟨r', hr', -, hrep⟩ := takeoverSyscall_replayed hpl.wf hpl.clear hready hlt ha7 t t'
    exact ⟨r', hr', hrep⟩
  · rw [heq] at hready
    exact takeoverSyscall_exit hpl.clear hready t t'

end

/-! ### A table of three calls -/

/-- Three calls from two records: number 64 with a result block at `0x300000`,
    number 57, and number 64 again. -/
def threeCalls : SysTable :=
  le64 3 ++ ([0, 0, 0, 0, 1, 0, 0, 0, 0, 0, 0, 0] : File) ++
    (le64 0x200010 ++ le64 (64 <<< 32 ||| 8) ++ le64 5 ++ le64 7 ++ le64 (100 <<< 8 ||| 1)) ++
    (le64 0x200020 ++ le64 (57 <<< 32) ++ le64 3 ++ le64 0 ++ le64 (0xffffffff <<< 8)) ++
    le64 0x300000 ++ le64 1

/-- A checkpoint, started. -/
def callStart (p : SysTable) : Session 40 :=
  ⟨started loader sampleImage sampleOs ⟨0, 0⟩ (fun _ => 0) p ⟨0x200000, 0, 0, 0⟩, 0⟩

/-- The program up to a call of number `sysnum`. -/
def Session.upTo (s : Session 40) (sysnum : BitVec 64) : Session 40 :=
  ⟨{ s.r with cpu := { s.r.cpu with x := fun _ => sysnum } }, s.calls⟩

/-- The call. -/
def Session.call (s : Session 40) : Session 40 :=
  ⟨(s.r.takeoverSyscall ⟨0, 0⟩ ⟨0, 0⟩).getD s.r, s.calls + 1⟩

theorem reach_callStart (p : SysTable) :
    (session sampleImage sampleOs (fun _ => 0) p).Reach (callStart p) :=
  .start ⟨rfl, loader, _, _, rfl⟩

theorem reach_upTo {p : SysTable} {s : Session 40}
    (h : (session sampleImage sampleOs (fun _ => 0) p).Reach s) (sysnum : BitVec 64) :
    (session sampleImage sampleOs (fun _ => 0) p).Reach (s.upTo sysnum) := by
  have hok : (session sampleImage sampleOs (fun _ => 0) p).ok s
      (.program { s.r.cpu with x := fun _ => sysnum }) := fun _ _ => rfl
  exact h.step hok

theorem reach_call {p : SysTable} {s : Session 40}
    (h : (session sampleImage sampleOs (fun _ => 0) p).Reach s)
    (hlt : s.calls < p.totalcallnum.toNat) (ha7 : s.r.cpu.get 17 = (p.info s.calls).sysnum) :
    (session sampleImage sampleOs (fun _ => 0) p).Reach s.call := by
  have hok : (session sampleImage sampleOs (fun _ => 0) p).ok s (.takeover ⟨0, 0⟩ ⟨0, 0⟩) :=
    ⟨hlt, ha7⟩
  exact h.step hok

/-- Before the third call. -/
def thirdCall : Session 40 := ((((callStart threeCalls).upTo 64).call.upTo 57).call).upTo 64

/-- What the table says. -/
theorem threeCalls_reads :
    (threeCalls.totalcallnum.toNat = 3 ∧ pages (allocsize threeCalls).toNat = 4096) ∧
    (threeCalls.sysidx 0 = 0 ∧ threeCalls.sysidx 1 = 1 ∧ threeCalls.sysidx 2 = 0) ∧
    ((64 : BitVec 64) = (threeCalls.info 0).sysnum ∧ (57 : BitVec 64) = (threeCalls.info 1).sysnum ∧
      (64 : BitVec 64) = (threeCalls.info 2).sysnum) ∧
    ∀ i < 3, (8 + 4 * 3 + 40 * ((threeCalls.sysidx i).toNat + 1) ≤ threeCalls.length ∧
      ((threeCalls.info i).offset ≠ 0xffffffff →
        (threeCalls.info i).offset.toNat + 8 ≤ threeCalls.length) ∧
      ∀ b ∈ threeCalls.block i, (threeCalls.info i).offset.toNat + 8 +
        (threeCalls.info i).data_size.toNat ≤ threeCalls.length) ∧
      ((threeCalls.info i).pc = 0x200010 ∨ (threeCalls.info i).pc = 0x200020) ∧
      ∀ b ∈ threeCalls.block i, b = ⟨0x300000, le64 1⟩ := by
  decide +kernel

theorem threeCalls_total : threeCalls.totalcallnum.toNat = 3 := threeCalls_reads.1.1

theorem threeCalls_reach :
    (session sampleImage sampleOs (fun _ => 0) threeCalls).Reach thirdCall := by
  obtain ⟨hnum₀, hnum₁, -⟩ := threeCalls_reads.2.2.1
  have hlt {k : ℕ} (hk : k < 3) : k < threeCalls.totalcallnum.toNat := by
    rw [threeCalls_total]
    exact hk
  have hfirst := reach_call (reach_upTo (reach_callStart threeCalls) 64) (hlt (by decide)) hnum₀
  exact reach_upTo (reach_call (reach_upTo hfirst 57) (hlt (by decide)) hnum₁) 64

theorem threeCalls_wf : threeCalls.Wf := by
  have hrecords := threeCalls_reads.2.2.2
  refine ⟨by decide, ?_, ?_, ?_, ?_⟩
  · rw [threeCalls_total]
    decide
  · rw [threeCalls_total]
    exact fun i hi => (hrecords i hi).1.1
  · rw [threeCalls_total]
    exact fun i hi => (hrecords i hi).1.2.1
  · rw [threeCalls_total]
    exact fun i hi => (hrecords i hi).1.2.2

/-- The buffer at `0x300000` is the program's own. -/
theorem threeCalls_placed : Placed sampleImage sampleOs (fun _ => 0) threeCalls := by
  have hlen : threeCalls.length = 116 := by decide
  have hbase : tableAddr sampleOs threeCalls = 0x2000000 := rfl
  have hpages := threeCalls_reads.1.2
  have hinfo : runningInfoAddr = 0x150000 := rfl
  have hrecords := threeCalls_reads.2.2.2
  rw [← threeCalls_total] at hrecords
  refine ⟨threeCalls_wf, fun a ha => ?_, ⟨fun a ha => ?_, fun i hi a ha => ?_, fun hexit => ?_,
    fun i hi b hb a ha => ?_⟩, fun a ha => ?_⟩
  · rw [hbase, hpages] at ha
    rw [hinfo]
    bv_omega
  · rw [hbase, hlen] at ha
    rw [hinfo]
    bv_omega
  · unfold Loader
    rw [hbase, hlen, hinfo]
    rcases (hrecords i hi).2.1 with h | h
    · rw [h] at ha
      bv_omega
    · rw [h] at ha
      bv_omega
  · exact absurd hexit (by decide)
  · obtain rfl := (hrecords i hi).2.2 b hb
    have ha : (a - 0x300000).toNat < 8 := ha
    unfold Loader
    rw [hbase, hlen, hinfo]
    bv_omega
  · unfold Loader at ha
    rw [hbase, hlen, hinfo] at ha
    have hstack : sampleImage.tempStackMem + 256 = 0x7de00 := by decide
    rw [hstack]
    bv_omega

/-- The third call is answered from the first record again. -/
theorem calls_replayed_again :
    threeCalls.sysidx 0 = 0 ∧ threeCalls.sysidx 1 = 1 ∧ threeCalls.sysidx 2 = 0 ∧
      ∃ r', thirdCall.r.takeoverSyscall ⟨0, 0⟩ ⟨0, 0⟩ = some r' ∧
        Replayed 0x2000000 threeCalls ⟨0, 0⟩ 2 thirdCall.r.cpu r'.cpu := by
  obtain ⟨-, ⟨h₀, h₁, h₂⟩, ⟨-, -, hnum⟩, -⟩ := threeCalls_reads
  have hlt : thirdCall.calls < threeCalls.totalcallnum.toNat := by
    rw [threeCalls_total]
    exact Nat.lt_succ_self 2
  exact ⟨h₀, h₁, h₂,
    (calls_replayed threeCalls_placed threeCalls_reach).2.2.1 hlt hnum ⟨0, 0⟩ ⟨0, 0⟩⟩

/-! ### A buffer over `RunningInfo` -/

/-- System call 64, whose result block covers the slot of `s1`. -/
def overCall : SysTable :=
  le64 1 ++ (List.replicate 4 0 : File) ++ le64 0x200010 ++ le64 (64 <<< 32 ||| 8) ++ le64 5 ++
    le64 7 ++ le64 (52 <<< 8) ++ le64 0x150070 ++ le64 1

theorem overCall_wf : overCall.Wf := by
  have htotal : overCall.totalcallnum.toNat = 1 := by decide +kernel
  refine ⟨by decide +kernel, by decide +kernel, fun i hi => ?_, fun i hi _ => ?_,
    fun i hi _ _ => ?_⟩
  all_goals
    obtain rfl : i = 0 := by omega
    decide +kernel

/-- The slot of `s1` in `RunningInfo` is at `0x150070`: a call with its results
    there returns with another `s1`. -/
theorem register_overwritten :
    ¬ ∀ (img : Image) (os : Os) (m₀ : Mem) (p : SysTable) (s : Session 40) (t t' : Csrs), p.Wf →
      (session img os m₀ p).Reach s → s.calls < p.totalcallnum.toNat →
      s.r.cpu.get 17 = (p.info s.calls).sysnum →
      ∃ r', s.r.takeoverSyscall t t' = some r' ∧ Replayed (tableAddr os p) p
        ⟨m₀.ld64 RunningInfo.exitpc, m₀.ld64 RunningInfo.exit_cause⟩ s.calls s.r.cpu r'.cpu := by
  intro h
  have hreach := reach_upTo (reach_callStart overCall) 64
  obtain ⟨r', hr', hrep⟩ := h _ _ _ _ _ ⟨0, 0⟩ ⟨0, 0⟩ overCall_wf hreach (by decide +kernel)
    (by decide +kernel)
  have hs1 : (((callStart overCall).upTo 64).r.takeoverSyscall ⟨0, 0⟩ ⟨0, 0⟩).map
      (fun r => r.cpu.get 9) = some 1 := by decide +kernel
  rw [hr', Option.map_some, hrep.regs 9 (by decide)] at hs1
  exact absurd (Option.some.inj hs1) (by decide +kernel)

end BoomStop
