/-
  The path of a sample through the kernel (`entry.S`) and the sampler
  (`trace.cpp`): the sample looks like a system call of the child, whose entry and
  exit the sampler stops at, and at both of which it rewrites the child's registers.

  * `Ins`, `exec`: the instructions of `entry.S`, over the registers and `pt_regs`;
  * `handle_exception`, `trace_entered`, `ret_from_exception`: the code from one stop
    to the next;
  * `sample`: the path, from user mode to user mode;
  * `enter_regs`, `leave_regs`: what the sampler does to the registers;
  * `sample_transparent`: the child goes on where it was, with its registers.
-/
import BoomStop.Ptrace

namespace BoomStop.SyscallPath

open Ptrace (UserRegs Status)

/-! ## Instructions -/

/-- The slots of `pt_regs`; those of the registers go by their numbers. -/
inductive PT
  | x (r : Fin 32)
  | EPC | STATUS | BADADDR | CAUSE | ORIG_A0
  deriving DecidableEq

/-- `struct pt_regs`. -/
abbrev PtRegs : Type := PT → BitVec 64

/-- The control registers of the supervisor that the entry code uses. -/
inductive CSR
  | STATUS | EPC | TVAL | CAUSE | SCRATCH
  deriving DecidableEq

/-- The fields of `thread_info`. -/
inductive TI
  | FLAGS | KERNEL_SP | USER_SP
  deriving DecidableEq

/-- The registers, the frame at `sp` and the thread at `tp`. -/
structure State where
  x : Fin 32 → BitVec 64
  csr : CSR → BitVec 64
  ti : TI → BitVec 64
  frame : PtRegs

namespace Gpr

def ra : Fin 32 := 1
def sp : Fin 32 := 2
def gp : Fin 32 := 3
def tp : Fin 32 := 4
def t0 : Fin 32 := 5
def s0 : Fin 32 := 8
def s1 : Fin 32 := 9
def a0 : Fin 32 := 10
def a1 : Fin 32 := 11
def a2 : Fin 32 := 12
def a7 : Fin 32 := 17
def s2 : Fin 32 := 18
def s3 : Fin 32 := 19
def s4 : Fin 32 := 20
def s5 : Fin 32 := 21

/-- What a C function leaves. -/
def saved (r : Fin 32) : Bool := r ∈ ([0, 2, 3, 4, 8, 9] : List (Fin 32)) || 18 ≤ r && r ≤ 27

end Gpr

/-- The C functions that are called. -/
inductive CFun
  | trace_hardirqs_off | trace_hardirqs_on
  | context_tracking_user_exit | context_tracking_user_enter
  | sys_call_table (nr : BitVec 64) | sys_ni_syscall
  | do_syscall_trace_enter | do_syscall_trace_exit
  | schedule | do_notify_resume

/-- Those that do not get the frame. -/
def CFun.blind : CFun → Bool
  | sys_call_table _ | do_syscall_trace_enter | do_syscall_trace_exit | do_notify_resume => false
  | _ => true

/-- The configuration of the kernel, and its C functions. -/
structure Kernel where
  CONFIG_TRACE_IRQFLAGS : Bool
  CONFIG_CONTEXT_TRACKING : Bool
  NR_syscalls : BitVec 64
  TIF_SYSCALL_WORK : BitVec 64
  TIF_WORK_MASK : BitVec 64
  TIF_NEED_RESCHED : BitVec 64
  PT_SIZE_ON_STACK : BitVec 64
  /-- whether `REG_SC` succeeds -/
  reserved : State → Bool
  call : CFun → State → State
  /-- the calling convention -/
  saved : ∀ f s r, Gpr.saved r = true → (call f s).x r = s.x r
  blind : ∀ f s, f.blind = true → (call f s).frame = s.frame

/-- The instructions; `REG_S` and `REG_L` go to the frame, `TI_S` and `TI_L` to the
    thread. -/
inductive Ins
  | REG_S (rs : Fin 32) (f : PT)
  | REG_L (rd : Fin 32) (f : PT)
  | REG_SC (rs : Fin 32) (f : PT)
  | TI_S (rs : Fin 32) (f : TI)
  | TI_L (rd : Fin 32) (f : TI)
  | addi (rd rs : Fin 32) (imm : BitVec 64)
  | andi (rd rs : Fin 32) (imm : BitVec 64)
  | li (rd : Fin 32) (v : BitVec 64)
  | csrr (rd : Fin 32) (c : CSR)
  | csrw (c : CSR) (rs : Fin 32)
  /-- `csrrw rd, c, rs` -/
  | csrrw (rd : Fin 32) (c : CSR) (rs : Fin 32)
  /-- `csrrc rd, c, rs` -/
  | csrrc (rd : Fin 32) (c : CSR) (rs : Fin 32)
  | csrs (c : CSR) (v : BitVec 64)
  | csrc (c : CSR) (v : BitVec 64)
  | call (f : CFun)

namespace State

/-- `x0` is not written. -/
def set (s : State) (r : Fin 32) (v : BitVec 64) : State :=
  { s with x := fun q => if q = r ∧ r ≠ 0 then v else s.x q }

/-- A write of a control register. -/
def setCsr (s : State) (c : CSR) (v : BitVec 64) : State :=
  { s with csr := fun d => if d = c then v else s.csr d }

/-- A write of a register of the frame. -/
def setFrame (s : State) (f : PT) (v : BitVec 64) : State :=
  { s with frame := fun g => if g = f then v else s.frame g }

end State

variable (k : Kernel)

/-- One instruction. -/
def Ins.exec (s : State) : Ins → State
  | REG_S rs f => s.setFrame f (s.x rs)
  | REG_L rd f => s.set rd (s.frame f)
  | REG_SC rs f => if k.reserved s then s.setFrame f (s.x rs) else s
  | TI_S rs f => { s with ti := fun g => if g = f then s.x rs else s.ti g }
  | TI_L rd f => s.set rd (s.ti f)
  | addi rd rs imm => s.set rd (s.x rs + imm)
  | andi rd rs imm => s.set rd (s.x rs &&& imm)
  | li rd v => s.set rd v
  | csrr rd c => s.set rd (s.csr c)
  | csrw c rs => s.setCsr c (s.x rs)
  | csrrw rd c rs => (s.setCsr c (s.x rs)).set rd (s.csr c)
  | csrrc rd c rs => (s.setCsr c (s.csr c &&& ~~~s.x rs)).set rd (s.csr c)
  | csrs c v => s.setCsr c (s.csr c ||| v)
  | csrc c v => s.setCsr c (s.csr c &&& ~~~v)
  | call f => k.call f s

/-- A piece of code. -/
def exec (is : List Ins) (s : State) : State := is.foldl (Ins.exec k) s

/-- A call that depends on the configuration. -/
def ifdef (config : Bool) (f : CFun) (s : State) : State := if config then exec k [.call f] s else s

/-! ## `entry.S` -/

def SR_IE : BitVec 64 := 0x2
def SR_PIE : BitVec 64 := 0x20
def SR_PP : BitVec 64 := 0x100
def SR_FS : BitVec 64 := 0x6000
def SR_SUM : BitVec 64 := 0x40000
def EXC_BREAKPOINT : BitVec 64 := 3
def EXC_SYSCALL : BitVec 64 := 8

open Ins Gpr

/-- The registers that are saved and restored one after the other. -/
def general : List (Fin 32) :=
  [1, 3, 5, 6, 7, 8, 9, 10, 11, 12, 13, 14, 15, 16, 17, 18, 19, 20, 21, 22, 23, 24, 25, 26, 27, 28,
    29, 30, 31]

/-- From user mode: the kernel's thread and stack. -/
def switch_stack : List Ins :=
  [csrrw tp .SCRATCH tp, TI_S sp .USER_SP, TI_L sp .KERNEL_SP, addi sp sp (-k.PT_SIZE_ON_STACK)]

/-- After the stores: the CSRs of the exception, the stack and the thread of the user. -/
def save_csrs : List Ins :=
  [li t0 (SR_SUM ||| SR_FS), TI_L s0 .USER_SP, csrrc s1 .STATUS t0, csrr s2 .EPC, csrr s3 .TVAL,
    csrr s4 .CAUSE, csrr s5 .SCRATCH, REG_S s0 (.x sp), REG_S s1 .STATUS, REG_S s2 .EPC,
    REG_S s3 .BADADDR, REG_S s4 .CAUSE, REG_S s5 (.x tp), csrw .SCRATCH 0]

/-- From user mode, `handle_exception` to the first branch. -/
def save_context : List Ins := switch_stack k ++ general.map (fun r => REG_S r (.x r)) ++ save_csrs

/-- Up to the test of the cause; `gp` is loaded with `__global_pointer$`. -/
def track (globalPointer : BitVec 64) (s : State) : State :=
  let s := ifdef k k.CONFIG_TRACE_IRQFLAGS .trace_hardirqs_off (exec k [li gp globalPointer] s)
  if k.CONFIG_CONTEXT_TRACKING then
    let s := exec k [andi a0 s1 SR_PP] s
    if s.x a0 = 0 then exec k [call .context_tracking_user_exit] s else s
  else s

/-- Exceptions run with interrupts enabled if they were. -/
def enable (s : State) : State :=
  let s := exec k [andi t0 s1 SR_PIE] s
  if s.x t0 = 0 then s
  else
    let s := exec k [li t0 EXC_BREAKPOINT] s
    if s.x s4 = s.x t0 then s
    else exec k [csrs .STATUS SR_IE] (ifdef k k.CONFIG_TRACE_IRQFLAGS .trace_hardirqs_on s)

/-- `handle_syscall`, to its branch. -/
def advance : List Ins :=
  (if k.CONFIG_TRACE_IRQFLAGS || k.CONFIG_CONTEXT_TRACKING then
    [10, 11, 12, 13, 14, 15, 16, 17].map fun r : Fin 32 => REG_L r (.x r) else []) ++
  [REG_S a0 .ORIG_A0, addi s2 s2 4, REG_S s2 .EPC, TI_L t0 .FLAGS, andi t0 t0 k.TIF_SYSCALL_WORK]

/-- To the call of `do_syscall_trace_enter`, if the code gets there. -/
def handle_exception (globalPointer : BitVec 64) (s : State) : Option State :=
  let s := track k globalPointer (exec k (save_context k) s)
  if (s.x s4).toInt < 0 then none
  else
    let s := exec k [li t0 EXC_SYSCALL] (enable k s)
    if s.x s4 = s.x t0 then
      let s := exec k (advance k) s
      if s.x t0 = 0 then none else some (exec k [addi a0 sp 0] s)
    else none

/-- `check_syscall_nr`: what is called. -/
def check_syscall_nr (s : State) : CFun :=
  if s.x a7 < k.NR_syscalls then .sys_call_table (s.x a7) else .sys_ni_syscall

/-- `ret_from_syscall_rejected`: to the call of `do_syscall_trace_exit`. -/
def ret_from_syscall_rejected (s : State) : Option State :=
  let s := exec k [TI_L t0 .FLAGS, andi t0 t0 k.TIF_SYSCALL_WORK] s
  if s.x t0 = 0 then none else some (exec k [addi a0 sp 0] s)

/-- `handle_syscall_trace_enter`, from the return of `do_syscall_trace_enter`. -/
def trace_entered (s : State) : Option State :=
  let s := exec k (addi t0 a0 0 ::
    [10, 11, 12, 13, 14, 15, 16, 17].map fun r : Fin 32 => REG_L r (.x r)) s
  if s.x t0 ≠ 0 then ret_from_syscall_rejected k s
  else ret_from_syscall_rejected k (exec k [call (check_syscall_nr k s), REG_S a0 (.x a0)] s)

/-- The registers and the `pc` in user mode. -/
structure User where
  x : Fin 32 → BitVec 64
  pc : BitVec 64

/-- The CSRs, and the load reservation. -/
def restore_csrs : List Ins :=
  [REG_L a0 .STATUS, REG_L a2 .EPC, REG_SC a2 .EPC, csrw .STATUS a0, csrw .EPC a2]

/-- The end of `ret_from_exception`: the registers of the frame are loaded, the stack
    pointer last. -/
def restore : List Ins :=
  restore_csrs ++ [1, 3, 4].map (fun r : Fin 32 => REG_L r (.x r)) ++
  (general.drop 2).map (fun r => REG_L r (.x r)) ++ [REG_L sp (.x sp)]

/-- Interrupts will be enabled, or not. -/
def trace_restore (s : State) : State :=
  if k.CONFIG_TRACE_IRQFLAGS then
    let s := exec k [REG_L s1 .STATUS, andi t0 s1 SR_PIE] s
    if s.x t0 = 0 then exec k [call .trace_hardirqs_off] s else exec k [call .trace_hardirqs_on] s
  else s

/-- `restore_all`, and `sret`. -/
def restore_all (s : State) : User :=
  let s := exec k restore (trace_restore k s)
  ⟨s.x, s.csr .EPC⟩

/-- `work_pending` -/
def work_pending (s : State) : State :=
  let s := exec k [andi s1 s0 k.TIF_NEED_RESCHED] s
  if s.x s1 ≠ 0 then exec k [call .schedule] s
  else exec k [csrs .STATUS SR_IE, addi a0 sp 0, addi a1 s0 0, call .do_notify_resume] s

/-- `ret_from_exception`, as often as there is work. -/
def ret_from_exception : ℕ → State → Option User
  | 0, _ => none
  | fuel + 1, s =>
    let s := exec k [andi s0 s0 SR_PP] (ifdef k k.CONFIG_TRACE_IRQFLAGS .trace_hardirqs_off
      (exec k [REG_L s0 .STATUS, csrc .STATUS SR_IE] s))
    if s.x s0 ≠ 0 then some (restore_all k s)
    else
      let s := exec k [TI_L s0 .FLAGS, andi s1 s0 k.TIF_WORK_MASK] s
      if s.x s1 ≠ 0 then ret_from_exception fuel (work_pending k s)
      else
        some (restore_all k (exec k
          [addi s0 sp k.PT_SIZE_ON_STACK, TI_S s0 .KERNEL_SP, csrw .SCRATCH tp]
          (ifdef k k.CONFIG_CONTEXT_TRACKING .context_tracking_user_enter s)))

/-! ## The path of a sample -/

/-- `x0` reads as zero. -/
def User.get (u : User) (r : Fin 32) : BitVec 64 := if r = 0 then 0 else u.x r

/-- The registers other than `a7`, in the order of `user_regs_struct`. -/
def otherReg (j : Fin 30) : Fin 32 :=
  if j.val < 16 then ⟨j.val + 1, by omega⟩ else ⟨j.val + 2, by omega⟩

/-- The place of a register among those that a call does not use. -/
def otherIdx (r : Fin 32) : Fin 30 :=
  if h : r.val < 17 then ⟨r.val - 1, by omega⟩ else ⟨r.val - 2, by omega⟩

/-- `NT_PRSTATUS`, as it is read -/
def userRegs (p : PtRegs) : UserRegs := ⟨p .EPC, p (.x a7), fun j => p (.x (otherReg j))⟩

/-- and as it is written. -/
def setUserRegs (v : UserRegs) (p : PtRegs) : PtRegs
  | .EPC => v.pc
  | .x r => if r = 0 then p (.x 0) else if r = a7 then v.a7 else v.others (otherIdx r)
  | f => p f

variable {va : ℕ}

/-- What else a sample meets: the CSRs and the thread of the child, the harts on which
    the sampler goes on, and how often the kernel may have work. -/
structure Env (va : ℕ) where
  kernel : State
  globalPointer : BitVec 64
  entry : Cpu va
  exit : Cpu va
  fuel : ℕ

/-- The exception of a sample, at the instruction that is not executed. -/
def trap (e : Env va) (u : User) : State :=
  { e.kernel with
    x := u.x
    csr := fun c =>
      match c with
      | .EPC => u.pc
      | .CAUSE => EXC_SYSCALL
      | c => e.kernel.csr c }

/-- The child goes on after a stop, with the registers that the sampler left. -/
def resume (f : CFun) (s : State) (t : Ptrace.Sys va) : State :=
  { k.call f s with frame := setUserRegs t.tracee.regs s.frame }

/-- From user mode to user mode, with the sampler at the two stops, if it goes on. -/
def sample (hpcounters : BitVec 64) (e : Env va) (u : User) (t : Ptrace.Sys va) :
    Option (User × Ptrace.Sys va) := do
  let s ← handle_exception k e.globalPointer (trap e u)
  let t := t.next hpcounters ⟨.entry, userRegs s.frame, e.entry⟩
  if t.control ≠ .leave then none
  let s ← trace_entered k (resume k .do_syscall_trace_enter s t)
  let t := t.next hpcounters ⟨.exit, userRegs s.frame, e.exit⟩
  let u ← ret_from_exception k e.fuel (resume k .do_syscall_trace_exit s t)
  return (u, t)

/-- `sampleHappen` is read as set. -/
def Sampled (c : Cpu va) : Prop := (Instr.execAll Ptrace.getSampleHappen c).get Reg.t0 ≠ 0

section

variable {k} {s s' : State}

/-! ## Stores and loads -/

theorem exec_append (is js : List Ins) : exec k (is ++ js) s = exec k js (exec k is s) :=
  List.foldl_append

theorem exec_cons (i : Ins) (is : List Ins) : exec k (i :: is) s = exec k is (i.exec k s) := rfl

theorem exec_nil : exec k [] s = s := rfl

/-- A list of stores. -/
theorem exec_stores : ∀ (l : List (Fin 32)) (s : State),
    exec k (l.map fun r => REG_S r (.x r)) s =
      { s with frame := fun f =>
          match f with
          | .x r => if r ∈ l then s.x r else s.frame (.x r)
          | f => s.frame f }
  | [], s => by
    obtain ⟨x, csr, ti, frame⟩ := s
    rw [List.map_nil, exec_nil]
    congr 1
    funext f
    cases f <;> simp
  | r :: l, s => by
    rw [List.map_cons, exec_cons, exec_stores l]
    simp only [Ins.exec, State.setFrame]
    congr 1
    funext f
    cases f with
    | x q => by_cases hq : q = r <;> simp [hq]
    | _ => simp

/-- A list of loads. -/
theorem exec_loads : ∀ (l : List (Fin 32)) (s : State), 0 ∉ l →
    exec k (l.map fun r => REG_L r (.x r)) s =
      { s with x := fun r => if r ∈ l then s.frame (.x r) else s.x r }
  | [], s, _ => by
    obtain ⟨x, csr, ti, frame⟩ := s
    simp [exec_nil]
  | r :: l, s, h0 => by
    rw [List.map_cons, exec_cons, exec_loads l _ (fun h => h0 (List.mem_cons_of_mem _ h))]
    have hr : r ≠ 0 := fun e => h0 (e ▸ List.mem_cons_self)
    simp only [Ins.exec, State.set]
    congr 1
    funext q
    by_cases hq : q = r <;> by_cases hl : q ∈ l <;> simp [hq, hl, hr]

/-! ## The frame -/

/-- The frame, and `pc` in its register. -/
structure Keeps (s s' : State) : Prop where
  frame : s'.frame = s.frame
  epc : s'.x s2 = s.x s2

theorem Keeps.refl (s : State) : Keeps s s := ⟨rfl, rfl⟩

theorem Keeps.trans {s'' : State} (h : Keeps s s') (h' : Keeps s' s'') : Keeps s s'' :=
  ⟨h'.frame.trans h.frame, h'.epc.trans h.epc⟩

theorem keeps_call {f : CFun} (hf : f.blind = true) : Keeps s (exec k [call f] s) :=
  ⟨k.blind f s hf, k.saved f s s2 rfl⟩

theorem keeps_set {r : Fin 32} {v : BitVec 64} (h2 : r ≠ s2) : Keeps s (s.set r v) :=
  ⟨rfl, if_neg fun h => h2 h.1.symm⟩

theorem keeps_ite {c : Prop} [Decidable c] {a b : State} (ha : Keeps s a) (hb : Keeps s b) :
    Keeps s (if c then a else b) := by
  split_ifs
  · exact ha
  · exact hb

theorem keeps_ifdef {config : Bool} {f : CFun} (hf : f.blind = true) :
    Keeps s (ifdef k config f s) := keeps_ite (keeps_call hf) (.refl s)

theorem keeps_track (globalPointer : BitVec 64) : Keeps s (track k globalPointer s) := by
  have hgp : Keeps s (exec k [li gp globalPointer] s) := keeps_set (by decide)
  have hand : ∀ s, Keeps s (exec k [andi a0 s1 SR_PP] s) := fun s => keeps_set (by decide)
  refine (hgp.trans (keeps_ifdef rfl)).trans (keeps_ite ?_ (.refl _))
  exact keeps_ite ((hand _).trans (keeps_call rfl)) (hand _)

theorem keeps_enable : Keeps s (enable k s) := by
  have hand : ∀ s, Keeps s (exec k [andi t0 s1 SR_PIE] s) := fun s => keeps_set (by decide)
  have hli : ∀ s, Keeps s (exec k [li t0 EXC_BREAKPOINT] s) := fun s => keeps_set (by decide)
  have hcsrs : ∀ s, Keeps s (exec k [csrs .STATUS SR_IE] s) := fun s => ⟨rfl, rfl⟩
  refine keeps_ite (hand s) (keeps_ite ((hand s).trans (hli _)) ?_)
  exact (((hand s).trans (hli _)).trans (keeps_ifdef rfl)).trans (hcsrs _)

theorem switch_stack_spec : (exec k (switch_stack k) s).csr .EPC = s.csr .EPC ∧
    (exec k (switch_stack k) s).csr .SCRATCH = s.x tp ∧
    (exec k (switch_stack k) s).ti .USER_SP = s.x sp ∧
    ∀ r, r ≠ sp → r ≠ tp → (exec k (switch_stack k) s).x r = s.x r := by
  refine ⟨rfl, rfl, rfl, fun r hsp htp => ?_⟩
  simp [switch_stack, exec, Ins.exec, State.set, State.setCsr, hsp, htp]

theorem save_csrs_spec : (exec k save_csrs s).x s2 = s.csr .EPC ∧
    (exec k save_csrs s).frame (.x sp) = s.ti .USER_SP ∧
    (exec k save_csrs s).frame (.x tp) = s.csr .SCRATCH ∧
    ∀ r, r ≠ sp → r ≠ tp → (exec k save_csrs s).frame (.x r) = s.frame (.x r) := by
  refine ⟨rfl, rfl, rfl, fun r hsp htp => ?_⟩
  simp [save_csrs, exec, Ins.exec, State.set, State.setCsr, State.setFrame, hsp, htp]

theorem mem_general {r : Fin 32} (h0 : r ≠ 0) (hsp : r ≠ sp) (htp : r ≠ tp) : r ∈ general := by
  revert h0 hsp htp
  revert r
  decide

/-- `save_context` stores the registers of the exception. -/
theorem save_context_spec : (exec k (save_context k) s).x s2 = s.csr .EPC ∧
    ∀ r, r ≠ 0 → (exec k (save_context k) s).frame (.x r) = s.x r := by
  obtain ⟨hepc, hscratch, huser, hx⟩ := switch_stack_spec (k := k) (s := s)
  unfold save_context
  rw [exec_append, exec_append, exec_stores]
  set t : State := { exec k (switch_stack k) s with frame := _ } with ht
  obtain ⟨hepc', hsp', htp', hrest⟩ := save_csrs_spec (k := k) (s := t)
  refine ⟨hepc'.trans hepc, fun r h0 => ?_⟩
  by_cases hsp : r = sp
  · rw [hsp]
    exact hsp'.trans huser
  · by_cases htp : r = tp
    · rw [htp]
      exact htp'.trans hscratch
    · rw [hrest r hsp htp, ← hx r hsp htp]
      exact if_pos (mem_general h0 hsp htp)

/-- `handle_syscall` moves `pc` on. -/
theorem advance_spec : (exec k (advance k) s).frame .EPC = s.x s2 + 4 ∧
    ∀ r, (exec k (advance k) s).frame (.x r) = s.frame (.x r) := by
  unfold advance
  rw [exec_append]
  have hkeep : Keeps s (exec k (if k.CONFIG_TRACE_IRQFLAGS || k.CONFIG_CONTEXT_TRACKING then
      [10, 11, 12, 13, 14, 15, 16, 17].map fun r : Fin 32 => REG_L r (.x r) else []) s) := by
    split_ifs
    · rw [exec_loads _ _ (by decide)]
      exact ⟨rfl, rfl⟩
    · exact .refl s
  constructor
  · rw [← hkeep.epc]
    rfl
  · intro r
    rw [← hkeep.frame]
    rfl

/-- The code up to the first stop leaves the registers of the exception in the frame,
    with `pc` moved on. -/
theorem handle_exception_spec {e : Env va} {u : User}
    (h : handle_exception k e.globalPointer (trap e u) = some s') :
    s'.frame .EPC = u.pc + 4 ∧ ∀ r, r ≠ 0 → s'.frame (.x r) = u.x r := by
  obtain ⟨hepc, hframe⟩ := save_context_spec (k := k) (s := trap e u)
  have hli : ∀ s, Keeps s (exec k [li t0 EXC_SYSCALL] s) :=
    fun s => keeps_set (by decide)
  have hkeep : Keeps (exec k (save_context k) (trap e u)) (exec k [li t0 EXC_SYSCALL]
      (enable k (track k e.globalPointer (exec k (save_context k) (trap e u))))) :=
    ((keeps_track e.globalPointer).trans keeps_enable).trans (hli _)
  obtain ⟨hadv, hadv'⟩ := advance_spec (k := k) (s := exec k [li t0 EXC_SYSCALL]
    (enable k (track k e.globalPointer (exec k (save_context k) (trap e u)))))
  unfold handle_exception at h
  simp only at h
  split_ifs at h
  obtain rfl := Option.some.inj h
  constructor
  · exact hadv.trans (by rw [hkeep.epc, hepc]; rfl)
  · intro r h0
    exact (hadv' r).trans (by rw [hkeep.frame, hframe r h0]; rfl)

/-! ## Back to user mode -/

/-- The store conditional stores what is there. -/
theorem restore_csrs_spec : (exec k restore_csrs s).frame = s.frame ∧
    (exec k restore_csrs s).csr .EPC = s.frame .EPC := by
  set t := exec k [REG_L a0 .STATUS, REG_L a2 .EPC] s with ht
  have hexec : exec k restore_csrs s = exec k [csrw .STATUS a0, csrw .EPC a2]
      (if k.reserved t then t.setFrame .EPC (t.x a2) else t) := rfl
  have ha2 : t.x a2 = s.frame .EPC := rfl
  rw [hexec]
  cases k.reserved t with
  | false => exact ⟨rfl, rfl⟩
  | true =>
    refine ⟨funext fun f => ?_, rfl⟩
    show (if f = .EPC then t.x a2 else t.frame f) = s.frame f
    split_ifs with hf
    · rw [hf, ha2]
    · rfl

theorem restore_spec : (exec k restore s).csr .EPC = s.frame .EPC ∧
    ∀ r, r ≠ 0 → (exec k restore s).x r = s.frame (.x r) := by
  obtain ⟨hframe, hepc⟩ := restore_csrs_spec (k := k) (s := s)
  unfold restore
  rw [exec_append, exec_append, exec_append, exec_loads _ _ (by decide),
    exec_loads _ _ (by decide)]
  refine ⟨hepc, fun r h0 => ?_⟩
  rw [← hframe]
  show (if r = sp ∧ sp ≠ 0 then _ else if r ∈ general.drop 2 then _ else
    if r ∈ ([1, 3, 4] : List (Fin 32)) then _ else _) = _
  split_ifs with hsp hgen hfew
  · rw [hsp.1]
  · rfl
  · rfl
  · have hall : ∀ r : Fin 32, r ≠ 0 → ¬(r = sp ∧ sp ≠ 0) → r ∉ general.drop 2 →
        r ∈ ([1, 3, 4] : List (Fin 32)) := by decide
    exact absurd (hall r h0 hsp hgen) hfew

/-- User mode has the registers of the frame. -/
def Shows (u : User) (p : PtRegs) : Prop := u.pc = p .EPC ∧ ∀ r, r ≠ 0 → u.x r = p (.x r)

theorem shows_restore_all : Shows (restore_all k s) s.frame := by
  have hframe : (trace_restore k s).frame = s.frame := by
    unfold trace_restore
    simp only
    split_ifs
    · exact k.blind .trace_hardirqs_off _ rfl
    · exact k.blind .trace_hardirqs_on _ rfl
    · rfl
  obtain ⟨hepc, hx⟩ := restore_spec (k := k) (s := trace_restore k s)
  rw [← hframe]
  exact ⟨hepc, hx⟩

/-- As long as no signal is delivered, work leaves the frame. -/
theorem frame_work_pending (hn : ∀ s, (k.call .do_notify_resume s).frame = s.frame) :
    (work_pending k s).frame = s.frame := by
  unfold work_pending
  simp only
  split_ifs
  · exact k.blind .schedule _ rfl
  · exact hn _

theorem shows_ret_from_exception (hn : ∀ s, (k.call .do_notify_resume s).frame = s.frame)
    {u : User} : ∀ (fuel : ℕ) (s : State), ret_from_exception k fuel s = some u → Shows u s.frame
  | 0, s, h => by simp [ret_from_exception] at h
  | fuel + 1, s, h => by
    set t := exec k [andi s0 s0 SR_PP] (ifdef k k.CONFIG_TRACE_IRQFLAGS .trace_hardirqs_off
      (exec k [REG_L s0 .STATUS, csrc .STATUS SR_IE] s)) with ht
    have hframe : t.frame = s.frame := by
      rw [ht]
      exact (keeps_ifdef (k := k) (s := exec k [REG_L s0 .STATUS, csrc .STATUS SR_IE] s) rfl).frame
    rw [← hframe]
    unfold ret_from_exception at h
    simp only [← ht] at h
    split_ifs at h
    · exact Option.some.inj h ▸ shows_restore_all
    · have := shows_ret_from_exception hn fuel _ h
      rwa [frame_work_pending hn] at this
    · have hct : Keeps _ (ifdef k k.CONFIG_CONTEXT_TRACKING .context_tracking_user_enter
        (exec k [TI_L s0 .FLAGS, andi s1 s0 k.TIF_WORK_MASK] t)) := keeps_ifdef rfl
      have := shows_restore_all (k := k) (s := exec k
        [addi s0 sp k.PT_SIZE_ON_STACK, TI_S s0 .KERNEL_SP, csrw .SCRATCH tp]
        (ifdef k k.CONFIG_CONTEXT_TRACKING .context_tracking_user_enter
          (exec k [TI_L s0 .FLAGS, andi s1 s0 k.TIF_WORK_MASK] t)))
      rw [← Option.some.inj h]
      exact hct.frame ▸ this

/-! ## The sampler -/

/-- The registers at a stop that is hidden: the call does not exist, and `pc` is that of
    the sampled instruction. -/
def hidden (v : UserRegs) : UserRegs := { v with a7 := Ptrace.sampleCall, pc := v.pc - 4 }

variable {t : Ptrace.Sys va} {hpcounters : BitVec 64} {v : UserRegs} {c : Cpu va}

/-- At the entry, the sampler hides the call and keeps its number. -/
theorem enter_regs (hc : t.control = .enter) (hlive : t.tracee.terminated = false) (hs : Sampled c)
    (hgo : (t.next hpcounters ⟨.entry, v, c⟩).control = .leave) :
    (t.next hpcounters ⟨.entry, v, c⟩).tracee.regs = hidden v ∧
      (t.next hpcounters ⟨.entry, v, c⟩).tracer.regs = hidden v ∧
      (t.next hpcounters ⟨.entry, v, c⟩).tracer.oldcallnum = v.a7 ∧
      (t.next hpcounters ⟨.entry, v, c⟩).tracee.terminated = false := by
  have hwait : t.waitpid ⟨.entry, v, c⟩ = { t with
      tracer := { t.tracer with status := .entry }
      tracee := t.tracee.report .entry v
      hart := c
      seen := { t.seen with statuses := .entry :: t.seen.statuses } } := by
    rw [Ptrace.Sys.waitpid, hlive, if_neg Bool.false_ne_true]
  set w := (t.waitpid ⟨.entry, v, c⟩).recordEntry with hw
  have hnext : t.next hpcounters ⟨.entry, v, c⟩ =
      (w.readSampleHappen.takeSample hpcounters).checkPeriods := by
    have hread : w.readSampleHappen.tracer.sampleHappen ≠ 0 := by
      rw [hw, hwait]
      exact hs
    have hexit : (t.waitpid ⟨.entry, v, c⟩).tracer.status.WIFEXITED = false := by
      rw [hwait]
      rfl
    rw [Ptrace.Sys.next, hc]
    simp only [hexit, Bool.false_eq_true, if_false]
    rw [Ptrace.Sys.syscallEntry, if_pos hread]
  rw [hnext] at hgo ⊢
  unfold Ptrace.Sys.checkPeriods at hgo ⊢
  split_ifs at hgo ⊢
  · exact absurd (show Ptrace.Control.done = .leave from hgo) (by decide)
  · rw [hw, hwait]
    exact ⟨rfl, rfl, rfl, rfl⟩

/-- At the exit, it restores all registers. -/
theorem leave_regs (hc : t.control = .leave) (hlive : t.tracee.terminated = false)
    (h7 : t.tracer.regs.a7 = Ptrace.sampleCall) :
    (t.next hpcounters ⟨.exit, v, c⟩).tracee.regs =
      { t.tracer.regs with a7 := t.tracer.oldcallnum } := by
  have hwait : t.waitpid ⟨.exit, v, c⟩ = { t with
      tracer := { t.tracer with status := .exit }
      tracee := t.tracee.report .exit v
      hart := c
      seen := { t.seen with statuses := .exit :: t.seen.statuses } } := by
    rw [Ptrace.Sys.waitpid, hlive, if_neg Bool.false_ne_true]
  have hexit : (t.waitpid ⟨.exit, v, c⟩).tracer.status.WIFEXITED = false := by
    rw [hwait]
    rfl
  have h7' : (t.waitpid ⟨.exit, v, c⟩).recordExit.tracer.regs.a7 = Ptrace.sampleCall := by
    rw [hwait]
    exact h7
  rw [Ptrace.Sys.next, hc]
  simp only [hexit, Bool.false_eq_true, if_false]
  rw [Ptrace.Sys.syscallExit, if_pos h7', hwait]
  rfl

/-- What is read is written back, with another `pc`. -/
theorem setUserRegs_userRegs (p q : PtRegs) (pc : BitVec 64) :
    setUserRegs { userRegs p with pc := pc } q .EPC = pc ∧
      ∀ r, r ≠ 0 → setUserRegs { userRegs p with pc := pc } q (.x r) = p (.x r) := by
  refine ⟨rfl, fun r h0 => ?_⟩
  show (if r = 0 then _ else if r = a7 then _ else p (.x (otherReg (otherIdx r)))) = p (.x r)
  rw [if_neg h0]
  split_ifs with h7
  · rw [h7]
    rfl
  · have hidx : ∀ r : Fin 32, r ≠ 0 → r ≠ a7 → otherReg (otherIdx r) = r := by decide
    rw [hidx r h0 h7]

/-- **A sample is transparent**: if the child gets back to user mode, and no signal is
    delivered on the way, it goes on at the sampled instruction with its registers. -/
theorem sample_transparent (hn : ∀ s, (k.call .do_notify_resume s).frame = s.frame) {e : Env va}
    {u u' : User} {t' : Ptrace.Sys va} (hc : t.control = .enter)
    (hlive : t.tracee.terminated = false) (hs : Sampled e.entry)
    (h : sample k hpcounters e u t = some (u', t')) : u'.pc = u.pc ∧ ∀ r, u'.get r = u.get r := by
  unfold sample at h
  simp only [Option.bind_eq_bind, Option.bind_eq_some_iff] at h
  obtain ⟨p₁, h₁, h⟩ := h
  split_ifs at h with hgo
  · simp at h
  obtain ⟨p₂, -, h⟩ := Option.bind_eq_some_iff.1 h
  obtain ⟨u₃, h₃, h⟩ := Option.bind_eq_some_iff.1 h
  obtain rfl : u₃ = u' := congrArg Prod.fst (Option.some.inj h)
  obtain ⟨hepc, hx⟩ := handle_exception_spec h₁
  obtain ⟨-, hregs, hold, hlive'⟩ := enter_regs hc hlive hs (not_not.1 hgo)
  set t₁ := t.next hpcounters ⟨.entry, userRegs p₁.frame, e.entry⟩ with ht₁
  have hleave : (t₁.next hpcounters ⟨.exit, userRegs p₂.frame, e.exit⟩).tracee.regs =
      { t₁.tracer.regs with a7 := t₁.tracer.oldcallnum } :=
    leave_regs (not_not.1 hgo) hlive' (by rw [hregs]; rfl)
  -- the frame has the registers of the first stop, with `pc` moved back
  have hframe : (resume k .do_syscall_trace_exit p₂
      (t₁.next hpcounters ⟨.exit, userRegs p₂.frame, e.exit⟩)).frame =
        setUserRegs { userRegs p₁.frame with pc := p₁.frame .EPC - 4 } p₂.frame := by
    rw [resume, hleave, hregs, hold]
    rfl
  obtain ⟨hpc', hx'⟩ := shows_ret_from_exception hn _ _ h₃
  obtain ⟨hset, hset'⟩ := setUserRegs_userRegs p₁.frame p₂.frame (p₁.frame .EPC - 4)
  constructor
  · rw [hpc', hframe, hset, hepc, BitVec.add_sub_cancel]
  · intro r
    unfold User.get
    split_ifs with h0
    · rfl
    · rw [hx' r h0, hframe, hset' r h0, hx r h0]

end

/-! ## A sample -/

/-- A kernel whose C functions only return something in `a0`; a traced child. -/
def kernel : Kernel where
  CONFIG_TRACE_IRQFLAGS := true
  CONFIG_CONTEXT_TRACKING := false
  NR_syscalls := 442
  TIF_SYSCALL_WORK := 1
  TIF_WORK_MASK := 2
  TIF_NEED_RESCHED := 2
  PT_SIZE_ON_STACK := 288
  reserved _ := false
  call f s := s.set a0 (match f with | .sys_ni_syscall => -38 | _ => 0)
  saved _ s r hr := if_neg fun h => absurd (h.1 ▸ hr) (by decide)
  blind _ _ _ := rfl

/-- The hart has sampled when it enters the kernel. -/
def sampleEnv : Env 40 where
  kernel := ⟨fun _ => 0, fun _ => 0, fun f => if f = .FLAGS then 1 else 0, fun _ => 0⟩
  globalPointer := 0
  entry := { Ptrace.forked.hart with ucsr := { Ptrace.forked.hart.ucsr with sampleHappen := 1 } }
  exit := Ptrace.forked.hart
  fuel := 1

/-- A child that has `a0 = 5` where it is sampled. -/
def child : User := ⟨fun r => if r = a0 then 5 else 0, 0x10000⟩

/-- The sampler, in the loop. -/
def sampler : Ptrace.Sys 40 := Ptrace.forked.next 0 (Ptrace.report .exec)

set_option maxRecDepth 20000 in
theorem sample_transparent_child : ∃ u' t', sample kernel 0 sampleEnv child sampler = some (u', t') ∧
    u'.pc = child.pc ∧ ∀ r, u'.get r = child.get r := by
  have hsome : (sample kernel 0 sampleEnv child sampler).isSome = true := by decide +kernel
  obtain ⟨⟨u', t'⟩, h⟩ := Option.isSome_iff_exists.1 hsome
  exact ⟨u', t', h, sample_transparent (fun _ => rfl) rfl rfl (by unfold Sampled; decide +kernel) h⟩

end BoomStop.SyscallPath
