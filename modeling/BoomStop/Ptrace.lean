/-
  The ptrace sampler (`example/ptrace`): `start_run_and_trace` follows a child
  from one wait status to the next, and tells system-call entries from exits
  by its place in the loop.

  * `Sys.next`: the code from one `waitpid` to the next, with the child, the
    hart and what has happened so far;
  * `Tracee.Legal`: the order in which the kernel reports stops;
  * `inPhase_iff`: the sampler is in phase exactly in the runs in which it has
    seen no signal-delivery stop and no termination by a signal;
  * `signal_lost`: it is not in all runs.
-/
import BoomStop.Asm
import BoomStop.Lib.Machine

namespace BoomStop.Ptrace

open Sync Instr

variable {va : ℕ}

/-! ## The child -/

/-- What `waitpid` reports; `exec` is the stop after the first `execve`. -/
inductive Status
  | exec
  | entry
  | exit
  | signal (sig : ℕ)
  | exited (code : ℕ)
  | signaled (sig : ℕ)
  deriving DecidableEq

namespace Status

/-- `WIFEXITED`. -/
def WIFEXITED : Status → Bool
  | exited _ => true
  | _ => false

/-- The process is gone. -/
def terminated : Status → Bool
  | exited _ | signaled _ => true
  | _ => false

/-- Neither a signal-delivery stop nor a termination by a signal. -/
def calm : Status → Bool
  | signal _ | signaled _ => false
  | _ => true

end Status

/-- `user_regs_struct`. -/
structure UserRegs where
  pc : BitVec 64
  a7 : BitVec 64
  others : Fin 30 → BitVec 64

/-- The child, as the kernel knows it. -/
structure Tracee where
  /-- what `waitpid` reported last -/
  stop : Option Status
  inCall : Bool
  /-- the system calls entered so far -/
  calls : ℕ
  regs : UserRegs

namespace Tracee

/-- The process is gone. -/
def terminated (t : Tracee) : Bool := t.stop.any Status.terminated

/-- What may be reported next.  Signals and terminations are allowed
    everywhere. -/
def Legal (t : Tracee) : Status → Prop
  | .exec => t.stop = none
  | .entry => t.stop ≠ none ∧ t.inCall = false
  | .exit => t.inCall = true
  | _ => True

/-- The process stops, and the tracer sees it. -/
def report (t : Tracee) (st : Status) (regs : UserRegs) : Tracee where
  stop := some st
  inCall := if st = .entry then true else if st = .exit then false else t.inCall
  calls := if st = .entry then t.calls + 1 else t.calls
  regs := regs

end Tracee

/-! ## The sampler -/

/-- The `waitpid` the sampler is waiting in. -/
inductive Control
  | first | enter | leave | done
  deriving DecidableEq

/-- The locals of `start_run_and_trace` and the globals of `perf.cpp`. -/
structure Tracer where
  status : Status
  regs : UserRegs
  sampleHappen : BitVec 64
  oldcallnum : BitVec 64
  sampletimes : BitVec 64
  runtimes : BitVec 64
  maxevent : BitVec 64
  warmupinst : BitVec 64
  eventsel : BitVec 64
  maxperiods : BitVec 64

/-- The two pieces of code of the loop. -/
inductive Code
  | entry | exit
  deriving DecidableEq

/-- A piece of code was run, when the child was at `stop` in the system call
    `call`; the code for an entry last ran in the system call `entered`. -/
structure Ran where
  code : Code
  stop : Option Status
  call : ℕ
  entered : ℕ

/-- What has happened so far, the last first. -/
structure Seen where
  statuses : List Status
  ran : List Ran
  /-- the system call in which the code for an entry last ran -/
  entered : ℕ
  /-- the signals that were not passed on to the child -/
  lost : List ℕ
  /-- the calls of `event_sample_process` -/
  samples : List (BitVec 64 × BitVec 64)

/-- The tracer, the process that it traces and the hart. -/
structure Sys (va : ℕ) where
  control : Control
  tracer : Tracer
  tracee : Tracee
  hart : Cpu va
  seen : Seen

/-- What has happened when `waitpid` returns: the child's status, its
    registers, and the hart on which it ran. -/
structure In (va : ℕ) where
  status : Status
  regs : UserRegs
  hart : Cpu va

/-- `GetSampleHappen`; the value is left in `t0`. -/
def getSampleHappen : List Instr := [addi 0 Reg.t0 34]

/-- `SetSampleHappen`. -/
def setSampleHappen (shap : BitVec 64) : List Instr := [li Reg.t0 shap, addi 0 Reg.t0 8]

/-- The system call number of a sample. -/
def sampleCall : BitVec 64 := 3656

/-- The number of `brk`. -/
def sys_brk : BitVec 64 := 214

namespace Sys

variable (s : Sys va)

/-- Inline assembly of the tracer. -/
def asm (is : List Instr) : Sys va := { s with hart := execAll is s.hart }

/-- On a child that has been waited for, `waitpid` fails and leaves `status`. -/
def waitpid (i : In va) : Sys va :=
  if s.tracee.terminated then { s with hart := i.hart }
  else { s with
    tracer := { s.tracer with status := i.status }
    tracee := s.tracee.report i.status i.regs
    hart := i.hart
    seen := { s.seen with statuses := i.status :: s.seen.statuses } }

/-- `ptrace(PTRACE_SYSCALL, child, 0, 0)` passes no signal on. -/
def ptraceSyscall : Sys va :=
  match s.tracee.stop with
  | some (.signal sig) => { s with seen := { s.seen with lost := sig :: s.seen.lost } }
  | _ => s

/-- `ptrace(PTRACE_GETREGSET, ..)`; it fails if the process is gone. -/
def ptraceGetregset : Sys va :=
  if s.tracee.terminated then s else { s with tracer := { s.tracer with regs := s.tracee.regs } }

/-- `ptrace(PTRACE_SETREGSET, ..)`; it fails if the process is gone. -/
def ptraceSetregset : Sys va :=
  if s.tracee.terminated then s else { s with tracee := { s.tracee with regs := s.tracer.regs } }

/-- `kill(child, SIGKILL)`, after the loop. -/
def leaveLoop : Sys va :=
  { s with
    control := .done
    tracee := if s.tracee.terminated then s.tracee
      else { s.tracee with stop := some (.signaled 9) } }

/-- The counters are read and printed. -/
def eventSampleProcess (hpcounters sampletimes exitpc : BitVec 64) : Sys va :=
  let s := s.asm (readCounter16 hpcounters 0)
  let s := s.asm (readCounter16 (hpcounters + 8 * 16) 16)
  let s := s.asm (readCounter16 (hpcounters + 8 * 32) 32)
  let s := s.asm (readCounter16 (hpcounters + 8 * 48) 48)
  { s with seen := { s.seen with samples := (sampletimes, exitpc) :: s.seen.samples } }

/-- `sampleHappen` is cleared, in the tracer and in the core. -/
def clearSampleHappen : Sys va :=
  let s := { s with tracer := { s.tracer with sampleHappen := 0 } }
  s.asm (setSampleHappen s.tracer.sampleHappen)

/-- The call number is kept for later, and `pc` is where the call returns to. -/
def hideCall : Sys va :=
  { s with tracer := { s.tracer with
    oldcallnum := s.tracer.regs.a7
    regs := { s.tracer.regs with a7 := sampleCall, pc := s.tracer.regs.pc - 4 } } }

/-- The sampling function is called, and the sample counted. -/
def processSample (hpcounters : BitVec 64) : Sys va :=
  let s := s.eventSampleProcess hpcounters s.tracer.sampletimes (s.tracer.regs.pc + 4)
  { s with tracer := { s.tracer with sampletimes := s.tracer.sampletimes + 1 } }

/-- A stop caused by a sample. -/
def takeSample (hpcounters : BitVec 64) : Sys va :=
  s.clearSampleHappen.hideCall.ptraceSetregset.processSample hpcounters

/-- The code for an entry runs here. -/
def recordEntry : Sys va :=
  { s with seen := { s.seen with
    ran := ⟨.entry, s.tracee.stop, s.tracee.calls, s.seen.entered⟩ :: s.seen.ran
    entered := s.tracee.calls } }

/-- The code for an exit runs here. -/
def recordExit : Sys va :=
  { s with seen := { s.seen with
    ran := ⟨.exit, s.tracee.stop, s.tracee.calls, s.seen.entered⟩ :: s.seen.ran } }

/-- To the second `waitpid`. -/
def resumeCall : Sys va := { s.ptraceSyscall with control := .leave }

/-- The registers of the process are read, and whether it has sampled. -/
def readSampleHappen : Sys va :=
  let s := s.ptraceGetregset
  let s := s.asm getSampleHappen
  { s with tracer := { s.tracer with sampleHappen := s.hart.get Reg.t0 } }

/-- The loop ends after the last period. -/
def checkPeriods : Sys va :=
  if s.tracer.sampletimes > s.tracer.maxperiods then s.leaveLoop else s.resumeCall

/-- The code after the first `waitpid` of the loop. -/
def syscallEntry (hpcounters : BitVec 64) : Sys va :=
  if s.readSampleHappen.tracer.sampleHappen ≠ 0 then
    (s.readSampleHappen.takeSample hpcounters).checkPeriods
  else s.readSampleHappen.resumeCall

/-- Arming the sampler. -/
def setNextSample : Sys va :=
  let s := s.asm (setPfcEnable 1)
  let s := s.asm (setSampleCtrlReg s.tracer.maxevent s.tracer.warmupinst s.tracer.eventsel)
  s.asm [rstPFC]

/-- The code after the second. -/
def syscallExit : Sys va :=
  if s.tracer.regs.a7 = sampleCall then
    let s := { s with tracer := { s.tracer with
      regs := { s.tracer.regs with a7 := s.tracer.oldcallnum } } }
    s.ptraceSetregset.setNextSample
  else if s.tracer.regs.a7 = sys_brk ∧ s.tracer.runtimes = 0 then
    let s := s.setNextSample
    { s with tracer := { s.tracer with warmupinst := 0, runtimes := 1 } }
  else s

/-- To the next turn of the loop. -/
def resumeUser : Sys va := { s.ptraceSyscall with control := .enter }

/-- From one `waitpid` to the next. -/
def next (hpcounters : BitVec 64) (i : In va) : Sys va :=
  match s.control with
  | .first =>
    let s := s.waitpid i
    if s.tracer.status.WIFEXITED then { s with control := .done } else s.resumeUser
  | .enter =>
    let s := s.waitpid i
    if s.tracer.status.WIFEXITED then s.leaveLoop
    else s.recordEntry.syscallEntry hpcounters
  | .leave =>
    let s := s.waitpid i
    if s.tracer.status.WIFEXITED then s.leaveLoop else s.recordExit.syscallExit.resumeUser
  | .done => s

end Sys

/-- After the `fork`. -/
structure Sys.Start (s : Sys va) : Prop where
  control : s.control = .first
  stop : s.tracee.stop = none
  inCall : s.tracee.inCall = false
  sampleHappen : s.tracer.sampleHappen = 0
  oldcallnum : s.tracer.oldcallnum = 0
  sampletimes : s.tracer.sampletimes = 0
  runtimes : s.tracer.runtimes = 0
  seen : s.seen = ⟨[], [], 0, [], []⟩

/-- `start_run_and_trace`, with every legal sequence of statuses; the counters
    are read to `hpcounters`. -/
def start_run_and_trace (va : ℕ) (hpcounters : BitVec 64) : Machine (Sys va) (In va) where
  start := Sys.Start
  ok s i := s.tracee.terminated = false → s.tracee.Legal i.status
  next s i := s.next hpcounters i

/-- The code ran at the stop it is meant for: an entry, or the exit of the
    system call at whose entry the other piece last ran. -/
def Ran.Matches (r : Ran) : Prop :=
  match r.code with
  | .entry => r.stop = some .entry
  | .exit => r.stop = some .exit ∧ r.call = r.entered

/-- What holds whenever the tracer waits. -/
structure Sys.InPhase (s : Sys va) : Prop where
  ran : ∀ r ∈ s.seen.ran, r.Matches
  lost : s.seen.lost = []
  left : s.tracee.terminated = true → s.control = .done

/-- No signal-delivery stop and no termination by a signal has been reported. -/
def Sys.Calm (s : Sys va) : Prop := ∀ st ∈ s.seen.statuses, st.calm = true

/-! ## What the pieces of code leave alone -/

namespace Sys

/-- Only registers, the hart and the samples differ. -/
structure Keeps (s s' : Sys va) : Prop where
  status : s'.tracer.status = s.tracer.status
  stop : s'.tracee.stop = s.tracee.stop
  inCall : s'.tracee.inCall = s.tracee.inCall
  calls : s'.tracee.calls = s.tracee.calls
  statuses : s'.seen.statuses = s.seen.statuses
  ran : s'.seen.ran = s.seen.ran
  entered : s'.seen.entered = s.seen.entered
  lost : s'.seen.lost = s.seen.lost

variable {s s' s'' : Sys va} {hpcounters : BitVec 64} {i : In va}

theorem Keeps.trans (h : s.Keeps s') (h' : s'.Keeps s'') : s.Keeps s'' where
  status := h'.status.trans h.status
  stop := h'.stop.trans h.stop
  inCall := h'.inCall.trans h.inCall
  calls := h'.calls.trans h.calls
  statuses := h'.statuses.trans h.statuses
  ran := h'.ran.trans h.ran
  entered := h'.entered.trans h.entered
  lost := h'.lost.trans h.lost

theorem ptraceGetregset_keeps (s : Sys va) : s.Keeps s.ptraceGetregset := by
  unfold ptraceGetregset
  split_ifs <;> exact ⟨rfl, rfl, rfl, rfl, rfl, rfl, rfl, rfl⟩

theorem ptraceSetregset_keeps (s : Sys va) : s.Keeps s.ptraceSetregset := by
  unfold ptraceSetregset
  split_ifs <;> exact ⟨rfl, rfl, rfl, rfl, rfl, rfl, rfl, rfl⟩

theorem processSample_keeps (s : Sys va) : s.Keeps (s.processSample hpcounters) :=
  ⟨rfl, rfl, rfl, rfl, rfl, rfl, rfl, rfl⟩

theorem takeSample_keeps (s : Sys va) : s.Keeps (s.takeSample hpcounters) := by
  have hhide : s.Keeps s.clearSampleHappen.hideCall := ⟨rfl, rfl, rfl, rfl, rfl, rfl, rfl, rfl⟩
  exact (hhide.trans (ptraceSetregset_keeps _)).trans (processSample_keeps _)

theorem setNextSample_keeps (s : Sys va) : s.Keeps s.setNextSample :=
  ⟨rfl, rfl, rfl, rfl, rfl, rfl, rfl, rfl⟩

/-- The code for an entry, in terms of what it leaves alone. -/
theorem syscallEntry_cases (s : Sys va) : ∃ s', s.Keeps s' ∧
    (s.syscallEntry hpcounters = s'.leaveLoop ∨ s.syscallEntry hpcounters = s'.resumeCall) := by
  have hread : s.Keeps s.readSampleHappen :=
    (ptraceGetregset_keeps s).trans ⟨rfl, rfl, rfl, rfl, rfl, rfl, rfl, rfl⟩
  unfold syscallEntry checkPeriods
  split_ifs with h1 h2
  · exact ⟨_, hread.trans (takeSample_keeps _), .inl rfl⟩
  · exact ⟨_, hread.trans (takeSample_keeps _), .inr rfl⟩
  · exact ⟨_, hread, .inr rfl⟩

theorem syscallExit_keeps (s : Sys va) : s.Keeps s.syscallExit := by
  unfold syscallExit
  split_ifs with h1 h2
  · refine .trans ?_ (.trans (ptraceSetregset_keeps _) (setNextSample_keeps _))
    exact ⟨rfl, rfl, rfl, rfl, rfl, rfl, rfl, rfl⟩
  · exact ⟨rfl, rfl, rfl, rfl, rfl, rfl, rfl, rfl⟩
  · exact ⟨rfl, rfl, rfl, rfl, rfl, rfl, rfl, rfl⟩

theorem waitpid_dead (h : s.tracee.terminated = true) :
    s.waitpid i = { s with hart := i.hart } := if_pos h

theorem waitpid_live (h : s.tracee.terminated = false) :
    s.waitpid i = { s with
      tracer := { s.tracer with status := i.status }
      tracee := s.tracee.report i.status i.regs
      hart := i.hart
      seen := { s.seen with statuses := i.status :: s.seen.statuses } } :=
  if_neg (Bool.eq_false_iff.1 h)

/-- `ptrace(PTRACE_SYSCALL, …)` loses exactly the signal of a signal-delivery
    stop. -/
theorem ptraceSyscall_cases (s : Sys va) :
    (∃ sig, s.tracee.stop = some (.signal sig) ∧ s.ptraceSyscall =
      { s with seen := { s.seen with lost := sig :: s.seen.lost } }) ∨
    (∀ sig, s.tracee.stop ≠ some (.signal sig)) ∧ s.ptraceSyscall = s := by
  unfold ptraceSyscall
  split
  · next sig h => exact .inl ⟨sig, h, rfl⟩
  · next h => exact .inr ⟨h, rfl⟩

@[simp] theorem waitpid_ran (s : Sys va) : (s.waitpid i).seen.ran = s.seen.ran := by
  unfold waitpid
  split_ifs <;> rfl

@[simp] theorem waitpid_lost (s : Sys va) : (s.waitpid i).seen.lost = s.seen.lost := by
  unfold waitpid
  split_ifs <;> rfl

@[simp] theorem waitpid_entered (s : Sys va) : (s.waitpid i).seen.entered = s.seen.entered := by
  unfold waitpid
  split_ifs <;> rfl

/-! ## In phase, piece by piece -/

/-- Nothing is wrong with what has happened so far. -/
def Clean (s : Sys va) : Prop := (∀ r ∈ s.seen.ran, r.Matches) ∧ s.seen.lost = []

theorem clean_waitpid : (s.waitpid i).Clean ↔ s.Clean := by
  unfold Clean
  rw [waitpid_ran, waitpid_lost]

theorem inPhase_done (h : s.control = .done) : s.InPhase ↔ s.Clean :=
  ⟨fun hp => ⟨hp.ran, hp.lost⟩, fun hc => ⟨hc.1, hc.2, fun _ => h⟩⟩

/-- Once the child has been resumed, being in phase says that it has not been
    in a signal-delivery stop and is alive. -/
theorem inPhase_resume {c : Control} (hc : c ≠ .done) :
    InPhase { s.ptraceSyscall with control := c } ↔
      s.Clean ∧ (∀ sig, s.tracee.stop ≠ some (.signal sig)) ∧ s.tracee.terminated = false := by
  rcases s.ptraceSyscall_cases with ⟨sig, hs, he⟩ | ⟨hs, he⟩ <;> rw [he]
  · constructor
    · intro hp
      exact absurd hp.lost (List.cons_ne_nil _ _)
    · rintro ⟨-, hno, -⟩
      exact absurd hs (hno sig)
  · constructor
    · intro hp
      refine ⟨⟨hp.ran, hp.lost⟩, hs, Bool.eq_false_iff.2 fun ht => hc (hp.left ht)⟩
    · rintro ⟨hcl, -, ht⟩
      exact ⟨hcl.1, hcl.2, fun h => absurd (ht.symm.trans h) Bool.false_ne_true⟩

theorem clean_recordEntry : s.recordEntry.Clean ↔ s.Clean ∧ s.tracee.stop = some .entry := by
  unfold Clean recordEntry
  simp only [List.forall_mem_cons]
  exact ⟨fun ⟨⟨h1, h2⟩, h3⟩ => ⟨⟨h2, h3⟩, h1⟩, fun ⟨⟨h2, h3⟩, h1⟩ => ⟨⟨h1, h2⟩, h3⟩⟩

theorem clean_recordExit : s.recordExit.Clean ↔
    s.Clean ∧ s.tracee.stop = some .exit ∧ s.tracee.calls = s.seen.entered := by
  unfold Clean recordExit
  simp only [List.forall_mem_cons]
  exact ⟨fun ⟨⟨h1, h2⟩, h3⟩ => ⟨⟨h2, h3⟩, h1⟩, fun ⟨⟨h2, h3⟩, h1⟩ => ⟨⟨h1, h2⟩, h3⟩⟩

theorem Keeps.clean (h : s.Keeps s') : s'.Clean ↔ s.Clean := by
  unfold Clean
  rw [h.ran, h.lost]

theorem Keeps.terminated (h : s.Keeps s') : s'.tracee.terminated = s.tracee.terminated := by
  unfold Tracee.terminated
  rw [h.stop]

variable (hpcounters) in
/-- After the code for an entry, the sampler is in phase iff it was at an
    entry. -/
theorem inPhase_syscallEntry : (s.recordEntry.syscallEntry hpcounters).InPhase ↔
    s.Clean ∧ s.tracee.stop = some .entry := by
  obtain ⟨s', hk, he | he⟩ := s.recordEntry.syscallEntry_cases <;> rw [he]
  · rw [inPhase_done rfl, ← clean_recordEntry, ← hk.clean]
    rfl
  · rw [resumeCall, inPhase_resume (by decide), hk.clean, clean_recordEntry, hk.terminated, hk.stop]
    refine ⟨And.left, fun h => ⟨h, ?_, ?_⟩⟩
    · intro sig hs
      exact absurd (h.2.symm.trans hs) (by simp)
    · show s.tracee.stop.any _ = false
      rw [h.2]
      rfl

theorem inPhase_syscallExit : s.recordExit.syscallExit.resumeUser.InPhase ↔
    s.Clean ∧ s.tracee.stop = some .exit ∧ s.tracee.calls = s.seen.entered := by
  have hk := s.recordExit.syscallExit_keeps
  rw [resumeUser, inPhase_resume (by decide), hk.clean, clean_recordExit, hk.terminated, hk.stop]
  refine ⟨And.left, fun h => ⟨h, ?_, ?_⟩⟩
  · intro sig hs
    exact absurd (h.2.1.symm.trans hs) (by simp)
  · show s.tracee.stop.any _ = false
    rw [h.2.1]
    rfl

/-! ## The run -/

/-- Where the sampler is while it is in phase, and when it is. -/
structure Inv (s : Sys va) : Prop where
  first : s.control = .first →
    s.tracee.stop = none ∧ s.tracee.inCall = false ∧ s.Clean ∧ s.seen.statuses = []
  status : s.control = .enter ∨ s.control = .leave →
    s.tracee.stop = some s.tracer.status ∧ s.tracer.status.WIFEXITED = false
  enter : s.InPhase → s.control = .enter →
    (s.tracee.stop = some .exec ∨ s.tracee.stop = some .exit) ∧ s.tracee.inCall = false
  leave : s.InPhase → s.control = .leave →
    s.tracee.stop = some .entry ∧ s.tracee.inCall = true ∧ s.tracee.calls = s.seen.entered
  phase : s.InPhase ↔ s.Calm

theorem inv_start (h : s.Start) : s.Inv := by
  have hclean : s.Clean := by
    unfold Clean
    rw [h.seen]
    exact ⟨fun r hr => absurd hr List.not_mem_nil, rfl⟩
  have hst : s.seen.statuses = [] := by rw [h.seen]
  refine ⟨fun _ => ⟨h.stop, h.inCall, hclean, hst⟩, ?_, ?_, ?_, ?_⟩
  · simp [h.control]
  · simp [h.control]
  · simp [h.control]
  · unfold Calm
    rw [hst]
    refine ⟨fun _ st hs => absurd hs List.not_mem_nil, fun _ => ⟨hclean.1, hclean.2, ?_⟩⟩
    simp [Tracee.terminated, h.stop]

/-- Once the loop is left nothing changes. -/
theorem inv_done (h : s.control = .done) (hp : s.Clean ↔ s.Calm) : s.Inv := by
  refine ⟨?_, ?_, ?_, ?_, ?_⟩
  · simp [h]
  · simp [h]
  · simp [h]
  · simp [h]
  · rw [inPhase_done h, hp]

theorem clean_of_inPhase (h : s.InPhase) : s.Clean := ⟨h.ran, h.lost⟩

/-- Calm after a new status. -/
theorem calm_waitpid (h : s.tracee.terminated = false) :
    (s.waitpid i).Calm ↔ s.Calm ∧ i.status.calm = true := by
  unfold Calm
  rw [waitpid_live h]
  simp only [List.forall_mem_cons]
  exact and_comm

theorem ptraceSyscall_tracer (s : Sys va) : s.ptraceSyscall.tracer = s.tracer := by
  unfold ptraceSyscall
  split <;> rfl

theorem ptraceSyscall_tracee (s : Sys va) : s.ptraceSyscall.tracee = s.tracee := by
  unfold ptraceSyscall
  split <;> rfl

theorem ptraceSyscall_statuses (s : Sys va) :
    s.ptraceSyscall.seen.statuses = s.seen.statuses := by
  unfold ptraceSyscall
  split <;> rfl

theorem ptraceSyscall_entered (s : Sys va) : s.ptraceSyscall.seen.entered = s.seen.entered := by
  unfold ptraceSyscall
  split <;> rfl

theorem inv_leaveLoop (h : s.Clean ↔ s.Calm) : s.leaveLoop.Inv := inv_done rfl h

theorem Keeps.calm (h : s.Keeps s') : s'.Calm ↔ s.Calm := by
  unfold Calm
  rw [h.statuses]

/-- After the first `waitpid` of the loop. -/
theorem inv_syscallEntry (hs : s.tracee.stop = some s.tracer.status)
    (hx : s.tracer.status.WIFEXITED = false)
    (hp : s.Clean ∧ s.tracee.stop = some .entry ↔ s.Calm)
    (hcall : s.tracee.stop = some .entry → s.tracee.inCall = true) :
    (s.recordEntry.syscallEntry hpcounters).Inv := by
  have hphase := inPhase_syscallEntry hpcounters (s := s)
  obtain ⟨s', hk, he | he⟩ := s.recordEntry.syscallEntry_cases <;>
    rw [he] at hphase ⊢
  · refine inv_leaveLoop ?_
    rw [hk.clean, clean_recordEntry, hp, hk.calm]
    rfl
  · have hstop : s'.resumeCall.tracee.stop = s.tracee.stop := by
      rw [resumeCall, ptraceSyscall_tracee, hk.stop]
      rfl
    refine ⟨fun hc => absurd hc (by simp [resumeCall]), fun _ => ?_,
      fun _ hc => absurd hc (by simp [resumeCall]), fun hn _ => ?_, hphase.trans (hp.trans ?_)⟩
    · rw [hstop]
      show _ = some s'.ptraceSyscall.tracer.status ∧ s'.ptraceSyscall.tracer.status.WIFEXITED = _
      rw [ptraceSyscall_tracer, hk.status]
      exact ⟨hs, hx⟩
    · have hentry := (hphase.1 hn).2
      refine ⟨hstop.trans hentry, ?_, ?_⟩
      · rw [resumeCall, ptraceSyscall_tracee, hk.inCall]
        exact hcall hentry
      · show s'.ptraceSyscall.tracee.calls = s'.ptraceSyscall.seen.entered
        rw [ptraceSyscall_tracee, ptraceSyscall_entered, hk.calls, hk.entered]
        rfl
    · show s.Calm ↔ ∀ st ∈ s'.ptraceSyscall.seen.statuses, _
      rw [ptraceSyscall_statuses, hk.statuses]
      rfl

/-- Before the next turn of the loop. -/
theorem inv_resumeUser (hs : s.tracee.stop = some s.tracer.status)
    (hx : s.tracer.status.WIFEXITED = false) (hp : s.resumeUser.InPhase ↔ s.Calm)
    (hcalm : s.Calm → (s.tracee.stop = some .exec ∨ s.tracee.stop = some .exit) ∧
      s.tracee.inCall = false) : s.resumeUser.Inv := by
  refine ⟨fun hc => absurd hc (by simp [resumeUser]), fun _ => ?_, fun hn _ => ?_,
    fun _ hc => absurd hc (by simp [resumeUser]), hp.trans ?_⟩
  · show s.ptraceSyscall.tracee.stop = some s.ptraceSyscall.tracer.status ∧
      s.ptraceSyscall.tracer.status.WIFEXITED = _
    rw [ptraceSyscall_tracer, ptraceSyscall_tracee]
    exact ⟨hs, hx⟩
  · rw [resumeUser, ptraceSyscall_tracee]
    exact hcalm (hp.1 hn)
  · show s.Calm ↔ ∀ st ∈ s.ptraceSyscall.seen.statuses, _
    rw [ptraceSyscall_statuses]
    rfl

/-- After the second `waitpid`. -/
theorem inv_syscallExit (hs : s.tracee.stop = some s.tracer.status)
    (hx : s.tracer.status.WIFEXITED = false)
    (hp : s.Clean ∧ s.tracee.stop = some .exit ∧ s.tracee.calls = s.seen.entered ↔ s.Calm)
    (hcall : s.tracee.stop = some .exit → s.tracee.inCall = false) :
    s.recordExit.syscallExit.resumeUser.Inv := by
  have hk := s.recordExit.syscallExit_keeps
  have hcalm : s.recordExit.syscallExit.Calm ↔ s.Calm := hk.calm
  refine inv_resumeUser ?_ ?_ ?_ fun hcm => ?_
  · rw [hk.stop, hk.status]
    exact hs
  · rw [hk.status]
    exact hx
  · rw [inPhase_syscallExit, hp, hcalm]
  · rw [hk.stop, hk.inCall]
    have hexit := (hp.2 (hcalm.1 hcm)).2.1
    exact ⟨.inr hexit, hcall hexit⟩

theorem report_stop (h : s.tracee.terminated = false) :
    (s.waitpid i).tracee.stop = some i.status ∧ (s.waitpid i).tracer.status = i.status := by
  rw [waitpid_live h]
  exact ⟨rfl, rfl⟩

theorem report_inCall (h : s.tracee.terminated = false) : (s.waitpid i).tracee.inCall =
    if i.status = .entry then true else if i.status = .exit then false else s.tracee.inCall := by
  rw [waitpid_live h]
  rfl

theorem not_terminated (h : s.tracee.stop = none ∨ s.tracee.stop = some .exec ∨
    s.tracee.stop = some .exit ∨ s.tracee.stop = some .entry) : s.tracee.terminated = false := by
  unfold Tracee.terminated
  rcases h with h | h | h | h <;> rw [h] <;> rfl

/-- A clean state with a child that is alive is in phase. -/
theorem inPhase_of_live (hc : s.Clean) (h : s.tracee.terminated = false) : s.InPhase :=
  ⟨hc.1, hc.2, fun ht => absurd (h.symm.trans ht) Bool.false_ne_true⟩

theorem inv_next_first (h : s.Inv) (hc : s.control = .first) (ok : s.tracee.Legal i.status) :
    (s.next hpcounters i).Inv := by
  obtain ⟨hstop, hcall, hclean, hst⟩ := h.first hc
  have hlive := not_terminated (.inl hstop)
  have hcl : (s.waitpid i).Clean := clean_waitpid.2 hclean
  have hcalm : (s.waitpid i).Calm ↔ i.status.calm = true := by
    rw [calm_waitpid hlive, ← h.phase]
    exact and_iff_right (inPhase_of_live hclean hlive)
  obtain ⟨hws, hwt⟩ := report_stop (i := i) hlive
  have hwc := report_inCall (i := i) hlive
  simp only [next, hc]
  split_ifs with hx
  · refine inv_done rfl (Iff.trans ?_ hcalm.symm)
    rw [hwt] at hx
    refine iff_of_true hcl ?_
    cases hs : i.status <;> simp [hs, Status.WIFEXITED, Status.calm] at hx ⊢
  · rw [Bool.not_eq_true] at hx
    rw [hwt] at hx
    refine inv_resumeUser (hws.trans (by rw [hwt])) (by rw [hwt]; exact hx) ?_ ?_
    · rw [resumeUser, inPhase_resume (by decide), hcalm, Tracee.terminated, hws]
      rw [and_iff_right hcl]
      cases hs : i.status <;> simp [hs, Status.calm, Status.terminated, Status.WIFEXITED] at hx ⊢
    · rw [hcalm, hws, hwc]
      intro hcm
      cases hs : i.status <;>
        simp_all [Status.calm, Status.WIFEXITED, Tracee.Legal]

/-- A status in the user phase. -/
theorem inv_next_enter (h : s.Inv) (hc : s.control = .enter)
    (ok : s.tracee.terminated = false → s.tracee.Legal i.status) :
    (s.next hpcounters i).Inv := by
  obtain ⟨hstop, hx⟩ := h.status (.inl hc)
  by_cases ht : s.tracee.terminated = true
  · -- the child is dead, and `waitpid` fails
    have hw := waitpid_dead (i := i) ht
    have hne : s.tracee.stop ≠ some .entry := by
      intro he
      rw [not_terminated (.inr (.inr (.inr he)))] at ht
      exact Bool.false_ne_true ht
    have hout : ¬ s.Calm := by
      rw [← h.phase]
      intro hp
      exact absurd (hp.left ht) (by rw [hc]; decide)
    simp only [next, hc, hw, hx, Bool.false_eq_true, if_false]
    refine inv_syscallEntry hstop hx (iff_of_false (fun hp => hne hp.2) hout) fun he => ?_
    exact absurd he hne
  · have hlive : s.tracee.terminated = false := Bool.eq_false_iff.2 ht
    obtain ⟨hws, hwt⟩ := report_stop (i := i) hlive
    have hwc := report_inCall (i := i) hlive
    have hclean : s.Clean ↔ s.Calm := by
      rw [← h.phase]
      exact ⟨fun hcl => inPhase_of_live hcl hlive, clean_of_inPhase⟩
    have hcalm := calm_waitpid (i := i) hlive
    simp only [next, hc]
    split_ifs with hx'
    · refine inv_leaveLoop ?_
      rw [clean_waitpid, hcalm, hclean]
      rw [hwt] at hx'
      refine (and_iff_left ?_).symm
      cases hs : i.status <;> simp [hs, Status.WIFEXITED, Status.calm] at hx' ⊢
    · rw [Bool.not_eq_true] at hx'
      refine inv_syscallEntry (hws.trans (by rw [hwt])) hx' ?_ ?_
      · rw [clean_waitpid, hcalm, hws, hclean]
        refine and_congr_right fun hcm => ?_
        obtain ⟨hpos, hcall⟩ := h.enter (h.phase.2 hcm) hc
        have hlegal := ok hlive
        rw [hwt] at hx'
        cases hs : i.status <;>
          simp_all [Status.calm, Status.WIFEXITED, Tracee.Legal]
      · intro he
        rw [hws, Option.some_inj] at he
        rw [hwc, if_pos he]

/-- A status in the system call. -/
theorem inv_next_leave (h : s.Inv) (hc : s.control = .leave)
    (ok : s.tracee.terminated = false → s.tracee.Legal i.status) :
    (s.next hpcounters i).Inv := by
  obtain ⟨hstop, hx⟩ := h.status (.inr hc)
  by_cases ht : s.tracee.terminated = true
  · have hw := waitpid_dead (i := i) ht
    have hne : s.tracee.stop ≠ some .exit := by
      intro he
      rw [not_terminated (.inr (.inr (.inl he)))] at ht
      exact Bool.false_ne_true ht
    have hout : ¬ s.Calm := by
      rw [← h.phase]
      intro hp
      exact absurd (hp.left ht) (by rw [hc]; decide)
    simp only [next, hc, hw, hx, Bool.false_eq_true, if_false]
    refine inv_syscallExit hstop hx (iff_of_false (fun hp => hne hp.2.1) hout) fun he => ?_
    exact absurd he hne
  · have hlive : s.tracee.terminated = false := Bool.eq_false_iff.2 ht
    obtain ⟨hws, hwt⟩ := report_stop (i := i) hlive
    have hwc := report_inCall (i := i) hlive
    have hclean : s.Clean ↔ s.Calm := by
      rw [← h.phase]
      exact ⟨fun hcl => inPhase_of_live hcl hlive, clean_of_inPhase⟩
    have hcalm := calm_waitpid (i := i) hlive
    simp only [next, hc]
    split_ifs with hx'
    · refine inv_leaveLoop ?_
      rw [clean_waitpid, hcalm, hclean]
      rw [hwt] at hx'
      refine (and_iff_left ?_).symm
      cases hs : i.status <;> simp [hs, Status.WIFEXITED, Status.calm] at hx' ⊢
    · rw [Bool.not_eq_true] at hx'
      refine inv_syscallExit (hws.trans (by rw [hwt])) hx' ?_ ?_
      · rw [clean_waitpid, hcalm, hws, hclean]
        refine and_congr_right fun hcm => ?_
        obtain ⟨hpos, hcall, hmatch⟩ := h.leave (h.phase.2 hcm) hc
        have hlegal := ok hlive
        have hcalls : i.status = .exit → (s.waitpid i).tracee.calls = s.tracee.calls := by
          intro he
          rw [waitpid_live hlive]
          exact if_neg (by simp [he])
        rw [hwt] at hx'
        cases hs : i.status <;>
          simp_all [Status.calm, Status.WIFEXITED, Tracee.Legal]
      · intro he
        rw [hws, Option.some_inj] at he
        rw [hwc, if_neg (by simp [he]), if_pos he]

theorem inv_next (h : s.Inv) (ok : s.tracee.terminated = false → s.tracee.Legal i.status) :
    (s.next hpcounters i).Inv := by
  cases hc : s.control with
  | first => exact inv_next_first h hc (ok (not_terminated (.inl (h.first hc).1)))
  | enter => exact inv_next_enter h hc ok
  | leave => exact inv_next_leave h hc ok
  | done =>
    have hnext : s.next hpcounters i = s := by simp only [next, hc]
    rw [hnext]
    exact h

theorem inv_reach (h : (start_run_and_trace va hpcounters).Reach s) : s.Inv :=
  h.inv (fun _ h0 => inv_start h0) (fun _ _ hi ok => inv_next hi ok)

/-- **The sampler is in phase exactly while nothing but system calls and a
    normal exit is reported**, in every run. -/
theorem inPhase_iff (h : (start_run_and_trace va hpcounters).Reach s) : s.InPhase ↔ s.Calm :=
  (inv_reach h).phase

end Sys

/-! ## A child that gets a signal -/

section Runs

/-- After the `fork`, with empty memory. -/
def forked : Sys 40 where
  control := .first
  tracer := ⟨.exec, ⟨0, 0, fun _ => 0⟩, 0, 0, 0, 0, 200000000, 0, 0, 2000⟩
  tracee := ⟨none, false, 0, ⟨0, 0, fun _ => 0⟩⟩
  hart := ⟨fun _ => 0, fun _ => 0, fun _ => 0, 0, .reset, fun _ => 0⟩
  seen := ⟨[], [], 0, [], []⟩

theorem forked_start : forked.Start := ⟨rfl, rfl, rfl, rfl, rfl, rfl, rfl, rfl⟩

/-- The process reports, in a call of `brk`. -/
def report (status : Status) : In 40 := ⟨status, ⟨0x10000, sys_brk, fun _ => 0⟩, forked.hart⟩

instance (t : Tracee) (st : Status) : Decidable (t.Legal st) :=
  match st with
  | .exec => inferInstanceAs (Decidable (t.stop = none))
  | .entry => inferInstanceAs (Decidable (t.stop ≠ none ∧ t.inCall = false))
  | .exit => inferInstanceAs (Decidable (t.inCall = true))
  | .signal _ | .exited _ | .signaled _ => isTrue trivial

theorem ok_of_legal (s : Sys 40) (i : In 40) (h : decide (s.tracee.Legal i.status) = true) :
    (start_run_and_trace 40 0).ok s i := fun _ => of_decide_eq_true h

/-- A child that asks for memory, and exits. -/
def brk : List (In 40) :=
  [report .exec, report .entry, report .exit, report .entry, report (.exited 0)]

set_option maxRecDepth 20000 in
theorem inPhase_brk : ((start_run_and_trace 40 0).run forked brk).InPhase := by
  have hreach : (start_run_and_trace 40 0).Reach ((start_run_and_trace 40 0).run forked brk) :=
    Machine.reach_run brk (.start forked_start)
      (Machine.accepts_of_passes ok_of_legal brk forked (by decide))
  rw [Sys.inPhase_iff hreach]
  have hst : ((start_run_and_trace 40 0).run forked brk).seen.statuses =
      [.exited 0, .entry, .exit, .entry, .exec] := by decide
  unfold Sys.Calm
  rw [hst]
  decide

/-- **The alarm a child has set is lost.** -/
theorem signal_lost : ¬ ∀ s : Sys 40, (start_run_and_trace 40 0).Reach s → s.InPhase := by
  intro hall
  have hreach : (start_run_and_trace 40 0).Reach
      ((start_run_and_trace 40 0).run forked [report .exec, report (.signal 14)]) :=
    Machine.reach_run _ (.start forked_start)
      (Machine.accepts_of_passes ok_of_legal _ forked (by decide))
  have hlost : ((start_run_and_trace 40 0).run forked
      [report .exec, report (.signal 14)]).seen.lost ≠ [] := by decide
  exact hlost (hall _ hreach).lost

end Runs

end BoomStop.Ptrace
