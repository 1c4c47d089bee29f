/-
  The kernel's virtualisation of `procTag` (`process.c`, `entry.S`): a running
  task has its tag in the hart's register, every other task in
  `thread.threadtag`; `__switch_to` moves it, `arch_dup_task_struct` copies the
  memory copy when a task is created.

  * `switchTo`, `archDupTaskStruct`, `copyThread` are the kernel functions,
    `scheduler` the machine of one hart whose running task executes custom
    instructions, forks, and is switched away from;
  * `owed` is the tag a task should find: what it last wrote, or what its
    parent's register held at the fork;
  * `switchTo_procTag`, `switchTo_threadtag`: a switch saves and loads the tag;
  * `procTag_eq_owed`: the law holds in every run whose forks happen while the
    parent's saved tag is its live one; `fork_unsynced`: a fork outside this
    condition breaks it as soon as the child runs; `fork_inherits_stale_tag`:
    such a run exists.
-/
import Mathlib.Logic.Function.Basic
import BoomStop.Lib.Sizes
import BoomStop.Lib.Machine
import BoomStop.Ucsr

namespace BoomStop

open Sync

/-! ## Tasks and the hart -/

/-- The callee-saved context of `thread_struct`, with the saved `procTag`. -/
structure ThreadStruct where
  ra : BitVec 64
  sp : BitVec 64
  s : Fin 12 → BitVec 64
  threadtag : BitVec 64

/-- The part of `task_struct` the switch touches. -/
structure TaskStruct where
  thread : ThreadStruct
  /-- `thread_info.cpu` -/
  cpu : BitVec 32

/-- The registers of the hart that `__switch_to` saves and loads, and the
    custom registers; `tp` points to the running task. -/
structure Hart (Task : Type*) (va : ℕ) where
  ra : BitVec 64
  sp : BitVec 64
  s : Fin 12 → BitVec 64
  tp : Task
  ucsr : Ucsr va

/-- One hart and the tasks created so far. -/
structure Kernel (Task : Type*) (va : ℕ) where
  hart : Hart Task va
  tasks : Task → TaskStruct
  created : List Task

/-- `addi x0, s0, tag` with a set or a get tag. -/
def Hart.addiX0S0 {Task : Type*} {va : ℕ} (h : Hart Task va) (tag : BitVec 12) : Hart Task va :=
  { h with
    ucsr := h.ucsr.setUCSR tag (h.s 0)
    s := match h.ucsr.getUCSR tag with
      | some v => Function.update h.s 0 v
      | none => h.s }

theorem Hart.addiX0S0_get {Task : Type*} {va : ℕ} (h : Hart Task va) :
    h.addiX0S0 getUCSR_ProcTag =
      { h with s := Function.update h.s 0 (h.ucsr.procTag.setWidth 64) } := by
  simp only [Hart.addiX0S0, Ucsr.getUCSR, if_true]
  rw [Ucsr.setUCSR_eq_self (by decide)]

theorem Hart.addiX0S0_set {Task : Type*} {va : ℕ} (h : Hart Task va) :
    (h.addiX0S0 setUCSR_ProcTag).ucsr.procTag = (h.s 0).setWidth 32 := rfl

namespace Kernel

variable {Task : Type*} [DecidableEq Task] {va : ℕ}

/-- Assignment to a task's `task_struct`. -/
def setTask (k : Kernel Task va) (t : Task) (ts : TaskStruct) : Kernel Task va :=
  { k with tasks := Function.update k.tasks t ts }

/-- `REG_S ra`, `sp`, `s0` to `s11` into `prev->thread`. -/
def saveContext (k : Kernel Task va) (prev : Task) : Kernel Task va :=
  let ts := k.tasks prev
  k.setTask prev { ts with thread :=
    { ts.thread with ra := k.hart.ra, sp := k.hart.sp, s := k.hart.s } }

/-- `addi x0, s0, 33` and `REG_S s0, TASK_THREAD_TAG_RA(a3)`. -/
def saveThreadtag (k : Kernel Task va) (prev : Task) : Kernel Task va :=
  let h := k.hart.addiX0S0 getUCSR_ProcTag
  let ts := k.tasks prev
  { k with hart := h }.setTask prev { ts with thread := { ts.thread with threadtag := h.s 0 } }

/-- `REG_L s0, TASK_THREAD_TAG_RA(a4)` and `addi x0, s0, 1`. -/
def loadThreadtag (k : Kernel Task va) (next : Task) : Kernel Task va :=
  let h := { k.hart with s := Function.update k.hart.s 0 (k.tasks next).thread.threadtag }
  { k with hart := h.addiX0S0 setUCSR_ProcTag }

/-- `REG_L ra`, `sp`, `s0` to `s11` from `next->thread`. -/
def loadContext (k : Kernel Task va) (next : Task) : Kernel Task va :=
  let th := (k.tasks next).thread
  { k with hart := { k.hart with ra := th.ra, sp := th.sp, s := th.s } }

/-- The exchange of the two `TASK_TI_CPU` words. -/
def swapCpu (k : Kernel Task va) (prev next : Task) : Kernel Task va :=
  let a3 := (k.tasks prev).cpu
  let a4 := (k.tasks next).cpu
  let k := k.setTask next { k.tasks next with cpu := a3 }
  k.setTask prev { k.tasks prev with cpu := a4 }

/-- `__switch_to`. -/
def switchTo (k : Kernel Task va) (prev next : Task) : Kernel Task va :=
  let k := (k.saveContext prev).saveThreadtag prev
  let k := (k.loadThreadtag next).loadContext next
  let k := k.swapCpu prev next
  { k with hart := { k.hart with tp := next } }

/-- `arch_dup_task_struct`: `*dst = *src`, and the tag once more. -/
def archDupTaskStruct (k : Kernel Task va) (dst src : Task) : Kernel Task va :=
  let k := k.setTask dst (k.tasks src)
  let ts := k.tasks dst
  k.setTask dst { ts with thread :=
    { ts.thread with threadtag := (k.tasks src).thread.threadtag } }

/-- The arguments of `copy_thread` and the addresses it uses. -/
structure CopyArgs where
  /-- `fn` and `arg` of a kernel thread -/
  kthread : Option (BitVec 64 × BitVec 64)
  childregs : BitVec 64
  ret_from_fork : BitVec 64
  ret_from_kernel_thread : BitVec 64

/-- `copy_thread`: the context that `__switch_to` will load for `p`. -/
def copyThread (k : Kernel Task va) (p : Task) (a : CopyArgs) : Kernel Task va :=
  let ts := k.tasks p
  let th := match a.kthread with
    | some (fn, arg) => { ts.thread with
        ra := a.ret_from_kernel_thread
        s := Function.update (Function.update ts.thread.s 0 fn) 1 arg }
    | none => { ts.thread with ra := a.ret_from_fork }
  k.setTask p { ts with thread := { th with sp := a.childregs } }

/-- The creation of a task by the running one. -/
def fork (k : Kernel Task va) (child : Task) (a : CopyArgs) : Kernel Task va :=
  let k := (k.archDupTaskStruct child k.hart.tp).copyThread child a
  { k with created := child :: k.created }

/-- `addi x0, rs1, tag` executed by the running task with `rs1 = d`. -/
def write (k : Kernel Task va) (tag : BitVec 12) (d : BitVec 64) : Kernel Task va :=
  { k with hart := { k.hart with ucsr := k.hart.ucsr.setUCSR tag d } }

/-- The tag a task will find when it next runs. -/
def savedTag (k : Kernel Task va) (t : Task) : BitVec 32 :=
  (k.tasks t).thread.threadtag.setWidth 32

/-! ## What the operations do to the tags -/

/-- The switch loads the tag that `next` had saved; a switch of a task to
    itself finds the tag just stored. -/
theorem switchTo_procTag (k : Kernel Task va) (prev next : Task) :
    (k.switchTo prev next).hart.ucsr.procTag =
      if next = prev then k.hart.ucsr.procTag else k.savedTag next := by
  simp only [switchTo, swapCpu, setTask, loadContext, loadThreadtag, Hart.addiX0S0_set,
    Function.update_self, saveThreadtag, Hart.addiX0S0_get]
  by_cases h : next = prev
  · subst h
    simp only [Function.update_self, if_true, saveContext, setTask]
    exact BitVec.setWidth_setWidth_of_le _ (by decide)
  · simp only [Function.update_of_ne h, if_neg h, saveContext, setTask, savedTag]

/-- The switch leaves the outgoing tag in `prev->thread` and no other thread's
    tag changes. -/
theorem switchTo_savedTag (k : Kernel Task va) (prev next t : Task) :
    (k.switchTo prev next).savedTag t =
      if t = prev then k.hart.ucsr.procTag else k.savedTag t := by
  have hcpu : ∀ (k : Kernel Task va), (k.swapCpu prev next).savedTag t = k.savedTag t := by
    intro k
    simp only [swapCpu, setTask, savedTag, Function.update_apply]
    split_ifs with h1 h2 <;> simp_all
  change (swapCpu _ prev next).savedTag t = _
  rw [hcpu]
  simp only [savedTag, loadContext, loadThreadtag, saveThreadtag, setTask, Hart.addiX0S0_get,
    Function.update_apply]
  by_cases h : t = prev
  · simp only [if_pos h, saveContext, setTask, if_true]
    exact BitVec.setWidth_setWidth_of_le _ (by decide)
  · simp only [if_neg h, saveContext, setTask, Function.update_of_ne h]

@[simp] theorem switchTo_tp (k : Kernel Task va) (prev next : Task) :
    (k.switchTo prev next).hart.tp = next := rfl

@[simp] theorem switchTo_created (k : Kernel Task va) (prev next : Task) :
    (k.switchTo prev next).created = k.created := rfl

/-- The child starts from the parent's saved tag. -/
theorem fork_savedTag (k : Kernel Task va) (child t : Task) (a : CopyArgs) :
    (k.fork child a).savedTag t = if t = child then k.savedTag k.hart.tp else k.savedTag t := by
  by_cases h : t = child
  · subst h
    rcases a with ⟨_ | ⟨fn, arg⟩, _⟩ <;>
      by_cases ht : k.hart.tp = t <;>
      simp [fork, copyThread, archDupTaskStruct, setTask, savedTag, ht]
  · simp only [fork, copyThread, archDupTaskStruct, setTask, savedTag, Function.update_of_ne h,
      if_neg h]

@[simp] theorem fork_hart (k : Kernel Task va) (child : Task) (a : CopyArgs) :
    (k.fork child a).hart = k.hart := rfl

@[simp] theorem fork_created (k : Kernel Task va) (child : Task) (a : CopyArgs) :
    (k.fork child a).created = child :: k.created := rfl

end Kernel

/-! ## The law of the tags -/

/-- The kernel with the tag every task is due. -/
structure Sched (Task : Type*) (va : ℕ) where
  kernel : Kernel Task va
  owed : Task → BitVec 32

/-- What the running task, or the kernel on its behalf, does. -/
inductive SchedAct (Task : Type*)
  /-- `addi x0, rs1, tag` with `rs1 = d` in user mode -/
  | write (tag : BitVec 12) (d : BitVec 64)
  /-- `fork`, `clone` or `kernel_thread` -/
  | fork (child : Task) (a : Kernel.CopyArgs)
  /-- `__switch_to(current, next)` -/
  | switch (next : Task)

section

variable {Task : Type*} [DecidableEq Task] {va : ℕ}

/-- The tags due after an action: a task is due what it wrote, a new task what
    the register held when it was forked. -/
def Sched.owedNext (s : Sched Task va) : SchedAct Task → Task → BitVec 32
  | .write tag d =>
    if tag = setUCSR_ProcTag then Function.update s.owed s.kernel.hart.tp (d.setWidth 32)
    else s.owed
  | .fork child _ => Function.update s.owed child s.kernel.hart.ucsr.procTag
  | .switch _ => s.owed

/-- One hart from the boot task on: `INIT_THREAD` leaves the saved tag zero. -/
def scheduler (boot : Task) : Machine (Sched Task va) (SchedAct Task) where
  start s := s.kernel.hart.ucsr = .reset ∧ s.kernel.hart.tp = boot ∧ s.kernel.created = [boot] ∧
    (s.kernel.tasks boot).thread.threadtag = 0 ∧ s.owed boot = 0
  ok s
    | .write _ _ => True
    | .fork child _ => child ∉ s.kernel.created
    | .switch next => next ∈ s.kernel.created
  next s a :=
    { kernel := match a with
        | .write tag d => s.kernel.write tag d
        | .fork child args => s.kernel.fork child args
        | .switch next => s.kernel.switchTo s.kernel.hart.tp next
      owed := s.owedNext a }

/-- The running task finds the tag it is due. -/
def Sched.Law (s : Sched Task va) : Prop :=
  s.kernel.hart.ucsr.procTag = s.owed s.kernel.hart.tp

/-- A fork happens while the parent's saved tag is its live one. -/
def Synced (s : Sched Task va) : SchedAct Task → Prop
  | .fork _ _ => s.kernel.savedTag s.kernel.hart.tp = s.kernel.hart.ucsr.procTag
  | _ => True

/-- The tag of the running task is live, that of every other one is saved. -/
structure Sched.Inv (s : Sched Task va) : Prop where
  current : s.kernel.hart.tp ∈ s.kernel.created
  live : s.Law
  saved : ∀ t ∈ s.kernel.created, t ≠ s.kernel.hart.tp → s.kernel.savedTag t = s.owed t

theorem scheduler_inv_start {boot : Task} {s : Sched Task va} (h : (scheduler boot).start s) :
    s.Inv := by
  obtain ⟨hu, htp, hc, -, ho⟩ := h
  refine ⟨?_, ?_, fun t ht hne => ?_⟩
  · rw [htp, hc]; exact List.mem_singleton_self _
  · rw [Sched.Law, htp, ho, hu]; rfl
  · rw [hc, List.mem_singleton, ← htp] at ht
    exact absurd ht hne

theorem scheduler_inv_step {boot : Task} {s : Sched Task va} {a : SchedAct Task} (h : s.Inv)
    (hok : (scheduler boot).ok s a) (hs : Synced s a) : ((scheduler boot).next s a).Inv := by
  obtain ⟨hcur, hlive, hsaved⟩ := h
  cases a with
  | write tag d =>
    refine ⟨hcur, ?_, fun t ht hne => ?_⟩
    · simp only [Sched.Law, scheduler, Kernel.write, Sched.owedNext, Ucsr.setUCSR_procTag]
      split_ifs with htag
      · rw [Function.update_self]
      · exact hlive
    · have hne : t ≠ s.kernel.hart.tp := hne
      change s.kernel.savedTag t = s.owedNext (.write tag d) t
      simp only [Sched.owedNext]
      split_ifs with htag
      · rw [Function.update_of_ne hne]; exact hsaved t ht hne
      · exact hsaved t ht hne
  | fork child args =>
    have hnew : child ∉ s.kernel.created := hok
    have hne : s.kernel.hart.tp ≠ child := fun he => hnew (he ▸ hcur)
    refine ⟨List.mem_cons_of_mem _ hcur, ?_, fun t ht htp => ?_⟩
    · simp only [Sched.Law, scheduler, Kernel.fork_hart, Sched.owedNext,
        Function.update_of_ne hne]
      exact hlive
    · have htp : t ≠ s.kernel.hart.tp := htp
      simp only [scheduler, Kernel.fork_savedTag, Sched.owedNext]
      by_cases hc : t = child
      · subst hc
        rw [if_pos rfl, Function.update_self]
        exact hs
      · rw [if_neg hc, Function.update_of_ne hc]
        exact hsaved t ((List.mem_cons.1 ht).resolve_left hc) htp
  | switch next =>
    refine ⟨hok, ?_, fun t ht htp => ?_⟩
    · simp only [Sched.Law, scheduler, Kernel.switchTo_procTag, Kernel.switchTo_tp,
        Sched.owedNext]
      split_ifs with hn
      · rw [hn]; exact hlive
      · exact hsaved next hok hn
    · have ht : t ∈ s.kernel.created := ht
      simp only [scheduler, Kernel.switchTo_savedTag, Sched.owedNext]
      split_ifs with hp
      · rw [hp]; exact hlive
      · exact hsaved t ht hp

theorem scheduler_inv {boot : Task} {s : Sched Task va}
    (h : ((scheduler boot).restrict Synced).Reach s) : s.Inv :=
  h.inv (fun _ => scheduler_inv_start) (fun _ _ hi hok => scheduler_inv_step hi hok.1 hok.2)

/-- **In every run whose forks find the parent's tag saved, the running task
    finds the tag it is due.** -/
theorem procTag_eq_owed {boot : Task} {s : Sched Task va}
    (h : ((scheduler boot).restrict Synced).Reach s) :
    s.kernel.hart.ucsr.procTag = s.owed s.kernel.hart.tp :=
  (scheduler_inv h).live

/-- Task `0` at boot, nothing else created. -/
def bootSched (va : ℕ) : Sched ℕ va where
  kernel :=
    { hart := ⟨0, 0, fun _ => 0, 0, .reset⟩
      tasks := fun _ => ⟨⟨0, 0, fun _ => 0, 0⟩, 0⟩
      created := [0] }
  owed _ := 0

theorem bootSched_start : (scheduler 0).start (bootSched va) := ⟨rfl, rfl, rfl, rfl, rfl⟩

/-- A user fork, with all addresses zero. -/
def userFork : Kernel.CopyArgs := ⟨none, 0, 0, 0⟩

/-- Task `1` sets its tag, is switched out and back in, and forks task `2`. -/
theorem procTag_eq_owed_run :
    let s := ((scheduler 0).restrict Synced).run (bootSched 40)
      [.fork 1 userFork, .switch 1, .write setUCSR_ProcTag 0x1234567, .switch 0, .switch 1,
        .fork 2 userFork, .switch 2]
    s.kernel.hart.ucsr.procTag = s.owed s.kernel.hart.tp ∧
      s.kernel.hart.tp = 2 ∧ s.kernel.hart.ucsr.procTag = 0x1234567 := by
  have hstart : ((scheduler 0).restrict Synced).Reach (bootSched 40) :=
    .start bootSched_start
  refine ⟨procTag_eq_owed (Machine.reach_run _ hstart ?_), rfl, rfl⟩
  refine ⟨⟨?_, rfl⟩, ⟨?_, trivial⟩, ⟨trivial, trivial⟩, ⟨?_, trivial⟩, ⟨?_, trivial⟩, ⟨?_, rfl⟩,
    ⟨?_, trivial⟩, trivial⟩
  · exact (by decide : 1 ∉ [0])
  · exact (by decide : 1 ∈ [1, 0])
  · exact (by decide : 0 ∈ [1, 0])
  · exact (by decide : 1 ∈ [1, 0])
  · exact (by decide : 2 ∉ [1, 0])
  · exact (by decide : 2 ∈ [2, 1, 0])

/-- The boot task sets its tag and forks before it is ever switched out: the
    child runs with the tag the boot task had saved, not the one it had. -/
theorem fork_inherits_stale_tag :
    ¬ ∀ s : Sched ℕ 40, (scheduler 0).Reach s →
      s.kernel.hart.ucsr.procTag = s.owed s.kernel.hart.tp := by
  intro h
  have hs := h _ (Machine.reach_run [.write setUCSR_ProcTag 0x1234567, .fork 1 userFork, .switch 1]
    (.start bootSched_start) ?_)
  · exact absurd hs (by decide)
  · exact ⟨trivial, (by decide : 1 ∉ [0]), (by decide : 1 ∈ [1, 0]), trivial⟩

/-- The condition cannot be left out: after a fork that does not meet it, the
    law fails as soon as the child runs. -/
theorem fork_unsynced {boot child : Task} {a : Kernel.CopyArgs} {s : Sched Task va}
    (h : ((scheduler boot).restrict Synced).Reach s) (hc : child ∉ s.kernel.created)
    (hs : ¬ Synced s (.fork child a)) :
    ¬ ((scheduler boot).next ((scheduler boot).next s (.fork child a)) (.switch child)).Law := by
  have hne : child ≠ s.kernel.hart.tp := fun he => hc (he ▸ (scheduler_inv h).current)
  simp only [Sched.Law, scheduler, Kernel.switchTo_procTag, Kernel.switchTo_tp, Kernel.fork_hart,
    Kernel.fork_savedTag, Sched.owedNext, if_neg hne, if_true, Function.update_self]
  exact hs

end

end BoomStop
