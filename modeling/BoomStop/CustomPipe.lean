/-
  The custom instructions `addi x0, rs1, tag` on their way through the core
  (`core.scala`, `register-read.scala`, with `enableSFBOpt` off): each is decoded
  as unique, waits in dispatch for the ROB to be empty, and goes through an
  issue queue and register read to execute, where the custom registers are
  written from `exe_reg_uops` without a look at `exe_reg_valids`.

  * `decode`, `setsUCSR`: the custom instructions, and those that write;
  * `Pipe.next`: the core of `Sampling` with the issue queues and register read;
  * `Pipe.Ok`: what the rest of the core promises;
  * `Pipe.Holder`, `Pipe.Calm`: an entry of the ROB for a custom instruction of
    some kind, and what it keeps away;
  * `single_queue_next`, `single_exe_next`, `dispatched_of_fire`,
    `holder_of_fire`: the way of the instruction, and that nothing else of the
    kind is on its way.
-/
import BoomStop.Decode
import BoomStop.SampleLeak

namespace BoomStop.CustomWrite

open Sync Reorder
open Issue (BrUpdate Bcast IqType Slot getNewBrMask isKilledByBranch dispatchUop)
open Sampling (Core)

variable {N W T va I : ℕ}

/-! ## Uops -/

/-- The code of a store address. -/
def uopSTA : ℕ := 2

/-- The code of store data. -/
def uopSTD : ℕ := 3

/-- The code of `addi`. -/
def uopADDI : ℕ := 5

/-- The code of the address of an atomic. -/
def uopAMO_AG : ℕ := 67

/-- What `DecodeUnit` adds to the row of its table. -/
def decode (u : RobUop N W T) : RobUop N W T :=
  let ucsrInst := decide (u.uopc = uopADDI) && decide (instRd u.inst = 0)
  { u with ucsrInst, is_unique := u.is_unique || ucsrInst }

/-- `rrd_uop.ucsrInst && rrd_uop.ldst === 0.U`. -/
def setsUCSR (u : Reorder.MicroOp) : Bool := u.ucsrInst && decide ((decodeADDI u.inst).ldst = 0)

/-- The code of a uop, as the issue queue looks at it. -/
def uopcOf (code : ℕ) : Issue.Uopc :=
  if code = uopSTA then .uopSTA
  else if code = uopSTD then .uopSTD
  else if code = uopAMO_AG then .uopAMO_AG
  else .other code

/-- What an issue queue keeps of a uop, with the operands that rename found. -/
def issueUop (ren : Issue.MicroOp T) (u : RobUop N W T) : Issue.MicroOp T :=
  { ren with
    uopc := uopcOf u.uopc
    rob_idx := u.rob_idx.toNat
    br_mask := u.br_mask
    exception := u.exception
    is_fence := u.is_fence
    is_fencei := u.is_fencei }

/-- A uop on its way to execute, with the cycle of its dispatch. -/
structure Flight (N W T : ℕ) where
  uop : RobUop N W T
  cycle : ℕ

/-- The uop, as the ROB names it. -/
def Flight.item (f : Flight N W T) : Item W := ⟨f.cycle, f.uop.rob_idx.2, f.uop.toMicroOp⟩

/-- `GetNewUopAndBrMask`. -/
def Flight.update (b : BrUpdate T) (f : Flight N W T) : Flight N W T :=
  { f with uop := { f.uop with br_mask := getNewBrMask b f.uop.br_mask } }

/-- A uop in an issue queue. -/
structure Waiting (N W T : ℕ) extends Flight N W T where
  slot : Slot T

namespace Waiting

/-- The uop in a queue, in the next cycle. -/
def next (x : Bcast T) (granted : Bool) (e : Waiting N W T) : Waiting N W T :=
  { e with slot := e.slot.next x granted false none }

/-- The uop as it leaves the queue. -/
def issue (e : Waiting N W T) : Flight N W T :=
  { e.toFlight with uop := { e.uop with br_mask := e.slot.slot_uop.br_mask } }

/-- An operand is that of a load that may miss. -/
def poisoned (e : Waiting N W T) : Bool := e.slot.p1_poisoned || e.slot.p2_poisoned

/-- A slot takes a dispatched uop. -/
def enter (x : Bcast T) (f : Flight N W T) (u : Issue.MicroOp T) : Waiting N W T where
  toFlight := f
  slot := Slot.next ⟨.s_invalid, false, false, false, false, false, false, u⟩ x false false (some u)

end Waiting

/-! ## The pipeline -/

/-- The core with the uops that wait in the integer and memory queues, and the
    registers of `RegisterRead` for `I` ports; a port without a uop holds
    `NullMicroOp`.  Of the history: the uops that were valid in execute, and
    those that wrote. -/
structure Pipe (N W T va I : ℕ) where
  core : Core N W T va
  queue : List (Waiting N W T)
  rrd_valids : Fin I → Bool
  rrd_uops : Fin I → Option (Flight N W T)
  exe_reg_valids : Fin I → Bool
  exe_reg_uops : Fin I → Option (Flight N W T)
  executed : List (Item W)
  performed : List (Item W)

/-- The inputs of a cycle. -/
structure In (N W T va I : ℕ) where
  /-- `dec_uops` are the rows of the decode table; the custom writes are not an
      input here -/
  core : Sampling.In N W T va
  /-- `NullMicroOp`, with its open fields as they are built -/
  nullMicroOp : Reorder.MicroOp
  ren_uops : Fin W → Issue.MicroOp T
  iq_types : Fin W → List IqType
  /-- the issue port for each place of the queue -/
  grants : ℕ → Option (Fin I)
  ld_miss : Bool
  wakeup_ports : List ℕ
  /-- the loads that wake up their consumers, with the register -/
  spec_ld_wakeup : List (RobIdx N W × ℕ)
  rs1_data : Fin I → BitVec 64

namespace Pipe

variable (s : Pipe N W T va I) (i : In N W T va I)

/-- The uops in execute that write, valid or not. -/
def writing : List (Fin I × Flight N W T) :=
  (List.finRange I).filterMap fun p =>
    ((s.exe_reg_uops p).filter fun f => setsUCSR f.uop.toMicroOp).map (p, ·)

/-- `iregister_read.io.exe_reqs(w).bits.uop`. -/
def exe_uop (p : Fin I) : Reorder.MicroOp :=
  match s.exe_reg_uops p with
  | some f => f.uop.toMicroOp
  | none => i.nullMicroOp

/-- The writes of the custom registers; `exe_reg_valids` is not looked at. -/
def ucsr_writes : List (BitVec 12 × BitVec 64) :=
  ((List.finRange I).filter fun p => setsUCSR (s.exe_uop i p)).map fun p =>
    (instTag (s.exe_uop i p).inst, i.rs1_data p)

/-- The inputs of the core. -/
def coreIn : Sampling.In N W T va :=
  { i.core with
    dec_uops := fun w => decode (i.core.dec_uops w)
    ucsr_writes := s.ucsr_writes i }

/-- The inputs of the ROB. -/
def robIn : SysIn N W T := s.core.robIn (s.coreIn i)

/-- What the queues hear. -/
def bcast : Bcast T where
  brupdate := i.core.back.b1
  kill := s.core.flush_d1
  ldspec_miss := i.ld_miss
  wakeup_ports := i.wakeup_ports
  pred_wakeup_port := none
  spec_ld_wakeup := i.spec_ld_wakeup.map (·.2)

/-- What dispatch sends to the queues. -/
def dispatched : List (Waiting N W T) :=
  (List.finRange W).flatMap fun w =>
    let u := s.core.dis_uops (s.coreIn i) w
    if s.core.dis_fire (s.coreIn i) w && !u.exception && !u.is_fence && !u.is_fencei then
      ((i.iq_types w).filter (· ≠ .FP)).map fun iq =>
        .enter (s.bcast i) ⟨u, s.core.sys.now⟩ (dispatchUop iq (issueUop (i.ren_uops w) u))
    else []

/-- The queues, in the next cycle. -/
def queue_next : List (Waiting N W T) :=
  ((s.queue.zipIdx.map fun x => x.1.next (s.bcast i) (i.grants x.2).isSome) ++
    s.dispatched i).filter fun e => e.slot.is_valid

/-- `iss_uops`; a port without a grant sends `NullMicroOp`. -/
def iss_uops (p : Fin I) : Option (Waiting N W T) :=
  (s.queue.zipIdx.find? fun x => decide (i.grants x.2 = some p)).map (·.1)

/-- `iregister_read.io.iss_valids`, that a missed load clears, and the kill by a
    branch on the way. -/
def rrd_valids_next (p : Fin I) : Bool :=
  (s.iss_uops i p).any fun e =>
    !(i.ld_miss && e.poisoned) && !isKilledByBranch i.core.back.b1 e.slot.slot_uop.br_mask

/-- `rrd_kill`: the uop in register read does not go on. -/
def rrd_kill (p : Fin I) : Bool :=
  s.core.flush_d1 ||
    (s.rrd_uops p).any fun f => isKilledByBranch i.core.back.b1 f.uop.br_mask

/-- One cycle. -/
def next [NeZero N] [NeZero W] : Pipe N W T va I where
  core := s.core.next (s.coreIn i)
  queue := s.queue_next i
  rrd_valids := s.rrd_valids_next i
  rrd_uops p := (s.iss_uops i p).map fun e => e.issue.update i.core.back.b1
  exe_reg_valids p := !s.rrd_kill i p && s.rrd_valids p
  exe_reg_uops p :=
    if s.rrd_kill i p then none else (s.rrd_uops p).map (·.update i.core.back.b1)
  executed := s.executed ++ (List.finRange I).filterMap fun p =>
    if s.exe_reg_valids p then (s.exe_reg_uops p).map (·.item) else none
  performed := s.performed ++ s.writing.map (·.2.item)

/-! ### The surroundings -/

/-- After reset. -/
structure Reset : Prop where
  core : s.core.Reset
  queue : s.queue = []
  rrd_uops : ∀ p, s.rrd_uops p = none
  exe_reg_uops : ∀ p, s.exe_reg_uops p = none
  executed : s.executed = []
  performed : s.performed = []

/-- What the rest of the core promises in a cycle. -/
structure Ok : Prop where
  rob : s.core.sys.Ok (s.robIn i)
  /-- `NullMicroOp` is no custom write -/
  null : setsUCSR i.nullMicroOp = false
  /-- the decode table: `ADDI` is no fence, and what flushes is unique -/
  row_addi : ∀ w, (i.core.dec_uops w).uopc = uopADDI →
    (i.core.dec_uops w).is_fence = false ∧ (i.core.dec_uops w).is_fencei = false
  row_flush : ∀ w, (i.core.dec_uops w).flush_on_commit = true →
    (i.core.dec_uops w).is_unique = true
  row_iq : ∀ w, s.core.ren2_valid w = true → (s.core.ren2_uop w).uopc = uopADDI →
    i.iq_types w = [.INT]
  /-- an exception of the LSU belongs to a load or a store that is in the ROB,
      stays there and was not killed, and none is reported during a flush -/
  lxcpt : ∀ x, i.core.back.lxcpt = some x → s.core.sys.Val x.uop.rob_idx ∧
    s.core.sys.rob.commit_at (s.robIn i).toIn x.uop.rob_idx.1 x.uop.rob_idx.2 = false ∧
    x.uop.br_mask = (s.core.sys.rob.bank x.uop.rob_idx.1 x.uop.rob_idx.2).uop.br_mask ∧
    isKilledByBranch i.core.back.b1 x.uop.br_mask = false ∧ s.core.sys.Quiet ∧
    (s.core.sys.rob.bank x.uop.rob_idx.1 x.uop.rob_idx.2).uop.uopc ≠ uopADDI
  /-- what mispredicts is a branch -/
  branch : ∀ b, i.core.back.oldest = some b →
    (s.core.sys.rob.bank b.1 b.2).uop.uopc ≠ uopADDI
  /-- a port takes one uop -/
  grants : ∀ k l p, i.grants k = some p → i.grants l = some p → k = l
  /-- the load of a speculative wakeup is in the ROB -/
  spec : ∀ x ∈ i.spec_ld_wakeup, s.core.sys.Val x.1 ∧
    (s.core.sys.rob.bank x.1.1 x.1.2).uop.uopc ≠ uopADDI
  /-- a write-back is for a uop in the ROB, and an ALU answers after execute -/
  answers : ∀ a, Rob.unbusy_at (s.robIn i).toIn a.1 a.2 = true → s.core.sys.Val a ∧
    ((s.core.sys.rob.bank a.1 a.2).uop.uopc = uopADDI → s.core.sys.item a ∈ s.executed)

end Pipe

/-- The pipeline, from reset. -/
def pipe [NeZero N] [NeZero W] : Machine (Pipe N W T va I) (In N W T va I) where
  start := Pipe.Reset
  ok := Pipe.Ok
  next s i := s.next i

/-! ## The core -/

/-- What is known of a uop that has been decoded. -/
structure Decoded (u : Reorder.MicroOp) : Prop where
  addi : u.ucsrInst = true → u.uopc = uopADDI
  unique : u.ucsrInst = true → u.is_unique = true
  no_fence : u.ucsrInst = true → u.is_fence = false ∧ u.is_fencei = false
  flush : u.flush_on_commit = true → u.is_unique = true

/-- The invariant of dispatch and the ROB. -/
structure Pipe.Front (s : Pipe N W T va I) : Prop where
  sys : s.core.sys.Inv
  xcpt : s.core.sys.XInv
  flushing : s.core.sys.Flushing
  thrown : s.core.sys.rob.exc_d1 = true → s.core.flush_d1 = true
  drained : s.core.sys.rob.exc_d2 = true → ∀ w, s.core.ren2_valid w = false
  /-- a unique uop executes after the flush before it -/
  settled : ∀ a, s.core.sys.Val a → (s.core.sys.rob.bank a.1 a.2).uop.is_unique = true →
    (s.core.sys.rob.bank a.1 a.2).exception = false → s.core.flush_d1 = false
  ren2 : ∀ w, s.core.ren2_valid w = true → Decoded (s.core.ren2_uop w).toMicroOp
  entries : ∀ a, s.core.sys.Val a → Decoded (s.core.sys.rob.bank a.1 a.2).uop.toMicroOp

section

variable {s : Pipe N W T va I} {i : In N W T va I}

theorem decoded_decode {u : RobUop N W T}
    (haddi : u.uopc = uopADDI → u.is_fence = false ∧ u.is_fencei = false)
    (hflush : u.flush_on_commit = true → u.is_unique = true) : Decoded (decode u).toMicroOp := by
  have hcode : (decode u).ucsrInst = true → u.uopc = uopADDI := by
    intro h
    simp only [decode, Bool.and_eq_true, decide_eq_true_eq] at h
    exact h.1
  refine ⟨hcode, fun h => ?_, fun h => haddi (hcode h), fun h => ?_⟩
  · show (u.is_unique || (decode u).ucsrInst) = true
    rw [h, Bool.or_true]
  · show (u.is_unique || (decode u).ucsrInst) = true
    rw [hflush h, Bool.true_or]

theorem Decoded.flushes {u : RobUop N W T} (h : Decoded u.toMicroOp)
    (hf : Rob.flushes u = true) : u.is_unique = true := by
  simp only [Rob.flushes, Bool.or_eq_true, Bool.and_eq_true] at hf
  rcases hf with hf | ⟨hu, -⟩
  · exact h.flush hf
  · exact h.unique hu

theorem front_reset (h : s.Reset) : s.Front := by
  have hval : ∀ a, ¬ s.core.sys.Val a := fun a ha =>
    absurd (ha.symm.trans (h.core.sys.val a.1 a.2)) (by simp)
  refine ⟨inv_reset h.core.sys, xinv_reset h.core.sys, fun _ a ha => absurd ha (hval a),
    fun h1 => ?_, fun h2 => ?_, fun a ha => absurd ha (hval a), fun w hw => ?_,
    fun a ha => absurd ha (hval a)⟩
  · exact absurd (h1.symm.trans h.core.sys.exc_d1) (by simp)
  · exact absurd (h2.symm.trans h.core.sys.exc_d2) (by simp)
  · exact absurd (hw.symm.trans (h.core.ren2 w)) (by simp)

/-- Dispatch keeps what the exception record relies on. -/
theorem xok (h : s.Front) (ok : s.Ok i) : s.core.sys.XOk (s.robIn i) where
  enq_calm henq := by
    obtain ⟨w, -, hw⟩ := List.any_eq_true.1 henq
    obtain ⟨hv, hready, -, -, -, hredir⟩ := Sampling.open_of_fire hw
    have hf := Sampling.flush_of_redirect hredir
    refine ⟨?_, ?_, ?_⟩
    · by_contra h1
      exact absurd ((h.thrown (by simpa using h1)).symm.trans hf) (by simp)
    · by_contra h2
      exact absurd (hv.symm.trans (h.drained (by simpa using h2) w)) (by simp)
    · rw [(ready_iff.1 hready).1]
      simp
  enq_mask w _ := by
    funext t
    show (_ && !i.core.back.b1.resolve_mask t && !i.core.back.b1.resolve_mask t) =
      (_ && !i.core.back.b1.resolve_mask t)
    rw [Bool.and_assoc, Bool.and_self]
  enq_unique w hw hu := by
    obtain ⟨hv, -, hwait, -⟩ := Sampling.open_of_fire hw
    have hun : (s.core.ren2_uop w).is_unique = true := hu
    simp only [Core.wait_for_empty_pipeline, hun, Bool.true_or, Bool.true_and,
      Bool.or_eq_false_iff, Bool.not_eq_false'] at hwait
    obtain ⟨⟨hempty, -⟩, hprior⟩ := hwait
    refine ⟨hempty, fun v hv' => ?_⟩
    rcases lt_trichotomy v w with hlt | rfl | hlt
    · -- an older slot would have to go first
      have hno := List.any_eq_false.1 hprior v (List.mem_finRange v)
      simp [hlt, (Sampling.open_of_fire hv').1] at hno
    · rfl
    · -- a younger slot is blocked
      obtain ⟨-, -, -, hblock, -⟩ := Sampling.open_of_fire hv'
      have hno := List.any_eq_false.1 hblock w (List.mem_finRange w)
      simp [hlt, hv, hun] at hno
  enq_flush w hw hf := (h.ren2 w (Sampling.open_of_fire hw).1).flushes hf
  lxcpt x hx := by
    obtain ⟨hval, hcom, hmask, hkill, hq, -⟩ := ok.lxcpt x hx
    exact ⟨hval, hcom, hmask, hkill, hq⟩

section Next

variable [NeZero N] [NeZero W]

theorem core_next : (s.next i).core.sys = s.core.sys.next (s.robIn i) := rfl

theorem ren2_next (h : s.Front) (ok : s.Ok i) {w : Fin W}
    (hw : (s.next i).core.ren2_valid w = true) :
    Decoded ((s.next i).core.ren2_uop w).toMicroOp := by
  have hvalid : (s.next i).core.ren2_valid w = s.core.ren2_valid_next (s.coreIn i) w := rfl
  have huop : ((s.next i).core.ren2_uop w).toMicroOp =
      (if !s.core.redirect_flush (s.coreIn i) && s.core.dis_ready (s.coreIn i) then
        s.core.dec_uop (s.coreIn i) w else s.core.ren2_uop w).toMicroOp := rfl
  rw [hvalid, Core.ren2_valid_next] at hw
  rw [huop]
  split_ifs at hw with hredir hready
  · rw [if_pos (by simp [hredir, hready])]
    have hdec := decoded_decode (ok.row_addi w) (ok.row_flush w)
    rw [Core.dec_uop]
    split_ifs
    · exact ⟨hdec.addi, hdec.unique, hdec.no_fence, hdec.flush⟩
    · exact hdec
  · rw [if_neg (by simp [hready])]
    rw [Bool.and_eq_true] at hw
    exact h.ren2 w hw.1

theorem settled_next (h : s.Front) (ok : s.Ok i) {a : RobIdx N W} (ha : (s.next i).core.sys.Val a)
    (hu : ((s.next i).core.sys.rob.bank a.1 a.2).uop.is_unique = true)
    (hexc : ((s.next i).core.sys.rob.bank a.1 a.2).exception = false) :
    (s.next i).core.flush_d1 = false := by
  have okx := xok h ok
  rw [core_next] at ha hu hexc
  show s.core.sys.rob.flush_val (s.robIn i).toIn = false
  rw [Rob.flush_val, Bool.or_eq_false_iff]
  constructor
  · by_contra ht
    obtain ⟨w, -, hw⟩ := List.any_eq_true.1 (by simpa using ht :
      s.core.sys.rob.exception_thrown (s.robIn i).toIn = true)
    have hstay := thrown_stays h.sys ok.rob okx hw
    obtain ⟨-, hall, -⟩ := alone_next h.sys h.xcpt ok.rob okx ha hu
    rw [← hall _ hstay.1] at hexc
    exact absurd (hstay.2.symm.trans hexc) (by simp)
  · by_contra hf
    exact not_val_of_flush h.xcpt ok.rob (by simpa using hf) a ha

theorem front_next (h : s.Front) (ok : s.Ok i) : (s.next i).Front where
  sys := inv_step h.sys ok.rob
  xcpt := xinv_step h.sys h.xcpt ok.rob (xok h ok)
  flushing := flushing_next h.sys h.xcpt ok.rob (xok h ok) h.flushing
  thrown h1 := by
    have ht : s.core.sys.rob.exception_thrown (s.robIn i).toIn = true := h1
    show s.core.sys.rob.flush_val (s.robIn i).toIn = true
    rw [Rob.flush_val, ht, Bool.true_or]
  drained h2 w := by
    have hf := h.thrown h2
    show s.core.ren2_valid_next (s.coreIn i) w = false
    rw [Core.ren2_valid_next, Core.redirect_flush, hf]
    rfl
  settled _ ha hu hexc := settled_next h ok ha hu hexc
  ren2 _ hw := ren2_next h ok hw
  entries a ha := by
    rw [core_next] at ha ⊢
    rcases uop_next_cases h.sys ok.rob ha with ⟨hv, hbase⟩ | ⟨he, hbase⟩ <;> rw [hbase]
    · exact h.entries a hv
    · exact h.ren2 a.2 (Sampling.open_of_fire (enq_of_at he).1).1

end Next

end

/-! ## The way of a custom instruction -/

/-- Only custom instructions are of the kind. -/
def Custom (kind : Reorder.MicroOp → Bool) : Prop := ∀ u, kind u = true → u.ucsrInst = true

namespace Pipe

section Kind

variable (kind : Reorder.MicroOp → Bool)

/-- A valid entry that is not marked, of a uop of the kind. -/
def Holder (s : Pipe N W T va I) (a : RobIdx N W) : Prop :=
  s.core.sys.Val a ∧ (s.core.sys.rob.bank a.1 a.2).exception = false ∧
    kind (s.core.sys.rob.bank a.1 a.2).uop.toMicroOp = true

/-- Nothing of what is in some ports, or of what waits, is of the kind. -/
def Free (uops : Fin I → Option (Flight N W T)) : Prop :=
  ∀ p f, uops p = some f → kind f.uop.toMicroOp = false

/-- No uop of the kind waits. -/
def FreeQueue (queue : List (Waiting N W T)) : Prop :=
  ∀ e ∈ queue, kind e.uop.toMicroOp = false

/-- One uop is of the kind. -/
structure Single (uops : Fin I → Option (Flight N W T)) (p : Fin I) (x : Item W) : Prop where
  here : ∃ f, uops p = some f ∧ f.item = x
  rest : ∀ q f, q ≠ p → uops q = some f → kind f.uop.toMicroOp = false

/-- One uop of the kind waits, ready and not poisoned. -/
def SingleQueue (queue : List (Waiting N W T)) (x : Item W) : Prop :=
  ∃ l e r, queue = l ++ e :: r ∧ FreeQueue kind l ∧ FreeQueue kind r ∧ e.item = x ∧
    e.slot.state = .s_valid_1 ∧ e.poisoned = false

end Kind

/-- What an entry for a custom instruction keeps away. -/
structure Calm (s : Pipe N W T va I) (i : In N W T va I) : Prop where
  dispatched : s.dispatched i = []
  flush : s.core.flush_d1 = false
  branch : ∀ m, isKilledByBranch i.core.back.b1 m = false
  spec : i.spec_ld_wakeup = []
  lxcpt : i.core.back.lxcpt = none

end Pipe

section

variable {s : Pipe N W T va I} {i : In N W T va I} {kind : Reorder.MicroOp → Bool}

/-- It is alone in the ROB, and is an `ADDI`. -/
theorem alone_of_holder (hkind : Custom kind) (h : s.Front) {a : RobIdx N W}
    (ha : s.Holder kind a) :
    (s.core.sys.rob.bank a.1 a.2).uop.uopc = uopADDI ∧
      (s.core.sys.rob.bank a.1 a.2).uop.is_unique = true ∧ ∀ b, s.core.sys.Val b → b = a := by
  have hdec := h.entries a ha.1
  have hu := hdec.unique (hkind _ ha.2.2)
  exact ⟨hdec.addi (hkind _ ha.2.2), hu, (h.xcpt.alone a ha.1 hu).2.1⟩

theorem calm_of_holder (hkind : Custom kind) (h : s.Front) (ok : s.Ok i) {a : RobIdx N W}
    (ha : s.Holder kind a) : s.Calm i := by
  obtain ⟨haddi, hu, hall⟩ := alone_of_holder hkind h ha
  obtain ⟨-, -, hready⟩ := calm_of_alone h.xcpt h.flushing ha.1 hu ha.2.1
  -- what is in the ROB and is no `ADDI` is not there
  have hno : ∀ b, s.core.sys.Val b → (s.core.sys.rob.bank b.1 b.2).uop.uopc ≠ uopADDI → False := by
    intro b hb hne
    rw [hall b hb] at hne
    exact hne haddi
  refine ⟨List.flatMap_eq_nil_iff.2 fun w _ => if_neg ?_, h.settled a ha.1 hu ha.2.1, fun m => ?_,
    List.eq_nil_iff_forall_not_mem.2 fun x hx => hno _ (ok.spec x hx).1 (ok.spec x hx).2, ?_⟩
  · intro hw
    simp only [Bool.and_eq_true] at hw
    obtain ⟨-, hready', -⟩ := Sampling.open_of_fire hw.1.1.1
    exact absurd (hready'.symm.trans hready) (by simp)
  · have hnone : (s.robIn i).oldest = none := by
      by_contra hne
      obtain ⟨b, hb⟩ := Option.ne_none_iff_exists'.1 hne
      exact hno b (ok.rob.kill b hb).1 (ok.branch b hb)
    simp only [isKilledByBranch, List.any_eq_false]
    intro t _
    simp [show i.core.back.b1.mispredict_mask t = false from ok.rob.quiet hnone t]
  · by_contra hne
    obtain ⟨x, hx⟩ := Option.ne_none_iff_exists'.1 hne
    obtain ⟨hval, -, -, -, -, hcode⟩ := ok.lxcpt x hx
    exact hno _ hval hcode

/-- A list with one place that counts. -/
theorem flatMap_single {β : Type*} {n : ℕ} {f : Fin n → List β} (k : Fin n)
    (h : ∀ j, j ≠ k → f j = []) : (List.finRange n).flatMap f = f k := by
  obtain ⟨as, bs, hsplit⟩ := List.append_of_mem (List.mem_finRange k)
  have hnd := List.nodup_finRange n
  rw [hsplit] at hnd ⊢
  have hne := (List.nodup_middle.1 hnd)
  rw [List.nodup_cons] at hne
  have hnil : ∀ cs ⊆ as ++ bs, cs.flatMap f = [] := by
    intro cs hcs
    refine List.flatMap_eq_nil_iff.2 fun j hj => h j ?_
    rintro rfl
    exact hne.1 (hcs hj)
  rw [List.flatMap_append, List.flatMap_cons, hnil as (List.subset_append_left as bs),
    hnil bs (List.subset_append_right as bs), List.nil_append, List.append_nil]

theorem filterMap_single {β : Type*} {n : ℕ} {f : Fin n → Option β} {k : Fin n} {x : β}
    (hk : f k = some x) (h : ∀ j, j ≠ k → f j = none) : (List.finRange n).filterMap f = [x] := by
  have hflat := flatMap_single (f := fun j => (f j).toList) k fun j hj => by rw [h j hj]; rfl
  rw [List.filterMap_eq_flatMap_toList, hflat, hk]
  rfl

/-! ### Entries -/

section Next

variable [NeZero N] [NeZero W]

/-- An entry that does not commit stays. -/
theorem holder_next (hkind : Custom kind) (h : s.Front) (ok : s.Ok i) {a : RobIdx N W}
    (ha : s.Holder kind a)
    (hc : s.core.sys.rob.commit_at (s.robIn i).toIn a.1 a.2 = false) :
    (s.next i).Holder kind a ∧ (s.next i).core.sys.item a = s.core.sys.item a := by
  obtain ⟨-, hu, -⟩ := alone_of_holder hkind h ha
  obtain ⟨hq, -⟩ := calm_of_alone h.xcpt h.flushing ha.1 hu ha.2.1
  have hval := alone_stays h.xcpt ok.rob hq ha.1 hu hc
  have henq := enq_at_of_val h.sys ok.rob ha.1
  refine ⟨⟨hval, ?_, ?_⟩, item_next_of_val h.sys ok.rob ha.1⟩
  · have hx : Rob.lxcpt_at (s.robIn i).toIn a.1 a.2 = false := by
      rw [Rob.lxcpt_at, show (s.robIn i).lxcpt = none from (calm_of_holder hkind h ok ha).lxcpt]
      rfl
    rw [core_next, exception_next, rbk_of_quiet hq, hx, henq]
    exact ha.2.1
  · rcases uop_next_cases h.sys ok.rob hval with ⟨-, hbase⟩ | ⟨he, -⟩
    · rw [core_next, hbase]
      exact ha.2.2
    · exact absurd (he.symm.trans henq) (by simp)

/-- An entry was one before, or comes from dispatch. -/
theorem holder_prev (h : s.Front) (ok : s.Ok i) {a : RobIdx N W} (ha : (s.next i).Holder kind a) :
    s.Holder kind a ∨ s.core.dis_fire (s.coreIn i) a.2 = true ∧
      (s.core.ren2_uop a.2).exception = false ∧
      kind (s.core.ren2_uop a.2).toMicroOp = true := by
  obtain ⟨hval, hexc, hset⟩ := ha
  rw [core_next] at hval hexc hset
  rw [exception_next, (val_next.1 hval).2.1, if_neg Bool.false_ne_true] at hexc
  have hx : Rob.lxcpt_at (s.robIn i).toIn a.1 a.2 = false := by
    by_contra hx
    rw [if_pos (by simpa using hx)] at hexc
    exact absurd hexc (by simp)
  rw [hx, if_neg Bool.false_ne_true] at hexc
  rcases uop_next_cases h.sys ok.rob hval with ⟨hv, hbase⟩ | ⟨he, hbase⟩ <;> rw [hbase] at hset
  · rw [enq_at_of_val h.sys ok.rob hv, if_neg Bool.false_ne_true] at hexc
    exact .inl ⟨hv, hexc, hset⟩
  · rw [he, if_pos rfl] at hexc
    exact .inr ⟨(enq_of_at he).1, hexc, hset⟩

/-- It is busy until it is written back. -/
theorem bsy_next (h : s.Front) (ok : s.Ok i) {a : RobIdx N W} (hv : s.core.sys.Val a)
    (hb : (s.core.sys.rob.bank a.1 a.2).bsy = true)
    (hun : Rob.unbusy_at (s.robIn i).toIn a.1 a.2 = false) :
    ((s.next i).core.sys.rob.bank a.1 a.2).bsy = true := by
  have hnext : ((s.next i).core.sys.rob.bank a.1 a.2).bsy =
      if Rob.unbusy_at (s.robIn i).toIn a.1 a.2 then false
      else if s.core.sys.rob.enq_at (s.robIn i).toIn a.1 a.2 then
        !(((s.robIn i).enq_uops a.2).is_fence || ((s.robIn i).enq_uops a.2).is_fencei)
      else (s.core.sys.rob.bank a.1 a.2).bsy := rfl
  rw [hnext, hun, enq_at_of_val h.sys ok.rob hv]
  exact hb

omit [NeZero N] [NeZero W] in
theorem not_commit_of_bsy {a : RobIdx N W} (hb : (s.core.sys.rob.bank a.1 a.2).bsy = true) :
    s.core.sys.rob.commit_at (s.robIn i).toIn a.1 a.2 = false := by
  by_contra hc
  simp only [Rob.commit_at, Bool.not_eq_false, Bool.and_eq_true, decide_eq_true_eq] at hc
  have hidle := (val_of_commit hc.2).2.1
  rw [← hc.1] at hidle
  exact absurd (hb.symm.trans hidle) (by simp)

/-! ### Ports -/

theorem free_rrd_next (hq : Pipe.FreeQueue kind s.queue) : Pipe.Free kind (s.next i).rrd_uops := by
  intro p f hf
  obtain ⟨e, he, rfl⟩ := Option.map_eq_some_iff.1 hf
  obtain ⟨x, hx, rfl⟩ := Option.map_eq_some_iff.1 he
  exact hq _ (List.fst_mem_of_mem_zipIdx (List.mem_of_find?_eq_some hx))

theorem exe_next_cases {p : Fin I} {f : Flight N W T} (hf : (s.next i).exe_reg_uops p = some f) :
    ∃ g, s.rrd_uops p = some g ∧ f = g.update i.core.back.b1 := by
  have hnext : (s.next i).exe_reg_uops p =
      if s.rrd_kill i p then none else (s.rrd_uops p).map (·.update i.core.back.b1) := rfl
  rw [hnext] at hf
  split_ifs at hf
  obtain ⟨g, hg, rfl⟩ := Option.map_eq_some_iff.1 hf
  exact ⟨g, hg, rfl⟩

theorem free_exe_next (hr : Pipe.Free kind s.rrd_uops) :
    Pipe.Free kind (s.next i).exe_reg_uops := by
  intro p f hf
  obtain ⟨g, hg, rfl⟩ := exe_next_cases hf
  exact hr p g hg

/-- Register read passes it on. -/
theorem single_exe_next (hc : s.Calm i) {p : Fin I} {x : Item W}
    (hr : Pipe.Single kind s.rrd_uops p x)
    (hv : s.rrd_valids p = true) :
    Pipe.Single kind (s.next i).exe_reg_uops p x ∧ (s.next i).exe_reg_valids p = true := by
  obtain ⟨f, hf, hx⟩ := hr.here
  have hkill : s.rrd_kill i p = false := by
    rw [Pipe.rrd_kill, hc.flush, hf, Option.any_some, hc.branch]
    rfl
  refine ⟨⟨⟨f.update i.core.back.b1, ?_, hx⟩, fun q g hq hg => ?_⟩, ?_⟩
  · show (if s.rrd_kill i p then none else (s.rrd_uops p).map (·.update i.core.back.b1)) = _
    rw [hkill, hf]
    rfl
  · obtain ⟨f', hf', rfl⟩ := exe_next_cases hg
    exact hr.rest q f' hq hf'
  · show (!s.rrd_kill i p && s.rrd_valids p) = true
    rw [hkill, hv]
    rfl

/-! ### The queue -/

omit [NeZero N] [NeZero W] in
theorem free_queue_next (hq : Pipe.FreeQueue kind s.queue)
    (hd : Pipe.FreeQueue kind (s.dispatched i)) : Pipe.FreeQueue kind (s.queue_next i) := by
  intro e he
  obtain ⟨he, -⟩ := List.mem_filter.1 he
  rcases List.mem_append.1 he with hold | hnew
  · obtain ⟨x, hx, rfl⟩ := List.mem_map.1 hold
    exact hq x.1 (List.fst_mem_of_mem_zipIdx hx)
  · exact hd e hnew

omit [NeZero N] [NeZero W] in
theorem free_queue_calm (hc : s.Calm i) (hq : Pipe.FreeQueue kind s.queue) :
    Pipe.FreeQueue kind (s.queue_next i) := by
  refine free_queue_next hq ?_
  rw [hc.dispatched]
  exact fun e he => absurd he List.not_mem_nil

omit [NeZero N] [NeZero W] in
/-- A slot that is not poisoned is left by a grant, and by nothing else. -/
theorem slot_next_state (granted : Bool) {c : Slot T} {x : Bcast T} (hs : c.state = .s_valid_1)
    (hp : (c.p1_poisoned || c.p2_poisoned) = false) (hk : x.kill = false)
    (hb : isKilledByBranch x.brupdate c.slot_uop.br_mask = false) :
    (c.next x granted false none).state = if granted then .s_invalid else .s_valid_1 := by
  have hnext : (c.next x granted false none).state =
      if x.kill then .s_invalid else if false then .s_invalid else c.next_state x granted := rfl
  rw [hnext, hk, Slot.next_state, hb, hk, Slot.may_vacate, Slot.squash_grant, hp, Slot.splits, hs]
  cases granted <;> simp

omit [NeZero N] [NeZero W] in
theorem poisoned_next {e : Waiting N W T} {x : Bcast T} (granted : Bool)
    (hx : x.spec_ld_wakeup = []) : (e.next x granted).poisoned = false := by
  simp [Waiting.next, Waiting.poisoned, Slot.next, Issue.specHit, hx]

omit [NeZero N] [NeZero W] in
/-- The queue around a uop. -/
theorem queue_next_split {l r : List (Waiting N W T)} {e : Waiting N W T}
    (hd : s.dispatched i = []) (hsplit : s.queue = l ++ e :: r) (hl : Pipe.FreeQueue kind l)
    (hr : Pipe.FreeQueue kind r) : ∃ l' r', Pipe.FreeQueue kind l' ∧ Pipe.FreeQueue kind r' ∧
      s.queue_next i = l' ++ ([e.next (s.bcast i) (i.grants l.length).isSome].filter
        fun e => e.slot.is_valid) ++ r' := by
  -- what stays of a part without it
  have hpart : ∀ (m : List (Waiting N W T)) (k : ℕ), Pipe.FreeQueue kind m →
      Pipe.FreeQueue kind (((m.zipIdx k).map fun x =>
        x.1.next (s.bcast i) (i.grants x.2).isSome).filter
        fun e => e.slot.is_valid) := by
    intro m k hm x hx
    obtain ⟨y, hy, rfl⟩ := List.mem_map.1 (List.mem_filter.1 hx).1
    exact hm y.1 (List.fst_mem_of_mem_zipIdx hy)
  refine ⟨_, _, hpart l 0 hl, hpart r (l.length + 1) hr, ?_⟩
  rw [Pipe.queue_next, hd, List.append_nil, hsplit, List.zipIdx_append, List.zipIdx_cons,
    List.map_append, List.map_cons, List.filter_append, ← List.singleton_append, List.filter_append,
    Nat.zero_add, List.append_assoc]

omit [NeZero N] [NeZero W] in
/-- A port takes the uop in the middle, or one that is not of the kind. -/
theorem iss_uops_cases {l r : List (Waiting N W T)} {e x : Waiting N W T} {p : Fin I}
    (hsplit : s.queue = l ++ e :: r) (hl : Pipe.FreeQueue kind l) (hr : Pipe.FreeQueue kind r)
    (hx : s.iss_uops i p = some x) :
    i.grants l.length = some p ∨ kind x.uop.toMicroOp = false := by
  obtain ⟨y, hy, rfl⟩ := Option.map_eq_some_iff.1 hx
  have hgrant := List.find?_some hy
  have hmem := List.mem_of_find?_eq_some hy
  rw [decide_eq_true_eq] at hgrant
  rw [hsplit, List.zipIdx_append, List.zipIdx_cons, Nat.zero_add] at hmem
  rcases List.mem_append.1 hmem with hin | hin
  · exact .inr (hl _ (List.fst_mem_of_mem_zipIdx hin))
  · rcases List.mem_cons.1 hin with rfl | hin
    · exact .inl hgrant
    · exact .inr (hr _ (List.fst_mem_of_mem_zipIdx hin))

omit [NeZero N] [NeZero W] in
theorem iss_uops_of_grant (ok : s.Ok i) {l r : List (Waiting N W T)} {e : Waiting N W T}
    {p : Fin I} (hsplit : s.queue = l ++ e :: r) (hg : i.grants l.length = some p) :
    s.iss_uops i p = some e := by
  have hfind : s.queue.zipIdx.find? (fun x => decide (i.grants x.2 = some p)) =
      some (e, l.length) := by
    refine List.find?_eq_some_iff_append.2 ⟨by simpa using hg, l.zipIdx, r.zipIdx (l.length + 1),
      by rw [hsplit, List.zipIdx_append, List.zipIdx_cons, Nat.zero_add], fun x hx => ?_⟩
    have hlt := List.snd_lt_of_mem_zipIdx hx
    have hne : i.grants x.2 ≠ some p := by
      intro hsame
      have := ok.grants x.2 l.length p hsame hg
      omega
    simpa using hne
  rw [Pipe.iss_uops, hfind]
  rfl

/-- It waits, or it goes to register read. -/
theorem single_queue_next (hc : s.Calm i) (ok : s.Ok i) {x : Item W}
    (hq : Pipe.SingleQueue kind s.queue x) :
    Pipe.SingleQueue kind (s.next i).queue x ∧ Pipe.Free kind (s.next i).rrd_uops ∨
      Pipe.FreeQueue kind (s.next i).queue ∧
        ∃ p, Pipe.Single kind (s.next i).rrd_uops p x ∧ (s.next i).rrd_valids p = true := by
  obtain ⟨l, e, r, hsplit, hl, hr, hitem, hstate, hpois⟩ := hq
  obtain ⟨l', r', hl', hr', hnext⟩ := queue_next_split hc.dispatched hsplit hl hr
  have hslot := slot_next_state (i.grants l.length).isSome hstate hpois
    (x := s.bcast i) hc.flush (hc.branch _)
  cases hg : i.grants l.length with
  | none =>
    rw [hg] at hslot hnext
    have hvalid : (e.next (s.bcast i) false).slot.is_valid = true := by
      simp [Slot.is_valid, Waiting.next, show (e.slot.next (s.bcast i) false false none).state = _
        from hslot]
    refine .inl ⟨⟨l', e.next (s.bcast i) false, r', ?_, hl', hr', hitem, hslot, ?_⟩, ?_⟩
    · show s.queue_next i = _
      rw [hnext, Option.isSome_none]
      simp [hvalid]
    · exact poisoned_next false (by rw [Pipe.bcast, hc.spec]; rfl)
    · intro p f hf
      obtain ⟨y, hy, rfl⟩ := Option.map_eq_some_iff.1 hf
      rcases iss_uops_cases hsplit hl hr hy with hgp | hno
      · exact absurd (hg.symm.trans hgp) (by simp)
      · exact hno
  | some p =>
    rw [hg] at hslot hnext
    have hinv : (e.next (s.bcast i) true).slot.is_valid = false := by
      simp [Slot.is_valid, Waiting.next, show (e.slot.next (s.bcast i) true false none).state = _
        from hslot]
    have hiss := iss_uops_of_grant ok hsplit hg
    refine .inr ⟨?_, p, ⟨⟨e.issue.update i.core.back.b1, ?_, hitem⟩, fun q f hq hf => ?_⟩, ?_⟩
    · show Pipe.FreeQueue kind (s.queue_next i)
      have hgone : s.queue_next i = l' ++ r' := by
        rw [hnext, Option.isSome_some]
        simp [hinv]
      intro y hy
      rw [hgone] at hy
      rcases List.mem_append.1 hy with hin | hin
      · exact hl' y hin
      · exact hr' y hin
    · show (s.iss_uops i p).map _ = _
      rw [hiss]
      rfl
    · obtain ⟨y, hy, rfl⟩ := Option.map_eq_some_iff.1 hf
      rcases iss_uops_cases hsplit hl hr hy with hgq | hno
      · exact absurd (Option.some.inj (hgq.symm.trans hg)) hq
      · exact hno
    · show s.rrd_valids_next i p = true
      rw [Pipe.rrd_valids_next, hiss, Option.any_some, hpois, hc.branch]
      simp

/-! ### Dispatch -/

omit [NeZero N] [NeZero W] in
theorem free_dispatched (hno : ∀ w, s.core.dis_fire (s.coreIn i) w = true →
    (s.core.ren2_uop w).exception = false → kind (s.core.ren2_uop w).toMicroOp = false) :
    Pipe.FreeQueue kind (s.dispatched i) := by
  intro e he
  obtain ⟨w, -, hw⟩ := List.mem_flatMap.1 he
  dsimp only at hw
  split_ifs at hw with hcond
  · simp only [Bool.and_eq_true, Bool.not_eq_true'] at hcond
    obtain ⟨q, -, rfl⟩ := List.mem_map.1 hw
    exact hno w hcond.1.1.1 hcond.1.1.2
  · exact absurd hw List.not_mem_nil

omit [NeZero N] [NeZero W] in
/-- It comes into the queue alone, and into an empty ROB. -/
theorem dispatched_of_fire (hkind : Custom kind) (h : s.Front) (ok : s.Ok i) {w : Fin W}
    (hf : s.core.dis_fire (s.coreIn i) w = true) (hexc : (s.core.ren2_uop w).exception = false)
    (hset : kind (s.core.ren2_uop w).toMicroOp = true) :
    ∃ e, s.dispatched i = [e] ∧ e.item = ⟨s.core.sys.now, w, (s.core.ren2_uop w).toMicroOp⟩ ∧
      e.slot.state = .s_valid_1 ∧ e.poisoned = false := by
  obtain ⟨hv, -, -, -, -, hredir⟩ := Sampling.open_of_fire hf
  have hdec := h.ren2 w hv
  have hu := hkind _ hset
  have haddi : (s.core.ren2_uop w).uopc = uopADDI := hdec.addi hu
  obtain ⟨hfence, hfencei⟩ := hdec.no_fence hu
  have okx := xok h ok
  obtain ⟨-, hsolo⟩ := okx.enq_unique w hf (hdec.unique hu)
  obtain ⟨-, hnone⟩ := not_val_of_unique h.sys ok.rob okx hf (hdec.unique hu)
  have hspec : i.spec_ld_wakeup = [] :=
    List.eq_nil_iff_forall_not_mem.2 fun x hx => hnone _ (ok.spec x hx).1
  let u := s.core.dis_uops (s.coreIn i) w
  refine ⟨.enter (s.bcast i) ⟨u, s.core.sys.now⟩ (dispatchUop .INT (issueUop (i.ren_uops w) u)),
    ?_, rfl, ?_, ?_⟩
  · rw [Pipe.dispatched, flatMap_single w]
    · have hgo : (s.core.dis_fire (s.coreIn i) w && !(s.core.dis_uops (s.coreIn i) w).exception &&
          !(s.core.dis_uops (s.coreIn i) w).is_fence &&
          !(s.core.dis_uops (s.coreIn i) w).is_fencei) = true := by
        rw [hf, show (s.core.dis_uops (s.coreIn i) w).exception = false from hexc,
          show (s.core.dis_uops (s.coreIn i) w).is_fence = false from hfence,
          show (s.core.dis_uops (s.coreIn i) w).is_fencei = false from hfencei]
        rfl
      dsimp only
      rw [if_pos hgo, ok.row_iq w hv haddi]
      rfl
    · intro v hvw
      refine if_neg fun hcond => hvw (hsolo v ?_)
      simp only [Bool.and_eq_true] at hcond
      exact hcond.1.1.1
  · have hkill : (s.bcast i).kill = false := Sampling.flush_of_redirect hredir
    have hcode : uopcOf u.uopc = .other uopADDI := by
      rw [show u.uopc = uopADDI from haddi]
      rfl
    have hstate : (dispatchUop .INT (issueUop (i.ren_uops w) u)).iw_state = .s_valid_1 := by
      simp [dispatchUop, issueUop, hcode]
    show (if (s.bcast i).kill then Issue.IwState.s_invalid
      else (dispatchUop .INT (issueUop (i.ren_uops w) u)).iw_state) = .s_valid_1
    rw [hkill, hstate]
    rfl
  · have hx : (s.bcast i).spec_ld_wakeup = [] := by rw [Pipe.bcast, hspec]; rfl
    simp [Waiting.poisoned, Waiting.enter, Slot.next, Issue.specHit, hx]

/-- What waits is of another kind. -/
theorem single_queue_enter {e : Waiting N W T} (hd : s.dispatched i = [e])
    (hstate : e.slot.state = .s_valid_1) (hpois : e.poisoned = false)
    (hq : Pipe.FreeQueue kind s.queue) : Pipe.SingleQueue kind (s.next i).queue e.item := by
  refine ⟨(s.queue.zipIdx.map fun x => x.1.next (s.bcast i) (i.grants x.2).isSome).filter
    (fun e => e.slot.is_valid), e, [], ?_, ?_, fun x hx => absurd hx List.not_mem_nil, rfl,
    hstate, hpois⟩
  · show s.queue_next i = _
    have hvalid : e.slot.is_valid = true := by simp [Slot.is_valid, hstate]
    rw [Pipe.queue_next, hd, List.filter_append]
    simp [hvalid]
  · intro y hy
    obtain ⟨x, hx, rfl⟩ := List.mem_map.1 (List.mem_filter.1 hy).1
    exact hq x.1 (List.fst_mem_of_mem_zipIdx hx)

/-- and its entry holds it from then on. -/
theorem holder_of_fire (hkind : Custom kind) (h : s.Front) (ok : s.Ok i) {w : Fin W}
    (hf : s.core.dis_fire (s.coreIn i) w = true) (hexc : (s.core.ren2_uop w).exception = false)
    (hset : kind (s.core.ren2_uop w).toMicroOp = true) :
    ∃ a, (s.next i).Holder kind a ∧ ((s.next i).core.sys.rob.bank a.1 a.2).bsy = true ∧
      (s.next i).core.sys.item a = ⟨s.core.sys.now, w, (s.core.ren2_uop w).toMicroOp⟩ := by
  obtain ⟨hv, -⟩ := Sampling.open_of_fire hf
  obtain ⟨hfence, hfencei⟩ := (h.ren2 w hv).no_fence (hkind _ hset)
  have he : s.core.sys.rob.enq_at (s.robIn i).toIn s.core.sys.rob.rob_tail w = true := by
    simp [Rob.enq_at, show (s.robIn i).enq_valids w = true from hf]
  have hnew := enq_free h.sys ok.rob (a := (s.core.sys.rob.rob_tail, w)) he
  have hval := val_of_enq h.sys ok.rob (w := w) hf
  refine ⟨(s.core.sys.rob.rob_tail, w), ⟨hval, ?_, ?_⟩, ?_,
    item_next_of_enq (a := (s.core.sys.rob.rob_tail, w)) he⟩
  · have hx : Rob.lxcpt_at (s.robIn i).toIn s.core.sys.rob.rob_tail w = false := by
      by_contra hx
      obtain ⟨x, hx', hidx⟩ :=
        lxcpt_at_iff (a := (s.core.sys.rob.rob_tail, w)).1 (by simpa using hx)
      have hv := (ok.lxcpt x hx').1
      rw [hidx] at hv
      exact hnew hv
    rw [core_next, exception_next (s.core.sys.rob.rob_tail, w), (val_next.1 hval).2.1, hx, he]
    exact hexc
  · have hbase := uop_next_base (s := s.core.sys) (i := s.robIn i) s.core.sys.rob.rob_tail w
    rw [he, if_pos rfl] at hbase
    rw [core_next]
    show kind (s.core.sys.rob.uop_next (s.robIn i).toIn _ w).toMicroOp = true
    rw [hbase]
    exact hset
  · have hnext : ((s.next i).core.sys.rob.bank s.core.sys.rob.rob_tail w).bsy =
        if Rob.unbusy_at (s.robIn i).toIn s.core.sys.rob.rob_tail w then false
        else if s.core.sys.rob.enq_at (s.robIn i).toIn s.core.sys.rob.rob_tail w then
          !(((s.robIn i).enq_uops w).is_fence || ((s.robIn i).enq_uops w).is_fencei)
        else (s.core.sys.rob.bank s.core.sys.rob.rob_tail w).bsy := rfl
    have hans : Rob.unbusy_at (s.robIn i).toIn s.core.sys.rob.rob_tail w = false := by
      by_contra hun
      exact hnew (ok.answers (s.core.sys.rob.rob_tail, w) (by simpa using hun)).1
    rw [hnext, hans, he, show ((s.robIn i).enq_uops w).is_fence = false from hfence,
      show ((s.robIn i).enq_uops w).is_fencei = false from hfencei]
    rfl

end Next

end

end BoomStop.CustomWrite
