/-
  The event sampling of the core (`core.scala`): decode marks every uop with a
  private cause while the event counter is over its limit, the marked uops go
  through rename2 and dispatch into the ROB, and the exception that the ROB
  throws for them is turned into a jump to the sample function, or into an
  `ecall` of the user.

  * `Core.overflow_event`: the condition, on the live registers;
  * `Core.dis_fire`, `Core.dec_fire`: the stalls of dispatch and decode;
  * `Core.next`: one cycle of decode, rename2, the ROB and the registers;
  * `Core.csr_exception`, `Core.csr_cause`, `Core.redirect_pc`: what an
    exception becomes, one cycle after it was thrown;
  * `Core.Ok`: what the rest of the core promises;
  * `Core.Undisturbed`: no custom write ends an overflow that has been marked;
  * `open_of_fire`: what holds when a uop leaves dispatch.
-/
import BoomStop.RobXcpt

namespace BoomStop.Sampling

open Sync Reorder
open Issue (getNewBrMask)

variable {N W T va : ℕ}

/-- The tag of the process that is sampled. -/
def targetTag : BitVec 32 := 0x1234567

/-- The cause of an illegal instruction. -/
def illegal_instruction : ℕ := 2

/-- The cause of a system call. -/
def user_ecall : ℕ := 8

/-- The pipeline from decode to commit, with the custom registers, the
    privilege level, and what `RegNext` remembers of the last cycles. -/
structure Core (N W T va : ℕ) where
  sys : Sys N W T
  ren2_valid : Fin W → Bool
  ren2_uop : Fin W → RobUop N W T
  ucsr : Ucsr va
  prv : BitVec 2
  user_d1 : Bool
  user_d2 : Bool
  arch_d1 : ℕ
  flush_d1 : Bool
  flush_typ_d1 : Rob.FlushType
  com_xcpt_d1 : Option ℕ
  evec_d1 : BitVec va
  evec_d2 : BitVec va

/-- The inputs of a cycle: `back` is what the ROB gets from all but dispatch. -/
structure In (N W T va : ℕ) where
  back : SysIn N W T
  dec_valids : Fin W → Bool
  dec_uops : Fin W → RobUop N W T
  /-- `dec_xcpt_stall`, `branch_mask_full` -/
  dec_block : Fin W → Bool
  /-- rename, the issue queues, the LSU or RoCC are not ready for the uop -/
  dis_block : Fin W → Bool
  disableOOO : Bool
  fencei_rdy : Bool
  /-- the custom writes in the execute stage: tag and data -/
  ucsr_writes : List (BitVec 12 × BitVec 64)
  com_misp_cfi : ℕ
  perf_acquire : Bool
  perf_tlbMiss : Bool
  /-- the privilege level after the cycle -/
  new_prv : BitVec 2
  com_pc : BitVec 64
  evec : BitVec va

namespace Core

variable (s : Core N W T va) (i : In N W T va)

/-! ### The condition -/

/-- The process that is sampled runs. -/
def isTargetProc : Bool := s.ucsr.procTag = targetTag

/-- The core has been in user mode for three cycles. -/
def isUserMode : Bool := s.prv = 0 && s.user_d1 && s.user_d2

/-- Events are counted. -/
def sampleValid : Bool :=
  s.isUserMode && s.isTargetProc && s.ucsr.maxEventNum ≠ 0 && s.ucsr.warmupInstNum = 0

/-- Instructions of the warm-up are counted. -/
def warmupValid : Bool := s.isUserMode && s.isTargetProc && s.ucsr.warmupInstNum ≠ 0

/-- More events were counted than a sample has. -/
def overflow_event : Bool := s.sampleValid && s.ucsr.maxEventNum < s.ucsr.nowEventNum

/-! ### Decode and dispatch -/

/-- `io.ifu.redirect_flush`, which also kills rename2. -/
def redirect_flush : Bool :=
  s.flush_d1 || i.back.b2.isSome || s.sys.rob.r_xcpt_val || Rob.mispredict i.back.toIn

/-- There is an older uop in dispatch. -/
def dis_prior_slot_valid (w : Fin W) : Bool :=
  (List.finRange W).any fun v => decide (v < w) && s.ren2_valid v

/-- There is an older unique uop in dispatch. -/
def dis_prior_slot_unique (w : Fin W) : Bool :=
  (List.finRange W).any fun v => decide (v < w) && (s.ren2_valid v && (s.ren2_uop v).is_unique)

/-- A unique uop waits for all that is older. -/
def wait_for_empty_pipeline (w : Fin W) : Bool :=
  ((s.ren2_uop w).is_unique || i.disableOOO) &&
    (!s.sys.rob.empty || !i.fencei_rdy || s.dis_prior_slot_valid w)

/-- The uop in dispatch has to wait. -/
def dis_hazards (w : Fin W) : Bool :=
  s.ren2_valid w &&
    (!s.sys.rob.ready || i.dis_block w || s.wait_for_empty_pipeline i w ||
      s.dis_prior_slot_unique w || Rob.mispredict i.back.toIn || i.back.b2.isSome ||
      s.redirect_flush i)

/-- It waits, or an older one does. -/
def dis_stalls (w : Fin W) : Bool :=
  (List.finRange W).any fun v => decide (v ≤ w) && s.dis_hazards i v

/-- The uop is dispatched. -/
def dis_fire (w : Fin W) : Bool := s.ren2_valid w && !s.dis_stalls i w

/-- Nothing in dispatch has to wait. -/
def dis_ready : Bool := !(List.finRange W).any (s.dis_hazards i)

/-- `dis_uops`, under the index that the ROB offers. -/
def dis_uops (w : Fin W) : RobUop N W T :=
  { s.ren2_uop w with
    rob_idx := (s.sys.rob.rob_tail, w)
    br_mask := getNewBrMask i.back.b1 (s.ren2_uop w).br_mask }

/-- The inputs of the ROB. -/
def robIn : SysIn N W T :=
  { i.back with
    enq_valids := s.dis_fire i
    enq_uops := s.dis_uops i
    enq_partial_stall := !s.dis_ready i }

/-- The uop in decode has to wait. -/
def dec_hazards (w : Fin W) : Bool :=
  i.dec_valids w &&
    (!s.dis_ready i || decide (s.sys.rob.rob_state = .s_rollback) || i.dec_block w ||
      Rob.mispredict i.back.toIn || i.back.b2.isSome || s.redirect_flush i)

/-- It waits, or an older one does. -/
def dec_stalls (w : Fin W) : Bool :=
  (List.finRange W).any fun v => decide (v ≤ w) && s.dec_hazards i v

/-- The uop is decoded. -/
def dec_fire (w : Fin W) : Bool := i.dec_valids w && !s.dec_stalls i w

/-- The decoded uop; all of them are marked during an overflow. -/
def dec_uop (w : Fin W) : RobUop N W T :=
  if s.overflow_event then { i.dec_uops w with exception := true, exc_cause := cause_OverFlow }
  else i.dec_uops w

/-! ### The exception, one cycle later -/

/-- `isOverFlowExcpt`: the exception is the private one, and it is still an
    overflow. -/
def isOverFlowExcpt : Bool := s.com_xcpt_d1 = some cause_OverFlow && s.overflow_event

/-- `csr.io.exception` -/
def csr_exception : Bool :=
  if s.isOverFlowExcpt then s.ucsr.exitFuncAddr = 0 else s.com_xcpt_d1.isSome

/-- `csr.io.cause` -/
def csr_cause : ℕ :=
  if s.isOverFlowExcpt then if s.ucsr.exitFuncAddr = 0 then user_ecall else illegal_instruction
  else s.com_xcpt_d1.getD 0

/-- `FlushTypes.useCsrEvec`: the frontend goes on where the CSR file says. -/
def useCsrEvec (typ : Rob.FlushType) : Bool := typ = .xcpt || typ = .eret

/-- A flush that goes where the CSR file says. -/
def evec_redirect : Bool := s.flush_d1 && useCsrEvec s.flush_typ_d1

/-- The frontend is sent to the function of the sample. -/
def sample_redirect : Bool := s.evec_redirect && s.isOverFlowExcpt

/-- `io.ifu.redirect_pc` of such a flush. -/
def redirect_pc : Option (BitVec va) :=
  if !s.evec_redirect then none
  else if s.isOverFlowExcpt then
    some (if s.ucsr.exitFuncAddr ≠ 0 then s.ucsr.exitFuncAddr else i.evec)
  else some (if s.flush_typ_d1 = .eret then s.evec_d2 else i.evec)

/-! ### The registers -/

/-- The event that is counted. -/
def event : BitVec 64 :=
  if s.ucsr.sampleEventSel = 0 then .ofNat 64 s.arch_d1
  else if s.ucsr.sampleEventSel = 1 then .ofNat 64 i.com_misp_cfi
  else if s.ucsr.sampleEventSel = 2 then if i.perf_acquire then 1 else 0
  else if s.ucsr.sampleEventSel = 3 then if i.perf_tlbMiss then 1 else 0
  else 0

/-- The registers after the warm-up's part of the cycle. -/
def warmup_next : Ucsr va :=
  if !s.warmupValid then s.ucsr
  else if s.ucsr.warmupInstNum < s.ucsr.nowWarmupInsts then
    { s.ucsr with warmupInstNum := 0, nowWarmupInsts := 0, nowEventNum := 0 }
  else { s.ucsr with nowWarmupInsts := s.ucsr.nowWarmupInsts + .ofNat 64 s.arch_d1 }

/-- The same, after the events. -/
def count_next : Ucsr va :=
  if s.sampleValid then { s.warmup_next with nowEventNum := s.ucsr.nowEventNum + s.event i }
  else s.warmup_next

/-- The same, after a sample. -/
def redirect_next : Ucsr va :=
  if !s.sample_redirect then s.count_next i
  else if s.ucsr.exitFuncAddr ≠ 0 then
    { s.count_next i with procTag := 0, maxEventNum := 0, nowEventNum := 0, pfc_enable := 0 }
  else
    { s.count_next i with sampleHappen := 1, maxEventNum := 0, nowEventNum := 0, pfc_enable := 0 }

/-- The same, with the address at which a sample leaves the process. -/
def exit_next : Ucsr va :=
  if s.isOverFlowExcpt then { s.redirect_next i with userExitPC := i.com_pc }
  else s.redirect_next i

/-- Where two connections meet, the last one in the source wins: the writes. -/
def ucsr_next : Ucsr va := i.ucsr_writes.foldl (fun u p => u.setUCSR p.1 p.2) (s.exit_next i)

/-- The uop in a slot of rename2 after the cycle. -/
def ren2_uop_next (w : Fin W) : RobUop N W T :=
  let u := if !s.redirect_flush i && s.dis_ready i then s.dec_uop i w else s.ren2_uop w
  { u with br_mask := getNewBrMask i.back.b1 u.br_mask }

/-- `ren2_valid`, in the next cycle. -/
def ren2_valid_next (w : Fin W) : Bool :=
  if s.redirect_flush i then false
  else if s.dis_ready i then s.dec_fire i w
  else s.ren2_valid w && !s.dis_fire i w

/-- One cycle. -/
def next [NeZero N] [NeZero W] : Core N W T va where
  sys := s.sys.next (s.robIn i)
  ren2_valid := s.ren2_valid_next i
  ren2_uop := s.ren2_uop_next i
  ucsr := s.ucsr_next i
  prv := i.new_prv
  user_d1 := s.prv = 0
  user_d2 := s.user_d1
  arch_d1 := (List.finRange W).countP (s.sys.rob.arch_valids (s.robIn i).toIn)
  flush_d1 := s.sys.rob.flush_val (s.robIn i).toIn
  flush_typ_d1 := s.sys.rob.flush_typ (s.robIn i).toIn
  com_xcpt_d1 :=
    if s.sys.rob.com_xcpt_valid (s.robIn i).toIn then some s.sys.rob.r_xcpt_uop.exc_cause else none
  evec_d1 := i.evec
  evec_d2 := s.evec_d1

/-! ### The surroundings -/

/-- After reset. -/
structure Reset : Prop where
  sys : s.sys.Reset
  ren2 : ∀ w, s.ren2_valid w = false
  ucsr : s.ucsr = .reset
  /-- machine mode -/
  prv : s.prv = 3
  flush : s.flush_d1 = false
  xcpt : s.com_xcpt_d1 = none

/-- The ROB holds a uop that is executing: it is not marked as excepting. -/
def Executing (P : RobUop N W T → Prop) : Prop :=
  ∃ a, s.sys.Val a ∧ (s.sys.rob.bank a.1 a.2).exception = false ∧
    P (s.sys.rob.bank a.1 a.2).uop

/-- What the rest of the core promises in a cycle. -/
structure Ok : Prop where
  rob : s.sys.Ok (s.robIn i)
  xcpt : s.sys.XOk (s.robIn i)
  /-- decode and the LSU have other causes -/
  dec_cause : ∀ w, (i.dec_uops w).exception = true → (i.dec_uops w).exc_cause ≠ cause_OverFlow
  lxcpt_cause : ∀ x, i.back.lxcpt = some x → x.cause ≠ cause_OverFlow
  /-- custom writes are made by unique custom uops with that tag -/
  writes : ∀ p ∈ i.ucsr_writes, s.Executing fun u =>
    u.ucsrInst = true ∧ u.is_unique = true ∧ u.inst.extractLsb' 20 12 = p.1
  /-- the privilege level changes by an exception, or by a system instruction,
      which flushes when it commits -/
  prv : i.new_prv = s.prv ∨ s.csr_exception = true ∨
    s.Executing fun u => Rob.flushes u = true

/-- The uop is marked. -/
def marked (u : RobUop N W T) : Bool := u.exception && u.exc_cause = cause_OverFlow

/-- A marked uop waits in rename2, is being marked by decode, or has been
    recorded by the ROB. -/
def InFlight : Prop :=
  (∃ w, s.ren2_valid w = true ∧ marked (s.ren2_uop w) = true) ∨
    s.overflow_event = true ∧ (∃ w, s.dec_fire i w = true) ∨
    s.sys.rob.r_xcpt_val = true ∧ s.sys.rob.r_xcpt_uop.exc_cause = cause_OverFlow

/-- A custom write that may end an overflow. -/
def disturbs (p : BitVec 12 × BitVec 64) : Bool :=
  p.1 = setUCSR_ProcTag && p.2.setWidth 32 ≠ targetTag ||
    p.1 = setUCSR_WarmupInst && p.2 ≠ 0 || p.1 = setUCSR_MaxEventNum

/-- While a marked uop is in flight, no such write executes, and the event
    counter does not wrap. -/
def Undisturbed : Prop := s.InFlight i →
  (∀ p ∈ i.ucsr_writes, disturbs p = false) ∧
    s.ucsr.nowEventNum.toNat + (s.event i).toNat < 2 ^ 64

end Core

/-! ## Dispatch -/

section

variable {s : Core N W T va} {i : In N W T va}

/-- A uop that leaves dispatch waits for nothing. -/
theorem open_of_fire {w : Fin W} (hf : s.dis_fire i w = true) :
    s.ren2_valid w = true ∧ s.sys.rob.ready = true ∧ s.wait_for_empty_pipeline i w = false ∧
      s.dis_prior_slot_unique w = false ∧ Rob.mispredict i.back.toIn = false ∧
      s.redirect_flush i = false := by
  simp only [Core.dis_fire, Bool.and_eq_true, Bool.not_eq_true'] at hf
  obtain ⟨hv, hs⟩ := hf
  have hh := List.any_eq_false.1 hs w (List.mem_finRange _)
  simp only [le_refl, decide_true, Bool.true_and, Core.dis_hazards, hv, Bool.not_eq_true,
    Bool.or_eq_false_iff, Bool.not_eq_false'] at hh
  obtain ⟨⟨⟨⟨⟨⟨hready, -⟩, hwait⟩, hprior⟩, hmis⟩, -⟩, hredir⟩ := hh
  exact ⟨hv, hready, hwait, hprior, hmis, hredir⟩

theorem flush_of_redirect (hr : s.redirect_flush i = false) : s.flush_d1 = false := by
  simp only [Core.redirect_flush, Bool.or_eq_false_iff] at hr
  exact hr.1.1.1

end

/-- The core, from reset. -/
def core [NeZero N] [NeZero W] : Machine (Core N W T va) (In N W T va) where
  start := Core.Reset
  ok := Core.Ok
  next s i := s.next i

end BoomStop.Sampling
