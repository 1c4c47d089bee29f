/-
  The reorder buffer (`rob.scala`, with `enableCommitMapTable` and
  `enableFastPNR` off): `N` rows of `W` banks, a head and a tail row with
  `maybe_full` to tell a full ring from an empty one, commit from the head,
  rollback from the tail, the record of the oldest exception, and the pointer
  of no return.

  * `Rob.next`: one cycle, with its outputs `will_commit`, `exception_thrown`,
    `rbk_row`, `ready`, `empty` and the flush signals;
  * `Sys`: the ROB with what its surroundings remember, and the history of the
    uops that were enqueued and that committed;
  * `Sys.Ok`: the discipline of dispatch and of branch resolution.

  The flags of the floating-point units, which pass through it, are in
  `FpFlags`.
-/
import Mathlib.Data.Nat.Log
import BoomStop.Issue
import BoomStop.Ucsr
import BoomStop.Lib.RingOrder

namespace BoomStop.Reorder

open Sync RingOrder
open Issue (BrUpdate getNewBrMask isKilledByBranch)

variable {N W T : ℕ}

/-- The cause of a memory ordering failure. -/
def MINI_EXCEPTION_MEM_ORDERING : ℕ := 16

/-- The core redirects the frontend. -/
def BSRC_C : ℕ := 3

/-- The code of a return from a trap. -/
def uopERET : ℕ := 106

/-- `IsOlder`, on ROB indices with the head. -/
def isOlder (i0 i1 head : ℕ) : Bool := (decide (i0 < i1) ^^ decide (i0 < head)) ^^ decide (i1 < head)

theorem isOlder_eq_true {i0 i1 head : ℕ} :
    isOlder i0 i1 head = true ↔ (i0 < i1 ↔ (i0 < head ↔ i1 < head)) := by
  unfold isOlder
  by_cases h0 : i0 < i1 <;> by_cases h1 : i0 < head <;> by_cases h2 : i1 < head <;>
    simp [h0, h1, h2]

/-- On the places of a ring, `IsOlder` is the order from the head on. -/
theorem isOlder_iff_dist {a b h : Fin N} : isOlder a b h = true ↔ dist h a < dist h b := by
  rw [isOlder_eq_true, RingOrder.dist, RingOrder.dist]
  have := a.isLt
  have := b.isLt
  split_ifs <;> omega

/-- `PriorityEncoder`: the first set bit, or the last place. -/
def priorityEncoder [NeZero W] (m : Fin W → Bool) : Fin W :=
  ((List.finRange W).find? m).getD (Fin.ofNat W (W - 1))

/-- `MaskLower`: all places at or below the last set bit. -/
def maskLower (m : Fin W → Bool) (w : Fin W) : Bool :=
  (List.finRange W).any fun v => decide (w ≤ v) && m v

/-- A row and a bank. -/
abbrev RobIdx (N W : ℕ) := Fin N × Fin W

/-- The number that stands for an index. -/
def RobIdx.toNat (i : RobIdx N W) : ℕ := i.1.val * 2 ^ Nat.clog 2 W + i.2.val

/-- What the ROB keeps of a uop and never changes. -/
structure MicroOp where
  uopc : ℕ
  inst : BitVec 32
  is_fence : Bool
  is_fencei : Bool
  is_unique : Bool
  is_sys_pc2epc : Bool
  flush_on_commit : Bool
  ucsrInst : Bool
  isUnsafe : Bool
  exception : Bool
  exc_cause : ℕ
  deriving DecidableEq

/-- A uop in the ROB. -/
structure RobUop (N W T : ℕ) extends MicroOp where
  rob_idx : RobIdx N W
  br_mask : Fin T → Bool
  debug_fsrc : ℕ
  taken : Bool

/-- `rob_state`. -/
inductive RobState
  | s_reset | s_normal | s_rollback | s_wait_till_empty
  deriving DecidableEq

/-- One bank of one row. -/
structure Entry (N W T : ℕ) where
  val : Bool
  bsy : Bool
  isUnsafe : Bool
  exception : Bool
  predicated : Bool
  uop : RobUop N W T

/-- The registers of `Rob`; `exc_d1` and `exc_d2` are `exception_thrown` one and
    two cycles ago. -/
structure Rob (N W T : ℕ) where
  rob_state : RobState
  rob_head : Fin N
  rob_head_lsb : Fin W
  rob_tail : Fin N
  rob_tail_lsb : Fin W
  rob_pnr : Fin N
  rob_pnr_lsb : Fin W
  pnr_maybe_at_tail : Bool
  maybe_full : Bool
  r_partial_row : Bool
  r_xcpt_val : Bool
  r_xcpt_uop : RobUop N W T
  exc_d1 : Bool
  exc_d2 : Bool
  bank : Fin N → Fin W → Entry N W T

/-- A write-back. -/
structure WbResp (N W : ℕ) where
  rob_idx : RobIdx N W
  predicated : Bool

/-- An exception from the LSU. -/
structure Lxcpt (N W T : ℕ) where
  uop : RobUop N W T
  cause : ℕ

/-- The inputs of a cycle; ports that are not valid are left out. -/
structure In (N W T : ℕ) where
  enq_valids : Fin W → Bool
  enq_uops : Fin W → RobUop N W T
  enq_partial_stall : Bool
  b1 : BrUpdate T
  /-- the branch and its direction, when `b2.mispredict` -/
  b2 : Option (RobIdx N W × Bool)
  wb_resps : List (WbResp N W)
  lsu_clr_bsy : List (RobIdx N W)
  lsu_clr_unsafe : List (RobIdx N W)
  lxcpt : Option (Lxcpt N W T)
  csr_stall : Bool

namespace Rob

variable (s : Rob N W T) (i : In N W T)

/-! ### Commit -/

/-- `rob_head_vals`. -/
def head_vals (w : Fin W) : Bool := (s.bank s.rob_head w).val

/-- `rob_tail_vals`. -/
def tail_vals (w : Fin W) : Bool := (s.bank s.rob_tail w).val

/-- The entry at the head has an exception. -/
def can_throw_exception (w : Fin W) : Bool :=
  (s.bank s.rob_head w).val && (s.bank s.rob_head w).exception

/-- The entry at the head is done, and the CSR file does not stall it. -/
def can_commit (w : Fin W) : Bool :=
  (s.bank s.rob_head w).val && !(s.bank s.rob_head w).bsy && !i.csr_stall

/-- `block_commit` before the first slot. -/
def commit_blocked : Bool :=
  s.rob_state ≠ .s_normal && s.rob_state ≠ .s_wait_till_empty || s.exc_d1 || s.exc_d2

/-- A slot that keeps the slots behind it from committing. -/
def holds_back (w : Fin W) : Bool := s.head_vals w && (!s.can_commit i w || s.can_throw_exception w)

/-- `block_commit` before slot `w`. -/
def block_commit (w : Fin W) : Bool :=
  (List.finRange W).any (fun v => decide (v < w) && s.holds_back i v) || s.commit_blocked

/-- The entry at the head commits; one that excepts, or comes after one that stays,
    does not. -/
def will_commit (w : Fin W) : Bool :=
  s.can_commit i w && !s.can_throw_exception w && !s.block_commit i w

/-- `block_xcpt` before slot `w`: only the slot right before it counts. -/
def block_xcpt (w : Fin W) : Bool :=
  (List.finRange W).any fun v => decide (v.val + 1 = w.val) && s.will_commit i v

/-- The exception of the entry is taken, unless an older entry of the row is in the
    way. -/
def throws (w : Fin W) : Bool :=
  s.can_throw_exception w && !s.block_commit i w && !s.block_xcpt i w

/-- Some entry of the row throws. -/
def exception_thrown : Bool := (List.finRange W).any (s.throws i)

/-! ### Pointers and state -/

/-- The row at the tail is still in use. -/
def full : Bool := decide (s.rob_tail = s.rob_head) && s.maybe_full

/-- No row is in use, and none is half filled. -/
def empty : Bool := decide (s.rob_head = s.rob_tail) && !(List.finRange W).any s.head_vals

/-- `io.ready`. -/
def ready : Bool := decide (s.rob_state = .s_normal) && !s.full && !s.r_xcpt_val

/-- A row is rolled back in the cycle. -/
def rbk_row : Bool := decide (s.rob_state = .s_rollback) && !s.full

/-- The row that commits, or is rolled back from the tail. -/
def com_idx : Fin N := if s.rob_state = .s_rollback then s.rob_tail else s.rob_head

/-- Some uop is dispatched. -/
def enq : Bool := (List.finRange W).any i.enq_valids

/-- Some entry commits. -/
def commits : Bool := (List.finRange W).any (s.will_commit i)

/-- All that is in the row at the head has committed, and no uop may still come into
    it. -/
def finished_committing_row : Bool :=
  s.commits i && (List.finRange W).all (fun w => s.will_commit i w == s.head_vals w) &&
    !(s.r_partial_row && decide (s.rob_head = s.rob_tail) && !s.maybe_full)

/-- The tail goes back a row. -/
def rollback_row : Bool :=
  decide (s.rob_state = .s_rollback) && (decide (s.rob_tail ≠ s.rob_head) || s.maybe_full)

/-- A row is given back, at the head or at the tail. -/
def rob_deq : Bool := s.finished_committing_row i || s.rollback_row

/-- A branch mispredicts. -/
def mispredict : Bool := (List.finRange T).any i.b1.mispredict_mask

/-- The tail goes on a row. -/
def rob_enq : Bool :=
  decide (s.rob_state ≠ .s_rollback) && i.b2.isNone && enq i && !i.enq_partial_stall

section Pointers

variable [NeZero N] [NeZero W]

/-- `rob_head`, in the next cycle. -/
def head_next : Fin N := if s.finished_committing_row i then wrapInc s.rob_head else s.rob_head

/-- `OHToUInt(PriorityEncoderOH(..))` is `0` for a row that is empty. -/
def head_lsb_next : Fin W :=
  if s.finished_committing_row i then 0 else ((List.finRange W).find? s.head_vals).getD 0

/-- `rob_tail`, in the next cycle: rollback moves it back by a row, a misprediction to
    the row behind the branch. -/
def tail_next : Fin N :=
  if s.rob_state = .s_rollback then
    if s.rollback_row then wrapDec s.rob_tail else s.rob_tail
  else match i.b2 with
    | some b => wrapInc b.1.1
    | none => if s.rob_enq i then wrapInc s.rob_tail else s.rob_tail

/-- `rob_tail_lsb`, in the next cycle. -/
def tail_lsb_next : Fin W :=
  if s.rob_state = .s_rollback then
    if s.rollback_row then Fin.ofNat W (W - 1) else s.rob_head_lsb
  else match i.b2 with
    | some _ => 0
    | none =>
      if s.rob_enq i then 0
      else if enq i then priorityEncoder fun w => !maskLower i.enq_valids w
      else s.rob_tail_lsb

end Pointers

/-- `maybe_full`, in the next cycle. -/
def maybe_full_next : Bool := !s.rob_deq i && (s.rob_enq i || s.maybe_full) || mispredict i

/-- `rob_state`, in the next cycle: a unique uop waits until the queue is empty, an
    exception starts the rollback. -/
def state_next : RobState :=
  match s.rob_state with
  | .s_reset => .s_normal
  | .s_normal =>
    if s.exc_d2 then .s_rollback
    else if (List.finRange W).any fun w => i.enq_valids w && (i.enq_uops w).is_unique then
      .s_wait_till_empty
    else .s_normal
  | .s_rollback => if s.empty then .s_normal else .s_rollback
  | .s_wait_till_empty =>
    if s.exc_d1 then .s_rollback else if s.empty then .s_normal else .s_wait_till_empty

/-! ### Entries -/

/-- The entry is written by dispatch. -/
def enq_at (r : Fin N) (w : Fin W) : Bool := i.enq_valids w && decide (r = s.rob_tail)

/-- The entry commits. -/
def commit_at (r : Fin N) (w : Fin W) : Bool := decide (r = s.rob_head) && s.will_commit i w

/-- The entry is rolled back. -/
def rbk_at (r : Fin N) : Bool := s.rbk_row && decide (r = s.com_idx)

/-- The entry is killed by a branch. -/
def kill_at (r : Fin N) (w : Fin W) : Bool := isKilledByBranch i.b1 (s.bank r w).uop.br_mask

/-- The entry is reported done, by a write port or by the LSU. -/
def unbusy_at (r : Fin N) (w : Fin W) : Bool :=
  i.wb_resps.any (fun x => decide (x.rob_idx = (r, w))) || i.lsu_clr_bsy.contains (r, w)

/-- The LSU reports an exception of the entry. -/
def lxcpt_at (r : Fin N) (w : Fin W) : Bool := i.lxcpt.any fun x => decide (x.uop.rob_idx = (r, w))

/-- `b2` marks a branch that it reports. -/
def markMispredict (r : Fin N) (w : Fin W) (u : RobUop N W T) : RobUop N W T :=
  match i.b2 with
  | some (idx, taken) => if idx = (r, w) then { u with debug_fsrc := BSRC_C, taken } else u
  | none => u

/-- The uop of an entry, in the next cycle. -/
def uop_next (r : Fin N) (w : Fin W) : RobUop N W T :=
  let e := s.bank r w
  let u := if s.enq_at i r w then i.enq_uops w else e.uop
  markMispredict i r w
    { u with
      br_mask :=
        if e.val && !s.kill_at i r w then getNewBrMask i.b1 e.uop.br_mask else u.br_mask }

/-- An entry, in the next cycle. -/
def bank_next (r : Fin N) (w : Fin W) : Entry N W T where
  val := (s.enq_at i r w || (s.bank r w).val) && !s.rbk_at r && !s.kill_at i r w && !s.commit_at i r w
  bsy :=
    if unbusy_at i r w then false
    else if s.enq_at i r w then !((i.enq_uops w).is_fence || (i.enq_uops w).is_fencei)
    else (s.bank r w).bsy
  isUnsafe :=
    if unbusy_at i r w || i.lsu_clr_unsafe.contains (r, w) then false
    else if s.enq_at i r w then (i.enq_uops w).isUnsafe
    else (s.bank r w).isUnsafe
  exception :=
    if s.rbk_at r then false
    else if lxcpt_at i r w then true
    else if s.enq_at i r w then (i.enq_uops w).exception
    else (s.bank r w).exception
  predicated :=
    match i.wb_resps.reverse.find? fun x => decide (x.rob_idx = (r, w)) with
    | some x => x.predicated
    | none => if s.enq_at i r w then false else (s.bank r w).predicated
  uop := s.uop_next i r w

/-! ### Outputs -/

/-- `io.commit.uops`: `b2` marks a branch that commits in this cycle, too. -/
def commit_uops (w : Fin W) : RobUop N W T := markMispredict i s.com_idx w (s.bank s.com_idx w).uop

/-- `io.commit.arch_valids`: the uop commits and was not predicated away. -/
def arch_valids (w : Fin W) : Bool := s.will_commit i w && !(s.bank s.com_idx w).predicated

/-- `io.commit.rbk_valids`. -/
def rbk_valids (w : Fin W) : Bool := s.rbk_row && (s.bank s.com_idx w).val

/-- The exception is one that only replays. -/
def is_mini_exception : Bool := s.r_xcpt_uop.exc_cause = MINI_EXCEPTION_MEM_ORDERING

/-- `io.com_xcpt.valid`. -/
def com_xcpt_valid : Bool := s.exception_thrown i && !s.is_mini_exception

/-- `PriorityMux` over the valid uops of the head row. -/
def com_xcpt_uop [NeZero W] : RobUop N W T := s.commit_uops i (priorityEncoder s.head_vals)

/-- The uop flushes the pipeline when it commits. -/
def flushes (u : RobUop N W T) : Bool :=
  u.flush_on_commit || u.ucsrInst && u.inst.extractLsb' 20 12 = specialInst_URet

/-- The uop commits and flushes the pipeline. -/
def flush_commit_mask (w : Fin W) : Bool := s.will_commit i w && flushes (s.commit_uops i w)

/-- Some uop that commits flushes the pipeline. -/
def flush_commit : Bool := (List.finRange W).any (s.flush_commit_mask i)

/-- `io.flush.valid`. -/
def flush_val : Bool := s.exception_thrown i || s.flush_commit i

/-- `Mux1H` over the uops that flush. -/
def flush_uop [NeZero W] : RobUop N W T :=
  if s.exception_thrown i then s.com_xcpt_uop i
  else s.commit_uops i (priorityEncoder (s.flush_commit_mask i))

/-- `FlushTypes`. -/
inductive FlushType
  | none | xcpt | eret | refetch | next
  deriving DecidableEq

/-- `FlushTypes.getType`: what the flush of the cycle is for. -/
def flush_typ [NeZero W] : FlushType :=
  let insn_sys_pc2epc := (List.finRange W).any s.head_vals && (s.com_xcpt_uop i).is_sys_pc2epc
  if !s.flush_val i then .none
  else if s.flush_commit i && (s.flush_uop i).uopc = uopERET then .eret
  else if s.exception_thrown i && !s.is_mini_exception then .xcpt
  else if s.exception_thrown i || insn_sys_pc2epc then .refetch
  else .next

/-! ### The exception record -/

/-- `io.rob_head_idx`. -/
def head_idx : ℕ := RobIdx.toNat (s.rob_head, s.rob_head_lsb)

/-- A uop that is dispatched has an exception. -/
def enq_xcpts (w : Fin W) : Bool := i.enq_valids w && (i.enq_uops w).exception

/-- The record with what arrives in the cycle. -/
def next_xcpt : Bool × RobUop N W T :=
  if s.flush_val i || s.rob_state = .s_rollback then (s.r_xcpt_val, s.r_xcpt_uop)
  else match i.lxcpt with
    | some x =>
      if !s.r_xcpt_val ||
          isOlder (RobIdx.toNat x.uop.rob_idx) (RobIdx.toNat s.r_xcpt_uop.rob_idx) s.head_idx then
        (true, { x.uop with exc_cause := x.cause })
      else (s.r_xcpt_val, s.r_xcpt_uop)
    | none =>
      match (List.finRange W).find? (enq_xcpts i) with
      | some w => if !s.r_xcpt_val then (true, i.enq_uops w) else (s.r_xcpt_val, s.r_xcpt_uop)
      | none => (s.r_xcpt_val, s.r_xcpt_uop)

/-- `r_xcpt_val`, in the next cycle. -/
def xcpt_val_next : Bool :=
  (s.next_xcpt i).1 && !(s.flush_val i || isKilledByBranch i.b1 (s.next_xcpt i).2.br_mask)

/-- `r_xcpt_uop`, in the next cycle. -/
def xcpt_uop_next : RobUop N W T :=
  { (s.next_xcpt i).2 with br_mask := getNewBrMask i.b1 (s.next_xcpt i).2.br_mask }

/-! ### The point of no return -/

/-- The entry in the row of the pointer may still except or be killed. -/
def pnr_unsafe (w : Fin W) : Bool :=
  let e := s.bank s.rob_pnr w
  e.val && (e.isUnsafe || e.exception)

/-- The pointer moves in these states only. -/
def safe_to_inc : Bool := s.rob_state = .s_normal || s.rob_state = .s_wait_till_empty

/-- The pointer is behind the tail. -/
def pnr_behind : Bool := s.rob_pnr ≠ s.rob_tail || s.full && !s.pnr_maybe_at_tail

/-- Nothing in the row holds the pointer, and it is behind the tail. -/
def do_inc_row : Bool := !(List.finRange W).any s.pnr_unsafe && s.pnr_behind

section Pnr

variable [NeZero N] [NeZero W]

/-- `rob_pnr` and `rob_pnr_lsb`, in the next cycle. -/
def pnr_next : Fin N × Fin W :=
  if s.empty && enq i then (s.rob_head, priorityEncoder i.enq_valids)
  else if s.safe_to_inc && s.do_inc_row then (wrapInc s.rob_pnr, 0)
  else if s.safe_to_inc && s.pnr_behind then (s.rob_pnr, priorityEncoder s.pnr_unsafe)
  else if s.safe_to_inc && !s.full && !s.empty then
    (s.rob_pnr, priorityEncoder fun w => s.pnr_unsafe w || !maskLower s.tail_vals w)
  else if s.full && s.pnr_maybe_at_tail then (s.rob_pnr, 0)
  else (s.rob_pnr, s.rob_pnr_lsb)

/-- One cycle. -/
def next : Rob N W T where
  rob_state := s.state_next i
  rob_head := s.head_next i
  rob_head_lsb := s.head_lsb_next i
  rob_tail := s.tail_next i
  rob_tail_lsb := s.tail_lsb_next i
  rob_pnr := (s.pnr_next i).1
  rob_pnr_lsb := (s.pnr_next i).2
  pnr_maybe_at_tail := !s.rob_deq i && (s.do_inc_row || s.pnr_maybe_at_tail)
  maybe_full := s.maybe_full_next i
  r_partial_row := if enq i then i.enq_partial_stall else s.r_partial_row
  r_xcpt_val := s.xcpt_val_next i
  r_xcpt_uop := s.xcpt_uop_next i
  exc_d1 := s.exception_thrown i
  exc_d2 := s.exc_d1
  bank := s.bank_next i

end Pnr

end Rob

/-! ## The surroundings -/

/-- A uop with the cycle and the slot in which it was enqueued. -/
structure Item (W : ℕ) where
  cycle : ℕ
  slot : Fin W
  uop : MicroOp
  deriving DecidableEq

/-- The ROB, and what its surroundings remember: the branch that `b2` has to
    report in this cycle, the slots of the tail row that the bundle in dispatch
    has used up, and the history: when each entry was enqueued, and all that was
    enqueued and that committed so far. -/
structure Sys (N W T : ℕ) where
  rob : Rob N W T
  pending : Option (RobIdx N W)
  disp_lsb : ℕ
  now : ℕ
  born : Fin N → Fin W → ℕ
  enqueued : List (Item W)
  committed : List (Item W)

/-- The inputs of the ROB, with the oldest of the branches that resolve as
    mispredicted in the cycle. -/
structure SysIn (N W T : ℕ) extends In N W T where
  oldest : Option (RobIdx N W)

namespace Sys

variable (s : Sys N W T) (i : SysIn N W T)

/-- Program order: the entry at `a` was enqueued before the one at `b`. -/
def Older (a b : RobIdx N W) : Prop := LexLt (s.born a.1 a.2) a.2 (s.born b.1 b.2) b.2

/-- The uops enqueued in the cycle. -/
def enqNow : List (Item W) :=
  (List.finRange W).filterMap fun w =>
    if i.enq_valids w then some ⟨s.now, w, (i.enq_uops w).toMicroOp⟩ else none

/-- The uops that commit in the cycle. -/
def commitNow : List (Item W) :=
  (List.finRange W).filterMap fun w =>
    if s.rob.will_commit i.toIn w then
      some ⟨s.born s.rob.rob_head w, w, (s.rob.commit_uops i.toIn w).toMicroOp⟩
    else none

/-- The slots up to the last one that is enqueued. -/
def usedSlots : ℕ :=
  (List.finRange W).foldr (fun w n => if i.enq_valids w then max (w.val + 1) n else n) 0

/-- One cycle, with the history. -/
def next [NeZero N] [NeZero W] : Sys N W T where
  rob := s.rob.next i.toIn
  pending := i.oldest
  disp_lsb :=
    if Rob.enq i.toIn then if i.enq_partial_stall then usedSlots i else 0
    else if i.b2.isSome || s.rob.empty then 0
    else s.disp_lsb
  now := s.now + 1
  born r w := if s.rob.enq_at i.toIn r w then s.now else s.born r w
  enqueued := s.enqueued ++ s.enqNow i
  committed := s.committed ++ s.commitNow i

/-- After reset. -/
structure Reset : Prop where
  state : s.rob.rob_state = .s_reset
  head : s.rob.rob_head = s.rob.rob_tail
  head_lsb : s.rob.rob_head_lsb.val = 0
  maybe_full : s.rob.maybe_full = false
  r_partial_row : s.rob.r_partial_row = false
  r_xcpt_val : s.rob.r_xcpt_val = false
  exc_d1 : s.rob.exc_d1 = false
  exc_d2 : s.rob.exc_d2 = false
  val : ∀ r w, (s.rob.bank r w).val = false
  pending : s.pending = none
  disp_lsb : s.disp_lsb = 0
  enqueued : s.enqueued = []
  committed : s.committed = []

/-- What dispatch and branch resolution promise in a cycle. -/
structure Ok : Prop where
  /-- dispatch waits for `ready`, and for mispredicted branches -/
  enq_ready : Rob.enq i.toIn = true → s.rob.ready = true ∧ i.b2 = none ∧ i.oldest = none
  /-- under the offered index -/
  enq_idx : ∀ w, i.enq_valids w = true → (i.enq_uops w).rob_idx = (s.rob.rob_tail, w)
  /-- and fills a row from slot to slot -/
  enq_slot : ∀ w, i.enq_valids w = true → s.disp_lsb ≤ w.val
  /-- `b2` reports the oldest branch that was mispredicted in the last cycle -/
  b2 : i.b2.map (·.1) = s.pending
  /-- without a mispredict nothing is killed -/
  quiet : i.oldest = none → ∀ t, i.b1.mispredict_mask t = false
  /-- a mispredicted branch is valid and busy, and the masks kill the younger
      uops -/
  kill : ∀ b, i.oldest = some b → (s.rob.bank b.1 b.2).val = true ∧ (s.rob.bank b.1 b.2).bsy = true ∧
    Rob.mispredict i.toIn = true ∧
    ∀ r w, (s.rob.bank r w).val = true → (s.rob.kill_at i.toIn r w = true ↔ s.Older b (r, w))
  /-- all mispredicts have drained when a rollback begins -/
  drained : i.oldest.isSome = true → s.rob.rob_state ≠ .s_rollback ∧
    s.rob.state_next i.toIn ≠ .s_rollback

end Sys

/-- The ROB in its surroundings, from reset. -/
def rob [NeZero N] [NeZero W] : Machine (Sys N W T) (SysIn N W T) where
  start := Sys.Reset
  ok := Sys.Ok
  next s i := s.next i

end BoomStop.Reorder
