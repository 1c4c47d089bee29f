/-
  The issue queue (`issue-slot.scala`, `issue-unit.scala`,
  `issue-unit-age-ordered.scala`): one slot with its wakeup logic, and the
  collapsing queue that moves uops between slots, with the select logic.

  * `Slot.next`: one cycle of `IssueSlot`;
  * `IssueUnit.next`: one cycle of `IssueUnitCollapsing`, for any number of
    slots, dispatch ports and issue ports;
  * `dispatchUop`: what the queue makes of a dispatched uop.
-/
import BoomStop.Rename

namespace BoomStop.Issue

open Rename (RType)

/-- The state of a slot: empty, holding one uop, or a store whose address and
    data parts may issue apart. -/
inductive IwState
  | s_invalid | s_valid_1 | s_valid_2
  deriving DecidableEq

/-- The operation codes the queue looks at. -/
inductive Uopc
  | uopSTA | uopSTD | uopAMO_AG | other (code : ℕ)
  deriving DecidableEq

/-- The three queues. -/
inductive IqType
  | INT | MEM | FP
  deriving DecidableEq

/-- A uop in the queue; `T` branch tags. -/
structure MicroOp (T : ℕ) where
  uopc : Uopc
  fu_code : BitVec 10
  rob_idx : ℕ
  lrs1_rtype : RType
  lrs2_rtype : RType
  frs3_en : Bool
  prs1 : ℕ
  prs2 : ℕ
  prs3 : ℕ
  ppred : ℕ
  prs1_busy : Bool
  prs2_busy : Bool
  prs3_busy : Bool
  ppred_busy : Bool
  iw_p1_poisoned : Bool
  iw_p2_poisoned : Bool
  iw_state : IwState
  br_mask : Fin T → Bool
  exception : Bool
  is_fence : Bool
  is_fencei : Bool

/-- `brupdate.b1`. -/
structure BrUpdate (T : ℕ) where
  resolve_mask : Fin T → Bool
  mispredict_mask : Fin T → Bool

variable {T n d I : ℕ}

/-- `GetNewBrMask`. -/
def getNewBrMask (b : BrUpdate T) (br_mask : Fin T → Bool) : Fin T → Bool :=
  fun t => br_mask t && !b.resolve_mask t

/-- `IsKilledByBranch`. -/
def isKilledByBranch (b : BrUpdate T) (br_mask : Fin T → Bool) : Bool :=
  (List.finRange T).any fun t => b.mispredict_mask t && br_mask t

/-- What all slots see in a cycle; a port that is not valid is left out. -/
structure Bcast (T : ℕ) where
  brupdate : BrUpdate T
  kill : Bool
  ldspec_miss : Bool
  wakeup_ports : List ℕ
  pred_wakeup_port : Option ℕ
  spec_ld_wakeup : List ℕ

/-! ## One slot -/

/-- The registers of `IssueSlot`. -/
structure Slot (T : ℕ) where
  state : IwState
  p1 : Bool
  p2 : Bool
  p3 : Bool
  ppred : Bool
  p1_poisoned : Bool
  p2_poisoned : Bool
  slot_uop : MicroOp T

/-- A speculative load wakeup hits the operand. -/
def specHit (x : Bcast T) (prs : ℕ) (rtype : RType) : Bool :=
  x.spec_ld_wakeup.contains prs && decide (rtype = .RT_FIX)

/-- The ready bit of an operand after a cycle, from the bit and the poison it
    starts with: a missed load clears it, a wakeup sets it, and so does a
    speculative one. -/
def readyNext (x : Bcast T) (ready poisoned : Bool) (prs : ℕ) (rtype : RType) : Bool :=
  specHit x prs rtype || x.wakeup_ports.contains prs || ready && !(x.ldspec_miss && poisoned)

namespace Slot

variable (s : Slot T) (x : Bcast T) (grant clear : Bool) (in_uop : Option (MicroOp T))

/-- `is_valid`. -/
def is_valid : Bool := s.state ≠ .s_invalid

/-- `io.request`. -/
def request : Bool :=
  match s.state with
  | .s_valid_1 => s.p1 && s.p2 && s.p3 && s.ppred && !x.kill
  | .s_valid_2 => (s.p1 || s.p2) && s.ppred && !x.kill
  | .s_invalid => false

/-- `io.uop`: of a store that is not yet complete only the part whose operand
    is there is sent. -/
def uop : MicroOp T :=
  let u := { s.slot_uop with iw_p1_poisoned := s.p1_poisoned, iw_p2_poisoned := s.p2_poisoned }
  if s.state ≠ .s_valid_2 ∨ (s.p1 && s.p2 && s.ppred) = true then u
  else if s.p1 && s.ppred then { u with lrs2_rtype := .RT_X }
  else if s.p2 && s.ppred then { u with uopc := .uopSTD, lrs1_rtype := .RT_X }
  else u

/-- The grant covers all that the slot holds. -/
def may_vacate : Bool :=
  grant && (s.state = .s_valid_1 || s.state = .s_valid_2 && s.p1 && s.p2 && s.ppred)

/-- The granted uop waits on a load that missed: it stays. -/
def squash_grant : Bool := x.ldspec_miss && (s.p1_poisoned || s.p2_poisoned)

/-- Half of a store is issued. -/
def splits : Bool :=
  !x.kill && !s.may_vacate grant && grant && s.state = .s_valid_2 && !s.squash_grant x

/-- `io.will_be_valid` -/
def will_be_valid : Bool := s.is_valid && !(s.may_vacate grant && !s.squash_grant x)

/-- `next_state`. -/
def next_state : IwState :=
  if isKilledByBranch x.brupdate s.slot_uop.br_mask || x.kill then .s_invalid
  else if s.may_vacate grant && !s.squash_grant x then .s_invalid
  else if s.splits x grant then .s_valid_1
  else s.state

/-- The uop with the part that is issued taken out of it. -/
def next_slot_uop : MicroOp T :=
  { s.slot_uop with
    uopc := if s.splits x grant && s.p1 then .uopSTD else s.slot_uop.uopc
    lrs1_rtype := if s.splits x grant && s.p1 then .RT_X else s.slot_uop.lrs1_rtype
    lrs2_rtype := if s.splits x grant && !s.p1 then .RT_X else s.slot_uop.lrs2_rtype
    br_mask := getNewBrMask x.brupdate s.slot_uop.br_mask }

/-- `io.out_uop`, what a lower slot takes over. -/
def out_uop : MicroOp T :=
  { s.next_slot_uop x grant with
    iw_state := s.next_state x grant
    prs1_busy := !s.p1
    prs2_busy := !s.p2
    prs3_busy := !s.p3
    ppred_busy := !s.ppred
    iw_p1_poisoned := s.p1_poisoned
    iw_p2_poisoned := s.p2_poisoned }

/-- The slot as the wakeup logic sees it: with the incoming uop if there is
    one. -/
def incoming : Slot T :=
  match in_uop with
  | some u =>
    { state := u.iw_state
      p1 := !u.prs1_busy
      p2 := !u.prs2_busy
      p3 := !u.prs3_busy
      ppred := !u.ppred_busy
      p1_poisoned := u.iw_p1_poisoned
      p2_poisoned := u.iw_p2_poisoned
      slot_uop := u }
  | none => s

/-- One cycle. -/
def next : Slot T :=
  let c := s.incoming in_uop
  let u := c.slot_uop
  { state :=
      if x.kill then .s_invalid
      else if in_uop.isSome then c.state
      else if clear then .s_invalid
      else s.next_state x grant
    p1 := readyNext x c.p1 c.p1_poisoned u.prs1 u.lrs1_rtype
    p2 := readyNext x c.p2 c.p2_poisoned u.prs2 u.lrs2_rtype
    p3 := x.wakeup_ports.contains u.prs3 || c.p3
    ppred := decide (x.pred_wakeup_port = some u.ppred) || c.ppred
    p1_poisoned := specHit x u.prs1 u.lrs1_rtype
    p2_poisoned := specHit x u.prs2 u.lrs2_rtype
    slot_uop := in_uop.getD (s.next_slot_uop x grant) }

end Slot

/-! ## The queue -/

/-- What the queue makes of a dispatched uop. -/
def dispatchUop (iqType : IqType) (u : MicroOp T) : MicroOp T :=
  let u := { u with iw_p1_poisoned := false, iw_p2_poisoned := false, iw_state := .s_valid_1 }
  match iqType with
  | .FP =>
    if u.uopc = .uopSTA then
      { u with lrs1_rtype := .RT_X, prs1_busy := false, ppred_busy := false }
    else { u with ppred_busy := false }
  | iq =>
    let u := { u with prs3_busy := false, ppred_busy := iq = .INT && u.ppred_busy }
    if u.uopc = .uopSTA ∧ u.lrs2_rtype = .RT_FIX ∨ u.uopc = .uopAMO_AG then
      { u with iw_state := .s_valid_2 }
    else if u.uopc = .uopSTA then { u with lrs2_rtype := .RT_X, prs2_busy := false }
    else u

/-- `SaturatingCounterOH`. -/
def saturatingCounterOH (count_oh : ℕ) (inc : Bool) (max : ℕ) : ℕ :=
  if count_oh = 0 && inc then 1
  else if !count_oh.testBit (max - 1) && inc then count_oh <<< 1
  else count_oh

/-- `IssueUnitCollapsing` with `n` slots and `d` dispatch ports: the slots, and
    the registered `ready` of the ports. -/
structure IssueUnit (n d T : ℕ) where
  slots : Fin n → Slot T
  ready : Fin d → Bool

namespace IssueUnit

/-- The inputs of a cycle, for `I` issue ports. -/
structure In (d I T : ℕ) where
  dis_uops : Fin d → Option (MicroOp T)
  bcast : Bcast T
  fu_types : Fin I → BitVec 10

variable (q : IssueUnit n d T) (i : In d I T)

/-- The first free port that can execute the uop. -/
def portOf (port_issued : Fin I → Bool) (u : MicroOp T) : Option (Fin I) :=
  (List.finRange I).find? fun w => decide (u.fu_code &&& i.fu_types w ≠ 0) && !port_issued w

/-- The ports taken by the first `k` slots. -/
def port_issued : ℕ → Fin I → Bool
  | 0 => fun _ => false
  | k + 1 => fun w => port_issued k w ||
      (if h : k < n then
        (q.slots ⟨k, h⟩).request i.bcast &&
          decide (portOf i (port_issued k) (q.slots ⟨k, h⟩).uop = some w)
      else false)

/-- The slot is granted a port. -/
def grant (k : Fin n) : Bool :=
  (q.slots k).request i.bcast && (portOf i (q.port_issued i k) (q.slots k).uop).isSome

/-- The uop that leaves by an issue port. -/
def iss_uops (w : Fin I) : Option (MicroOp T) :=
  ((List.finRange n).find? fun k => (q.slots k).request i.bcast &&
    decide (portOf i (q.port_issued i k) (q.slots k).uop = some w)).map fun k => (q.slots k).uop

/-- The slots, and behind them the dispatch ports, that are empty. -/
def vacants (m : ℕ) : Bool :=
  if h : m < n then !(q.slots ⟨m, h⟩).is_valid
  else if h : m - n < d then (i.dis_uops ⟨m - n, h⟩).isNone
  else true

/-- How far an entry moves, as a one-hot number. -/
def shamts_oh : ℕ → ℕ
  | 0 => 0
  | m + 1 => saturatingCounterOH (shamts_oh m) (q.vacants i m) d

/-- The entry behind an index if it stays, and what becomes of it. -/
def entry (iqType : IqType) (m : ℕ) : Option (MicroOp T) :=
  if h : m < n then
    if (q.slots ⟨m, h⟩).will_be_valid i.bcast (q.grant i ⟨m, h⟩) then
      some ((q.slots ⟨m, h⟩).out_uop i.bcast (q.grant i ⟨m, h⟩))
    else none
  else if h : m - n < d then
    ((i.dis_uops ⟨m - n, h⟩).filter fun u => !u.exception && !u.is_fence && !u.is_fencei).map
      (dispatchUop iqType)
  else none

/-- The index a slot takes its next uop from. -/
def in_idx (k : ℕ) : Option ℕ :=
  ((List.range d).reverse.find? fun j => q.shamts_oh i (k + j + 1) = 1 <<< j).map (k + · + 1)

/-- `in_uop`: what moves into a slot. -/
def in_uop (iqType : IqType) (k : ℕ) : Option (MicroOp T) := (q.in_idx i k).bind (q.entry i iqType)

/-- `clear`: the uop of the slot moves down. -/
def clear (k : ℕ) : Bool := q.shamts_oh i k ≠ 0

/-- The slot is free for dispatch in the next cycle. -/
def will_be_available (iqType : IqType) (k : Fin n) : Bool :=
  (!(q.slots k).will_be_valid i.bcast (q.grant i k) || q.clear i k) && (q.in_uop i iqType k).isNone

/-- One cycle. -/
def next (iqType : IqType) : IssueUnit n d T where
  slots k := (q.slots k).next i.bcast (q.grant i k) (q.clear i k) (q.in_uop i iqType k)
  ready w := decide (w.val < ((List.finRange n).filter (q.will_be_available i iqType)).length)

end IssueUnit

end BoomStop.Issue
