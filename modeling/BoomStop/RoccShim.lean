/-
  The shim between the core and a RoCC accelerator (`rocc.scala`): the queue
  `rxq` that holds commands until they are no longer speculative, the queue
  `rcq` of commands that wait for their answer, and what dispatch makes of RoCC
  uops (`core.scala`).

  * `Shim.next`: a cycle of the shim, with the program order as history;
  * `shim`: the shim in the core;
  * `Inv`: the queue holds the uops that have not been sent, in program order;
  * `commands_in_order`: in a run in which no tail is moved by a branch that a
    flush has already thrown away, every uop that stays is sent once and in
    order, and answered in order;
  * `command_never_sent`: where a flush finds a misprediction under way, the
    queue may stop for good.
-/
import BoomStop.Issue
import BoomStop.Rob
import BoomStop.Lib.Machine
import BoomStop.Lib.RingOrder
import Mathlib.Data.List.TakeWhile

namespace BoomStop.RoccShim

open Sync RingOrder
open Issue (BrUpdate getNewBrMask isKilledByBranch)
open Rename (RType)
open Reorder (isOlder)

variable {N R T : ℕ}

/-- A register of the core. -/
abbrev Word := BitVec 64

/-- A uop, with `N` entries of the queue and `T` branch tags. -/
structure MicroOp (N T : ℕ) where
  /-- `uopc === uopROCC` -/
  uopROCC : Bool
  inst : BitVec 32
  rob_idx : ℕ
  rxq_idx : Fin N
  br_mask : Fin T → Bool
  allocate_brtag : Bool
  br_tag : Fin T
  pdst : ℕ
  ldst : ℕ
  dst_rtype : RType
  exception : Bool
  deriving DecidableEq

/-- `dis_rocc_vals`, of a uop that fires. -/
def MicroOp.rocc_val (u : MicroOp N T) : Bool := u.uopROCC && !u.exception

/-- A slot of the bundle at dispatch. -/
structure Slot (N T : ℕ) where
  valid : Bool
  /-- what holds the slot back besides the shim and the branches -/
  hazard : Bool
  uop : MicroOp N T

/-- A request of the execution unit. -/
structure Req (N T : ℕ) where
  uop : MicroOp N T
  rs1_data : Word
  rs2_data : Word
  /-- the place of the uop in the program, unless it has been thrown away -/
  number : Option ℕ

/-- A command to the accelerator. -/
structure Cmd where
  inst : BitVec 32
  rs1 : Word
  rs2 : Word
  deriving DecidableEq

/-- The inputs of a cycle. -/
structure In (N T : ℕ) where
  dis_uops : List (Slot N T)
  rob_ready : Bool
  redirect_flush : Bool
  req : Option (Req N T)
  /-- `brupdate.b1` -/
  brupdate : BrUpdate T
  /-- `rxq_idx` of `oldest_mispredict` -/
  oldest_rxq_idx : Fin N
  rob_pnr_idx : ℕ
  rob_head_idx : ℕ
  exception : Bool
  /-- `rocc.cmd.ready`, `rocc.resp` and `io.resp.ready` -/
  cmd_ready : Bool
  cmd_resp_valid : Bool
  cmd_resp_data : Word
  resp_ready : Bool
  /-- what the output of `rcq` shows while it is empty -/
  stale : RType

/-! ## The program

What the core has dispatched and not thrown away. -/

/-- A RoCC uop of the program, with its operands from when they are there. -/
structure Rocc (N T : ℕ) where
  uop : MicroOp N T
  ops : Option (Word × Word)
  /-- the PNR has passed it -/
  passed : Bool
  deriving DecidableEq

/-- A branch that is not resolved. -/
structure Branch (N T : ℕ) where
  tag : Fin T
  rxq_idx : Fin N
  /-- how many RoCC uops are older -/
  before : ℕ
  deriving DecidableEq

/-- The command that is to be sent. -/
def Rocc.cmd (u : Rocc N T) : Option Cmd := u.ops.map fun a => ⟨u.uop.inst, a.1, a.2⟩

/-- The registers of the shim, `b2` of the core and the history. -/
structure Shim (N T : ℕ) where
  rxq_val : Fin N → Bool
  rxq_op_val : Fin N → Bool
  rxq_committed : Fin N → Bool
  rxq_uop : Fin N → MicroOp N T
  rxq_inst : Fin N → BitVec 32
  rxq_rs1 : Fin N → Word
  rxq_rs2 : Fin N → Word
  rcq : List (MicroOp N T)
  rxq_head : Fin N
  rxq_com_head : Fin N
  rxq_tail : Fin N
  /-- `RegNext(io.exception)` -/
  exception_r : Bool
  /-- `b2` of a misprediction: `rxq_idx` of the branch -/
  b2 : Option (Fin N)
  /-- the RoCC uops that have not been thrown away, in program order -/
  prog : List (Rocc N T)
  /-- the commands sent so far -/
  sent : List Cmd
  /-- how many uops of the program `rxq_com_head` has passed -/
  com : ℕ
  /-- how many commands are answered -/
  answered : ℕ
  branches : List (Branch N T)

namespace Shim

variable [NeZero N] (R : ℕ) (s : Shim N T) (i : In N T)

/-- `io.rxq_full` -/
def rxq_full : Bool := wrapInc s.rxq_tail = s.rxq_head

/-- A branch mispredicts. -/
def mispredicts : Bool := (List.finRange T).any i.brupdate.mispredict_mask

/-! ### Dispatch -/

/-- The uops that fire: `block` is `block_rocc` and `stalled` is `dis_stalls`
    of the slot before. -/
def fires (stopped : Bool) : Bool → Bool → List (Slot N T) → List (MicroOp N T)
  | _, _, [] => []
  | block, stalled, d :: ds =>
    let hazard := d.valid && (d.hazard || (d.uop.uopROCC && block) || stopped)
    let rest := fires stopped (block || (d.valid && d.uop.uopROCC)) (stalled || hazard) ds
    if d.valid && !(stalled || hazard) then d.uop :: rest else rest

/-- The uops that are dispatched. -/
def dis_fire : List (MicroOp N T) :=
  fires (!i.rob_ready || mispredicts i || s.b2.isSome || i.redirect_flush) s.rxq_full false
    i.dis_uops

/-- `dis_uops` with `rxq_idx`; `enq_val` is that of the slot before. -/
def indexed : Bool → List (MicroOp N T) → List (MicroOp N T)
  | _, [] => []
  | enq_val, u :: us =>
    { u with rxq_idx := if enq_val then wrapInc s.rxq_tail else s.rxq_tail } ::
      indexed (enq_val || u.rocc_val) us

/-- The same, with their places in the queue. -/
def dis : List (MicroOp N T) := s.indexed false (s.dis_fire i)

/-- The uop that is written to the queue. -/
def enq : Option (MicroOp N T) := (s.dis i).find? MicroOp.rocc_val

/-! ### The queue of commands -/

/-- A branch kills the entry. -/
def killed (j : Fin N) : Bool := isKilledByBranch i.brupdate (s.rxq_uop j).br_mask

/-- The operands that are taken. -/
def accepted : Option (Req N T) :=
  i.req.filter fun q =>
    !isKilledByBranch i.brupdate q.uop.br_mask && !i.exception && !s.exception_r

/-- The PNR has passed the uop. -/
def older (u : MicroOp N T) : Bool := isOlder u.rob_idx i.rob_pnr_idx i.rob_head_idx

/-- The entry at the commit head commits. -/
def commits : Bool := s.rxq_val s.rxq_com_head && older i (s.rxq_uop s.rxq_com_head)

/-- `rocc.cmd.valid`; `rcq` has room for `R` commands. -/
def sends : Bool :=
  s.rxq_op_val s.rxq_head && s.rxq_val s.rxq_head && s.rxq_committed s.rxq_head &&
    i.cmd_ready && s.rcq.length < R

/-- The command at the head of the queue. -/
def cmd : Cmd := ⟨s.rxq_inst s.rxq_head, s.rxq_rs1 s.rxq_head, s.rxq_rs2 s.rxq_head⟩

/-- An entry as it stands before the branches and the exception of the cycle;
    a later write wins. -/
def nextVal (j : Fin N) : Bool :=
  let v := s.rxq_val j || ((s.enq i).isSome && j = s.rxq_tail)
  let v := v && !(s.sends R i && j = s.rxq_head)
  let v := v && !(s.rxq_val j && s.killed i j)
  v && !(i.exception && !s.rxq_committed j)

/-- `rxq_op_val`, in the next cycle. -/
def nextOpVal (j : Fin N) : Bool :=
  let v := s.rxq_op_val j && !((s.enq i).isSome && j = s.rxq_tail)
  let v := v || ((s.accepted i).any fun q => j = q.uop.rxq_idx)
  let v := v && !(s.rxq_val j && s.killed i j)
  v && !(i.exception && !s.rxq_committed j)

/-- `rxq_committed`, in the next cycle. -/
def nextCommitted (j : Fin N) : Bool :=
  let v := s.rxq_committed j && !((s.enq i).isSome && j = s.rxq_tail)
  v || (s.commits i && j = s.rxq_com_head)

/-- `rxq_uop`, in the next cycle. -/
def nextUop (j : Fin N) : MicroOp N T :=
  let u := if j = s.rxq_tail then (s.enq i).getD (s.rxq_uop j) else s.rxq_uop j
  let u := ((s.accepted i).filter fun q => j = q.uop.rxq_idx).elim u fun q =>
    { u with pdst := q.uop.pdst }
  if s.rxq_val j then { u with br_mask := getNewBrMask i.brupdate (s.rxq_uop j).br_mask } else u

/-- `rxq_inst`, in the next cycle. -/
def nextInst (j : Fin N) : BitVec 32 :=
  if j = s.rxq_tail then ((s.enq i).map (·.inst)).getD (s.rxq_inst j) else s.rxq_inst j

/-- What a request writes to its entry. -/
def nextOp (f : Req N T → Word) (old : Fin N → Word) (j : Fin N) : Word :=
  ((s.accepted i).filter fun q => j = q.uop.rxq_idx).elim (old j) f

/-! ### Answers -/

/-- `rcq.io.deq.bits.dst_rtype`. -/
def deq_rtype : RType := (s.rcq.head?.map (·.dst_rtype)).getD i.stale

/-- An answer, or a command that has none, is written back. -/
def handle_resp : Bool :=
  (i.cmd_resp_valid || s.deq_rtype i = .RT_X) && i.resp_ready && !s.rcq.isEmpty

/-- `rocc.resp.ready`. -/
def cmd_resp_ready : Bool := i.resp_ready && s.deq_rtype i ≠ .RT_X

/-- What is written back: the uop with its destination, and the data. -/
def resp : Option (MicroOp N T × Word) :=
  if s.handle_resp i then s.rcq.head?.map fun u => (u, i.cmd_resp_data) else none

end Shim

/-! ### History -/

/-- A uop of the program after a cycle. -/
def Rocc.next (i : In N T) (number : ℕ) (u : Rocc N T) : Rocc N T where
  uop := u.uop
  ops := ((i.req.filter fun q => q.number = some number).map fun q =>
    (q.rs1_data, q.rs2_data)).or u.ops
  passed := u.passed || Shim.older i u.uop

/-- The branches of a bundle that `n` RoCC uops are older than. -/
def newBranches : ℕ → List (MicroOp N T) → List (Branch N T)
  | _, [] => []
  | n, u :: us =>
    let rest := newBranches (n + u.rocc_val.toNat) us
    if u.allocate_brtag then ⟨u.br_tag, u.rxq_idx, n⟩ :: rest else rest

/-- The RoCC uops of a bundle wait for the branches with the tags `ts` and for
    the older ones of the bundle. -/
def MasksExact : List (Fin T) → List (MicroOp N T) → Prop
  | _, [] => True
  | ts, u :: us =>
    (u.rocc_val = true → ∀ t, u.br_mask t = ts.contains t) ∧
      MasksExact (if u.allocate_brtag then ts ++ [u.br_tag] else ts) us

namespace Shim

variable [NeZero N] (R : ℕ) (s : Shim N T) (i : In N T)

/-- The oldest branch that is mispredicted. -/
def mispredicted : Option (Branch N T) :=
  s.branches.find? fun b => i.brupdate.mispredict_mask b.tag

/-- The branches that stay unresolved. -/
def unresolved : List (Branch N T) :=
  (s.branches.takeWhile fun b => !i.brupdate.mispredict_mask b.tag).filter fun b =>
    !i.brupdate.resolve_mask b.tag

/-- How much of the program is not thrown away: a flush leaves what has been
    answered, a misprediction what is older than the branch. -/
def kept : ℕ :=
  if i.exception then s.answered
  else ((s.mispredicted i).map (·.before)).getD s.prog.length

/-- The uops that have not been answered, with their places in the program. -/
def inFlight : List (Rocc N T × ℕ) := s.prog.zipIdx.drop s.answered

/-- A cycle. -/
def next : Shim N T where
  rxq_val := s.nextVal R i
  rxq_op_val := s.nextOpVal i
  rxq_committed := s.nextCommitted i
  rxq_uop := s.nextUop i
  rxq_inst := s.nextInst i
  rxq_rs1 := s.nextOp i (·.rs1_data) s.rxq_rs1
  rxq_rs2 := s.nextOp i (·.rs2_data) s.rxq_rs2
  rcq := s.rcq.drop (s.handle_resp i).toNat ++
    if s.sends R i then [s.rxq_uop s.rxq_head] else []
  rxq_head := if s.sends R i then wrapInc s.rxq_head else s.rxq_head
  rxq_com_head := if s.commits i then wrapInc s.rxq_com_head else s.rxq_com_head
  rxq_tail :=
    if i.exception then s.rxq_com_head
    else s.b2.getD (if (s.enq i).isSome then wrapInc s.rxq_tail else s.rxq_tail)
  exception_r := i.exception
  b2 := if mispredicts i then some i.oldest_rxq_idx else none
  prog := (s.prog.take (s.kept i)).mapIdx (Rocc.next i) ++
    ((s.dis i).filter MicroOp.rocc_val).map fun u => ⟨u, none, false⟩
  sent := s.sent ++ if s.sends R i then [s.cmd] else []
  com := s.com + (s.commits i).toNat
  answered := s.answered + (s.handle_resp i).toNat
  branches :=
    if i.exception then [] else s.unresolved i ++ newBranches s.prog.length (s.dis i)

/-- What the core and the accelerator promise. -/
structure Ok : Prop where
  /-- the ROB takes nothing in the cycle of a flush -/
  flush : i.exception = true → i.rob_ready = false
  /-- a RoCC uop is not a branch -/
  kind : ∀ u ∈ s.dis i, u.rocc_val = true → u.allocate_brtag = false
  masks : MasksExact ((s.unresolved i).map (·.tag)) (s.dis i)
  mispredict : mispredicts i = true →
    (s.mispredicted i).map (·.rxq_idx) = some i.oldest_rxq_idx
  /-- the PNR passes no uop that waits for a branch -/
  pnr : ∀ x ∈ s.inFlight, older i x.1.uop = true → ∀ b ∈ s.branches, x.2 < b.before
  /-- a flush is at the head of the ROB: what is in flight comes after it, and
      the PNR has passed none of it -/
  pnr_flush : i.exception = true → ∀ x ∈ s.inFlight, x.1.passed = false ∧ older i x.1.uop = false
  /-- operands come once for a uop; after a flush they may come for one that has
      been thrown away -/
  req : ∀ q ∈ i.req, ∀ k ∈ q.number, ∃ u ∈ s.prog[k]?, u.ops = none ∧
    q.uop.rob_idx = u.uop.rob_idx ∧ q.uop.rxq_idx = u.uop.rxq_idx ∧ q.uop.pdst = u.uop.pdst ∧
    ∀ t, q.uop.br_mask t = true ↔ ∃ b ∈ s.branches, b.tag = t ∧ b.before ≤ k
  req_flush : ∀ q ∈ i.req, q.number = none → s.exception_r = true
  /-- the accelerator answers a command that it has been sent before -/
  answer : i.cmd_resp_valid = true →
    ∃ u ∈ (s.prog.take s.sent.length).drop s.answered, u.uop.dst_rtype ≠ .RT_X

/-- The tail is not moved by a branch that the flush of the cycle before has
    thrown away. -/
def OnTime : Prop := s.exception_r = true → ∀ r, s.b2 = some r → r = s.rxq_tail

/-- Where the tail is about to go back to, unless it is there. -/
def pending : Option (Fin N) := if s.exception_r then none else s.b2

end Shim

/-- The shim in the core. -/
def shim (N R T : ℕ) [NeZero N] : Machine (Shim N T) (In N T) where
  start s := (∀ j, s.rxq_val j = false) ∧ (∀ j, s.rxq_op_val j = false) ∧
    (∀ j, s.rxq_committed j = false) ∧ s.rcq = [] ∧ s.rxq_head = 0 ∧ s.rxq_com_head = 0 ∧
    s.rxq_tail = 0 ∧ s.exception_r = false ∧ s.b2 = none ∧ s.prog = [] ∧ s.sent = [] ∧
    s.com = 0 ∧ s.answered = 0 ∧ s.branches = []
  ok s i := s.Ok i
  next s i := s.next R i

/-! ## Bundles -/

section Bundles

variable {stopped block stalled : Bool} {ds : List (Slot N T)} {us : List (MicroOp N T)}
  {u : MicroOp N T} {ts : List (Fin T)} {n : ℕ}

theorem fires_stopped : Shim.fires true block stalled ds = [] := by
  induction ds generalizing block stalled with
  | nil => rfl
  | cons d ds ih => cases hv : d.valid <;> simp [Shim.fires, ih, hv]

theorem fires_block : ∀ u ∈ Shim.fires stopped true stalled ds, u.uopROCC = false := by
  induction ds generalizing stalled with
  | nil => simp [Shim.fires]
  | cons d ds ih =>
    intro u hu
    simp only [Shim.fires, Bool.true_or, Bool.and_true] at hu
    split_ifs at hu with hf
    · rcases List.mem_cons.1 hu with rfl | hu
      · simp only [Bool.and_eq_true, Bool.not_eq_true', Bool.or_eq_false_iff,
          Bool.and_eq_false_iff] at hf
        rcases hf.2.2 with hd | hd
        · rw [hf.1] at hd
          contradiction
        · exact hd.1.2
      · exact ih u hu
    · exact ih u hu

/-- At most one RoCC uop fires. -/
theorem fires_one : (Shim.fires stopped block stalled ds).Pairwise
    fun u v => u.uopROCC = true → v.uopROCC = false := by
  induction ds generalizing block stalled with
  | nil => exact .nil
  | cons d ds ih =>
    simp only [Shim.fires]
    split_ifs with hf
    · refine .cons (fun v hv hu => ?_) ih
      have hd : d.valid = true := by
        rw [Bool.and_eq_true] at hf
        exact hf.1
      rw [hd, hu, Bool.and_self, Bool.or_true] at hv
      exact fires_block v hv
    · exact ih

/-- Where at most one element passes, `filter` finds what `find?` finds. -/
theorem filter_rocc_val (h : us.Pairwise fun u v => u.uopROCC = true → v.uopROCC = false) :
    us.filter MicroOp.rocc_val = (us.find? MicroOp.rocc_val).toList := by
  induction us with
  | nil => rfl
  | cons u us ih =>
    obtain ⟨hu, hus⟩ := List.pairwise_cons.1 h
    cases hv : u.rocc_val with
    | false => rw [List.filter_cons_of_neg (by simp [hv]), List.find?_cons_of_neg (by simp [hv]), ih hus]
    | true =>
      have hnone : us.filter MicroOp.rocc_val = [] := by
        rw [List.filter_eq_nil_iff]
        intro v hv'
        have hr : u.uopROCC = true := by
          rw [MicroOp.rocc_val, Bool.and_eq_true] at hv
          exact hv.1
        simp [MicroOp.rocc_val, hu v hv' hr]
      rw [List.filter_cons_of_pos hv, List.find?_cons_of_pos hv, hnone]
      rfl

theorem le_before : ∀ b ∈ newBranches n us, n ≤ b.before := by
  induction us generalizing n with
  | nil => simp [newBranches]
  | cons u us ih =>
    intro b hb
    have hrest : b ∈ newBranches (n + u.rocc_val.toNat) us → n ≤ b.before := fun hb =>
      (Nat.le_add_right _ _).trans (ih b hb)
    simp only [newBranches] at hb
    split_ifs at hb
    · rcases List.mem_cons.1 hb with rfl | hb
      · exact le_rfl
      · exact hrest hb
    · exact hrest hb

/-- A RoCC uop waits for the branches of its bundle that come before it. -/
theorem mask_of_exact (hm : MasksExact ts us)
    (hk : ∀ u ∈ us, u.rocc_val = true → u.allocate_brtag = false)
    (hu : us.find? MicroOp.rocc_val = some u) (t : Fin T) :
    u.br_mask t = true ↔ t ∈ ts ∨ ∃ b ∈ newBranches n us, b.tag = t ∧ b.before ≤ n := by
  induction us generalizing ts with
  | nil => contradiction
  | cons v us ih =>
    obtain ⟨hv, hm⟩ := hm
    cases hr : v.rocc_val with
    | true =>
      rw [List.find?_cons_of_pos hr, Option.some_inj] at hu
      subst hu
      rw [hv hr, List.contains_iff_mem]
      refine ⟨.inl, fun h => h.resolve_right ?_⟩
      rintro ⟨b, hb, -, hle⟩
      simp only [newBranches, hk v List.mem_cons_self hr, Bool.false_eq_true, if_false, hr,
        Bool.toNat_true] at hb
      have := le_before b hb
      omega
    | false =>
      rw [List.find?_cons_of_neg (by simp [hr])] at hu
      have ih := ih hm (fun w hw => hk w (List.mem_cons_of_mem v hw)) hu
      rw [ih]
      simp only [newBranches, hr, Bool.toNat_false, Nat.add_zero]
      split_ifs with ha
      · simp only [List.mem_append, List.mem_singleton, List.exists_mem_cons_iff, le_refl, and_true,
          or_assoc, eq_comm]
      · rfl

end Bundles

namespace Shim

variable [NeZero N] {s : Shim N T} {i : In N T} {e : Bool} {us : List (MicroOp N T)}
  {u : MicroOp N T} {m : ℕ}

theorem mem_indexed (h : u ∈ s.indexed e us) : ∃ v ∈ us, u = { v with rxq_idx := u.rxq_idx } := by
  induction us generalizing e with
  | nil => contradiction
  | cons v us ih =>
    rcases List.mem_cons.1 h with rfl | h
    · exact ⟨v, List.mem_cons_self, rfl⟩
    · obtain ⟨w, hw, he⟩ := ih h
      exact ⟨w, List.mem_cons_of_mem v hw, he⟩

theorem any_indexed : (s.indexed e us).any MicroOp.rocc_val = us.any MicroOp.rocc_val := by
  induction us generalizing e with
  | nil => rfl
  | cons v us ih => simp [indexed, ih, MicroOp.rocc_val]

theorem indexed_one (h : us.Pairwise fun u v => u.uopROCC = true → v.uopROCC = false) :
    (s.indexed e us).Pairwise fun u v => u.uopROCC = true → v.uopROCC = false := by
  induction us generalizing e with
  | nil => exact .nil
  | cons v us ih =>
    obtain ⟨hv, hus⟩ := List.pairwise_cons.1 h
    refine .cons (fun w hw hr => ?_) (ih hus)
    obtain ⟨w', hw', he⟩ := mem_indexed hw
    rw [he]
    exact hv w' hw' hr

theorem dis_one : (s.dis i).Pairwise fun u v => u.uopROCC = true → v.uopROCC = false :=
  indexed_one fires_one

theorem dis_eq_nil (h : i.rob_ready = false ∨ mispredicts i = true ∨ s.b2.isSome = true) :
    s.dis i = [] := by
  have hstop : (!i.rob_ready || mispredicts i || s.b2.isSome || i.redirect_flush) = true := by
    rcases h with h | h | h <;> simp [h]
  rw [dis, dis_fire, hstop, fires_stopped]
  rfl

/-- What is written gets the tail. -/
theorem rxq_idx_of_find (h : (s.indexed false us).find? MicroOp.rocc_val = some u) :
    u.rxq_idx = s.rxq_tail := by
  induction us with
  | nil => contradiction
  | cons v us ih =>
    rw [indexed, Bool.false_or] at h
    cases hr : v.rocc_val with
    | true =>
      rw [List.find?_cons_of_pos (by exact hr), Option.some_inj] at h
      rw [← h]
      rfl
    | false =>
      rw [List.find?_cons_of_neg (by simpa [MicroOp.rocc_val] using hr), hr] at h
      exact ih h

/-- Nothing is written while the queue is full. -/
theorem not_full_of_enq (h : s.enq i = some u) : wrapInc s.rxq_tail ≠ s.rxq_head := by
  intro hfull
  obtain ⟨v, hv, he⟩ := mem_indexed (List.mem_of_find?_eq_some h)
  have hr := List.find?_some h
  have hf : s.rxq_full = true := by simpa [rxq_full] using hfull
  rw [dis_fire, hf] at hv
  rw [he, MicroOp.rocc_val, Bool.and_eq_true] at hr
  rw [fires_block v hv] at hr
  exact absurd hr.1 (by simp)

/-- The index that a branch saves is the place of the next RoCC uop. -/
theorem newBranches_spec (hm : s.rxq_tail = place N m)
    (he : e = true → ∀ u ∈ us, u.rocc_val = false)
    (hone : us.Pairwise fun u v => u.uopROCC = true → v.uopROCC = false) :
    (∀ b ∈ newBranches (m + e.toNat) (s.indexed e us), m + e.toNat ≤ b.before ∧
      b.before ≤ m + (e || us.any MicroOp.rocc_val).toNat ∧ b.rxq_idx = place N b.before) ∧
    (newBranches (m + e.toNat) (s.indexed e us)).Pairwise fun a b => a.before ≤ b.before := by
  induction us generalizing e with
  | nil => exact ⟨by simp [indexed, newBranches], .nil⟩
  | cons v us ih =>
    obtain ⟨hv, hus⟩ := List.pairwise_cons.1 hone
    have hsum : m + e.toNat + v.rocc_val.toNat = m + (e || v.rocc_val).toNat := by
      cases e with
      | false => simp
      | true => simp [he rfl v List.mem_cons_self]
    have hrest : (e || v.rocc_val) = true → ∀ u ∈ us, u.rocc_val = false := by
      intro h u hu
      rcases Bool.or_eq_true_iff.1 h with h | h
      · exact he h u (List.mem_cons_of_mem v hu)
      · rw [MicroOp.rocc_val, Bool.and_eq_true] at h
        simp [MicroOp.rocc_val, hv u hu h.1]
    obtain ⟨hb, hp⟩ := ih hrest hus
    have hmono : m + e.toNat ≤ m + (e || v.rocc_val).toNat := hsum ▸ Nat.le_add_right _ _
    rw [Bool.or_assoc] at hb
    have hroc : ({ v with rxq_idx := if e then wrapInc s.rxq_tail else s.rxq_tail } :
      MicroOp N T).rocc_val = v.rocc_val := rfl
    simp only [indexed, newBranches, hroc, hsum, List.any_cons]
    by_cases ha : v.allocate_brtag = true
    · rw [if_pos ha]
      refine ⟨fun b hb' => ?_, .cons (fun b hb' => hmono.trans (hb b hb').1) hp⟩
      rcases List.mem_cons.1 hb' with rfl | hb'
      · refine ⟨le_rfl, ?_, ?_⟩
        · cases e <;> simp
        · cases e <;> simp [hm, wrapInc_place]
      · exact ⟨hmono.trans (hb b hb').1, (hb b hb').2⟩
    · rw [if_neg ha]
      exact ⟨fun b hb' => ⟨hmono.trans (hb b hb').1, (hb b hb').2⟩, hp⟩

end Shim

/-! ## The queue and the program -/

/-- The entry of the uop `u`, which is the `k`-th of the program. -/
structure Entry (s : Shim N T) [NeZero N] (k : ℕ) (u : Rocc N T) : Prop where
  val : s.rxq_val (place N k) = true
  op_val : s.rxq_op_val (place N k) = u.ops.isSome
  committed : s.rxq_committed (place N k) = true ↔ k < s.com
  uop : s.rxq_uop (place N k) = { u.uop with br_mask := (s.rxq_uop (place N k)).br_mask }
  inst : s.rxq_inst (place N k) = u.uop.inst
  ops : ∀ a b, u.ops = some (a, b) → s.rxq_rs1 (place N k) = a ∧ s.rxq_rs2 (place N k) = b
  mask : ∀ t, (s.rxq_uop (place N k)).br_mask t = true ↔ ∃ b ∈ s.branches, b.tag = t ∧ b.before ≤ k
  rxq_idx : u.uop.rxq_idx = place N k
  passed : k < s.com → u.passed = true

/-- The program is what has been answered, then `rcq`, then `rxq`. -/
structure Inv [NeZero N] (s : Shim N T) : Prop where
  head : s.rxq_head = place N s.sent.length
  com_head : s.rxq_com_head = place N s.com
  answered : s.answered + s.rcq.length = s.sent.length
  order : s.sent.length ≤ s.com ∧ s.com ≤ s.prog.length
  tail : ∃ t, s.rxq_tail = place N t ∧ s.prog.length ≤ t ∧ t < s.sent.length + N ∧
    (s.pending = none → t = s.prog.length) ∧ ∀ r, s.pending = some r → r = place N s.prog.length
  free : ∀ k, s.prog.length ≤ k → k < s.sent.length + N → s.rxq_val (place N k) = false
  entry : ∀ (k : ℕ) (u : Rocc N T), s.sent.length ≤ k → s.prog[k]? = some u → Entry s k u
  sent : ∀ (k : ℕ) (c : Cmd), s.sent[k]? = some c →
    ∃ u : Rocc N T, s.prog[k]? = some u ∧ u.cmd = some c ∧ u.passed = true
  rcq : ∀ (j : ℕ) (v : MicroOp N T), s.rcq[j]? = some v →
    ∃ u : Rocc N T, s.prog[s.answered + j]? = some u ∧ v = { u.uop with br_mask := v.br_mask }
  branch : ∀ b ∈ s.branches, s.com ≤ b.before ∧ b.before ≤ s.prog.length ∧
    b.rxq_idx = place N b.before
  sorted : s.branches.Pairwise fun a b => a.before ≤ b.before
  flushed : s.exception_r = true → s.answered = s.prog.length

namespace Inv

variable [NeZero N] {s : Shim N T} {i : In N T} {k : ℕ} {u : Rocc N T}

omit [NeZero N] in
theorem mem_inFlight : (u, k) ∈ s.inFlight ↔ s.answered ≤ k ∧ s.prog[k]? = some u := by
  rw [Shim.inFlight, List.mem_iff_getElem?]
  constructor
  · rintro ⟨j, hj⟩
    rw [List.getElem?_drop, List.getElem?_zipIdx, Option.map_eq_some_iff] at hj
    obtain ⟨v, hv, he⟩ := hj
    cases he
    exact ⟨by omega, by simpa using hv⟩
  · rintro ⟨hle, hk⟩
    refine ⟨k - s.answered, ?_⟩
    rw [List.getElem?_drop, Nat.add_sub_cancel' hle, List.getElem?_zipIdx, hk]
    simp

theorem exists_of_lt {α : Type*} {l : List α} (hk : k < l.length) : ∃ u, l[k]? = some u :=
  ⟨l[k], List.getElem?_eq_getElem hk⟩

/-- An entry in use is that of a uop that has not been sent. -/
theorem number_of_val (h : Inv s) {j : Fin N} (hj : s.rxq_val j = true) :
    ∃ k u, j = place N k ∧ s.sent.length ≤ k ∧ s.prog[k]? = some u := by
  have hlt : dist (place N s.sent.length) j < N := dist_lt
  have hj' := place_add_dist (N := N) (k := s.sent.length) j
  have hk : s.sent.length + dist (place N s.sent.length) j < s.prog.length := by
    by_contra hge
    have hfree := h.free _ (Nat.le_of_not_lt hge) (by omega)
    rw [hj', hj] at hfree
    contradiction
  obtain ⟨u, hu⟩ := exists_of_lt hk
  exact ⟨_, u, hj'.symm, Nat.le_add_right _ _, hu⟩

theorem fits (h : Inv s) : s.prog.length < s.sent.length + N := by
  obtain ⟨t, -, h1, h2, -⟩ := h.tail
  omega

/-- What is in use and has the place of `k` is the entry of `k`. -/
theorem entry_of_val (h : Inv s) (hk : s.sent.length ≤ k) (hkn : k < s.sent.length + N)
    (hv : s.rxq_val (place N k) = true) : ∃ u, s.prog[k]? = some u ∧ Entry s k u := by
  have hlt : k < s.prog.length := by
    by_contra hge
    rw [h.free k (Nat.le_of_not_lt hge) hkn] at hv
    contradiction
  obtain ⟨u, hu⟩ := exists_of_lt hlt
  exact ⟨u, hu, h.entry k u hk hu⟩

theorem commits_spec (h : Inv s) (hc : s.commits i = true) :
    ∃ u, s.prog[s.com]? = some u ∧ Entry s s.com u ∧ Shim.older i u.uop = true := by
  rw [Shim.commits, Bool.and_eq_true, h.com_head] at hc
  have := h.fits
  obtain ⟨u, hu, he⟩ := h.entry_of_val h.order.1 (by have := h.order.2; omega) hc.1
  have ho := hc.2
  rw [he.uop] at ho
  exact ⟨u, hu, he, ho⟩

theorem sends_spec (h : Inv s) (hs : s.sends R i = true) :
    ∃ u, s.prog[s.sent.length]? = some u ∧ Entry s s.sent.length u ∧ u.cmd = some s.cmd ∧
      s.sent.length < s.com ∧ s.rcq.length < R := by
  simp only [Shim.sends, Bool.and_eq_true, h.head, decide_eq_true_eq] at hs
  obtain ⟨⟨⟨⟨hop, hval⟩, hcom⟩, -⟩, hroom⟩ := hs
  have := Nat.pos_of_neZero N
  obtain ⟨u, hu, he⟩ := h.entry_of_val le_rfl (by omega) hval
  refine ⟨u, hu, he, ?_, he.committed.1 hcom, hroom⟩
  rw [he.op_val] at hop
  obtain ⟨⟨a, b⟩, hab⟩ := Option.isSome_iff_exists.1 hop
  obtain ⟨ha, hb⟩ := he.ops a b hab
  rw [Rocc.cmd, hab, Shim.cmd, h.head, he.inst, ha, hb]
  rfl

/-- **A flush finds nothing that is past the PNR.** -/
theorem flush_spec (h : Inv s) (hok : s.Ok i) (hx : i.exception = true) :
    s.rcq = [] ∧ s.answered = s.sent.length ∧ s.com = s.sent.length ∧ s.commits i = false ∧
      s.sends R i = false := by
  have hrcq : s.rcq = [] := by
    cases hr : s.rcq with
    | nil => rfl
    | cons v l =>
      have hlt : s.answered < s.sent.length := by
        have := h.answered
        rw [hr, List.length_cons] at this
        omega
      obtain ⟨c, hc⟩ := exists_of_lt hlt
      obtain ⟨u, hu, -, hp⟩ := h.sent _ c hc
      rw [(hok.pnr_flush hx (u, _) (mem_inFlight.2 ⟨le_rfl, hu⟩)).1] at hp
      contradiction
  have hans : s.answered = s.sent.length := by
    have := h.answered
    rw [hrcq] at this
    exact this
  have hcom : s.com = s.sent.length := by
    by_contra hne
    have hlt : s.sent.length < s.com := lt_of_le_of_ne h.order.1 (Ne.symm hne)
    obtain ⟨u, hu⟩ := exists_of_lt (hlt.trans_le h.order.2)
    have hp := (h.entry _ u le_rfl hu).passed hlt
    rw [(hok.pnr_flush hx (u, _) (mem_inFlight.2 ⟨hans.le, hu⟩)).1] at hp
    contradiction
  refine ⟨hrcq, hans, hcom, ?_, ?_⟩
  · by_contra hc
    rw [Bool.not_eq_false] at hc
    obtain ⟨u, hu, -, ho⟩ := h.commits_spec hc
    rw [(hok.pnr_flush hx (u, _) (mem_inFlight.2 ⟨hans.le.trans h.order.1, hu⟩)).2] at ho
    contradiction
  · by_contra hs
    rw [Bool.not_eq_false] at hs
    obtain ⟨-, -, -, -, hlt, -⟩ := h.sends_spec hs
    omega

/-- What `rxq_com_head` passes is not thrown away, nor is what is sent. -/
theorem com_le_kept (h : Inv s) (hok : s.Ok i) :
    s.com + (s.commits i).toNat ≤ s.kept i ∧ s.kept i ≤ s.prog.length := by
  have hlen := h.order.2
  have hans := h.answered
  unfold Shim.kept
  split_ifs with hx
  · obtain ⟨-, h1, h2, hc, -⟩ := h.flush_spec (R := 0) hok hx
    rw [hc, Bool.toNat_false]
    omega
  · cases hm : s.mispredicted i with
    | none =>
      refine ⟨?_, le_rfl⟩
      cases hc : s.commits i with
      | false => exact hlen
      | true =>
        obtain ⟨u, hu, -⟩ := h.commits_spec hc
        exact (List.getElem?_eq_some_iff.1 hu).1
    | some b =>
      have hb := List.mem_of_find?_eq_some hm
      obtain ⟨h1, h2, -⟩ := h.branch b hb
      refine ⟨?_, h2⟩
      cases hc : s.commits i with
      | false => exact h1
      | true =>
        obtain ⟨u, hu, -, ho⟩ := h.commits_spec hc
        exact hok.pnr (u, _) (mem_inFlight.2 ⟨by have := h.order.1; omega, hu⟩) ho b hb

theorem sent_le_com (h : Inv s) : s.sent.length + (s.sends R i).toNat ≤ s.com := by
  cases hs : s.sends R i with
  | false => exact h.order.1
  | true =>
    obtain ⟨-, -, -, -, hlt, -⟩ := h.sends_spec hs
    exact hlt

/-- **The masks pick out what comes after the branch.** -/
theorem killed_iff (h : Inv s) (he : Entry s k u) : s.killed i (place N k) = true ↔
    ∃ b, s.mispredicted i = some b ∧ b.before ≤ k := by
  rw [Shim.killed, isKilledByBranch, List.any_eq_true]
  constructor
  · rintro ⟨t, -, ht⟩
    rw [Bool.and_eq_true, he.mask t] at ht
    obtain ⟨hmis, b, hb, rfl, hle⟩ := ht
    obtain ⟨c, hc⟩ := Option.isSome_iff_exists.1
      ((List.find?_isSome (p := fun b => i.brupdate.mispredict_mask b.tag)).2 ⟨b, hb, hmis⟩)
    refine ⟨c, hc, ?_⟩
    -- `c` is the first of them
    obtain ⟨-, l1, l2, hl, hnone⟩ := List.find?_eq_some_iff_append.1 hc
    have hsorted := h.sorted
    rw [hl] at hsorted hb
    rcases List.mem_append.1 hb with hb | hb
    · have := hnone b hb
      rw [hmis] at this
      contradiction
    · rcases List.mem_cons.1 hb with rfl | hb
      · exact hle
      · exact ((List.pairwise_cons.1 (List.pairwise_append.1 hsorted).2.1).1 b hb).trans hle
  · rintro ⟨b, hb, hle⟩
    refine ⟨b.tag, List.mem_finRange _, ?_⟩
    have hmis := List.find?_some (p := fun b : Branch N T => i.brupdate.mispredict_mask b.tag) hb
    rw [Bool.and_eq_true, he.mask]
    exact ⟨hmis, b, List.mem_of_find?_eq_some hb, rfl, hle⟩

/-- What is kept of the queue, -/
theorem stays (h : Inv s) (hok : s.Ok i) (hk : s.sent.length ≤ k) (hu : s.prog[k]? = some u)
    (hkept : k < s.kept i) : i.exception = false ∧ s.killed i (place N k) = false := by
  have hx : i.exception = false := by
    by_contra hx
    rw [Bool.not_eq_false] at hx
    obtain ⟨-, hans, -⟩ := h.flush_spec (R := 0) hok hx
    rw [Shim.kept, if_pos hx] at hkept
    omega
  refine ⟨hx, ?_⟩
  by_contra hkill
  rw [Bool.not_eq_false, h.killed_iff (h.entry k u hk hu)] at hkill
  obtain ⟨b, hb, hle⟩ := hkill
  rw [Shim.kept, hx, hb] at hkept
  exact absurd hkept (Nat.not_lt.2 hle)

/-- and what is not. -/
theorem goes (h : Inv s) (hok : s.Ok i) (hk : s.sent.length ≤ k) (hu : s.prog[k]? = some u)
    (hkept : s.kept i ≤ k) : s.killed i (place N k) = true ∨
      i.exception = true ∧ s.rxq_committed (place N k) = false := by
  have he := h.entry k u hk hu
  cases hx : i.exception with
  | true =>
    obtain ⟨-, -, hcom, -⟩ := h.flush_spec (R := 0) hok hx
    refine .inr ⟨rfl, ?_⟩
    rw [← Bool.not_eq_true, he.committed]
    omega
  | false =>
    rw [h.killed_iff he]
    left
    rw [Shim.kept, hx] at hkept
    cases hm : s.mispredicted i with
    | some b =>
      rw [hm] at hkept
      exact ⟨b, rfl, hkept⟩
    | none =>
      rw [hm] at hkept
      have := (List.getElem?_eq_some_iff.1 hu).1
      exact absurd this (Nat.not_lt.2 hkept)

/-- Where something is dispatched, nothing is thrown away and the tail is at
    rest. -/
theorem quiet_of_dis (h : Inv s) (hok : s.Ok i) (hd : s.dis i ≠ []) :
    i.exception = false ∧ s.b2 = none ∧ s.kept i = s.prog.length ∧
      s.rxq_tail = place N s.prog.length := by
  have hx : i.exception = false := by
    by_contra hx
    rw [Bool.not_eq_false] at hx
    exact hd (Shim.dis_eq_nil (.inl (hok.flush hx)))
  have hm : s.mispredicted i = none := by
    by_contra hm
    obtain ⟨b, hb⟩ := Option.ne_none_iff_exists'.1 hm
    refine hd (Shim.dis_eq_nil (.inr (.inl (List.any_eq_true.2 ⟨b.tag, List.mem_finRange _, ?_⟩))))
    exact List.find?_some (p := fun b : Branch N T => i.brupdate.mispredict_mask b.tag) hb
  have hb2 : s.b2 = none := by
    by_contra hb2
    exact hd (Shim.dis_eq_nil (.inr (.inr (Option.isSome_iff_ne_none.2 hb2))))
  obtain ⟨t, ht, -, -, hrest, -⟩ := h.tail
  refine ⟨hx, hb2, by rw [Shim.kept, hx, hm]; rfl, ?_⟩
  rw [ht, hrest]
  rw [Shim.pending, hb2]
  exact ite_self none

theorem dis_ne_nil {v : MicroOp N T} (hv : s.enq i = some v) : s.dis i ≠ [] := by
  intro hd
  rw [Shim.enq, hd] at hv
  contradiction

/-- The program after a cycle. -/
theorem prog_next (h : Inv s) (hok : s.Ok i) {v : Rocc N T} :
    (s.next R i).prog[k]? = some v ↔
      (k < s.kept i ∧ ∃ u, s.prog[k]? = some u ∧ v = Rocc.next i k u) ∨
      (k = s.kept i ∧ ∃ u, s.enq i = some u ∧ v = ⟨u, none, false⟩) := by
  have hlen : (List.mapIdx (Rocc.next i) (s.prog.take (s.kept i))).length = s.kept i := by
    rw [List.length_mapIdx, List.length_take, Nat.min_eq_left (h.com_le_kept hok).2]
  show (List.mapIdx (Rocc.next i) (s.prog.take (s.kept i)) ++
    ((s.dis i).filter MicroOp.rocc_val).map fun u => (⟨u, none, false⟩ : Rocc N T))[k]? = _ ↔ _
  rw [filter_rocc_val Shim.dis_one, List.getElem?_append, hlen]
  split_ifs with hk
  · rw [List.getElem?_mapIdx, List.getElem?_take_of_lt hk, Option.map_eq_some_iff,
      or_iff_left (by omega), and_iff_right hk]
    exact exists_congr fun u => and_congr_right fun _ => eq_comm
  · rw [or_iff_right (by omega)]
    cases hv : s.enq i with
    | none =>
      have hv' : (s.dis i).find? MicroOp.rocc_val = none := hv
      simp [hv']
    | some w =>
      have hv' : (s.dis i).find? MicroOp.rocc_val = some w := hv
      rw [hv', Option.toList_some, List.map_cons, List.map_nil]
      constructor
      · intro hw
        have hz := (List.getElem?_eq_some_iff.1 hw).1
        rw [List.length_singleton] at hz
        have hz' : k - s.kept i = 0 := by omega
        rw [hz'] at hw
        exact ⟨by omega, w, rfl, (Option.some_inj.1 hw).symm⟩
      · rintro ⟨rfl, u, hu, rfl⟩
        rw [Option.some_inj.1 hu, Nat.sub_self]
        rfl

theorem length_next (h : Inv s) (hok : s.Ok i) :
    (s.next R i).prog.length = s.kept i + (s.enq i).isSome.toNat := by
  show (List.mapIdx (Rocc.next i) (s.prog.take (s.kept i)) ++
    ((s.dis i).filter MicroOp.rocc_val).map fun u => (⟨u, none, false⟩ : Rocc N T)).length = _
  rw [filter_rocc_val Shim.dis_one, List.length_append, List.length_mapIdx, List.length_take,
    Nat.min_eq_left (h.com_le_kept hok).2, List.length_map]
  show _ + (s.enq i).toList.length = _
  cases s.enq i <;> rfl

/-- What has no operands has not been sent. -/
theorem unsent (h : Inv s) (hu : s.prog[k]? = some u) (hops : u.ops = none) :
    s.sent.length ≤ k := by
  by_contra hlt
  obtain ⟨c, hc⟩ := exists_of_lt (Nat.lt_of_not_le hlt)
  obtain ⟨v, hv, hcmd, -⟩ := h.sent k c hc
  rw [hu, Option.some_inj] at hv
  rw [← hv, Rocc.cmd, hops] at hcmd
  contradiction

/-- The operands of a uop that stays are taken by its entry, -/
theorem accepted_eq (h : Inv s) (hok : s.Ok i) (hk : s.sent.length ≤ k)
    (hu : s.prog[k]? = some u) (hkept : k < s.kept i) :
    ((s.accepted i).filter fun q => place N k = q.uop.rxq_idx) =
      i.req.filter fun q => q.number = some k := by
  have he := h.entry k u hk hu
  have hfits := h.fits
  obtain ⟨hx, hkill⟩ := h.stays hok hk hu hkept
  have hlt := (List.getElem?_eq_some_iff.1 hu).1
  have hxr : s.exception_r = false := by
    by_contra hxr
    rw [Bool.not_eq_false] at hxr
    have := h.flushed hxr
    have := h.answered
    omega
  cases hq : i.req with
  | none => simp [Shim.accepted, hq]
  | some q =>
    cases hn : q.number with
    | none =>
      have := hok.req_flush q (by rw [hq]; rfl) hn
      rw [hxr] at this
      contradiction
    | some k' =>
      obtain ⟨u', hu', hops, -, hidx, -, hmask⟩ := hok.req q (by rw [hq]; rfl) k' (by rw [hn]; rfl)
      have hk' := h.unsent hu' hops
      have he' := h.entry k' u' hk' hu'
      have hlt' := (List.getElem?_eq_some_iff.1 hu').1
      rw [he'.rxq_idx] at hidx
      by_cases hkk : k' = k
      · subst hkk
        -- the masks of the request and of the entry are the same
        have hsame : q.uop.br_mask = (s.rxq_uop (place N k')).br_mask :=
          funext fun t => Bool.eq_iff_iff.2 ((hmask t).trans (he.mask t).symm)
        have hkq : isKilledByBranch i.brupdate q.uop.br_mask = false := by
          rw [hsame]
          exact hkill
        simp [Shim.accepted, hq, Option.filter, hkq, hx, hxr, hidx, hn]
      · have hne : place N k ≠ q.uop.rxq_idx := by
          rw [hidx]
          intro hp
          exact hkk (place_inj hk' hk (by omega) (by omega) hp.symm)
        have hnk : ¬ (some k' = some k) := fun e => hkk (Option.some_inj.1 e)
        rw [Option.filter_some_neg (by simpa [hn] using hnk), Option.filter_eq_none_iff]
        intro q' hq' hidx'
        rw [Shim.accepted, hq, Option.filter_eq_some_iff, Option.some_inj] at hq'
        rw [hq'.1] at hne
        exact hne (by simpa using hidx')

/-- and no other entry takes any. -/
theorem accepted_tail (h : Inv s) (hok : s.Ok i) :
    ((s.accepted i).filter fun q => place N s.prog.length = q.uop.rxq_idx) = none := by
  rw [Option.filter_eq_none_iff]
  intro q hq hidx
  rw [Shim.accepted, Option.filter_eq_some_iff] at hq
  obtain ⟨hq, hacc⟩ := hq
  cases hn : q.number with
  | none =>
    rw [hok.req_flush q hq hn] at hacc
    simp at hacc
  | some k' =>
    obtain ⟨u', hu', hops, -, hidx', -, -⟩ := hok.req q hq k' (by rw [hn]; rfl)
    have hlt' := (List.getElem?_eq_some_iff.1 hu').1
    have hk' := h.unsent hu' hops
    have hfits := h.fits
    rw [(h.entry k' u' hk' hu').rxq_idx] at hidx'
    rw [hidx', decide_eq_true_eq] at hidx
    have := place_inj (hk'.trans hlt'.le) hk' (by omega) (by omega) hidx
    omega

/-- A misprediction parts the branches in those that are older and those that
    are not. -/
theorem branches_split (h : Inv s) (hx : i.exception = false) :
    ∃ l, s.branches = (s.branches.takeWhile fun b => !i.brupdate.mispredict_mask b.tag) ++ l ∧
      (∀ b ∈ s.branches.takeWhile fun b => !i.brupdate.mispredict_mask b.tag,
        b.before ≤ s.kept i) ∧ ∀ b ∈ l, s.kept i ≤ b.before := by
  rw [Shim.kept, hx]
  cases hm : s.mispredicted i with
  | none =>
    have hall := List.find?_eq_none.1 hm
    have htw : (s.branches.takeWhile fun b => !i.brupdate.mispredict_mask b.tag) = s.branches :=
      List.takeWhile_eq_self_iff.2 fun b hb => by simpa using hall b hb
    rw [htw]
    exact ⟨[], (List.append_nil _).symm, fun b hb => (h.branch b hb).2.1, by simp⟩
  | some c =>
    obtain ⟨hc, l1, l2, hl, hl1⟩ := List.find?_eq_some_iff_append.1 hm
    have hsorted := h.sorted
    have htw : (s.branches.takeWhile fun b => !i.brupdate.mispredict_mask b.tag) = l1 := by
      rw [hl, List.takeWhile_append_of_pos hl1, List.takeWhile_cons_of_neg (by simpa using hc),
        List.append_nil]
    rw [htw]
    rw [hl] at hsorted
    obtain ⟨-, hs2, hs12⟩ := List.pairwise_append.1 hsorted
    refine ⟨c :: l2, hl, fun b hb => hs12 b hb c List.mem_cons_self, fun b hb => ?_⟩
    rcases List.mem_cons.1 hb with rfl | hb
    · exact le_rfl
    · exact (List.pairwise_cons.1 hs2).1 b hb

theorem unresolved_le (h : Inv s) (hx : i.exception = false) {b : Branch N T}
    (hb : b ∈ s.unresolved i) : b ∈ s.branches ∧ b.before ≤ s.kept i := by
  obtain ⟨l, -, hle, -⟩ := h.branches_split hx
  have hb' := (List.mem_filter.1 hb).1
  exact ⟨(List.takeWhile_sublist _).subset hb', hle b hb'⟩

/-- The branches that stay unresolved, seen from a uop that stays. -/
theorem unresolved_iff (h : Inv s) (hx : i.exception = false) (hkept : k < s.kept i) (t : Fin T) :
    (∃ b ∈ s.unresolved i, b.tag = t ∧ b.before ≤ k) ↔
      (∃ b ∈ s.branches, b.tag = t ∧ b.before ≤ k) ∧ i.brupdate.resolve_mask t = false := by
  constructor
  · rintro ⟨b, hb, rfl, hle⟩
    obtain ⟨hb, hres⟩ := List.mem_filter.1 hb
    exact ⟨⟨b, (List.takeWhile_sublist _).subset hb, rfl, hle⟩, by simpa using hres⟩
  · rintro ⟨⟨b, hb, rfl, hle⟩, hres⟩
    obtain ⟨l, hl, -, hge⟩ := h.branches_split hx
    rw [hl] at hb
    rcases List.mem_append.1 hb with hb | hb
    · exact ⟨b, List.mem_filter.2 ⟨hb, by simp [hres]⟩, rfl, hle⟩
    · have := hge b hb
      omega

/-- What is written goes to a free place. -/
theorem tail_free (h : Inv s) (hok : s.Ok i) (hv : s.enq i ≠ none) :
    s.rxq_tail = place N s.prog.length ∧ s.rxq_val s.rxq_tail = false ∧
      s.prog.length + 1 < s.sent.length + N := by
  obtain ⟨v, hv⟩ := Option.ne_none_iff_exists'.1 hv
  obtain ⟨-, -, -, ht⟩ := h.quiet_of_dis hok (dis_ne_nil hv)
  have hfits := h.fits
  refine ⟨ht, ?_, ?_⟩
  · rw [ht]
    exact h.free _ le_rfl hfits
  · by_contra hge
    have hfull := Shim.not_full_of_enq hv
    have he : s.prog.length + 1 = s.sent.length + N := by omega
    rw [ht, wrapInc_place, he, place_add_self, ← h.head] at hfull
    exact hfull rfl

/-- The place of a uop in the queue is not the tail while something is
    written, -/
theorem ne_tail (h : Inv s) (hok : s.Ok i) (hk : s.sent.length ≤ k) (hlt : k < s.prog.length)
    (hv : s.enq i ≠ none) : place N k ≠ s.rxq_tail := by
  obtain ⟨ht, -, hfits⟩ := h.tail_free hok hv
  rw [ht]
  intro hp
  have := place_inj hk (by omega) (by omega) (by omega) hp
  omega

/-- nor the head, unless it is the next to be sent, -/
theorem ne_head (h : Inv s) (hk : s.sent.length < k) (hlt : k < s.prog.length) :
    place N k ≠ s.rxq_head := by
  have hfits := h.fits
  rw [h.head]
  intro hp
  have := place_inj hk.le le_rfl (by omega) (by omega) hp
  omega

/-- and it is at `rxq_com_head` when it is the next to be passed. -/
theorem eq_com_head (h : Inv s) (hk : s.sent.length ≤ k) (hlt : k < s.prog.length) :
    place N k = s.rxq_com_head ∧ s.commits i = true ↔ k = s.com ∧ s.commits i = true := by
  have hfits := h.fits
  have hcom := h.order
  rw [h.com_head]
  refine and_congr_left fun _ => ⟨fun hp => ?_, fun e => by rw [e]⟩
  exact place_inj hk hcom.1 (by omega) (by omega) hp

/-- A uop that stays in the queue keeps its entry. -/
theorem entry_kept (h : Inv s) (hok : s.Ok i) (hk : s.sent.length + (s.sends R i).toNat ≤ k)
    (hu : s.prog[k]? = some u) (hkept : k < s.kept i) :
    Entry (s.next R i) k (Rocc.next i k u) := by
  have hk0 : s.sent.length ≤ k := by omega
  have he := h.entry k u hk0 hu
  have hlt := (List.getElem?_eq_some_iff.1 hu).1
  obtain ⟨hx, hkill⟩ := h.stays hok hk0 hu hkept
  have hacc := h.accepted_eq hok hk0 hu hkept
  have hnt : ((s.enq i).isSome && decide (place N k = s.rxq_tail)) = false := by
    rw [Bool.and_eq_false_iff, Option.isSome_eq_false_iff, Option.isNone_iff_eq_none,
      decide_eq_false_iff_not]
    by_cases hv : s.enq i = none
    · exact .inl hv
    · exact .inr (h.ne_tail hok hk0 hlt hv)
  have hnt' : (if place N k = s.rxq_tail then (s.enq i).getD (s.rxq_uop (place N k))
      else s.rxq_uop (place N k)) = s.rxq_uop (place N k) := by
    split_ifs with ht
    · cases hv : s.enq i with
      | none => rfl
      | some v => exact absurd ht (h.ne_tail hok hk0 hlt (by rw [hv]; simp))
    · rfl
  have hnh : (s.sends R i && decide (place N k = s.rxq_head)) = false := by
    cases hs : s.sends R i with
    | false => rfl
    | true =>
      rw [hs] at hk
      simpa using h.ne_head hk hlt
  -- what the request is, seen from the uop
  have hop : ∀ q, i.req = some q → q.number = some k →
      u.ops = none ∧ q.uop.pdst = u.uop.pdst := by
    intro q hq hn
    obtain ⟨u', hu', hops, -, -, hpdst, -⟩ := hok.req q hq k hn
    have huu : s.prog[k]? = some u' := hu'
    rw [hu, Option.some_inj] at huu
    subst huu
    exact ⟨hops, hpdst⟩
  refine ⟨?_, ?_, ?_, ?_, ?_, ?_, ?_, he.rxq_idx, ?_⟩
  · show s.nextVal R i (place N k) = true
    simp [Shim.nextVal, he.val, hnh, hkill, hx]
  · show s.nextOpVal i (place N k) = ((i.req.filter fun q => q.number = some k).map _ |>.or u.ops).isSome
    have hany : ((s.accepted i).any fun q => decide (place N k = q.uop.rxq_idx)) =
        (i.req.filter fun q => q.number = some k).isSome := by
      rw [← hacc]
      cases s.accepted i with
      | none => rfl
      | some q =>
        by_cases hq : place N k = q.uop.rxq_idx
        · simp [Option.filter, hq]
        · simp [Option.filter, hq]
    simp only [Shim.nextOpVal, hnt, hkill, hx, he.op_val, hany, Option.isSome_or, Option.isSome_map]
    simp [Bool.or_comm]
  · show s.nextCommitted i (place N k) = true ↔ k < s.com + (s.commits i).toNat
    have hcom := h.eq_com_head (i := i) hk0 hlt
    have hc := he.committed
    simp only [Shim.nextCommitted, hnt, Bool.not_false, Bool.and_true, Bool.or_eq_true,
      Bool.and_eq_true, decide_eq_true_eq, hc]
    rw [and_comm, hcom]
    cases s.commits i with
    | false => simp
    | true => simp only [and_true, Bool.toNat_true]; omega
  · show s.nextUop i (place N k) = { u.uop with br_mask := (s.nextUop i (place N k)).br_mask }
    have huop := he.uop
    simp only [Shim.nextUop, hnt', he.val, if_true, hacc]
    cases hq : i.req.filter fun q => q.number = some k with
    | none => rw [Option.elim_none, huop]
    | some q =>
      rw [Option.filter_eq_some_iff] at hq
      obtain ⟨-, hpdst⟩ := hop q hq.1 (by simpa using hq.2)
      rw [Option.elim_some, huop, hpdst]
  · show s.nextInst i (place N k) = u.uop.inst
    rw [← he.inst, Shim.nextInst]
    split_ifs with ht
    · cases hv : s.enq i with
      | none => rfl
      | some v => exact absurd ht (h.ne_tail hok hk0 hlt (by rw [hv]; simp))
    · rfl
  · intro a b hab
    show s.nextOp i (·.rs1_data) s.rxq_rs1 (place N k) = a ∧
      s.nextOp i (·.rs2_data) s.rxq_rs2 (place N k) = b
    simp only [Shim.nextOp, hacc]
    simp only [Rocc.next] at hab
    cases hq : i.req.filter fun q => q.number = some k with
    | none =>
      rw [hq] at hab
      exact he.ops a b hab
    | some q =>
      rw [hq] at hab
      cases hab
      exact ⟨rfl, rfl⟩
  · intro t
    show (s.nextUop i (place N k)).br_mask t = true ↔ ∃ b ∈ (s.next R i).branches, _
    have hb : (s.next R i).branches = s.unresolved i ++ newBranches s.prog.length (s.dis i) := by
      show (if i.exception then [] else _) = _
      rw [hx]
      rfl
    have hiff : (∃ b ∈ (s.next R i).branches, b.tag = t ∧ b.before ≤ k) ↔
        ∃ b ∈ s.unresolved i, b.tag = t ∧ b.before ≤ k := by
      rw [hb]
      constructor
      · rintro ⟨b, hb, hrest⟩
        rcases List.mem_append.1 hb with hb | hb
        · exact ⟨b, hb, hrest⟩
        · have := le_before b hb
          omega
      · rintro ⟨b, hb, hrest⟩
        exact ⟨b, List.mem_append_left _ hb, hrest⟩
    rw [hiff, h.unresolved_iff hx hkept, ← he.mask t]
    simp only [Shim.nextUop, he.val, if_true, getNewBrMask, Bool.and_eq_true, Bool.not_eq_true']
  · intro hlt'
    show (u.passed || Shim.older i u.uop) = true
    have hlt'' : k < s.com + (s.commits i).toNat := hlt'
    rw [Bool.or_eq_true]
    cases hc : s.commits i with
    | false =>
      rw [hc] at hlt''
      exact .inl (he.passed hlt'')
    | true =>
      obtain ⟨v, hv, -, ho⟩ := h.commits_spec hc
      rw [hc, Bool.toNat_true] at hlt''
      rcases Nat.lt_succ_iff_lt_or_eq.1 hlt'' with hlt'' | rfl
      · exact .inl (he.passed hlt'')
      · rw [hu, Option.some_inj] at hv
        subst hv
        exact .inr ho

/-- A uop that is dispatched gets its entry. -/
theorem entry_new (h : Inv s) (hok : s.Ok i) {v : MicroOp N T} (hv : s.enq i = some v) :
    Entry (s.next R i) (s.kept i) ⟨v, none, false⟩ := by
  obtain ⟨hx, hb2, hkept, htail⟩ := h.quiet_of_dis hok (dis_ne_nil hv)
  obtain ⟨-, hfree, hroom⟩ := h.tail_free hok (by rw [hv]; simp)
  have hacc := h.accepted_tail hok
  have hcom : s.com + (s.commits i).toNat ≤ s.prog.length := hkept ▸ (h.com_le_kept hok).1
  have hsent := h.sent_le_com (R := R) (i := i)
  have hle := h.order
  rw [hkept]
  have hnh : (s.sends R i && decide (s.rxq_tail = s.rxq_head)) = false := by
    cases hs : s.sends R i with
    | false => rfl
    | true =>
      rw [hs, Bool.toNat_true] at hsent
      simp only [Bool.true_and, decide_eq_false_iff_not, htail, h.head]
      intro hp
      have := place_inj le_rfl (hle.1.trans hle.2) (by omega) (by omega) hp.symm
      omega
  have hnc : (s.commits i && decide (s.rxq_tail = s.rxq_com_head)) = false := by
    cases hc : s.commits i with
    | false => rfl
    | true =>
      rw [hc, Bool.toNat_true] at hcom
      simp only [Bool.true_and, decide_eq_false_iff_not, htail, h.com_head]
      intro hp
      have := place_inj hle.1 (hle.1.trans hle.2) (by omega) (by omega) hp.symm
      omega
  rw [← htail] at hacc
  have huop : s.nextUop i s.rxq_tail = v := by
    simp [Shim.nextUop, hv, hacc, hfree]
  have hval : s.nextVal R i s.rxq_tail = true := by
    simp [Shim.nextVal, hv, hnh, hfree, hx]
  have hop : s.nextOpVal i s.rxq_tail = false := by
    have hany : ((s.accepted i).any fun q => decide (s.rxq_tail = q.uop.rxq_idx)) = false := by
      rw [Option.filter_eq_none_iff] at hacc
      rw [← Bool.not_eq_true, Option.any_eq_true]
      rintro ⟨q, hq, hidx⟩
      exact hacc q hq hidx
    simp [Shim.nextOpVal, hv, hany]
  have hcm : s.nextCommitted i s.rxq_tail = false := by
    simp [Shim.nextCommitted, hv, hnc]
  have hmask : ∀ t, v.br_mask t = true ↔
      ∃ b ∈ (s.next R i).branches, b.tag = t ∧ b.before ≤ s.prog.length := by
    intro t
    have hb : (s.next R i).branches = s.unresolved i ++ newBranches s.prog.length (s.dis i) := by
      show (if i.exception then [] else _) = _
      rw [hx]
      rfl
    rw [hb, mask_of_exact (n := s.prog.length) hok.masks hok.kind hv]
    simp only [List.mem_map, List.mem_append]
    constructor
    · rintro (⟨b, hb, rfl⟩ | ⟨b, hb, hrest⟩)
      · exact ⟨b, .inl hb, rfl, hkept ▸ (h.unresolved_le hx hb).2⟩
      · exact ⟨b, .inr hb, hrest⟩
    · rintro ⟨b, hb | hb, htag, hle⟩
      · exact .inl ⟨b, hb, htag⟩
      · exact .inr ⟨b, hb, htag, hle⟩
  rw [htail] at huop hval hop hcm
  refine ⟨hval, hop, ?_, ?_, ?_, fun a b hab => by contradiction, fun t => ?_, ?_, fun hlt => ?_⟩
  · show s.nextCommitted i _ = true ↔ s.prog.length < s.com + (s.commits i).toNat
    rw [hcm]
    simp only [Bool.false_eq_true, false_iff]
    omega
  · show s.nextUop i _ = { v with br_mask := (s.nextUop i _).br_mask }
    rw [huop]
  · show s.nextInst i _ = v.inst
    rw [Shim.nextInst, htail, if_pos rfl, hv]
    rfl
  · show (s.nextUop i _).br_mask t = true ↔ _
    rw [huop, hmask]
  · rw [← htail]
    exact Shim.rxq_idx_of_find hv
  · have : s.prog.length < s.com + (s.commits i).toNat := hlt
    omega

/-- **A step keeps the queue in line with the program.** -/
theorem next (h : Inv s) (hok : s.Ok i) (hot : s.OnTime) : Inv (s.next R i) := by
  have hfits := h.fits
  have hord := h.order
  have hans := h.answered
  have hsc := h.sent_le_com (R := R) (i := i)
  obtain ⟨hck, hkl⟩ := h.com_le_kept hok
  have hlen := h.length_next (R := R) hok
  have hsent : (s.next R i).sent.length = s.sent.length + (s.sends R i).toNat := by
    show (s.sent ++ _).length = _
    cases s.sends R i <;> simp
  have hcom : (s.next R i).com = s.com + (s.commits i).toNat := rfl
  have hresp : s.handle_resp i = true → s.rcq ≠ [] := by
    intro hr hnil
    simp [Shim.handle_resp, hnil] at hr
  refine ⟨?_, ?_, ?_, ?_, ?_, ?_, ?_, ?_, ?_, ?_, ?_, ?_⟩
  · -- `rxq_head`
    rw [hsent]
    show (if s.sends R i then wrapInc s.rxq_head else s.rxq_head) = _
    rw [h.head]
    cases s.sends R i with
    | false => rfl
    | true => exact wrapInc_place
  · -- `rxq_com_head`
    rw [hcom]
    show (if s.commits i then wrapInc s.rxq_com_head else s.rxq_com_head) = _
    rw [h.com_head]
    cases s.commits i with
    | false => rfl
    | true => exact wrapInc_place
  · -- `rcq`
    rw [hsent]
    show s.answered + (s.handle_resp i).toNat + (s.rcq.drop _ ++ _).length = _
    rw [List.length_append, List.length_drop]
    have hlast : (if s.sends R i then [s.rxq_uop s.rxq_head] else []).length =
        (s.sends R i).toNat := by
      cases s.sends R i <;> rfl
    rw [hlast]
    cases hr : s.handle_resp i with
    | false =>
      rw [Bool.toNat_false]
      omega
    | true =>
      have := List.length_pos_iff.2 (hresp hr)
      rw [Bool.toNat_true]
      omega
  · rw [hsent, hcom, hlen]
    omega
  · -- `rxq_tail`
    rw [hsent, hlen]
    show ∃ t, (if i.exception then s.rxq_com_head else s.b2.getD (if (s.enq i).isSome then
      wrapInc s.rxq_tail else s.rxq_tail)) = place N t ∧ _
    cases hx : i.exception with
    | true =>
      obtain ⟨-, ha, hc, -⟩ := h.flush_spec (R := R) hok hx
      have hnone : s.enq i = none := by
        by_contra hv
        obtain ⟨v, hv⟩ := Option.ne_none_iff_exists'.1 hv
        have := (h.quiet_of_dis hok (dis_ne_nil hv)).1
        rw [hx] at this
        contradiction
      have hkept : s.kept i = s.sent.length := by rw [Shim.kept, if_pos hx, ha]
      have hpend : (s.next R i).pending = none := by
        show (if i.exception then none else _) = none
        rw [hx]
        rfl
      rw [hnone, hkept, hpend]
      refine ⟨s.com, h.com_head, ?_, ?_, fun _ => ?_, fun r hr => by contradiction⟩
      · show s.sent.length ≤ s.com
        omega
      · omega
      · show s.com = s.sent.length
        omega
    | false =>
      -- where the tail goes is where the program ended
      have htail : s.b2.getD (if (s.enq i).isSome then wrapInc s.rxq_tail else s.rxq_tail) =
          place N (s.prog.length + (s.enq i).isSome.toNat) := by
        by_cases hv : s.enq i = none
        · rw [hv]
          obtain ⟨t, ht, -, -, hrest, hpend⟩ := h.tail
          cases hb2 : s.b2 with
          | none =>
            rw [Shim.pending, hb2, ite_self] at hrest
            rw [hrest rfl] at ht
            exact ht
          | some r =>
            cases hxr : s.exception_r with
            | false => exact hpend r (by rw [Shim.pending, hxr, hb2]; rfl)
            | true =>
              rw [Shim.pending, hxr] at hrest
              rw [hrest rfl] at ht
              rw [Option.getD_some, hot hxr r hb2]
              exact ht
        · obtain ⟨v, hv⟩ := Option.ne_none_iff_exists'.1 hv
          obtain ⟨-, hb2, -, ht⟩ := h.quiet_of_dis hok (dis_ne_nil hv)
          rw [hb2, hv, Option.getD_none, Option.isSome_some, if_pos rfl, ht, wrapInc_place]
          rfl
      have hpend : (s.next R i).pending =
          if Shim.mispredicts i then some i.oldest_rxq_idx else none := by
        show (if i.exception then none else _) = _
        rw [hx]
        rfl
      rw [if_neg (by simp), htail, hpend]
      refine ⟨_, rfl, by omega, ?_, fun hm => ?_, fun r hr => ?_⟩
      · by_cases hv : s.enq i = none
        · rw [hv]
          show s.prog.length + 0 < _
          omega
        · have := (h.tail_free hok hv).2.2
          have hle : (s.enq i).isSome.toNat ≤ 1 := Bool.toNat_le _
          omega
      · have hm' : Shim.mispredicts i = false := by
          by_contra hm'
          rw [Bool.not_eq_false] at hm'
          rw [hm', if_pos rfl] at hm
          contradiction
        have hnone : s.mispredicted i = none := by
          rw [Shim.mispredicted, List.find?_eq_none]
          intro b _ hb
          have : Shim.mispredicts i = true := List.any_eq_true.2 ⟨b.tag, List.mem_finRange _, hb⟩
          rw [hm'] at this
          contradiction
        rw [Shim.kept, hx, hnone]
        rfl
      · have hm' : Shim.mispredicts i = true := by
          by_contra hm'
          rw [if_neg hm'] at hr
          contradiction
        rw [hm', if_pos rfl, Option.some_inj] at hr
        have hdis : s.dis i = [] := Shim.dis_eq_nil (.inr (.inl hm'))
        have hnone : s.enq i = none := by rw [Shim.enq, hdis]; rfl
        obtain ⟨b, hb, hidx⟩ := Option.map_eq_some_iff.1 (hok.mispredict hm')
        rw [hnone, Shim.kept, hx, hb, ← hr, ← hidx]
        exact (h.branch b (List.mem_of_find?_eq_some hb)).2.2
  · -- places beyond the program
    intro k hk hkn
    rw [hsent] at hkn
    rw [hlen] at hk
    have hb1 : (s.sends R i).toNat ≤ 1 := Bool.toNat_le _
    by_contra hv
    rw [Bool.not_eq_false] at hv
    have hv : s.nextVal R i (place N k) = true := hv
    simp only [Shim.nextVal, Bool.and_eq_true, Bool.or_eq_true, Bool.not_eq_true',
      Bool.and_eq_false_iff, decide_eq_true_eq, decide_eq_false_iff_not, Bool.not_eq_false'] at hv
    obtain ⟨⟨⟨hold | ⟨hnew, htl⟩, hnosend⟩, hnokill⟩, hnoexc⟩ := hv
    · obtain ⟨k1, u, hp, hk1, hu⟩ := h.number_of_val hold
      have hlt := (List.getElem?_eq_some_iff.1 hu).1
      by_cases hkk : k < s.sent.length + N
      · have := place_inj (by omega) hk1 hkk (by omega) hp
        subst this
        rcases h.goes hok hk1 hu (by omega) with hkill | ⟨hx, hc⟩
        · rcases hnokill with hn | hn
          · rw [hold] at hn
            contradiction
          · rw [hkill] at hn
            contradiction
        · rcases hnoexc with hn | hn
          · rw [hx] at hn
            contradiction
          · rw [hc] at hn
            contradiction
      · have he : k = s.sent.length + N := by omega
        rcases hnosend with hn | hn
        · rw [hn, Bool.toNat_false] at hkn
          omega
        · rw [he, place_add_self, h.head] at hn
          exact hn rfl
    · have hne : s.enq i ≠ none := Option.isSome_iff_ne_none.1 hnew
      obtain ⟨v, hv⟩ := Option.ne_none_iff_exists'.1 hne
      obtain ⟨-, -, hkept, ht⟩ := h.quiet_of_dis hok (dis_ne_nil hv)
      rw [hnew, Bool.toNat_true] at hk
      rw [ht] at htl
      by_cases hkk : k < s.sent.length + N
      · have := place_inj (k := s.sent.length) (by omega) (by omega) hkk (by omega) htl
        omega
      · have he : k = s.sent.length + N := by omega
        rw [he, place_add_self] at htl
        have := place_inj (k := s.sent.length) le_rfl (by omega) (by omega) (by omega) htl
        omega
  · -- the entries
    intro k v hk hv
    rw [hsent] at hk
    rcases (h.prog_next hok).1 hv with ⟨hkept, u, hu, rfl⟩ | ⟨rfl, u, hu, rfl⟩
    · exact h.entry_kept hok hk hu hkept
    · exact h.entry_new hok hu
  · -- what has been sent
    intro k c hc
    have hc : (s.sent ++ if s.sends R i then [s.cmd] else [])[k]? = some c := hc
    by_cases hk : k < s.sent.length
    · rw [List.getElem?_append_left hk] at hc
      obtain ⟨u, hu, hcmd, hp⟩ := h.sent k c hc
      refine ⟨Rocc.next i k u, (h.prog_next hok).2 (.inl ⟨by omega, u, hu, rfl⟩), ?_, ?_⟩
      · have hreq : (i.req.filter fun q => q.number = some k) = none := by
          rw [Option.filter_eq_none_iff]
          intro q hq hn
          obtain ⟨u', hu', hops, -⟩ := hok.req q hq k (by simpa using hn)
          have := h.unsent hu' hops
          omega
        rw [← hcmd, Rocc.cmd, Rocc.cmd]
        simp only [Rocc.next, hreq, Option.map_none, Option.none_or]
      · exact Bool.or_eq_true_iff.2 (.inl hp)
    · cases hs : s.sends R i with
      | false =>
        rw [hs] at hc
        simp only [Bool.false_eq_true, if_false, List.append_nil] at hc
        exact absurd (List.getElem?_eq_some_iff.1 hc).1 hk
      | true =>
        rw [hs, if_pos rfl, List.getElem?_append_right (Nat.le_of_not_lt hk)] at hc
        have hz := (List.getElem?_eq_some_iff.1 hc).1
        rw [List.length_singleton] at hz
        have hke : k = s.sent.length := by omega
        subst hke
        rw [Nat.sub_self, List.getElem?_cons_zero, Option.some_inj] at hc
        obtain ⟨u, hu, he, hcmd, hlt, -⟩ := h.sends_spec hs
        refine ⟨Rocc.next i _ u, (h.prog_next hok).2 (.inl ⟨by omega, u, hu, rfl⟩), ?_,
          Bool.or_eq_true_iff.2 (.inl (he.passed hlt))⟩
        have hreq : (i.req.filter fun q => q.number = some s.sent.length) = none := by
          rw [Option.filter_eq_none_iff]
          intro q hq hn
          obtain ⟨u', hu', hops, -⟩ := hok.req q hq _ (by simpa using hn)
          have huu : s.prog[s.sent.length]? = some u' := hu'
          rw [hu, Option.some_inj] at huu
          rw [huu, Rocc.cmd, hops] at hcmd
          contradiction
        rw [← hc, ← hcmd, Rocc.cmd, Rocc.cmd]
        simp only [Rocc.next, hreq, Option.map_none, Option.none_or]
  · -- what waits for an answer
    intro j v hv
    have hv : (s.rcq.drop (s.handle_resp i).toNat ++
      if s.sends R i then [s.rxq_uop s.rxq_head] else [])[j]? = some v := hv
    show ∃ u : Rocc N T, (s.next R i).prog[s.answered + (s.handle_resp i).toNat + j]? = some u ∧ _
    have hdrop : (s.handle_resp i).toNat ≤ s.rcq.length := by
      cases hr : s.handle_resp i with
      | false => exact Nat.zero_le _
      | true => exact List.length_pos_iff.2 (hresp hr)
    by_cases hj : j < (s.rcq.drop (s.handle_resp i).toNat).length
    · rw [List.getElem?_append_left hj, List.getElem?_drop] at hv
      rw [List.length_drop] at hj
      obtain ⟨u, hu, he⟩ := h.rcq _ v hv
      rw [← Nat.add_assoc] at hu
      exact ⟨Rocc.next i _ u, (h.prog_next hok).2 (.inl ⟨by omega, u, hu, rfl⟩), he⟩
    · cases hs : s.sends R i with
      | false =>
        rw [hs] at hv
        simp only [Bool.false_eq_true, if_false, List.append_nil] at hv
        exact absurd (List.getElem?_eq_some_iff.1 hv).1 hj
      | true =>
        rw [hs, if_pos rfl, List.getElem?_append_right (Nat.le_of_not_lt hj)] at hv
        have hz := (List.getElem?_eq_some_iff.1 hv).1
        rw [List.length_singleton] at hz
        rw [List.length_drop] at hz hj
        have hzero : j - (s.rcq.drop (s.handle_resp i).toNat).length = 0 := by
          rw [List.length_drop]
          omega
        rw [hzero, List.getElem?_cons_zero, Option.some_inj] at hv
        obtain ⟨u, hu, he, -, hlt, -⟩ := h.sends_spec hs
        have hidx : s.answered + (s.handle_resp i).toNat + j = s.sent.length := by omega
        rw [hidx]
        refine ⟨Rocc.next i _ u, (h.prog_next hok).2 (.inl ⟨by omega, u, hu, rfl⟩), ?_⟩
        rw [← hv, h.head]
        exact he.uop
  · -- the branches
    intro b hb
    have hb : b ∈ (if i.exception then [] else
      s.unresolved i ++ newBranches s.prog.length (s.dis i)) := hb
    cases hx : i.exception with
    | true =>
      rw [hx, if_pos rfl] at hb
      contradiction
    | false =>
      rw [hx, if_neg (by simp)] at hb
      rw [hcom, hlen]
      rcases List.mem_append.1 hb with hb | hb
      · obtain ⟨hmem, hle⟩ := h.unresolved_le hx hb
        obtain ⟨h1, -, h3⟩ := h.branch b hmem
        refine ⟨?_, by omega, h3⟩
        cases hc : s.commits i with
        | false => exact h1
        | true =>
          obtain ⟨u, hu, -, ho⟩ := h.commits_spec hc
          exact hok.pnr (u, _) (mem_inFlight.2 ⟨by omega, hu⟩) ho b hmem
      · have hd : s.dis i ≠ [] := by
          intro hd
          rw [hd] at hb
          contradiction
        obtain ⟨-, -, hkept, ht⟩ := h.quiet_of_dis hok hd
        obtain ⟨h1, h2, h3⟩ := (Shim.newBranches_spec (e := false) ht (by simp) fires_one).1 b hb
        have hany : (s.enq i).isSome = (false || (s.dis_fire i).any MicroOp.rocc_val) := by
          rw [Bool.false_or, Shim.enq, Shim.dis, List.isSome_find?, Shim.any_indexed]
        have h2 : b.before ≤ s.prog.length + (false || (s.dis_fire i).any MicroOp.rocc_val).toNat := h2
        rw [hany]
        simp only [Bool.toNat_false, Nat.add_zero] at h1
        exact ⟨by omega, by omega, h3⟩
  · show List.Pairwise _ (if i.exception then [] else
      s.unresolved i ++ newBranches s.prog.length (s.dis i))
    split_ifs with hx
    · exact .nil
    · rw [Bool.not_eq_true] at hx
      refine List.pairwise_append.2 ⟨?_, ?_, fun a ha b hb => ?_⟩
      · exact (h.sorted.sublist (List.takeWhile_sublist _)).filter _
      · by_cases hd : s.dis i = []
        · rw [hd]
          exact .nil
        · obtain ⟨-, -, -, ht⟩ := h.quiet_of_dis hok hd
          exact (Shim.newBranches_spec (e := false) ht (by simp) fires_one).2
      · have := (h.unresolved_le hx ha).2
        have := le_before b hb
        omega
  · intro hx
    have hx : i.exception = true := hx
    obtain ⟨hrcq, ha, -⟩ := h.flush_spec (R := R) hok hx
    have hnone : s.enq i = none := by
      by_contra hv
      obtain ⟨v, hv⟩ := Option.ne_none_iff_exists'.1 hv
      have := (h.quiet_of_dis hok (dis_ne_nil hv)).1
      rw [hx] at this
      contradiction
    have hr : s.handle_resp i = false := by simp [Shim.handle_resp, hrcq]
    rw [hlen, hnone, Shim.kept, if_pos hx]
    show s.answered + (s.handle_resp i).toNat = _
    rw [hr]
    rfl

theorem start (h : (shim N R T).start s) : Inv s := by
  obtain ⟨hval, -, -, hrcq, hh, hc, ht, hxr, hb2, hprog, hsent, hcom, hans, hbr⟩ := h
  have hpos := Nat.pos_of_neZero N
  refine ⟨by rw [hh, hsent]; rfl, by rw [hc, hcom]; rfl, by rw [hans, hrcq, hsent]; rfl,
    by rw [hsent, hcom, hprog]; exact ⟨le_rfl, le_rfl⟩, ⟨0, by rw [ht]; rfl, ?_⟩,
    fun k _ _ => hval _, ?_, ?_, ?_, ?_, ?_, ?_⟩
  · rw [hprog, hsent, Shim.pending, hxr, hb2]
    exact ⟨le_rfl, by simpa using hpos, fun _ => rfl, fun r hr => by contradiction⟩
  · intro k u _ hu
    rw [hprog] at hu
    contradiction
  · intro k c hu
    rw [hsent] at hu
    contradiction
  · intro j v hv
    rw [hrcq] at hv
    contradiction
  · rw [hbr]
    simp
  · rw [hbr]
    exact .nil
  · rw [hxr]
    simp

end Inv

/-! ## Runs -/

section Runs

variable [NeZero N] {r : (shim N R T).Run} {t t' k : ℕ}

/-- What the queue waits for comes: the operands of a uop that stays, the PNR
    getting past it, and an accelerator that takes commands. -/
structure Fair (r : (shim N R T).Run) : Prop where
  operands : ∀ t k, k < (r.state t).prog.length → ∃ t' ≥ t, (r.state t').prog.length ≤ k ∨
    ∃ u : Rocc N T, (r.state t').prog[k]? = some u ∧ u.ops ≠ none
  pnr : ∀ t k, k < (r.state t).prog.length → ∃ t' ≥ t, (r.state t').prog.length ≤ k ∨
    k < (r.state t').sent.length ∨
    ∃ u : Rocc N T, (r.state t').prog[k]? = some u ∧ Shim.older (r.input t') u.uop = true
  accepts : ∀ t, ∃ t' ≥ t, (r.input t').cmd_ready = true ∧ (r.state t').rcq.length < R

/-- Commands are issued in program order, exactly once and never speculatively,
    and answered in order. -/
structure Issues (r : (shim N R T).Run) : Prop where
  /-- what has been sent is what comes first in the program -/
  sent : ∀ t, (r.state t).sent.map some <+: (r.state t).prog.map Rocc.cmd
  /-- the PNR has passed it, and it is not thrown away -/
  passed : ∀ t k (u : Rocc N T), (r.state t).prog[k]? = some u → k < (r.state t).sent.length →
    u.passed = true
  kept : ∀ t, (r.state (t + 1)).sent.length ≤ (r.state t).kept (r.input t)
  /-- what stays is sent at last -/
  progress : Fair r → ∀ t k, (∀ t' ≥ t, k < (r.state t').prog.length) →
    ∃ t' ≥ t, k < (r.state t').sent.length
  free : ∀ t, (r.state t).enq (r.input t) ≠ none →
    (r.state t).rxq_val (r.state t).rxq_tail = false
  ring : ∀ t, dist (r.state t).rxq_head (r.state t).rxq_com_head ≤
    dist (r.state t).rxq_head (r.state t).rxq_tail
  /-- what is written back belongs to the oldest command without an answer -/
  answer : ∀ t v d, (r.state t).resp (r.input t) = some (v, d) →
    d = (r.input t).cmd_resp_data ∧ (r.state t).answered < (r.state t).sent.length ∧
      ∃ u : Rocc N T, (r.state t).prog[(r.state t).answered]? = some u ∧
        v = { u.uop with br_mask := v.br_mask }
  /-- an answer of the accelerator that is taken is written back -/
  taken : ∀ t, (r.input t).cmd_resp_valid = true → (r.state t).cmd_resp_ready (r.input t) = true →
    ∃ v, (r.state t).resp (r.input t) = some (v, (r.input t).cmd_resp_data) ∧ v.dst_rtype ≠ .RT_X

theorem inv_run (hot : ∀ t, (r.state t).OnTime) (t : ℕ) : Inv (r.state t) := by
  induction t with
  | zero => exact Inv.start r.start
  | succ t ih =>
    rw [r.next]
    exact ih.next (r.ok t) (hot t)

theorem sent_next : (r.state (t + 1)).sent.length =
    (r.state t).sent.length + ((r.state t).sends R (r.input t)).toNat := by
  rw [r.next]
  show ((r.state t).sent ++ _).length = _
  cases (r.state t).sends R (r.input t) <;> simp

theorem com_next : (r.state (t + 1)).com =
    (r.state t).com + ((r.state t).commits (r.input t)).toNat := by
  rw [r.next]
  rfl

theorem sent_mono (h : t ≤ t') : (r.state t).sent.length ≤ (r.state t').sent.length :=
  monotone_nat_of_le_succ (f := fun t => (r.state t).sent.length)
    (fun t => by rw [sent_next]; exact Nat.le_add_right _ _) h

theorem com_mono (h : t ≤ t') : (r.state t).com ≤ (r.state t').com :=
  monotone_nat_of_le_succ (f := fun t => (r.state t).com)
    (fun t => by rw [com_next]; exact Nat.le_add_right _ _) h

/-- Operands are not lost while the uop stays. -/
theorem ops_stay (hot : ∀ t, (r.state t).OnTime) (hstay : ∀ t' ≥ t, k < (r.state t').prog.length)
    {u : Rocc N T} (hu : (r.state t).prog[k]? = some u) (hops : u.ops ≠ none) (h : t ≤ t') :
    ∃ v : Rocc N T, (r.state t').prog[k]? = some v ∧ v.ops ≠ none := by
  induction t', h using Nat.le_induction with
  | base => exact ⟨u, hu, hops⟩
  | succ t' hle ih =>
    obtain ⟨v, hv, hvo⟩ := ih
    have hi := inv_run hot t'
    obtain ⟨w, hw⟩ := Inv.exists_of_lt (hstay (t' + 1) (by omega))
    refine ⟨w, hw, ?_⟩
    rw [r.next] at hw
    rcases (hi.prog_next (r.ok t')).1 hw with ⟨-, u', hu', rfl⟩ | ⟨hk, u', hu', -⟩
    · rw [hv, Option.some_inj] at hu'
      subst hu'
      rw [← Option.isSome_iff_ne_none] at hvo ⊢
      simp only [Rocc.next, Option.isSome_or, hvo, Bool.or_true]
    · -- nothing is dispatched in the place of a uop
      have hlt := (List.getElem?_eq_some_iff.1 hv).1
      rw [(hi.quiet_of_dis (r.ok t') (Inv.dis_ne_nil hu')).2.2.1] at hk
      omega

/-- What stays is sent. -/
theorem progress (hot : ∀ t, (r.state t).OnTime) (hf : Fair r)
    (hstay : ∀ t' ≥ t, k < (r.state t').prog.length) : ∃ t' ≥ t, k < (r.state t').sent.length := by
  induction k with
  | zero => exact step_of_first le_rfl (Nat.zero_le _) hstay
  | succ k ih =>
    obtain ⟨t1, h1, hs⟩ := ih fun t' ht => (Nat.lt_succ_self k).trans (hstay t' ht)
    exact step_of_first h1 hs hstay
where
  /-- the uop that is the next to be sent is sent -/
  step_of_first {t t1 k : ℕ} (h1 : t ≤ t1) (hs : k ≤ (r.state t1).sent.length)
      (hstay : ∀ t' ≥ t, k < (r.state t').prog.length) :
      ∃ t' ≥ t, k < (r.state t').sent.length := by
    by_contra hnever
    have hle : ∀ t' ≥ t, (r.state t').sent.length ≤ k := fun t' ht => by
      by_contra hgt
      exact hnever ⟨t', ht, Nat.lt_of_not_le hgt⟩
    have heq : ∀ t' ≥ t1, (r.state t').sent.length = k := fun t' ht =>
      le_antisymm (hle t' (h1.trans ht)) (hs.trans (sent_mono ht))
    -- `rxq_com_head` gets past it
    have hcom : ∃ t2 ≥ t1, k < (r.state t2).com := by
      obtain ⟨t2, h2, hp⟩ := hf.pnr t1 k (hstay t1 h1)
      have hi := inv_run hot t2
      have hst := hstay t2 (h1.trans h2)
      have hsent := heq t2 h2
      rcases hp with hp | hp | ⟨u, hu, ho⟩
      · omega
      · omega
      · by_cases hlt : k < (r.state t2).com
        · exact ⟨t2, h2, hlt⟩
        · have hk : (r.state t2).com = k := by
            have := hi.order.1
            omega
          have he := hi.entry k u hsent.le hu
          have hc : (r.state t2).commits (r.input t2) = true := by
            have ho' : Shim.older (r.input t2) ((r.state t2).rxq_uop (place N k)) = true := by
              rw [he.uop]
              exact ho
            rw [Shim.commits, hi.com_head, hk, he.val, ho']
            rfl
          refine ⟨t2 + 1, by omega, ?_⟩
          rw [com_next, hc, hk]
          exact Nat.lt_succ_self k
    obtain ⟨t2, h2, hcom⟩ := hcom
    obtain ⟨t3, h3, hops⟩ := hf.operands t2 k (hstay t2 (h1.trans h2))
    obtain ⟨u, hu, hops⟩ := hops.resolve_left (Nat.not_le.2 (hstay t3 (h1.trans (h2.trans h3))))
    obtain ⟨t4, h4, hready, hroom⟩ := hf.accepts t3
    have h14 : t1 ≤ t4 := h2.trans (h3.trans h4)
    obtain ⟨v, hv, hvo⟩ := ops_stay hot
      (fun t' ht => hstay t' (h1.trans ((h2.trans h3).trans ht))) hu hops h4
    have hi := inv_run hot t4
    have hsent := heq t4 h14
    have he := hi.entry k v hsent.le hv
    have hsends : (r.state t4).sends R (r.input t4) = true := by
      have hc := he.committed.2 (hcom.trans_le (com_mono (h3.trans h4)))
      have ho : (r.state t4).rxq_op_val (place N k) = true := by
        rw [he.op_val, Option.isSome_iff_ne_none]
        exact hvo
      simp [Shim.sends, hi.head, hsent, ho, he.val, hc, hready, hroom]
    have hlast := heq (t4 + 1) (by omega)
    rw [sent_next, hsends, hsent, Bool.toNat_true] at hlast
    omega

/-- **In a run in which no flush finds the tail about to be moved, RoCC commands
    are issued in order, exactly once and never speculatively.** -/
theorem commands_in_order (r : (shim N R T).Run) (hot : ∀ t, (r.state t).OnTime) : Issues r := by
  have hinv := inv_run hot
  refine ⟨fun t => ?_, fun t k u hu hk => ?_, fun t => ?_, fun hf t k hstay => progress hot hf hstay,
    fun t hv => ?_, fun t => ?_, fun t v d hr => ?_, fun t hv hr => ?_⟩
  · have h := hinv t
    have hlen := h.order.1.trans h.order.2
    rw [List.prefix_iff_getElem?]
    intro k hk
    rw [List.length_map] at hk
    obtain ⟨u, hu, hcmd, -⟩ := h.sent k _ (List.getElem?_eq_getElem hk)
    rw [List.getElem?_map, hu, List.getElem_map, Option.map_some, hcmd]
  · obtain ⟨c, hc⟩ := Inv.exists_of_lt hk
    obtain ⟨v, hv, -, hp⟩ := (hinv t).sent k c hc
    rw [hu, Option.some_inj] at hv
    exact hv ▸ hp
  · rw [sent_next]
    have h1 := (hinv t).sent_le_com (R := R) (i := r.input t)
    have h2 := ((hinv t).com_le_kept (r.ok t)).1
    omega
  · exact ((hinv t).tail_free (r.ok t) hv).2.1
  · have h := hinv t
    obtain ⟨h1, h2⟩ := h.order
    obtain ⟨tl, htl, h3, h4, -⟩ := h.tail
    rw [h.head, h.com_head, htl, dist_place h1 (by omega), dist_place (by omega) h4]
    omega
  · have h := hinv t
    rw [Shim.resp] at hr
    split_ifs at hr
    obtain ⟨w, hw, he⟩ := Option.map_eq_some_iff.1 hr
    cases he
    rw [List.head?_eq_getElem?] at hw
    have hlt := (List.getElem?_eq_some_iff.1 hw).1
    have hans := h.answered
    exact ⟨rfl, by omega, h.rcq 0 v hw⟩
  · have h := hinv t
    obtain ⟨u, hu, -⟩ := (r.ok t).answer hv
    have hne : (r.state t).rcq ≠ [] := by
      intro hnil
      have hans := h.answered
      rw [hnil, List.length_nil, Nat.add_zero] at hans
      rw [hans, List.drop_eq_nil_of_le (List.length_take_le _ _)] at hu
      contradiction
    obtain ⟨v, l, hl⟩ := List.exists_cons_of_ne_nil hne
    rw [Shim.cmd_resp_ready, Bool.and_eq_true, decide_eq_true_eq, Shim.deq_rtype, hl] at hr
    refine ⟨v, ?_, hr.2⟩
    have hh : (r.state t).handle_resp (r.input t) = true := by
      simp [Shim.handle_resp, hv, hr.1, hl]
    rw [Shim.resp, if_pos hh, hl]
    rfl

end Runs

/-! ## A flush that meets a misprediction -/

instance masksExact (ts : List (Fin T)) (us : List (MicroOp N T)) : Decidable (MasksExact ts us) :=
  match us with
  | [] => .isTrue trivial
  | u :: us =>
    have := masksExact (if u.allocate_brtag then ts ++ [u.br_tag] else ts) us
    inferInstanceAs (Decidable (_ ∧ _))

/-- `Shim.Ok`, by evaluation. -/
def okTest [NeZero N] (s : Shim N T) (i : In N T) : Bool :=
  (i.exception = true → i.rob_ready = false) ∧
  (∀ u ∈ s.dis i, u.rocc_val = true → u.allocate_brtag = false) ∧
  MasksExact ((s.unresolved i).map (·.tag)) (s.dis i) ∧
  (Shim.mispredicts i = true → (s.mispredicted i).map (·.rxq_idx) = some i.oldest_rxq_idx) ∧
  (∀ x ∈ s.inFlight, Shim.older i x.1.uop = true → ∀ b ∈ s.branches, x.2 < b.before) ∧
  (i.exception = true → ∀ x ∈ s.inFlight, x.1.passed = false ∧ Shim.older i x.1.uop = false) ∧
  (∀ q ∈ i.req, ∀ k ∈ q.number, ∃ u ∈ s.prog[k]?, u.ops = none ∧
    q.uop.rob_idx = u.uop.rob_idx ∧ q.uop.rxq_idx = u.uop.rxq_idx ∧ q.uop.pdst = u.uop.pdst ∧
    ∀ t, q.uop.br_mask t = true ↔ ∃ b ∈ s.branches, b.tag = t ∧ b.before ≤ k) ∧
  (∀ q ∈ i.req, q.number = none → s.exception_r = true) ∧
  (i.cmd_resp_valid = true →
    ∃ u ∈ (s.prog.take s.sent.length).drop s.answered, u.uop.dst_rtype ≠ .RT_X)

theorem ok_of_okTest [NeZero N] {s : Shim N T} {i : In N T} (h : okTest s i = true) : s.Ok i := by
  rw [okTest, decide_eq_true_eq] at h
  obtain ⟨h1, h2, h3, h4, h5, h6, h7, h8, h9⟩ := h
  exact ⟨h1, h2, h3, h4, h5, h6, h7, h8, h9⟩

/-- A uop that is no command. -/
def noUop : MicroOp 4 1 :=
  ⟨false, 0, 0, 0, fun _ => false, false, 0, 0, 0, .RT_X, false⟩

/-- A branch. -/
def branch : MicroOp 4 1 := { noUop with rob_idx := 2, allocate_brtag := true }

/-- A command. -/
def custom0 : MicroOp 4 1 := { noUop with uopROCC := true, inst := 0x0b, rob_idx := 1 }

/-- A cycle in which the accelerator is ready and the PNR is at `pnr`. -/
def idle (pnr : ℕ) : In 4 1 where
  dis_uops := []
  rob_ready := true
  redirect_flush := false
  req := none
  brupdate := ⟨fun _ => false, fun _ => false⟩
  oldest_rxq_idx := 0
  rob_pnr_idx := pnr
  rob_head_idx := 0
  exception := false
  cmd_ready := true
  cmd_resp_valid := false
  cmd_resp_data := 0
  resp_ready := true
  stale := .RT_X

/-- A RoCC uop and a branch are dispatched; the branch is mispredicted in the
    cycle in which an older uop throws.  One cycle later the tail goes to the
    index that the branch saved, and the next RoCC uop follows there. -/
def flushed : ℕ → In 4 1
  | 0 => { idle 0 with dis_uops := [⟨true, false, custom0⟩, ⟨true, false, branch⟩] }
  | 1 => { idle 0 with
      rob_ready := false, exception := true, brupdate := ⟨fun _ => true, fun _ => true⟩,
      oldest_rxq_idx := 1 }
  | 2 => idle 0
  | 3 => { idle 0 with dis_uops := [⟨true, false, custom0⟩] }
  | 4 => { idle 0 with req := some ⟨{ custom0 with rxq_idx := 1 }, 5, 6, some 0⟩ }
  | _ => idle 2

/-- The shim after reset. -/
def empty : Shim 4 1 where
  rxq_val _ := false
  rxq_op_val _ := false
  rxq_committed _ := false
  rxq_uop _ := noUop
  rxq_inst _ := 0
  rxq_rs1 _ := 0
  rxq_rs2 _ := 0
  rcq := []
  rxq_head := 0
  rxq_com_head := 0
  rxq_tail := 0
  exception_r := false
  b2 := none
  prog := []
  sent := []
  com := 0
  answered := 0
  branches := []

theorem ok_idle {s : Shim 4 1} (h : s.branches = []) (pnr : ℕ) : s.Ok (idle pnr) := by
  refine ⟨by simp [idle], ?_, ?_, ?_, ?_, by simp [idle], by simp [idle], by simp [idle], by simp [idle]⟩
  · simp [Shim.dis, Shim.dis_fire, idle, Shim.fires, Shim.indexed]
  · simp [Shim.dis, Shim.dis_fire, idle, Shim.fires, Shim.indexed, MasksExact]
  · simp [Shim.mispredicts, idle]
  · rw [h]
    simp

theorem branches_idle {s : Shim 4 1} (h : s.branches = []) (pnr : ℕ) :
    (s.next 2 (idle pnr)).branches = [] := by
  simp [Shim.next, Shim.dis, Shim.dis_fire, idle, Shim.fires, Shim.indexed, newBranches,
    Shim.unresolved, h]

/-- The queue waits at an entry that is not in use. -/
structure Stuck (s : Shim 4 1) : Prop where
  head : s.rxq_head = 0 ∧ s.rxq_com_head = 0
  val : s.rxq_val 0 = false
  rcq : s.rcq = []
  sent : s.sent = [] ∧ s.answered = 0
  prog : ∃ p, s.prog = [⟨{ custom0 with rxq_idx := 1 }, some (5, 6), p⟩]
  branches : s.branches = []

theorem Stuck.next {s : Shim 4 1} (h : Stuck s) : Stuck (s.next 2 (idle 2)) := by
  have henq : s.enq (idle 2) = none := rfl
  have hsends : s.sends 2 (idle 2) = false := by simp [Shim.sends, h.head.1, h.val]
  have hcommits : s.commits (idle 2) = false := by simp [Shim.commits, h.head.2, h.val]
  have hresp : s.handle_resp (idle 2) = false := by simp [Shim.handle_resp, h.rcq]
  have hkept : s.kept (idle 2) = 1 := by
    obtain ⟨p, hp⟩ := h.prog
    simp [Shim.kept, Shim.mispredicted, idle, h.branches, hp]
  obtain ⟨p, hp⟩ := h.prog
  refine ⟨?_, ?_, ?_, ?_, ⟨p || Shim.older (idle 2) { custom0 with rxq_idx := 1 }, ?_⟩, ?_⟩
  · simp [Shim.next, hsends, hcommits, h.head]
  · simp [Shim.next, Shim.nextVal, h.val, henq]
  · simp [Shim.next, hsends, h.rcq]
  · simp [Shim.next, hsends, hresp, h.sent]
  · show (s.prog.take (s.kept (idle 2))).mapIdx (Rocc.next (idle 2)) ++
      ((s.dis (idle 2)).filter MicroOp.rocc_val).map _ = _
    rw [hkept, hp]
    rfl
  · exact branches_idle h.branches 2

theorem stuck_stream (t : ℕ) (ht : 5 ≤ t) : Stuck ((shim 4 2 1).stream empty flushed t) := by
  induction t, ht using Nat.le_induction with
  | base => exact ⟨by decide, by decide +kernel, by decide, by decide, ⟨false, by decide +kernel⟩,
      by decide⟩
  | succ t ht ih =>
    obtain ⟨k, rfl⟩ := Nat.exists_eq_add_of_le ht
    rw [Nat.add_comm 5 k] at ih ⊢
    exact ih.next

/-- The run of the inputs above. -/
def stuckRun : (shim 4 2 1).Run :=
  .of empty flushed
    ⟨fun _ => rfl, fun _ => rfl, fun _ => rfl, rfl, rfl, rfl, rfl, rfl, rfl, rfl, rfl, rfl, rfl, rfl⟩
    fun t => match t with
    | 0 => ok_of_okTest (by decide +kernel)
    | 1 => ok_of_okTest (by decide +kernel)
    | 2 => ok_of_okTest (by decide +kernel)
    | 3 => ok_of_okTest (by decide +kernel)
    | 4 => ok_of_okTest (by decide +kernel)
    | t + 5 => ok_idle (stuck_stream (t + 5) (Nat.le_add_left 5 t)).branches 2

theorem stuckRun_fair : Fair stuckRun := by
  have hstuck (t : ℕ) : Stuck (stuckRun.state (t + 5)) := stuck_stream (t + 5) (Nat.le_add_left 5 t)
  have hbeyond (t k : ℕ) (hk : k ≠ 0) : (stuckRun.state (t + 5)).prog.length ≤ k := by
    obtain ⟨p, hp⟩ := (hstuck t).prog
    rw [hp, List.length_singleton]
    omega
  refine ⟨fun t k _ => ⟨t + 5, by omega, ?_⟩, fun t k _ => ⟨t + 5, by omega, ?_⟩,
    fun t => ⟨t + 5, by omega, rfl, by rw [(hstuck t).rcq]; decide⟩⟩
  · by_cases hk : k = 0
    · subst hk
      obtain ⟨p, hp⟩ := (hstuck t).prog
      exact .inr ⟨_, by rw [hp]; rfl, by simp⟩
    · exact .inl (hbeyond t k hk)
  · by_cases hk : k = 0
    · subst hk
      obtain ⟨p, hp⟩ := (hstuck t).prog
      refine .inr (.inr ⟨_, by rw [hp]; rfl, ?_⟩)
      show Shim.older (idle 2) { custom0 with rxq_idx := 1 } = true
      decide
    · exact .inl (hbeyond t k hk)

/-- A command that is dispatched after the flush is never sent, though its
    operands are there, the PNR has passed it and the accelerator is ready. -/
theorem command_never_sent : ¬ ∀ r : (shim 4 2 1).Run, Issues r := by
  intro h
  have hstuck (t : ℕ) (ht : 5 ≤ t) : Stuck (stuckRun.state t) := stuck_stream t ht
  obtain ⟨t, ht, hlt⟩ := (h stuckRun).progress stuckRun_fair 5 0 fun t ht => by
    obtain ⟨p, hp⟩ := (hstuck t ht).prog
    rw [hp]
    exact Nat.one_pos
  rw [(hstuck t ht).sent.1] at hlt
  exact absurd hlt (Nat.not_lt_zero 0)

/-- A command with an answer. -/
def custom1 : MicroOp 4 1 := { custom0 with inst := 0x2b, rob_idx := 2, dst_rtype := .RT_FIX }

/-- A command and a branch are dispatched, and one behind the branch, which is
    killed when the branch mispredicts.  The first is sent; an exception throws
    away what was dispatched in the place of the other; the next command there is
    sent and answered. -/
def inputs : List (In 4 1) :=
  [{ idle 0 with dis_uops := [⟨true, false, custom0⟩, ⟨true, false, branch⟩] },
    { idle 0 with
      dis_uops := [⟨true, false, { custom1 with rob_idx := 3, br_mask := fun _ => true }⟩]
      req := some ⟨custom0, 5, 6, some 0⟩ },
    { idle 0 with brupdate := ⟨fun _ => true, fun _ => true⟩, oldest_rxq_idx := 1 },
    idle 0,
    { idle 2 with dis_uops := [⟨true, false, custom1⟩] },
    idle 2, idle 2,
    { idle 2 with rob_ready := false, exception := true },
    idle 2,
    { idle 2 with dis_uops := [⟨true, false, custom1⟩] },
    { idle 2 with req := some ⟨{ custom1 with rxq_idx := 1 }, 7, 8, some 1⟩ },
    idle 3, idle 3,
    { idle 3 with cmd_resp_valid := true, cmd_resp_data := 9 }]

/-- What comes after them is `idle`. -/
def sending (t : ℕ) : In 4 1 := inputs.getD t (idle 3)

/-- All of them are promised, and no branch is left. -/
theorem sending_ok :
    (∀ t < 14, okTest ((shim 4 2 1).stream empty sending t) (sending t) = true) ∧
      ((shim 4 2 1).stream empty sending 14).branches = [] := by
  decide +kernel

theorem sending_of_le {t : ℕ} (h : 14 ≤ t) : sending t = idle 3 :=
  by rw [sending, List.getD_eq_getElem?_getD, List.getElem?_eq_none h, Option.getD_none]

theorem branches_sending {t : ℕ} (h : 14 ≤ t) :
    ((shim 4 2 1).stream empty sending t).branches = [] := by
  induction t, h using Nat.le_induction with
  | base => exact sending_ok.2
  | succ t ht ih =>
    show ((_ : Shim 4 1).next 2 (sending t)).branches = []
    rw [sending_of_le ht]
    exact branches_idle ih 3

/-- The run of the inputs above. -/
def sendingRun : (shim 4 2 1).Run :=
  .of empty sending
    ⟨fun _ => rfl, fun _ => rfl, fun _ => rfl, rfl, rfl, rfl, rfl, rfl, rfl, rfl, rfl, rfl, rfl, rfl⟩
    fun t => by
      rcases Nat.lt_or_ge t 14 with h | h
      · exact ok_of_okTest (sending_ok.1 t h)
      · rw [sending_of_le h]
        exact ok_idle (branches_sending h) 3

/-- The exception meets no misprediction. -/
theorem sendingRun_onTime (t : ℕ) : (sendingRun.state t).OnTime := by
  cases t with
  | zero => exact fun h => by contradiction
  | succ t =>
    intro hx r hr
    have hx : (sending t).exception = true := hx
    rcases Nat.lt_or_ge t 14 with h | h
    · have h7 : ∀ t < 14, (sending t).exception = true → t = 7 := by decide
      obtain rfl := h7 t h hx
      have hnone : (sendingRun.state 8).b2 = none := rfl
      rw [hnone] at hr
      contradiction
    · rw [sending_of_le h] at hx
      contradiction

theorem commands_in_order_sending :
    Issues sendingRun ∧
      ((sendingRun.state 2).prog.length = 2 ∧ (sendingRun.state 3).prog.length = 1) ∧
      (sendingRun.state 14).sent = [⟨0x0b, 5, 6⟩, ⟨0x2b, 7, 8⟩] ∧
      ((sendingRun.state 13).resp (sendingRun.input 13)).map Prod.snd = some 9 :=
  ⟨commands_in_order sendingRun sendingRun_onTime, by decide +kernel⟩

end BoomStop.RoccShim
