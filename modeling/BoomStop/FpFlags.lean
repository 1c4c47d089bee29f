/-
  The flags of floating-point instructions (`rob.scala`, `fp-pipeline.scala`,
  `execution-unit.scala`).  The units write them to a table beside the ROB, on
  ports that are valid on their own, and commit takes them from there.

  * `FlagsSys.shown`: what the queue of the conversions from integers shows on
    the port that it shares with the loads, whether the conversion is still
    valid or not;
  * `FlagsSys.next`: one cycle of the units, the ROB and the table;
  * `FlagsSys.commit_fflags`: what commit gives to the CSR file;
  * `FlagsSys.Ok`: what dispatch, the issue units and the LSU promise;
  * `FlagsSys.Stale`: what is shown is for a row that has been given away.
-/
import BoomStop.FpuExeUnit
import BoomStop.Lib.Writes

namespace BoomStop.FpFlags

open KillableQueue (MicroOp Bits)
open Issue (BrUpdate isKilledByBranch getNewBrMask)
open FuncUnit ExeUnit

variable {W N T : ℕ} {O R : Type}

/-! ## The units, the ROB and the table -/

/-- `FLAGS_SZ` bits. -/
abbrev Flags := BitVec 5

/-- Arithmetic is what computes flags: conversions, too. -/
inductive Kind
  | arith | fpLoad | fpStore | fence | other
  deriving DecidableEq

/-- `fp_val`. -/
def Kind.fp_val (k : Kind) : Bool := k ∈ [Kind.arith, .fpLoad, .fpStore]

/-- `uses_stq`, for a floating-point store. -/
def Kind.uses_stq (k : Kind) : Bool := k = .fpStore

/-- What stays of an instruction; they are numbered as they are dispatched. -/
structure Instr (N : ℕ) (O : Type) where
  seq : ℕ
  rob_idx : Fin N
  kind : Kind
  operands : O

/-- A valid entry of the ROB.  Ghosts: whether it has been issued, and whether the
    pipeline has been flushed since it was dispatched. -/
structure Entry (T N : ℕ) (O : Type) where
  uop : MicroOp T (Instr N O)
  bsy : Bool
  issued : Bool
  flushed : Bool

/-- A port for flags: the uop and its flags, if it is valid. -/
abbrev FFlags (N : ℕ) (O : Type) := Option (Instr N O × Flags)

/-- The codes of the units that compute flags. -/
def computes (u : Uop (Instr N O)) : Bool := u.fu ∈ [Fu.FPU, .FDV, .F2I, .I2F]

/-- What a unit gives for a uop; of the results only the flags are kept. -/
def fflags (flags : Instr N O → Flags) (u : Uop (Instr N O)) : FFlags N O :=
  if computes u then some (u.args, flags u.args) else none

/-- The flags that the units compute. -/
structure FlagOps (N : ℕ) (O R : Type) where
  flags : Instr N O → Flags
  raw : Uop (Instr N O) → R
  down : Uop (Instr N O) → R → Flags
  flags_div : ∀ u : Uop (Instr N O), u.fu = .FDV → down u (raw u) = flags u.args

/-- The units of an FPU, with flags as data. -/
def FlagOps.fpOps (ops : FlagOps N O R) : FpOps (Instr N O) R (FFlags N O) where
  value := fflags ops.flags
  raw := ops.raw
  down u r := some (u.args, ops.down u r)
  value_div u h := by
    rw [fflags, computes, h, ops.flags_div u h]
    rfl

/-- The unit with the conversions from integers, and the floating-point units. -/
structure Cfg (W : ℕ) where
  alu : AluCfg
  fpu : Fin W → FpuCfg

/-- The units with the table of flags of the ROB. -/
structure FlagsSys (c : Cfg W) (N T : ℕ) (O R : Type) where
  alu : AluExe c.alu T (Instr N O) (FFlags N O)
  fpu : (w : Fin W) → FpuExe (c.fpu w) T (Instr N O) R (FFlags N O)
  rob : Fin N → Option (Entry T N O)
  rob_fflags : Fin N → Flags
  dispatched : ℕ

/-- The inputs of a cycle. -/
structure FlagsIn (W N T : ℕ) (O R : Type) where
  enq_uops : List (MicroOp T (Instr N O))
  alu_iss : Option (MicroOp T (Uop (Instr N O)))
  squash : Bool
  fpu_iss : Fin W → Option (MicroOp T (Uop (Instr N O)))
  brupdate : BrUpdate T
  /-- `flush_pipeline` -/
  kill : Bool
  finish : Bool
  ll_iresp_ready : Fin W → Bool
  divsqrt_ready : Fin W → Bool
  divsqrt_out : Fin W → Option R
  /-- the load that is written back on `ll_wports(0)` -/
  load : Option (Fin N)
  /-- what the other units and the LSU have done -/
  clr_bsy : List (Fin N)
  commit : List (Fin N)
  rollback : List (Fin N)

namespace FlagsIn

variable (i : FlagsIn W N T O R)

/-- The arbiter takes the load first. -/
def aluIn : AluIn T (Instr N O) (FFlags N O) :=
  ⟨i.alu_iss, i.squash, i.brupdate, i.kill, i.load.isNone, i.finish, none⟩

/-- What an FPU gets. -/
def fpuIn (w : Fin W) : FpuIn T (Instr N O) R (FFlags N O) :=
  ⟨i.fpu_iss w, i.brupdate, i.kill, i.ll_iresp_ready w, i.divsqrt_ready w, i.divsqrt_out w, none⟩

/-- The uops that are issued. -/
def issues : List (MicroOp T (Uop (Instr N O))) :=
  (AluExe.new i.aluIn).toList ++ (List.finRange W).filterMap i.fpu_iss

/-- The uop of the entry is issued. -/
def issued (r : Fin N) : Bool := i.issues.any fun u => u.fields.args.rob_idx = r

end FlagsIn

namespace FlagsSys

variable {c : Cfg W} (ops : FlagOps N O R) (s : FlagsSys c N T O R) (i : FlagsIn W N T O R)

/-! ### The ports -/

/-- `queue.io.deq.bits.fflags`, which is there if the queue has nothing valid, too:
    an empty queue shows what leaves the unit. -/
def shown : FFlags N O :=
  if s.alu.queue.q.empty then
    (ShiftReg.out (s.alu.stage (fflags ops.flags) i.aluIn [.I2F]) s.alu.ifpu).data
  else (s.alu.queue.q.ram s.alu.queue.q.deq_ptr).data

/-- `io.wakeups(0).bits.fflags`: a load has none. -/
def ll_fflags : FFlags N O := if i.load.isSome then none else s.shown ops i

/-- Those of a floating-point unit: the result of the FPU goes first, also if it
    goes to the integer side. -/
def fpu_fflags (w : Fin W) : FFlags N O :=
  match (s.fpu w).fpuResp ops.fpOps (i.fpuIn w) with
  | some x => x.data
  | none => ((s.fpu w).fdiv.resp i.brupdate ops.fpOps.down).bind Bits.data

/-- `rob.io.fflags` -/
def fflagsWrites : List (Instr N O × Flags) :=
  (s.ll_fflags ops i).toList ++ (List.finRange W).filterMap (s.fpu_fflags ops i)

/-- What is written back; store data is not. -/
def wbFrom (w : Fin W) : List (Uop (Instr N O)) :=
  (((s.fpu w).fresp ops.fpOps (i.fpuIn w)).toList ++
    ((s.fpu w).ll_iresp ops.fpOps (i.fpuIn w)).toList.filter (·.uop.fields.fu ≠ .STA)).map (·.uop.fields)

/-- The write-backs of the cycle. -/
def wb_resps : List (Uop (Instr N O)) :=
  (s.alu.ll_fresp (fflags ops.flags) i.aluIn).toList.map (·.uop.fields) ++
    (List.finRange W).flatMap (s.wbFrom ops i)

/-- The entry is written back. -/
def wb (r : Fin N) : Bool :=
  (s.wb_resps ops i).any (fun f => f.args.rob_idx = r) || i.load = some r || i.clr_bsy.contains r

/-! ### A cycle -/

/-- An entry that is not given back. -/
def keep (e : Entry T N O) (wb issued : Bool) : Option (Entry T N O) :=
  if isKilledByBranch i.brupdate e.uop.br_mask then none
  else some ⟨e.uop.update i.brupdate, e.bsy && !wb, e.issued || issued, e.flushed || i.kill⟩

/-- An entry, in the next cycle. -/
def robNext (r : Fin N) : Option (Entry T N O) :=
  match i.enq_uops.find? fun u => u.fields.rob_idx = r with
  | some u => some ⟨u, u.fields.kind ≠ .fence, false, false⟩
  | none =>
    if i.commit.contains r || i.rollback.contains r then none
    else (s.rob r).bind fun e => keep i e (s.wb ops i r) (i.issued r)

/-- One cycle. -/
def next : FlagsSys c N T O R where
  alu := s.alu.next (fflags ops.flags) i.aluIn
  fpu w := (s.fpu w).next ops.fpOps (i.fpuIn w)
  rob := s.robNext ops i
  rob_fflags := Writes.writes ((s.fflagsWrites ops i).map fun w => (w.1.rob_idx, w.2)) fun r =>
    if i.enq_uops.any fun u => u.fields.rob_idx = r then 0 else s.rob_fflags r
  dispatched := s.dispatched + i.enq_uops.length

/-! ### Commit -/

/-- `Mux(fflags_val(w), rob_head_fflags(w), 0.U)` -/
def commitOne (r : Fin N) : Flags :=
  if (s.rob r).any fun e => e.uop.fields.kind.fp_val && !e.uop.fields.kind.uses_stq then s.rob_fflags r
  else 0

/-- `io.commit.fflags.bits` -/
def commit_fflags : Flags := (i.commit.map s.commitOne).foldl (· ||| ·) 0

/-- What should be committed: the flags that arithmetic computes. -/
def computedOne (flags : Instr N O → Flags) (r : Fin N) : Flags :=
  match s.rob r with
  | some e => if e.uop.fields.kind = .arith then flags e.uop.fields else 0
  | none => 0

/-- What the uops that commit compute, together. -/
def computed (flags : Instr N O → Flags) : Flags :=
  (i.commit.map (s.computedOne flags)).foldl (· ||| ·) 0

/-! ### What the other parts promise -/

/-- What dispatch, the issue units, the ROB and the LSU do. -/
structure Ok : Prop where
  alu : s.alu.Ok i.aluIn
  fpu : ∀ w, (s.fpu w).Ok ops.fpOps (i.fpuIn w)
  /-- a uop that is issued is that of its entry, and is issued once -/
  issue : ∀ u ∈ i.issues, ∃ e, s.rob u.fields.args.rob_idx = some e ∧
    e.uop = ⟨u.fields.args, u.br_mask⟩ ∧ e.issued = false ∧ e.flushed = false
  once : (i.issues.map fun u => u.fields.args.rob_idx).Nodup
  kinds : ∀ u ∈ i.issues, computes u.fields = true → u.fields.args.kind = .arith
  /-- nothing is issued in the cycle of a flush -/
  kill : i.kill = true → i.issues = []
  /-- a row is given to a uop when it is free -/
  free : ∀ u ∈ i.enq_uops, s.rob u.fields.rob_idx = none
  rows : (i.enq_uops.map fun u => u.fields.rob_idx).Nodup
  seq : i.enq_uops.map (fun u => u.fields.seq) = List.range' s.dispatched i.enq_uops.length
  hazard : i.enq_uops ≠ [] → i.kill = false ∧ ∀ t, i.brupdate.mispredict_mask t = false
  load : ∀ r ∈ i.load, ∃ e, s.rob r = some e ∧ e.uop.fields.kind = .fpLoad
  clr_bsy : ∀ r ∈ i.clr_bsy, ∀ e, s.rob r = some e → e.uop.fields.kind ≠ .arith
  commit : ∀ r ∈ i.commit, ∃ e, s.rob r = some e ∧ e.bsy = false
  /-- what is rolled back has been flushed -/
  rollback : ∀ r ∈ i.rollback, ∀ e, s.rob r = some e → e.flushed = true ∨ i.kill = true

/-- After reset. -/
structure Reset : Prop where
  alu : s.alu.Reset
  ifpu : ∀ st ∈ s.alu.ifpu, st.data = none
  fpu : ∀ w, (s.fpu w).Reset
  rob : ∀ r, s.rob r = none
  dispatched : s.dispatched = 0

/-! ### What goes wrong -/

/-- Another uop has the row, or gets it now. -/
def Given (x : Instr N O) : Prop :=
  (∃ e, s.rob x.rob_idx = some e ∧ e.uop.fields ≠ x) ∨
    ∃ u ∈ i.enq_uops, u.fields.rob_idx = x.rob_idx ∧ u.fields ≠ x

/-- No load is written back, the queue has nothing valid, and what it shows is for
    a row that has been given away. -/
def Stale : Prop :=
  i.load = none ∧ s.alu.ll_fresp (fflags ops.flags) i.aluIn = none ∧
    ∃ x ∈ s.shown ops i, s.Given i x.1

/-- No result is written to a queue in the cycle of a flush, which does not kill
    it there. -/
def Calm : Prop :=
  s.alu.Calm (fflags ops.flags) i.aluIn ∧ ∀ w, (s.fpu w).Calm ops.fpOps (i.fpuIn w)

end FlagsSys

/-- The units beside the ROB. -/
def flagsMachine (c : Cfg W) (T : ℕ) (ops : FlagOps N O R) :
    Sync.Machine (FlagsSys c N T O R) (FlagsIn W N T O R) where
  start s := s.Reset
  ok s i := s.Ok ops i
  next s i := s.next ops i

end BoomStop.FpFlags
