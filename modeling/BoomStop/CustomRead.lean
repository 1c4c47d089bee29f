/-
  The custom instructions that read (`core.scala`, `event_counter.scala`,
  `functional-unit.scala`, `regfile.scala`, with `enableSFBOpt` off): the value of
  an event counter is taken at issue and goes beside register read to the input
  of the ALU of the same port; the value of a custom register is put in place of
  the result of the ALU at the write port of the register file, behind the
  bypass network.

  * `Path.next`: the pipeline of `CustomPipe` with the event counters, the
    stages of the ALUs, the bypass network and the integer register file;
  * `Path.Ok`: what rename, the issue unit and the other units promise;
  * `Path.InFlight`: what is on its way to a write of its register;
  * `Path.Way`: where a read is on its way, and that it is the only one;
    `Path.Inv` and `inv_next`;
  * `settled_of_stage`, `operand_of_settled`: the write of the register, and
    what reads it afterwards;
  * `custom_read`: the value of a read, from its issue to its last consumer.
-/
import Mathlib.Algebra.BigOperators.Intervals
import BoomStop.CustomWrite
import BoomStop.Lib.Writes

namespace BoomStop.CustomRead

open Sync Reorder CustomWrite
open Issue (getNewBrMask isKilledByBranch)
open Sampling (Core)

variable {N W T va I : ℕ}

/-- The functional units, one bit each. -/
def FU_ALU : BitVec 10 := 1
def FU_JMP : BitVec 10 := 2
def FU_CSR : BitVec 10 := 32

/-- The code of an instruction for the accelerator. -/
def uopROCC : ℕ := 108

/-- `uop.ucsrInst && uop.ldst =/= 0.U`. -/
def readsUCSR (u : Reorder.MicroOp) : Bool := u.ucsrInst && decide ((decodeADDI u.inst).ldst ≠ 0)

/-- `uop.readCounter && uop.ldst =/= 0.U`. -/
def readsCounter (u : Reorder.MicroOp) : Bool := readsUCSR u && (decodeADDI u.inst).readCounter

/-- `WideCounter(64, e, reset = false)` of the Rocket chip library: what a
    counter holds after a cycle with `e` events. -/
structure WideCounter where
  count : BitVec 64 → BitVec 4 → BitVec 64
  /-- it counts every event, and wraps around -/
  count_eq : ∀ value e, count value e = value + e.setWidth 64

/-- The integer ports: `numStages` of their ALUs, `0` for a port that has none,
    the number of counter banks, and what the counters are built of. -/
structure Ports (I : ℕ) where
  numStages : Fin I → ℕ
  subECounterNum : ℕ
  wideCounter : WideCounter

/-- Program order. -/
def Older (x y : Item W) : Prop := RingOrder.LexLt x.cycle x.slot y.cycle y.slot

instance (x y : Item W) : Decidable (Older x y) :=
  inferInstanceAs (Decidable (RingOrder.LexLt ..))

/-- The destination that rename gives to a uop, and whether the uop writes the
    integer register file (`rf_wen`, with an integer destination). -/
structure Dest where
  pdst : ℕ
  rf_wen : Bool

/-- A stage of an ALU: `r_uops` and `r_data`, with `live` for `r_valids`. -/
structure Stage (N W T : ℕ) extends Flight N W T where
  data : BitVec 64
  live : Bool

/-! ## The data path -/

/-- The pipeline with the event counters and the integer registers.  The operands
    of the uops in register read and execute are kept beside them, the
    destinations by the cycle and the slot of dispatch.  Of the history: the uop
    that a physical register was last given to. -/
structure Path (N W T va I : ℕ) where
  pipe : Pipe N W T va I
  counters : BitVec 7 → BitVec 64
  reg_read_data : Fin I → BitVec 64
  read_data : Fin I → BitVec 64
  rrd_ops : Fin I → Option (Issue.MicroOp T)
  exe_ops : Fin I → Option (Issue.MicroOp T)
  exe_reg_rs1_data : Fin I → BitVec 64
  r_uops : Fin I → ℕ → Option (Stage N W T)
  regfile : ℕ → BitVec 64
  dest : ℕ → Fin W → Dest
  owner : ℕ → Option (Item W)

/-- The inputs of a cycle. -/
structure In (N W T va I : ℕ) where
  /-- `rs1_data` is not an input here -/
  pipe : CustomWrite.In N W T va I
  event_signals : BitVec 7 → BitVec 4
  dests : Fin W → Dest
  /-- what the ALUs compute for other uops than `ADDI` -/
  alu_out : Fin I → BitVec 64
  /-- `csr.io.rw.rdata`, for a uop that reads the CSR file -/
  csr_rdata : Fin I → Option (BitVec 64)
  /-- the writes of the memory unit and the units with a long latency -/
  others : List (ℕ × BitVec 64)

namespace Path

variable (c : Ports I) (s : Path N W T va I) (i : In N W T va I)

/-- The inputs of the pipeline, with the operands from register read. -/
def pipeIn : CustomWrite.In N W T va I := { i.pipe with rs1_data := s.exe_reg_rs1_data }

/-- The inputs of the core. -/
def coreIn : Sampling.In N W T va := s.pipe.coreIn (s.pipeIn i)

/-- The inputs of the ROB. -/
def robIn : SysIn N W T := s.pipe.robIn (s.pipeIn i)

/-- `iss_uops`. -/
def iss_uops (p : Fin I) : Option (Waiting N W T) := s.pipe.iss_uops (s.pipeIn i) p

/-! ### The event counters -/

/-- `SpecialInst_RstPFC` commits, or the warm-up ends. -/
def reset_counter : Bool :=
  ((List.finRange W).any fun w =>
    let uop := s.pipe.core.sys.rob.commit_uops (s.robIn i).toIn w
    s.pipe.core.sys.rob.will_commit (s.robIn i).toIn w && uop.ucsrInst &&
      decide (instTag uop.inst = specialInst_RstPFC)) ||
  s.pipe.core.warmupValid &&
    decide (s.pipe.core.ucsr.warmupInstNum < s.pipe.core.ucsr.nowWarmupInsts)

/-- The event counters, in the next cycle. -/
def counters_next (a : BitVec 7) : BitVec 64 :=
  if s.reset_counter i then 0 else c.wideCounter.count (s.counters a) (i.event_signals a)

/-- `event_counters.io.read_addr`: the counter that the uop of a port reads. -/
def read_addr (p : Fin I) : Option (BitVec 7) :=
  ((s.iss_uops i p).filter fun e => readsCounter e.uop.toMicroOp).map fun e =>
    e.uop.inst.extractLsb' 20 7

/-! ### The ALUs -/

/-- `exe_unit.io.req.bits.rs1_data`. -/
def rs1_data (p : Fin I) : BitVec 64 :=
  if (s.pipe.exe_reg_uops p).any fun f => readsCounter f.uop.toMicroOp then s.read_data p
  else s.exe_reg_rs1_data p

/-- The result of the ALU of a port. -/
def alu_out (p : Fin I) : BitVec 64 :=
  match (s.pipe.exe_reg_uops p).filter fun f => f.uop.uopc = uopADDI with
  | some f => s.rs1_data p + (immGen (decodeADDI f.uop.inst).imm_packed .IS_I).signExtend 64
  | none => i.alu_out p

/-- The uop in execute, if the ALU takes it. -/
def alu_req (p : Fin I) : Option (Flight N W T) :=
  (s.pipe.exe_reg_uops p).filter fun f => s.pipe.exe_reg_valids p && (s.exe_ops p).any fun u =>
    decide (u.fu_code = FU_ALU) || decide (u.fu_code = FU_JMP) ||
      decide (u.fu_code = FU_CSR) && decide (f.uop.uopc ≠ uopROCC)

/-- The uop is killed on its way. -/
def killed (f : Flight N W T) : Bool :=
  isKilledByBranch i.pipe.core.back.b1 f.uop.br_mask || s.pipe.core.flush_d1

/-- The stages of an ALU, in the next cycle. -/
def r_uops_next (p : Fin I) : ℕ → Option (Stage N W T)
  | 0 => (s.alu_req p).map fun f =>
    ⟨f.update i.pipe.core.back.b1, s.alu_out i p, !s.killed i f⟩
  | j + 1 => (s.r_uops p j).map fun st =>
    ⟨st.toFlight.update i.pipe.core.back.b1, st.data, st.live && !s.killed i st.toFlight⟩

/-- The last stage answers. -/
def resp (p : Fin I) : Option (Stage N W T) :=
  match c.numStages p with
  | 0 => none
  | j + 1 => (s.r_uops p j).filter fun st =>
    st.live && !isKilledByBranch i.pipe.core.back.b1 st.uop.br_mask

/-! ### The register file -/

/-- The destination of a uop. -/
def destOf (x : Item W) : Dest := s.dest x.cycle x.slot

/-- The data on the write port. -/
def wb_data (p : Fin I) (st : Stage N W T) : BitVec 64 :=
  let wbdata := (i.csr_rdata p).getD st.data
  if readsUCSR st.uop.toMicroOp then
    (s.pipe.core.ucsr.getUCSR (instTag st.uop.inst)).getD wbdata
  else wbdata

/-- The write of a port. -/
def write_port (p : Fin I) : Option (ℕ × BitVec 64) :=
  ((s.resp c i p).filter fun st => (s.destOf st.item).rf_wen).map fun st =>
    ((s.destOf st.item).pdst, s.wb_data i p st)

/-- The writes of the register file. -/
def writes : List (ℕ × BitVec 64) := i.others ++ (List.finRange I).filterMap (s.write_port c i)

/-- The register file, in the next cycle. -/
def regfile_next : ℕ → BitVec 64 :=
  (s.writes c i).foldl (fun rf w => Function.update rf w.1 w.2) s.regfile

/-- A read port; all write ports bypass to it. -/
def read_port (prs : ℕ) : BitVec 64 :=
  let hits := (s.writes c i).filter fun w => w.1 = prs
  if hits.isEmpty then s.regfile prs else hits.foldl (fun a w => a ||| w.2) 0

/-! ### The bypass network -/

/-- The bypass ports of a unit: its request, and all stages but the last. -/
def bypass (p : Fin I) : ℕ → Option (Item W × BitVec 64)
  | 0 => (s.alu_req p).map fun f => (f.item, s.alu_out i p)
  | j + 1 => (s.r_uops p j).map fun st => (st.item, st.data)

/-- The bypass ports of all units. -/
def bypasses : List (Item W × BitVec 64) :=
  (List.finRange I).flatMap fun p => (List.range (c.numStages p)).filterMap (s.bypass i p)

/-- `bypassed_rs1_data` and `bypassed_rs2_data`, for an operand. -/
def operand (prs : ℕ) (rtype : Rename.RType) : BitVec 64 :=
  let rrd_data := if prs = 0 then 0 else s.read_port c i prs
  match (s.bypasses c i).find? fun b => decide (prs = (s.destOf b.1).pdst) &&
      (s.destOf b.1).rf_wen && decide (rtype = .RT_FIX) && decide (prs ≠ 0) with
  | some b => b.2
  | none => rrd_data

/-- `bypassed_rs1_data`, of a port. -/
def bypassed_rs1_data (p : Fin I) : BitVec 64 :=
  ((s.rrd_ops p).map fun u => s.operand c i u.prs1 u.lrs1_rtype).getD 0

/-- `bypassed_rs2_data`, of a port. -/
def bypassed_rs2_data (p : Fin I) : BitVec 64 :=
  ((s.rrd_ops p).map fun u => s.operand c i u.prs2 u.lrs2_rtype).getD 0

/-! ### One cycle -/

/-- The slot whose uop is given a register in the cycle. -/
def giving (x : ℕ) : Option (Fin W) :=
  (List.finRange W).find? fun w => s.pipe.core.dis_fire (s.coreIn i) w && (i.dests w).rf_wen &&
    decide ((i.dests w).pdst = x)

/-- One cycle. -/
def next [NeZero N] [NeZero W] : Path N W T va I where
  pipe := s.pipe.next (s.pipeIn i)
  counters := s.counters_next c i
  reg_read_data p :=
    EventCounter.step c.subECounterNum s.counters (s.reg_read_data p) (s.read_addr i p)
  read_data := s.reg_read_data
  rrd_ops p := (s.iss_uops i p).map fun e => e.slot.uop
  exe_ops p := if s.pipe.rrd_kill (s.pipeIn i) p then none else s.rrd_ops p
  exe_reg_rs1_data := s.bypassed_rs1_data c i
  r_uops := s.r_uops_next i
  regfile := s.regfile_next c i
  dest t w := if t = s.pipe.core.sys.now then i.dests w else s.dest t w
  owner x :=
    match s.giving i x with
    | some w => some ⟨s.pipe.core.sys.now, w, (s.pipe.core.ren2_uop w).toMicroOp⟩
    | none => s.owner x

/-! ### The surroundings -/

/-- A uop that may still write its register. -/
inductive InFlight : Flight N W T → Prop
  | queue {e : Waiting N W T} : e ∈ s.pipe.queue → InFlight e.toFlight
  | reading {p : Fin I} {f : Flight N W T} : s.pipe.rrd_uops p = some f →
      s.pipe.rrd_valids p = true → InFlight f
  | executing {p : Fin I} {f : Flight N W T} : s.pipe.exe_reg_uops p = some f →
      s.pipe.exe_reg_valids p = true → InFlight f
  | computing {p : Fin I} {j : ℕ} {st : Stage N W T} : j < c.numStages p →
      s.r_uops p j = some st → InFlight st.toFlight

/-- After reset. -/
structure Reset : Prop where
  pipe : s.pipe.Reset
  r_uops : ∀ p j, s.r_uops p j = none

/-- What rename, the issue unit and the other units promise in a cycle. -/
structure Ok : Prop where
  pipe : s.pipe.Ok (s.pipeIn i)
  /-- the decode tables: `ADDI` goes to an ALU and writes an integer register -/
  row_addi : ∀ w, s.pipe.core.ren2_valid w = true → (s.pipe.core.ren2_uop w).uopc = uopADDI →
    (i.dests w).rf_wen = true ∧ (i.pipe.ren_uops w).fu_code = FU_ALU
  /-- register `0` is not given to a destination -/
  pdst : ∀ w, s.pipe.core.ren2_valid w = true → (s.pipe.core.ren2_uop w).uopc = uopADDI →
    (decodeADDI (s.pipe.core.ren2_uop w).inst).ldst ≠ 0 → (i.dests w).pdst ≠ 0
  /-- and no register that a uop on its way writes -/
  fresh : ∀ w, s.pipe.core.dis_fire (s.coreIn i) w = true → (i.dests w).rf_wen = true →
    (i.dests w).pdst ≠ 0 →
    (∀ f, s.InFlight c f → (s.destOf f.item).rf_wen = true →
      (s.destOf f.item).pdst ≠ (i.dests w).pdst) ∧
    ∀ v, s.pipe.core.dis_fire (s.coreIn i) v = true → (i.dests v).rf_wen = true →
      (i.dests v).pdst = (i.dests w).pdst → v = w
  /-- the other units write the registers of their own uops -/
  others : ∀ x ∈ i.others, x.1 ≠ 0 → ∃ y, s.owner x.1 = some y ∧ y.uop.uopc ≠ uopADDI
  csr_rdata : ∀ p st, s.resp c i p = some st → st.uop.uopc = uopADDI → i.csr_rdata p = none
  /-- the issue unit looks at `fu_types` -/
  fu_types : ∀ p e, s.iss_uops i p = some e → e.uop.uopc = uopADDI → c.numStages p ≠ 0
  /-- an ALU answers to the ROB when it writes -/
  answers : ∀ a, Rob.unbusy_at (s.robIn i).toIn a.1 a.2 = true →
    (s.pipe.core.sys.rob.bank a.1 a.2).uop.uopc = uopADDI →
    ∃ p st, s.resp c i p = some st ∧ st.item = s.pipe.core.sys.item a

end Path

/-- The data path, from reset. -/
def path [NeZero N] [NeZero W] (c : Ports I) : Machine (Path N W T va I) (In N W T va I) where
  start := Path.Reset
  ok := Path.Ok c
  next s i := s.next c i

/-! ## What is on its way -/

/-- Reads are custom instructions. -/
theorem custom_reads : Custom readsUCSR := by
  intro u h
  rw [readsUCSR, Bool.and_eq_true] at h
  exact h.1

section

variable {c : Ports I} {s : Path N W T va I} {i : In N W T va I}

section Next

variable [NeZero N] [NeZero W]

theorem sys_next : (s.next c i).pipe.core.sys = s.pipe.core.sys.next (s.robIn i) := rfl

theorem destOf_next (x : Item W) : (s.next c i).destOf x =
    if x.cycle = s.pipe.core.sys.now then i.dests x.slot else s.destOf x := rfl

omit [NeZero N] [NeZero W] in
theorem mem_queue_of_iss {p : Fin I} {e : Waiting N W T} (he : s.iss_uops i p = some e) :
    e ∈ s.pipe.queue := by
  obtain ⟨x, hx, rfl⟩ := Option.map_eq_some_iff.1 he
  exact List.fst_mem_of_mem_zipIdx (List.mem_of_find?_eq_some hx)

omit [NeZero N] [NeZero W] in
theorem alu_req_eq_some {p : Fin I} {f : Flight N W T} (hf : s.alu_req p = some f) :
    s.pipe.exe_reg_uops p = some f ∧ s.pipe.exe_reg_valids p = true := by
  obtain ⟨hf, hv⟩ := Option.filter_eq_some_iff.1 hf
  rw [Bool.and_eq_true] at hv
  exact ⟨hf, hv.1⟩

/-- What is in a stage of an ALU comes from execute, or from the stage before. -/
theorem r_uops_next_cases {p : Fin I} {j : ℕ} {st : Stage N W T}
    (hst : (s.next c i).r_uops p j = some st) :
    j = 0 ∧ (∃ f, s.alu_req p = some f ∧ f.item = st.item) ∨
      ∃ k g, j = k + 1 ∧ s.r_uops p k = some g ∧ g.item = st.item := by
  cases j with
  | zero =>
    obtain ⟨f, hf, rfl⟩ := Option.map_eq_some_iff.1
      (hst : (s.alu_req p).map (fun f => (⟨f.update i.pipe.core.back.b1, s.alu_out i p,
        !s.killed i f⟩ : Stage N W T)) = some st)
    exact .inl ⟨rfl, f, hf, rfl⟩
  | succ k =>
    obtain ⟨g, hg, rfl⟩ := Option.map_eq_some_iff.1
      (hst : (s.r_uops p k).map (fun st => (⟨st.toFlight.update i.pipe.core.back.b1, st.data,
        st.live && !s.killed i st.toFlight⟩ : Stage N W T)) = some st)
    exact .inr ⟨k, g, rfl, hg, rfl⟩

/-- What is on its way was there before, or comes from dispatch. -/
theorem inFlight_prev {f : Flight N W T} (hf : (s.next c i).InFlight c f) :
    (∃ g, s.InFlight c g ∧ g.item = f.item) ∨
      ∃ w, s.pipe.core.dis_fire (s.coreIn i) w = true ∧
        f.item = ⟨s.pipe.core.sys.now, w, (s.pipe.core.ren2_uop w).toMicroOp⟩ := by
  cases hf with
  | queue he =>
    rcases List.mem_append.1 (List.mem_filter.1 he).1 with hold | hnew
    · obtain ⟨x, hx, rfl⟩ := List.mem_map.1 hold
      exact .inl ⟨x.1.toFlight, .queue (List.fst_mem_of_mem_zipIdx hx), rfl⟩
    · obtain ⟨w, -, hw⟩ := List.mem_flatMap.1 hnew
      dsimp only at hw
      split_ifs at hw with hcond
      · simp only [Bool.and_eq_true] at hcond
        obtain ⟨q, -, rfl⟩ := List.mem_map.1 hw
        exact .inr ⟨w, hcond.1.1.1, rfl⟩
      · exact absurd hw List.not_mem_nil
  | reading hu hv =>
    obtain ⟨e, he, rfl⟩ := Option.map_eq_some_iff.1 hu
    exact .inl ⟨e.toFlight, .queue (mem_queue_of_iss he), rfl⟩
  | @executing p _ hu hv =>
    obtain ⟨g, hg, rfl⟩ := exe_next_cases (s := s.pipe) hu
    have hvalid : (!s.pipe.rrd_kill (s.pipeIn i) p && s.pipe.rrd_valids p) = true := hv
    rw [Bool.and_eq_true] at hvalid
    exact .inl ⟨g, .reading hg hvalid.2, rfl⟩
  | computing hj hst =>
    rcases r_uops_next_cases hst with ⟨-, g, hg, hitem⟩ | ⟨k, g, rfl, hg, hitem⟩
    · obtain ⟨hu, hv⟩ := alu_req_eq_some hg
      exact .inl ⟨g, .executing hu hv, hitem⟩
    · exact .inl ⟨g.toFlight, .computing ((Nat.lt_succ_self k).trans hj) hg, hitem⟩

end Next

end

/-! ## The way of a read -/

namespace Path

section Way

variable (c : Ports I) (s : Path N W T va I)

/-- No stage of an ALU holds a read. -/
def FreeAlu : Prop :=
  ∀ p j st, j < c.numStages p → s.r_uops p j = some st → readsUCSR st.uop.toMicroOp = false

/-- An entry for a read that has not been answered. -/
structure Reader (a : RobIdx N W) : Prop where
  holder : s.pipe.Holder readsUCSR a
  bsy : (s.pipe.core.sys.rob.bank a.1 a.2).bsy = true

/-- The read waits in a queue. -/
structure AtIssue (a : RobIdx N W) : Prop extends s.Reader a where
  queue : Pipe.SingleQueue readsUCSR s.pipe.queue (s.pipe.core.sys.item a)
  rrd : Pipe.Free readsUCSR s.pipe.rrd_uops
  exe : Pipe.Free readsUCSR s.pipe.exe_reg_uops
  alu : s.FreeAlu c

/-- The read is in register read, for a port. -/
structure AtRead (a : RobIdx N W) (p : Fin I) : Prop extends s.Reader a where
  queue : Pipe.FreeQueue readsUCSR s.pipe.queue
  rrd : Pipe.Single readsUCSR s.pipe.rrd_uops p (s.pipe.core.sys.item a)
  valid : s.pipe.rrd_valids p = true
  op : ∃ u, s.rrd_ops p = some u ∧ u.fu_code = FU_ALU
  port : c.numStages p ≠ 0
  exe : Pipe.Free readsUCSR s.pipe.exe_reg_uops
  alu : s.FreeAlu c

/-- The read is in execute, on a port. -/
structure AtExecute (a : RobIdx N W) (p : Fin I) : Prop extends s.Reader a where
  queue : Pipe.FreeQueue readsUCSR s.pipe.queue
  rrd : Pipe.Free readsUCSR s.pipe.rrd_uops
  exe : Pipe.Single readsUCSR s.pipe.exe_reg_uops p (s.pipe.core.sys.item a)
  valid : s.pipe.exe_reg_valids p = true
  op : ∃ u, s.exe_ops p = some u ∧ u.fu_code = FU_ALU
  port : c.numStages p ≠ 0
  alu : s.FreeAlu c

/-- The result `d` is in a stage of an ALU. -/
structure AtStage (a : RobIdx N W) (p : Fin I) (j : ℕ) (d : BitVec 64) : Prop
    extends s.Reader a where
  queue : Pipe.FreeQueue readsUCSR s.pipe.queue
  rrd : Pipe.Free readsUCSR s.pipe.rrd_uops
  exe : Pipe.Free readsUCSR s.pipe.exe_reg_uops
  here : ∃ st, s.r_uops p j = some st ∧ st.item = s.pipe.core.sys.item a ∧ st.live = true ∧
    st.data = d
  rest : ∀ q k st, k < c.numStages q → (q, k) ≠ (p, j) → s.r_uops q k = some st →
    readsUCSR st.uop.toMicroOp = false
  port : j < c.numStages p

/-- No read is on its way. -/
structure AtRest : Prop where
  queue : Pipe.FreeQueue readsUCSR s.pipe.queue
  rrd : Pipe.Free readsUCSR s.pipe.rrd_uops
  exe : Pipe.Free readsUCSR s.pipe.exe_reg_uops
  alu : s.FreeAlu c

/-- Where a read is on its way. -/
inductive Way : Prop
  | idle : (∀ a, ¬ s.pipe.Holder readsUCSR a) → s.AtRest c → Way
  | issue (a : RobIdx N W) : s.AtIssue c a → Way
  | read (a : RobIdx N W) (p : Fin I) : s.AtRead c a p → Way
  | execute (a : RobIdx N W) (p : Fin I) : s.AtExecute c a p → Way
  | stage (a : RobIdx N W) (p : Fin I) (j : ℕ) (d : BitVec 64) : s.AtStage c a p j d → Way
  | written (a : RobIdx N W) : s.pipe.Holder readsUCSR a → s.AtRest c → Way

/-- The uop `y` wrote `v` to register `x`, and is no longer on its way. -/
structure Settled (x : ℕ) (y : Item W) (v : BitVec 64) : Prop where
  value : s.regfile x = v
  known : y ∈ s.pipe.core.sys.enqueued
  gone : ∀ f, s.InFlight c f → f.item ≠ y

/-- The invariant. -/
structure Inv : Prop where
  front : s.pipe.Front
  /-- an `ADDI` on its way has a register to write -/
  ren : ∀ f, s.InFlight c f → f.uop.uopc = uopADDI → (s.destOf f.item).rf_wen = true ∧
    ((decodeADDI f.uop.inst).ldst ≠ 0 → (s.destOf f.item).pdst ≠ 0)
  /-- and what writes a register is its owner -/
  own : ∀ f, s.InFlight c f → (s.destOf f.item).rf_wen = true → (s.destOf f.item).pdst ≠ 0 →
    s.owner (s.destOf f.item).pdst = some f.item
  known : ∀ f, s.InFlight c f → f.item ∈ s.pipe.core.sys.enqueued
  /-- nothing is dispatched after a read that is in the ROB -/
  newest : ∀ a, s.pipe.Holder readsUCSR a → ∀ y ∈ s.pipe.core.sys.enqueued,
    ¬ Older (s.pipe.core.sys.item a) y
  fu_code : ∀ e ∈ s.pipe.queue, e.uop.uopc = uopADDI → e.slot.slot_uop.fu_code = FU_ALU
  way : s.Way c

end Way

end Path

section

variable {c : Ports I} {s : Path N W T va I} {i : In N W T va I}

theorem past (h : s.Inv c) {f : Flight N W T} (hf : s.InFlight c f) :
    f.cycle < s.pipe.core.sys.now := by
  exact h.front.sys.past f.item (h.known f hf)

/-- While a read is in the ROB, nothing is dispatched. -/
theorem not_fire_of_holder (h : s.pipe.Front) {a : RobIdx N W} (ha : s.pipe.Holder readsUCSR a)
    (w : Fin W) : s.pipe.core.dis_fire (s.coreIn i) w = false := by
  by_contra hf
  obtain ⟨-, hready, -⟩ := Sampling.open_of_fire (eq_true_of_ne_false hf)
  obtain ⟨-, hu, -⟩ := alone_of_holder custom_reads h ha
  have hno := (calm_of_alone h.xcpt h.flushing ha.1 hu ha.2.1).2.2
  exact absurd (hready.symm.trans hno) (by simp)

theorem calm (h : s.pipe.Front) (ok : s.Ok c i) {a : RobIdx N W}
    (ha : s.pipe.Holder readsUCSR a) : s.pipe.Calm (s.pipeIn i) :=
  calm_of_holder custom_reads h ok.pipe ha

section Next

variable [NeZero N] [NeZero W]

theorem ren_next (h : s.Inv c) (ok : s.Ok c i) {f : Flight N W T}
    (hf : (s.next c i).InFlight c f) (haddi : f.uop.uopc = uopADDI) :
    ((s.next c i).destOf f.item).rf_wen = true ∧
      ((decodeADDI f.uop.inst).ldst ≠ 0 → ((s.next c i).destOf f.item).pdst ≠ 0) := by
  rw [destOf_next]
  rcases inFlight_prev hf with ⟨g, hg, hitem⟩ | ⟨w, hw, hitem⟩
  · have huop : g.uop.toMicroOp = f.uop.toMicroOp := congrArg Item.uop hitem
    have hcycle : f.item.cycle ≠ s.pipe.core.sys.now := by
      rw [← hitem]
      exact (past h hg).ne
    rw [if_neg hcycle, ← hitem]
    rw [← huop] at haddi ⊢
    exact h.ren g hg haddi
  · have huop : f.uop.toMicroOp = (s.pipe.core.ren2_uop w).toMicroOp := congrArg Item.uop hitem
    have hv := (Sampling.open_of_fire hw).1
    rw [hitem, if_pos rfl]
    rw [huop] at haddi ⊢
    exact ⟨(ok.row_addi w hv haddi).1, ok.pdst w hv haddi⟩

theorem owner_next (x : ℕ) : (s.next c i).owner x =
    match s.giving i x with
    | some w => some ⟨s.pipe.core.sys.now, w, (s.pipe.core.ren2_uop w).toMicroOp⟩
    | none => s.owner x := rfl

omit [NeZero N] [NeZero W] in
theorem giving_eq_some {x : ℕ} {w : Fin W} (hw : s.giving i x = some w) :
    s.pipe.core.dis_fire (s.coreIn i) w = true ∧ (i.dests w).rf_wen = true ∧
      (i.dests w).pdst = x := by
  have hfound := List.find?_some hw
  simp only [Bool.and_eq_true, decide_eq_true_eq, and_assoc] at hfound
  exact hfound

theorem own_next (h : s.Inv c) (ok : s.Ok c i) {f : Flight N W T}
    (hf : (s.next c i).InFlight c f) (hwen : ((s.next c i).destOf f.item).rf_wen = true)
    (hx : ((s.next c i).destOf f.item).pdst ≠ 0) :
    (s.next c i).owner ((s.next c i).destOf f.item).pdst = some f.item := by
  rw [owner_next]
  rw [destOf_next] at hwen hx ⊢
  rcases inFlight_prev hf with ⟨g, hg, hitem⟩ | ⟨w, hw, hitem⟩
  · have hcycle : f.item.cycle ≠ s.pipe.core.sys.now := by
      rw [← hitem]
      exact (past h hg).ne
    rw [if_neg hcycle, ← hitem] at hwen hx ⊢
    have hgive : s.giving i (s.destOf g.item).pdst = none := by
      by_contra hne
      obtain ⟨w, hw⟩ := Option.ne_none_iff_exists'.1 hne
      obtain ⟨hfire, hwen', hpdst⟩ := giving_eq_some hw
      exact (ok.fresh w hfire hwen' (by rw [hpdst]; exact hx)).1 g hg hwen hpdst.symm
    rw [hgive]
    exact h.own g hg hwen hx
  · rw [hitem] at hwen hx ⊢
    rw [if_pos rfl] at hwen hx ⊢
    have hgive : s.giving i (i.dests w).pdst = some w := by
      cases hfind : s.giving i (i.dests w).pdst with
      | none =>
        have hno := List.find?_eq_none.1 hfind w (List.mem_finRange w)
        simp [hw, hwen] at hno
      | some v =>
        obtain ⟨hfire, hwen', hpdst⟩ := giving_eq_some hfind
        rw [(ok.fresh w hw hwen hx).2 v hfire hwen' hpdst]
    rw [hgive]

theorem enqueued_next : (s.next c i).pipe.core.sys.enqueued =
    s.pipe.core.sys.enqueued ++ s.pipe.core.sys.enqNow (s.robIn i) := rfl

theorem known_next (h : s.Inv c) {f : Flight N W T} (hf : (s.next c i).InFlight c f) :
    f.item ∈ (s.next c i).pipe.core.sys.enqueued := by
  rw [enqueued_next]
  rcases inFlight_prev hf with ⟨g, hg, hitem⟩ | ⟨w, hw, hitem⟩
  · rw [← hitem]
    exact List.mem_append_left _ (h.known g hg)
  · exact List.mem_append_right _ (mem_enqNow.2 ⟨w, hw, hitem⟩)

theorem newest_next (h : s.Inv c) (ok : s.Ok c i) {a : RobIdx N W}
    (ha : (s.next c i).pipe.Holder readsUCSR a) {y : Item W}
    (hy : y ∈ (s.next c i).pipe.core.sys.enqueued) :
    ¬ Older ((s.next c i).pipe.core.sys.item a) y := by
  have hf := h.front
  rw [enqueued_next] at hy
  rcases holder_prev hf ok.pipe ha with hold | ⟨hfire, hexc, hread⟩
  · have hitem : (s.next c i).pipe.core.sys.item a = s.pipe.core.sys.item a :=
      item_next_of_val hf.sys ok.pipe.rob hold.1
    rw [hitem]
    rcases List.mem_append.1 hy with hy | hy
    · exact h.newest a hold y hy
    · obtain ⟨w, hw, -⟩ := mem_enqNow.1 hy
      exact absurd (hw.symm.trans (not_fire_of_holder hf hold w)) (by simp)
  · -- it is alone in its cycle
    have hu := (hf.ren2 a.2 (Sampling.open_of_fire hfire).1).unique (custom_reads _ hread)
    have hnone := (not_val_of_unique hf.sys ok.pipe.rob (xok hf ok.pipe) (w := a.2) hfire hu).2 a
    have he := (val_next.1 ha.1).1.resolve_right hnone
    have hitem : (s.next c i).pipe.core.sys.item a = _ := item_next_of_enq he
    rw [hitem, Older]
    rcases List.mem_append.1 hy with hy | hy
    · have hpast := hf.sys.past y hy
      rintro (hlt | ⟨heq, -⟩)
      · exact absurd hlt hpast.not_gt
      · exact absurd heq hpast.ne'
    · obtain ⟨w, hw, rfl⟩ := mem_enqNow.1 hy
      obtain rfl := ((xok hf ok.pipe).enq_unique a.2 hfire hu).2 w hw
      simp [RingOrder.LexLt]

theorem fu_code_next (h : s.Inv c) (ok : s.Ok c i) {e : Waiting N W T}
    (he : e ∈ (s.next c i).pipe.queue) (haddi : e.uop.uopc = uopADDI) :
    e.slot.slot_uop.fu_code = FU_ALU := by
  rcases List.mem_append.1 (List.mem_filter.1 he).1 with hold | hnew
  · obtain ⟨x, hx, rfl⟩ := List.mem_map.1 hold
    exact h.fu_code x.1 (List.fst_mem_of_mem_zipIdx hx) haddi
  · obtain ⟨w, -, hw⟩ := List.mem_flatMap.1 hnew
    dsimp only at hw
    split_ifs at hw with hcond
    · simp only [Bool.and_eq_true] at hcond
      obtain ⟨q, -, rfl⟩ := List.mem_map.1 hw
      rw [← (ok.row_addi w (Sampling.open_of_fire hcond.1.1.1).1 haddi).2]
      show (Issue.dispatchUop q _).fu_code = _
      unfold Issue.dispatchUop
      cases q <;> dsimp only <;> split_ifs <;> rfl
    · exact absurd hw List.not_mem_nil

/-! ### The ALUs -/

omit [NeZero N] [NeZero W] in
theorem resp_eq_some {p : Fin I} {st : Stage N W T} (hst : s.resp c i p = some st) :
    ∃ j, c.numStages p = j + 1 ∧ s.r_uops p j = some st := by
  unfold Path.resp at hst
  cases hn : c.numStages p with
  | zero => simp [hn] at hst
  | succ j =>
    rw [hn] at hst
    exact ⟨j, rfl, (Option.filter_eq_some_iff.1 hst).1⟩

omit [NeZero N] [NeZero W] in
theorem resp_free (hfree : s.FreeAlu c) {p : Fin I} {st : Stage N W T}
    (hst : s.resp c i p = some st) : readsUCSR st.uop.toMicroOp = false := by
  obtain ⟨j, hn, hr⟩ := resp_eq_some hst
  exact hfree p j st (hn ▸ Nat.lt_succ_self j) hr

theorem free_alu_next (hx : Pipe.Free readsUCSR s.pipe.exe_reg_uops) (hfree : s.FreeAlu c) :
    (s.next c i).FreeAlu c := by
  intro p j st hj hst
  rcases r_uops_next_cases hst with ⟨-, f, hf, hitem⟩ | ⟨k, g, rfl, hg, hitem⟩
  · rw [← show f.uop.toMicroOp = st.uop.toMicroOp from congrArg Item.uop hitem]
    exact hx p f (alu_req_eq_some hf).1
  · rw [← show g.uop.toMicroOp = st.uop.toMicroOp from congrArg Item.uop hitem]
    exact hfree p k g ((Nat.lt_succ_self k).trans hj) hg

/-! ### The entry -/

/-- It is not answered before it is in the last stage of an ALU. -/
theorem reader_next (h : s.Inv c) (ok : s.Ok c i) {a : RobIdx N W} (ha : s.Reader a)
    (hno : ∀ p st, s.resp c i p = some st → readsUCSR st.uop.toMicroOp = false) :
    (s.next c i).Reader a ∧ (s.next c i).pipe.core.sys.item a = s.pipe.core.sys.item a := by
  have hf := h.front
  obtain ⟨hw, hitem⟩ :=
    holder_next custom_reads hf ok.pipe ha.holder (not_commit_of_bsy (i := s.pipeIn i) ha.bsy)
  refine ⟨⟨hw, bsy_next hf ok.pipe ha.holder.1 ha.bsy ?_⟩, hitem⟩
  by_contra hun
  obtain ⟨p, st, hst, hitem⟩ := ok.answers a (eq_true_of_ne_false hun)
    (alone_of_holder custom_reads hf ha.holder).1
  have huop : st.uop.toMicroOp = (s.pipe.core.sys.rob.bank a.1 a.2).uop.toMicroOp :=
    congrArg Item.uop hitem
  have hfalse := hno p st hst
  rw [huop] at hfalse
  exact absurd (ha.holder.2.2.symm.trans hfalse) (by simp)

/-! ### From stage to stage -/

omit [NeZero N] [NeZero W] in
theorem op_of_iss (h : s.Inv c) (ok : s.Ok c i) {p : Fin I} {e : Waiting N W T}
    (he : s.iss_uops i p = some e) (haddi : e.uop.uopc = uopADDI) :
    e.slot.uop.fu_code = FU_ALU ∧ c.numStages p ≠ 0 := by
  refine ⟨?_, ok.fu_types p e he haddi⟩
  rw [← h.fu_code e (mem_queue_of_iss he) haddi]
  unfold Issue.Slot.uop
  dsimp only
  split_ifs <;> rfl

/-- It waits, or it is issued. -/
theorem issue_next (h : s.Inv c) (ok : s.Ok c i) {a : RobIdx N W} (ha : s.AtIssue c a) :
    (s.next c i).AtIssue c a ∨ ∃ p, (s.next c i).AtRead c a p := by
  have hcalm := calm h.front ok ha.holder
  obtain ⟨hread, hitem⟩ := reader_next h ok ha.toReader fun _ _ => resp_free ha.alu
  have hq := ha.queue
  rw [← hitem] at hq
  rcases single_queue_next hcalm ok.pipe hq with ⟨hqn, hrn⟩ | ⟨hqn, p, hrn, hv⟩
  · exact .inl ⟨hread, hqn, hrn, free_exe_next ha.rrd, free_alu_next ha.exe ha.alu⟩
  · obtain ⟨f, hf, hx⟩ := hrn.here
    obtain ⟨e, he, rfl⟩ := Option.map_eq_some_iff.1 hf
    have huop : e.uop.toMicroOp =
        ((s.next c i).pipe.core.sys.rob.bank a.1 a.2).uop.toMicroOp := congrArg Item.uop hx
    have haddi : e.uop.uopc = uopADDI :=
      (congrArg Reorder.MicroOp.uopc huop).trans
        (alone_of_holder custom_reads (front_next h.front ok.pipe) hread.holder).1
    obtain ⟨hcode, hport⟩ := op_of_iss h ok he haddi
    refine .inr ⟨p, hread, hqn, hrn, hv, ⟨e.slot.uop, ?_, hcode⟩, hport, free_exe_next ha.rrd,
      free_alu_next ha.exe ha.alu⟩
    exact congrArg (Option.map fun e : Waiting N W T => e.slot.uop) he

/-- It goes to execute. -/
theorem read_next (h : s.Inv c) (ok : s.Ok c i) {a : RobIdx N W} {p : Fin I}
    (ha : s.AtRead c a p) : (s.next c i).AtExecute c a p := by
  have hcalm := calm h.front ok ha.holder
  obtain ⟨hread, hitem⟩ := reader_next h ok ha.toReader fun _ _ => resp_free ha.alu
  have hr := ha.rrd
  rw [← hitem] at hr
  obtain ⟨hxn, hvn⟩ := single_exe_next hcalm hr ha.valid
  obtain ⟨u, hu, hcode⟩ := ha.op
  obtain ⟨f, hf, -⟩ := ha.rrd.here
  refine ⟨hread, free_queue_calm hcalm ha.queue, free_rrd_next ha.queue, hxn, hvn,
    ⟨u, ?_, hcode⟩, ha.port, free_alu_next ha.exe ha.alu⟩
  have hkill : s.pipe.rrd_kill (s.pipeIn i) p = false := by
    rw [Pipe.rrd_kill, hcalm.flush, hf, Option.any_some, hcalm.branch]
    rfl
  show (if s.pipe.rrd_kill (s.pipeIn i) p then none else s.rrd_ops p) = some u
  rw [hkill, hu]
  rfl

omit [NeZero N] [NeZero W] in
/-- Nothing that goes through an ALU is killed beside it. -/
theorem killed_of_holder (h : s.Inv c) (ok : s.Ok c i) {a : RobIdx N W}
    (ha : s.pipe.Holder readsUCSR a) (f : Flight N W T) : s.killed i f = false := by
  have hcalm := calm h.front ok ha
  have hb : isKilledByBranch i.pipe.core.back.b1 f.uop.br_mask = false := hcalm.branch _
  rw [Path.killed, hb, hcalm.flush]
  rfl

omit [NeZero N] [NeZero W] in
/-- The ALU takes it. -/
theorem alu_req_of_execute {a : RobIdx N W} {p : Fin I} (ha : s.AtExecute c a p) :
    ∃ f, s.pipe.exe_reg_uops p = some f ∧ s.alu_req p = some f ∧
      f.item = s.pipe.core.sys.item a := by
  obtain ⟨f, hf, hx⟩ := ha.exe.here
  obtain ⟨u, hu, hcode⟩ := ha.op
  refine ⟨f, hf, ?_, hx⟩
  rw [Path.alu_req, hf, Option.filter_some, if_pos]
  rw [ha.valid, hu]
  simp [hcode]

/-- The sum goes into the first stage. -/
theorem execute_next (h : s.Inv c) (ok : s.Ok c i) {a : RobIdx N W} {p : Fin I}
    (ha : s.AtExecute c a p) : (s.next c i).AtStage c a p 0 (s.alu_out i p) := by
  have hcalm := calm h.front ok ha.holder
  obtain ⟨hread, hitem⟩ := reader_next h ok ha.toReader fun _ _ => resp_free ha.alu
  obtain ⟨f, hf, hreq, hx⟩ := alu_req_of_execute ha
  refine ⟨hread, free_queue_calm hcalm ha.queue, free_rrd_next ha.queue, free_exe_next ha.rrd,
    ⟨⟨f.update i.pipe.core.back.b1, s.alu_out i p, !s.killed i f⟩, ?_, hx.trans hitem.symm, ?_,
      rfl⟩, fun q k st hk hne hst => ?_, Nat.pos_of_ne_zero ha.port⟩
  · exact congrArg (Option.map _) hreq
  · rw [killed_of_holder h ok ha.holder]
    rfl
  · rcases r_uops_next_cases hst with ⟨rfl, g, hg, hgi⟩ | ⟨k, g, rfl, hg, hgi⟩
    · rw [← show g.uop.toMicroOp = st.uop.toMicroOp from congrArg Item.uop hgi]
      exact ha.exe.rest q g (fun hqp => hne (by rw [hqp])) (alu_req_eq_some hg).1
    · rw [← show g.uop.toMicroOp = st.uop.toMicroOp from congrArg Item.uop hgi]
      exact ha.alu q k g ((Nat.lt_succ_self k).trans hk) hg

/-- and from there on. -/
theorem stage_next (h : s.Inv c) (ok : s.Ok c i) {a : RobIdx N W} {p : Fin I} {j : ℕ}
    {d : BitVec 64} (ha : s.AtStage c a p j d) (hj : j + 1 < c.numStages p) :
    (s.next c i).AtStage c a p (j + 1) d := by
  have hcalm := calm h.front ok ha.holder
  obtain ⟨hread, hitem⟩ := reader_next h ok ha.toReader fun q st hst => by
    obtain ⟨k, hn, hr⟩ := resp_eq_some hst
    refine ha.rest q k st (hn ▸ Nat.lt_succ_self k) (fun heq => ?_) hr
    obtain ⟨rfl, rfl⟩ := Prod.mk.inj heq
    exact absurd hn hj.ne'
  obtain ⟨st, hst, hx, hlive, hd⟩ := ha.here
  refine ⟨hread, free_queue_calm hcalm ha.queue, free_rrd_next ha.queue, free_exe_next ha.rrd,
    ⟨⟨st.toFlight.update i.pipe.core.back.b1, st.data, st.live && !s.killed i st.toFlight⟩, ?_,
      hx.trans hitem.symm, ?_, hd⟩, fun q k g hk hne hg => ?_, hj⟩
  · exact congrArg (Option.map _) hst
  · rw [killed_of_holder h ok ha.holder, hlive]
    rfl
  · rcases r_uops_next_cases hg with ⟨rfl, f, hf, hfi⟩ | ⟨k, f, rfl, hf, hfi⟩
    · rw [← show f.uop.toMicroOp = g.uop.toMicroOp from congrArg Item.uop hfi]
      exact ha.exe q f (alu_req_eq_some hf).1
    · rw [← show f.uop.toMicroOp = g.uop.toMicroOp from congrArg Item.uop hfi]
      refine ha.rest q k f ((Nat.lt_succ_self k).trans hk) (fun heq => hne ?_) hf
      obtain ⟨rfl, rfl⟩ := Prod.mk.inj heq
      rfl

/-- It leaves the last stage. -/
theorem last_next (h : s.Inv c) (ok : s.Ok c i) {a : RobIdx N W} {p : Fin I} {j : ℕ}
    {d : BitVec 64} (ha : s.AtStage c a p j d) (hj : c.numStages p = j + 1) :
    (s.next c i).pipe.Holder readsUCSR a ∧ (s.next c i).AtRest c ∧
      (s.next c i).pipe.core.sys.item a = s.pipe.core.sys.item a := by
  have hcalm := calm h.front ok ha.holder
  obtain ⟨hw, hitem⟩ := holder_next custom_reads h.front ok.pipe ha.holder
    (not_commit_of_bsy (i := s.pipeIn i) ha.bsy)
  refine ⟨hw, ⟨free_queue_calm hcalm ha.queue, free_rrd_next ha.queue, free_exe_next ha.rrd,
    fun q k g hk hg => ?_⟩, hitem⟩
  rcases r_uops_next_cases hg with ⟨rfl, f, hf, hfi⟩ | ⟨k, f, rfl, hf, hfi⟩
  · rw [← show f.uop.toMicroOp = g.uop.toMicroOp from congrArg Item.uop hfi]
    exact ha.exe q f (alu_req_eq_some hf).1
  · rw [← show f.uop.toMicroOp = g.uop.toMicroOp from congrArg Item.uop hfi]
    refine ha.rest q k f ((Nat.lt_succ_self k).trans hk) (fun heq => ?_) hf
    obtain ⟨rfl, rfl⟩ := Prod.mk.inj heq
    exact absurd hk (by omega)

/-! ### One cycle -/

theorem rest_next (hr : s.AtRest c)
    (hd : Pipe.FreeQueue readsUCSR (s.pipe.dispatched (s.pipeIn i))) : (s.next c i).AtRest c :=
  ⟨free_queue_next hr.queue hd, free_rrd_next hr.queue, free_exe_next hr.rrd,
    free_alu_next hr.exe hr.alu⟩

/-- Without a read on its way, one may come in. -/
theorem idle_next (h : s.Inv c) (ok : s.Ok c i) (hno : ∀ a, ¬ s.pipe.Holder readsUCSR a)
    (hr : s.AtRest c) : (s.next c i).Way c := by
  have hf := h.front
  by_cases hw : ∃ w, s.pipe.core.dis_fire (s.coreIn i) w = true ∧
    (s.pipe.core.ren2_uop w).exception = false ∧
      readsUCSR (s.pipe.core.ren2_uop w).toMicroOp = true
  · obtain ⟨w, hfire, hexc, hread⟩ := hw
    obtain ⟨e, hd, hitem, hstate, hpois⟩ :=
      dispatched_of_fire custom_reads hf ok.pipe hfire hexc hread
    obtain ⟨a, ha, hb, hent⟩ := holder_of_fire custom_reads hf ok.pipe hfire hexc hread
    refine .issue a ⟨⟨ha, hb⟩, ?_, free_rrd_next hr.queue, free_exe_next hr.rrd,
      free_alu_next hr.exe hr.alu⟩
    have hent' : (s.next c i).pipe.core.sys.item a = _ := hent
    rw [hent', ← hitem]
    exact single_queue_enter hd hstate hpois hr.queue
  · refine .idle (fun a ha => ?_) (rest_next hr (free_dispatched fun w hfire hexc => ?_))
    · rcases holder_prev hf ok.pipe ha with hold | hnew
      · exact hno a hold
      · exact hw ⟨a.2, hnew⟩
    · by_contra hread
      exact hw ⟨w, hfire, hexc, eq_true_of_ne_false hread⟩

/-- After its write, it waits to commit. -/
theorem written_next (h : s.Inv c) (ok : s.Ok c i) {a : RobIdx N W}
    (ha : s.pipe.Holder readsUCSR a) (hr : s.AtRest c) : (s.next c i).Way c := by
  have hf := h.front
  have hrest : (s.next c i).AtRest c := rest_next hr (by
    rw [(calm hf ok ha).dispatched]
    exact fun e he => absurd he List.not_mem_nil)
  cases hc : s.pipe.core.sys.rob.commit_at (s.robIn i).toIn a.1 a.2 with
  | false => exact .written a (holder_next custom_reads hf ok.pipe ha hc).1 hrest
  | true =>
    refine .idle (fun b hb => ?_) hrest
    rcases holder_prev hf ok.pipe hb with hold | ⟨hfire, -⟩
    · obtain rfl := (alone_of_holder custom_reads hf ha).2.2 b hold.1
      exact absurd ((val_next.1 hb.1).2.2.2.symm.trans hc) (by simp)
    · exact absurd (hfire.symm.trans (not_fire_of_holder hf ha b.2)) (by simp)

theorem way_next (h : s.Inv c) (ok : s.Ok c i) : (s.next c i).Way c := by
  cases h.way with
  | idle hno hr => exact idle_next h ok hno hr
  | issue a ha =>
    rcases issue_next h ok ha with hwait | ⟨p, hread⟩
    · exact .issue a hwait
    · exact .read a p hread
  | read a p ha => exact .execute a p (read_next h ok ha)
  | execute a p ha => exact .stage a p 0 _ (execute_next h ok ha)
  | stage a p j d ha =>
    rcases Nat.lt_or_ge (j + 1) (c.numStages p) with hj | hj
    · exact .stage a p (j + 1) d (stage_next h ok ha hj)
    · have hlast := last_next h ok ha (Nat.le_antisymm hj ha.port)
      exact .written a hlast.1 hlast.2.1
  | written a ha hr => exact written_next h ok ha hr

theorem inv_next (h : s.Inv c) (ok : s.Ok c i) : (s.next c i).Inv c where
  front := front_next h.front ok.pipe
  ren _ hf haddi := ren_next h ok hf haddi
  own _ hf hwen hx := own_next h ok hf hwen hx
  known _ hf := known_next h hf
  newest _ ha _ hy := newest_next h ok ha hy
  fu_code _ he haddi := fu_code_next h ok he haddi
  way := way_next h ok

omit [NeZero N] [NeZero W] in
theorem inv_reset (h : s.Reset) : s.Inv c := by
  have hno : ∀ f, ¬ s.InFlight c f := by
    intro f hf
    cases hf with
    | queue he => exact absurd he (by simp [h.pipe.queue])
    | reading hu _ => exact absurd hu (by simp [h.pipe.rrd_uops])
    | executing hu _ => exact absurd hu (by simp [h.pipe.exe_reg_uops])
    | computing _ hst => exact absurd hst (by simp [h.r_uops])
  have hval : ∀ a, ¬ s.pipe.Holder readsUCSR a := fun a ha =>
    absurd (ha.1.symm.trans (h.pipe.core.sys.val a.1 a.2)) (by simp)
  refine ⟨front_reset h.pipe, fun f hf => absurd hf (hno f), fun f hf => absurd hf (hno f),
    fun f hf => absurd hf (hno f), fun a ha => absurd ha (hval a), fun e he => ?_,
    .idle hval ⟨fun e he => ?_, fun p f hf => ?_, fun p f hf => ?_, fun p j st _ hst => ?_⟩⟩
  · exact absurd he (by simp [h.pipe.queue])
  · exact absurd he (by simp [h.pipe.queue])
  · exact absurd hf (by simp [h.pipe.rrd_uops])
  · exact absurd hf (by simp [h.pipe.exe_reg_uops])
  · exact absurd hst (by simp [h.r_uops])

theorem inv_reach (h : (path c).Reach s) : s.Inv c :=
  h.inv (fun _ h0 => inv_reset h0) fun _ _ hi ok => inv_next hi ok

end Next

end

/-! ## The value -/

section

variable {c : Ports I} {s : Path N W T va I} {i : In N W T va I}

theorem inFlight_of_resp {p : Fin I} {st : Stage N W T} (hst : s.resp c i p = some st) :
    s.InFlight c st.toFlight := by
  obtain ⟨j, hn, hr⟩ := resp_eq_some hst
  exact .computing (hn ▸ Nat.lt_succ_self j) hr

/-- For a counter read, the ALU adds nothing to the data beside it. -/
theorem alu_out_counter (h : s.Inv c) {a : RobIdx N W} {p : Fin I} (ha : s.AtExecute c a p)
    (hk : readsCounter (s.pipe.core.sys.item a).uop = true) : s.alu_out i p = s.read_data p := by
  obtain ⟨f, hf, hx⟩ := ha.exe.here
  have haddi : f.uop.uopc = uopADDI := by
    have hcode := (alone_of_holder custom_reads h.front ha.holder).1
    rw [← show f.uop.toMicroOp = (s.pipe.core.sys.rob.bank a.1 a.2).uop.toMicroOp from
      congrArg Item.uop hx] at hcode
    exact hcode
  rw [← hx] at hk
  have himm : (decodeADDI f.uop.inst).imm_packed = 0 := by
    simp only [Flight.item, readsCounter, Bool.and_eq_true] at hk
    exact if_pos hk.2
  have hrs1 : s.rs1_data p = s.read_data p := by
    rw [Path.rs1_data, hf, Option.any_some]
    exact if_pos hk
  have hzero : (immGen 0 .IS_I).signExtend 64 = 0 := by decide
  rw [Path.alu_out, hf, Option.filter_some, if_pos (decide_eq_true haddi)]
  dsimp only
  rw [himm, hrs1, hzero]
  exact BitVec.add_zero _

/-- What the last stage puts on the write port. -/
theorem write_back (h : s.Inv c) (ok : s.Ok c i) {a : RobIdx N W} {p : Fin I} {j : ℕ}
    {d : BitVec 64} (ha : s.AtStage c a p j d) (hj : c.numStages p = j + 1) :
    ∃ st, s.resp c i p = some st ∧ st.item = s.pipe.core.sys.item a ∧ s.wb_data i p st =
      (s.pipe.core.ucsr.getUCSR (instTag (s.pipe.core.sys.item a).uop.inst)).getD d := by
  obtain ⟨st, hst, hx, hlive, hd⟩ := ha.here
  have hkill : isKilledByBranch i.pipe.core.back.b1 st.uop.br_mask = false :=
    (calm h.front ok ha.holder).branch _
  have hresp : s.resp c i p = some st := by
    simp only [Path.resp, hj]
    rw [hst, Option.filter_some, hlive, hkill]
    rfl
  have huop : st.uop.toMicroOp = (s.pipe.core.sys.rob.bank a.1 a.2).uop.toMicroOp :=
    congrArg Item.uop hx
  have hread : readsUCSR st.uop.toMicroOp = true := by
    rw [huop]
    exact ha.holder.2.2
  have haddi : st.uop.uopc = uopADDI :=
    (congrArg Reorder.MicroOp.uopc huop).trans
      (alone_of_holder custom_reads h.front ha.holder).1
  refine ⟨st, hresp, hx, ?_⟩
  rw [Path.wb_data, if_pos hread, ok.csr_rdata p st hresp haddi, Option.getD_none, hd, ← hx]
  rfl

/-- A write comes from another unit, or from an ALU, for the owner of its register. -/
theorem owner_of_write (h : s.Inv c) (ok : s.Ok c i) {w : ℕ × BitVec 64}
    (hw : w ∈ s.writes c i) (hx : w.1 ≠ 0) :
    (∃ y, s.owner w.1 = some y ∧ y.uop.uopc ≠ uopADDI) ∨
      ∃ q st, s.resp c i q = some st ∧ s.owner w.1 = some st.item ∧ w.2 = s.wb_data i q st := by
  rcases List.mem_append.1 hw with hw | hw
  · exact .inl (ok.others w hw hx)
  · obtain ⟨q, -, hq⟩ := List.mem_filterMap.1 hw
    obtain ⟨st, hst, rfl⟩ := Option.map_eq_some_iff.1 hq
    obtain ⟨hst, hwen⟩ := Option.filter_eq_some_iff.1 hst
    exact .inr ⟨q, st, hst, h.own _ (inFlight_of_resp hst) hwen hx, rfl⟩

/-- A bypass port carries the result of a uop on its way. -/
theorem inFlight_of_bypass {b : Item W × BitVec 64} (hb : b ∈ s.bypasses c i) :
    ∃ f, s.InFlight c f ∧ f.item = b.1 := by
  obtain ⟨p, -, hp⟩ := List.mem_flatMap.1 hb
  obtain ⟨j, hj, hbj⟩ := List.mem_filterMap.1 hp
  rw [List.mem_range] at hj
  cases j with
  | zero =>
    obtain ⟨f, hf, rfl⟩ := Option.map_eq_some_iff.1 hbj
    obtain ⟨hu, hv⟩ := alu_req_eq_some hf
    exact ⟨f, .executing hu hv, rfl⟩
  | succ k =>
    obtain ⟨st, hst, rfl⟩ := Option.map_eq_some_iff.1 hbj
    exact ⟨st.toFlight, .computing ((Nat.lt_succ_self k).trans hj) hst, rfl⟩

/-! ### After the write -/

/-- Nothing writes the register again. -/
theorem not_write_of_settled (h : s.Inv c) (ok : s.Ok c i) {x : ℕ} {y : Item W} {v : BitVec 64}
    (hs : s.Settled c x y v) (hx : x ≠ 0) (hy : y.uop.uopc = uopADDI) (hown : s.owner x = some y)
    {w : ℕ × BitVec 64} (hw : w ∈ s.writes c i) : w.1 ≠ x := by
  rintro rfl
  rcases owner_of_write h ok hw hx with ⟨z, hz, hcode⟩ | ⟨q, st, hst, hz, -⟩
  · obtain rfl := Option.some.inj (hown.symm.trans hz)
    exact hcode hy
  · exact hs.gone _ (inFlight_of_resp hst) (Option.some.inj (hz.symm.trans hown))

/-- An operand is the value. -/
theorem operand_of_settled (h : s.Inv c) (ok : s.Ok c i) {x : ℕ} {y : Item W} {v : BitVec 64}
    (hs : s.Settled c x y v) (hx : x ≠ 0) (hy : y.uop.uopc = uopADDI) (hown : s.owner x = some y)
    (rtype : Rename.RType) : s.operand c i x rtype = v := by
  have hport : s.read_port c i x = v := by
    have hnone : (s.writes c i).filter (fun w => w.1 = x) = [] :=
      List.filter_eq_nil_iff.2 fun w hw => by
        simpa using not_write_of_settled h ok hs hx hy hown hw
    rw [Path.read_port, hnone]
    exact hs.value
  have hfind : (s.bypasses c i).find? (fun b => decide (x = (s.destOf b.1).pdst) &&
      (s.destOf b.1).rf_wen && decide (rtype = .RT_FIX) && decide (x ≠ 0)) = none := by
    refine List.find?_eq_none.2 fun b hb hhit => ?_
    simp only [Bool.and_eq_true, decide_eq_true_eq] at hhit
    obtain ⟨⟨⟨hpdst, hwen⟩, -⟩, -⟩ := hhit
    obtain ⟨f, hf, hitem⟩ := inFlight_of_bypass hb
    rw [← hitem] at hpdst hwen
    have hf' := h.own f hf hwen (by rw [← hpdst]; exact hx)
    rw [← hpdst, hown] at hf'
    exact hs.gone f hf (Option.some.inj hf').symm
  rw [Path.operand, hfind, if_neg hx, hport]

section Next

variable [NeZero N] [NeZero W]

/-- A register does not come back to a uop. -/
theorem owner_prev {x : ℕ} {y : Item W} (hpast : y.cycle < s.pipe.core.sys.now)
    (hown : (s.next c i).owner x = some y) : s.owner x = some y := by
  rw [owner_next] at hown
  cases hg : s.giving i x with
  | none =>
    rw [hg] at hown
    exact hown
  | some _ =>
    rw [hg] at hown
    obtain rfl := Option.some.inj hown
    exact absurd hpast (lt_irrefl _)

/-- and a uop that has gone does not come back. -/
theorem gone_next {y : Item W} (hpast : y.cycle < s.pipe.core.sys.now)
    (hgone : ∀ f, s.InFlight c f → f.item ≠ y) :
    ∀ f, (s.next c i).InFlight c f → f.item ≠ y := by
  rintro f hf rfl
  rcases inFlight_prev hf with ⟨g, hg, hitem⟩ | ⟨w, -, hitem⟩
  · exact hgone g hg hitem
  · rw [hitem] at hpast
    exact absurd hpast (lt_irrefl _)

theorem settled_next (h : s.Inv c) (ok : s.Ok c i) {x : ℕ} {y : Item W} {v : BitVec 64}
    (hs : s.Settled c x y v) (hx : x ≠ 0) (hy : y.uop.uopc = uopADDI) (hown : s.owner x = some y) :
    (s.next c i).Settled c x y v where
  value := Writes.writes_eq
    (fun _ hw hwx => absurd hwx (not_write_of_settled h ok hs hx hy hown hw)) (.inr hs.value)
  known := List.mem_append_left _ hs.known
  gone := gone_next (h.front.sys.past y hs.known) hs.gone

omit [NeZero N] [NeZero W] in
/-- No read is on its way, and so none that is named. -/
theorem gone_of_rest (hr : s.AtRest c) {y : Item W} (hy : readsUCSR y.uop = true)
    {f : Flight N W T} (hf : s.InFlight c f) : f.item ≠ y := by
  have hfree : readsUCSR f.uop.toMicroOp = false := by
    cases hf with
    | queue he => exact hr.queue _ he
    | reading hu _ => exact hr.rrd _ _ hu
    | executing hu _ => exact hr.exe _ _ hu
    | computing hj hst => exact hr.alu _ _ _ hj hst
  rintro rfl
  exact absurd (hy.symm.trans hfree) (by simp)

omit [NeZero N] [NeZero W] in
/-- The register of a read is its own. -/
theorem owner_of_stage (h : s.Inv c) {a : RobIdx N W} {p : Fin I} {j : ℕ} {d : BitVec 64}
    (ha : s.AtStage c a p j d) :
    (s.destOf (s.pipe.core.sys.item a)).rf_wen = true ∧
      (s.destOf (s.pipe.core.sys.item a)).pdst ≠ 0 ∧
      s.owner (s.destOf (s.pipe.core.sys.item a)).pdst = some (s.pipe.core.sys.item a) ∧
      s.pipe.core.sys.item a ∈ s.pipe.core.sys.enqueued := by
  obtain ⟨st, hst, hitem, -⟩ := ha.here
  have hfl : s.InFlight c st.toFlight := .computing ha.port hst
  have hread : readsUCSR (s.pipe.core.sys.item a).uop = true := ha.holder.2.2
  have haddi : (s.pipe.core.sys.item a).uop.uopc = uopADDI :=
    (alone_of_holder custom_reads h.front ha.holder).1
  rw [← hitem] at hread haddi ⊢
  obtain ⟨hwen, hpdst⟩ := h.ren _ hfl haddi
  have hldst : (decodeADDI st.uop.inst).ldst ≠ 0 := by
    rw [readsUCSR, Bool.and_eq_true] at hread
    exact of_decide_eq_true hread.2
  exact ⟨hwen, hpdst hldst, h.own _ hfl hwen (hpdst hldst), h.known _ hfl⟩

/-- The write of the last stage. -/
theorem settled_of_stage (h : s.Inv c) (ok : s.Ok c i) {a : RobIdx N W} {p : Fin I} {j : ℕ}
    {d : BitVec 64} (ha : s.AtStage c a p j d) (hj : c.numStages p = j + 1) :
    (s.next c i).Settled c (s.destOf (s.pipe.core.sys.item a)).pdst (s.pipe.core.sys.item a)
      ((s.pipe.core.ucsr.getUCSR (instTag (s.pipe.core.sys.item a).uop.inst)).getD d) := by
  obtain ⟨st, hst, hitem, hdata⟩ := write_back h ok ha hj
  obtain ⟨hwen, hx, hown, hknown⟩ := owner_of_stage h ha
  have hread : readsUCSR (s.pipe.core.sys.item a).uop = true := ha.holder.2.2
  have haddi : (s.pipe.core.sys.item a).uop.uopc = uopADDI :=
    (alone_of_holder custom_reads h.front ha.holder).1
  obtain ⟨-, hrest, -⟩ := last_next h ok ha hj
  have hport : s.write_port c i p = some ((s.destOf (s.pipe.core.sys.item a)).pdst,
      (s.pipe.core.ucsr.getUCSR (instTag (s.pipe.core.sys.item a).uop.inst)).getD d) := by
    rw [Path.write_port, hst, Option.filter_some, hitem, hwen, if_pos rfl, Option.map_some, hitem,
      hdata]
  have hwrite := List.mem_append_right i.others
    (List.mem_filterMap.2 ⟨p, List.mem_finRange p, hport⟩)
  refine ⟨Writes.writes_eq (fun w hw hwx => ?_) (.inl ⟨_, hwrite, rfl⟩),
    List.mem_append_left _ hknown, fun f hf => gone_of_rest hrest hread hf⟩
  -- the write of no other port
  rw [← hwx] at hx hown
  rcases owner_of_write h ok hw hx with ⟨z, hz, hno⟩ | ⟨q, st', hst', hz, hval⟩
  · obtain rfl := Option.some.inj (hown.symm.trans hz)
    exact absurd haddi hno
  · have hsame : st'.item = s.pipe.core.sys.item a := Option.some.inj (hz.symm.trans hown)
    obtain ⟨k, hn, hr⟩ := resp_eq_some hst'
    have hqp : q = p := by
      by_contra hne
      have hfree := ha.rest q k st' (hn ▸ Nat.lt_succ_self k)
        (fun heq => hne (Prod.mk.inj heq).1) hr
      rw [← hsame] at hread
      exact absurd (hread.symm.trans hfree) (by simp)
    subst hqp
    obtain rfl := Option.some.inj (hst'.symm.trans hst)
    rw [hval, hdata]

/-! ### The issue of a read -/

/-- A read that is issued goes to register read on its port. -/
theorem read_of_iss (h : s.Inv c) (ok : s.Ok c i) {p : Fin I} {e : Waiting N W T}
    (he : s.iss_uops i p = some e) (hread : readsUCSR e.uop.toMicroOp = true) :
    ∃ a, (s.next c i).AtRead c a p ∧ (s.next c i).pipe.core.sys.item a = e.item := by
  have hmem := mem_queue_of_iss he
  have hnext : (s.next c i).pipe.rrd_uops p = some (e.issue.update i.pipe.core.back.b1) :=
    congrArg (Option.map fun e : Waiting N W T => e.issue.update i.pipe.core.back.b1) he
  have hno : ¬ Pipe.FreeQueue readsUCSR s.pipe.queue := fun hq =>
    absurd (hread.symm.trans (hq e hmem)) (by simp)
  cases h.way with
  | idle _ hr => exact absurd hr.queue hno
  | read a q ha => exact absurd ha.queue hno
  | execute a q ha => exact absurd ha.queue hno
  | stage a q j d ha => exact absurd ha.queue hno
  | written a _ hr => exact absurd hr.queue hno
  | issue a ha =>
    rcases issue_next h ok ha with hwait | ⟨q, hq⟩
    · have hfree := hwait.rrd p _ hnext
      exact absurd (hread.symm.trans hfree) (by simp)
    · have hpq : p = q := by
        by_contra hne
        have hfree := hq.rrd.rest p _ hne hnext
        exact absurd (hread.symm.trans hfree) (by simp)
      subst hpq
      obtain ⟨f, hf, hx⟩ := hq.rrd.here
      obtain rfl := Option.some.inj (hnext.symm.trans hf)
      exact ⟨a, hq, hx.symm⟩

theorem item_next (h : s.Inv c) (ok : s.Ok c i) {a : RobIdx N W}
    (ha : s.pipe.Holder readsUCSR a) :
    (s.next c i).pipe.core.sys.item a = s.pipe.core.sys.item a :=
  item_next_of_val h.front.sys ok.pipe.rob ha.1

omit [NeZero N] [NeZero W] in
/-- The counter that a read addresses. -/
theorem read_addr_of_iss {p : Fin I} {e : Waiting N W T} {k : BitVec 7}
    (he : s.iss_uops i p = some e) (hread : readsCounter e.uop.toMicroOp = true)
    (hk : instTag e.uop.inst = 128 + k.setWidth 12) : s.read_addr i p = some k := by
  have hlow : e.uop.inst.extractLsb' 20 7 = (instTag e.uop.inst).setWidth 7 := by
    apply BitVec.eq_of_toNat_eq
    simp only [instTag, BitVec.extractLsb'_toNat, BitVec.toNat_setWidth]
    omega
  have hback : ∀ k : BitVec 7, (128 + k.setWidth 12 : BitVec 12).setWidth 7 = k := by decide
  rw [Path.read_addr, he, Option.filter_some, if_pos hread, Option.map_some, hlow, hk, hback]

end Next

end

/-! ## All runs -/

section Runs

variable [NeZero N] [NeZero W] {c : Ports I} 
  (r : (path c : Machine (Path N W T va I) (In N W T va I)).Run)

theorem inv_run (u : ℕ) : (r.state u).Inv c := inv_reach (r.reach u)

theorem state_succ (u : ℕ) : r.state (u + 1) = (r.state u).next c (r.input u) := r.next u

theorem enqueued_run {u u' : ℕ} (hu : u ≤ u') :
    (r.state u).pipe.core.sys.enqueued ⊆ (r.state u').pipe.core.sys.enqueued := by
  induction u', hu using Nat.le_induction with
  | base => exact fun _ hy => hy
  | succ u' _ ih =>
    rw [state_succ, enqueued_next]
    exact fun y hy => List.mem_append_left _ (ih hy)

/-- A value stays until the register is given away. -/
theorem settled_run {u u' x : ℕ} {y : Item W} {v : BitVec 64} (hs : (r.state u).Settled c x y v)
    (hx : x ≠ 0) (hy : y.uop.uopc = uopADDI) (hu : u ≤ u')
    (hown : (r.state u').owner x = some y) : (r.state u').Settled c x y v := by
  induction u', hu using Nat.le_induction with
  | base => exact hs
  | succ u' hu ih =>
    have hi := inv_run r u'
    rw [state_succ] at hown ⊢
    have hprev := owner_prev (hi.front.sys.past y (enqueued_run r hu hs.known)) hown
    exact settled_next hi (r.ok u') (ih hprev) hx hy hprev

/-- The destination of a uop stays. -/
theorem destOf_run {u u' : ℕ} (hu : u ≤ u') {y : Item W}
    (hy : y ∈ (r.state u).pipe.core.sys.enqueued) :
    (r.state u').destOf y = (r.state u).destOf y := by
  induction u', hu using Nat.le_induction with
  | base => rfl
  | succ u' hu' ih =>
    have hpast := (inv_run r u').front.sys.past y (enqueued_run r hu' hy)
    rw [state_succ, destOf_next, if_neg hpast.ne, ih]

variable {t : ℕ} {p : Fin I} {e : Waiting N W T}

/-- Two cycles after its issue a read is in execute. -/
theorem execute_run (he : (r.state t).iss_uops (r.input t) p = some e)
    (hread : readsUCSR e.uop.toMicroOp = true) :
    ∃ a, (r.state (t + 2)).AtExecute c a p ∧ (r.state (t + 2)).pipe.core.sys.item a = e.item := by
  obtain ⟨a, ha, hitem⟩ := read_of_iss (inv_run r t) (r.ok t) he hread
  rw [← state_succ] at ha hitem
  refine ⟨a, ?_, ?_⟩ <;> rw [state_succ]
  · exact read_next (inv_run r (t + 1)) (r.ok (t + 1)) ha
  · rw [item_next (inv_run r (t + 1)) (r.ok (t + 1)) ha.holder, hitem]

/-- and then its result goes from stage to stage. -/
theorem stage_run (he : (r.state t).iss_uops (r.input t) p = some e)
    (hread : readsUCSR e.uop.toMicroOp = true) {j : ℕ} (hj : j < c.numStages p) :
    ∃ a, (r.state (t + 3 + j)).AtStage c a p j ((r.state (t + 2)).alu_out (r.input (t + 2)) p) ∧
      (r.state (t + 3 + j)).pipe.core.sys.item a = e.item := by
  induction j with
  | zero =>
    obtain ⟨a, ha, hitem⟩ := execute_run r he hread
    rw [show t + 3 + 0 = t + 2 + 1 from rfl, state_succ]
    exact ⟨a, execute_next (inv_run r _) (r.ok _) ha,
      (item_next (inv_run r _) (r.ok _) ha.holder).trans hitem⟩
  | succ j ih =>
    obtain ⟨a, ha, hitem⟩ := ih ((Nat.lt_succ_self j).trans hj)
    rw [← Nat.add_assoc, state_succ]
    exact ⟨a, stage_next (inv_run r _) (r.ok _) ha hj,
      (item_next (inv_run r _) (r.ok _) ha.holder).trans hitem⟩

/-- The counter goes beside register read to the ALU. -/
theorem read_data_run {k : BitVec 7} (he : (r.state t).iss_uops (r.input t) p = some e)
    (hread : readsCounter e.uop.toMicroOp = true) (hk : instTag e.uop.inst = 128 + k.setWidth 12)
    (hn : k.toNat < 16 * c.subECounterNum) :
    (r.state (t + 2)).read_data p = (r.state t).counters k := by
  have hdata : (r.state (t + 2)).read_data p = (r.state (t + 1)).reg_read_data p := by
    rw [state_succ]
    rfl
  have hreg : (r.state (t + 1)).reg_read_data p = EventCounter.step c.subECounterNum
      (r.state t).counters ((r.state t).reg_read_data p) ((r.state t).read_addr (r.input t) p) := by
    rw [state_succ]
    rfl
  have hbank : (k.extractLsb' 4 3).toNat < c.subECounterNum := by
    rw [BitVec.extractLsb'_toNat, Nat.shiftRight_eq_div_pow]
    have := k.isLt
    omega
  rw [hdata, hreg, read_addr_of_iss he hread hk]
  exact if_pos hbank

/-- A counter holds the sum of its events. -/
theorem counters_run {z : ℕ} (hzt : z < t) (hz : (r.state z).reset_counter (r.input z) = true)
    (hlast : ∀ m, z < m → m < t → (r.state m).reset_counter (r.input m) = false) (k : BitVec 7) :
    (r.state t).counters k =
      .ofNat 64 (∑ m ∈ Finset.Ico (z + 1) t, ((r.input m).event_signals k).toNat) := by
  have hnext : ∀ m, (r.state (m + 1)).counters k =
      if (r.state m).reset_counter (r.input m) then 0
      else (r.state m).counters k + ((r.input m).event_signals k).setWidth 64 := by
    intro m
    rw [state_succ, ← c.wideCounter.count_eq]
    rfl
  induction t, hzt using Nat.le_induction with
  | base =>
    rw [hnext, if_pos hz, Finset.Ico_self, Finset.sum_empty]
    rfl
  | succ t hzt ih =>
    rw [hnext, hlast t hzt (Nat.lt_succ_self t), if_neg Bool.false_ne_true,
      ih fun m hm hmt => hlast m hm (hmt.trans (Nat.lt_succ_self t)),
      Finset.sum_Ico_succ_top hzt, BitVec.ofNat_add]
    congr 1
    apply BitVec.eq_of_toNat_eq
    rw [BitVec.toNat_setWidth, BitVec.toNat_ofNat]

/-- The last stage of its ALU has the value. -/
theorem last_run {v : BitVec 64} (he : (r.state t).iss_uops (r.input t) p = some e)
    (hread : readsUCSR e.uop.toMicroOp = true)
    (hv : (∃ k : BitVec 7, k.toNat < 16 * c.subECounterNum ∧
        readsCounter e.uop.toMicroOp = true ∧ instTag e.uop.inst = 128 + k.setWidth 12 ∧
        v = (r.state t).counters k) ∨
      (r.state (t + 2 + c.numStages p)).pipe.core.ucsr.getUCSR (instTag e.uop.inst) = some v) :
    ∃ a j d, c.numStages p = j + 1 ∧ (r.state (t + 2 + c.numStages p)).AtStage c a p j d ∧
      (r.state (t + 2 + c.numStages p)).pipe.core.sys.item a = e.item ∧
      ((r.state (t + 2 + c.numStages p)).pipe.core.ucsr.getUCSR (instTag e.uop.inst)).getD d =
        v := by
  obtain ⟨a₂, ha₂, hitem₂⟩ := execute_run r he hread
  obtain ⟨j, hn⟩ := Nat.exists_eq_succ_of_ne_zero ha₂.port
  have htime : t + 2 + c.numStages p = t + 3 + j := by omega
  obtain ⟨a, ha, hitem⟩ := stage_run r he hread (hn ▸ Nat.lt_succ_self j)
  rw [htime] at hv ⊢
  refine ⟨a, j, _, hn, ha, hitem, ?_⟩
  rcases hv with ⟨k, hk, hcount, htag, rfl⟩ | hget
  · -- the tag of a counter is not one of the write port
    have hnone : ¬ Assigned 0 (instTag e.uop.inst) := by
      rw [htag, Assigned, BitVec.toNat_add, BitVec.toNat_setWidth]
      have := k.isLt
      simp only [BitVec.ofNat_eq_ofNat, BitVec.toNat_ofNat]
      omega
    have hcount₂ : readsCounter ((r.state (t + 2)).pipe.core.sys.item a₂).uop = true := by
      rw [hitem₂]
      exact hcount
    rw [getUCSR_eq_none _ hnone, Option.getD_none, alu_out_counter (inv_run r (t + 2)) ha₂ hcount₂]
    exact read_data_run r he hcount htag hk
  · rw [hget, Option.getD_some]

end Runs

/-! ## A run -/

section Run

open Sampling (userUop)

/-- One port, whose ALU has one stage. -/
def ports : Ports 1 := ⟨fun _ => 1, 4, ⟨fun v e => v + e.setWidth 64, fun _ _ => rfl⟩⟩

/-- `addi x0, x5, 128 + k`. -/
def readUop (k : BitVec 7) : RobUop 2 1 1 :=
  { userUop none with
    uopc := uopADDI
    inst := (128 + k.setWidth 12 : BitVec 12).setWidth 32 <<< 20 ||| 5 <<< 15 ||| 0b0010011 }

/-- `addi x6, x5, 0`. -/
def useUop : RobUop 2 1 1 :=
  { userUop none with uopc := uopADDI, inst := 5 <<< 15 ||| 6 <<< 7 ||| 0b0010011 }

/-- The data path after reset. -/
def resetPath : Path 2 1 1 40 1 where
  pipe := resetPipe
  counters _ := 0
  reg_read_data _ := 0
  read_data _ := 0
  rrd_ops _ := none
  exe_ops _ := none
  exe_reg_rs1_data _ := 0
  r_uops _ _ := none
  regfile _ := 0
  dest _ _ := ⟨0, false⟩
  owner _ := none

/-- A cycle in which each counter has three events and rename offers `pdst`. -/
def cycle (dec : Option (RobUop 2 1 1)) (grant : Option ℕ) (wb : List (Fin 2)) (pdst : ℕ) :
    In 2 1 1 40 1 where
  pipe :=
    { CustomWrite.cycle dec grant wb with
      ren_uops := fun _ => ⟨.other 0, FU_ALU, 0, .RT_FIX, .RT_X, false, 5, 0, 0, 0, false, false,
        false, false, false, false, .s_valid_1, fun _ => false, false, false, false⟩ }
  event_signals _ := 3
  dests _ := ⟨pdst, true⟩
  alu_out _ := 0
  csr_rdata _ := none
  others := []

/-- What is on its way, with one port and one stage. -/
def flights (s : Path 2 1 1 40 1) : List (Flight 2 1 1) :=
  s.pipe.queue.map (·.toFlight) ++ (s.pipe.rrd_uops 0).toList ++ (s.pipe.exe_reg_uops 0).toList ++
    (s.r_uops 0 0).toList.map (·.toFlight)

theorem mem_flights {s : Path 2 1 1 40 1} {f : Flight 2 1 1} (hf : s.InFlight ports f) :
    f ∈ flights s := by
  simp only [flights, List.mem_append, List.mem_map, Option.mem_toList, or_assoc]
  cases hf with
  | queue he => exact .inl ⟨_, he, rfl⟩
  | @reading p _ hu _ =>
    rw [Subsingleton.elim p 0] at hu
    exact .inr (.inl hu)
  | @executing p _ hu _ =>
    rw [Subsingleton.elim p 0] at hu
    exact .inr (.inr (.inl hu))
  | @computing p j st hj hst =>
    rw [Subsingleton.elim p 0, Nat.lt_one_iff.1 hj] at hst
    exact .inr (.inr (.inr ⟨st, hst, rfl⟩))

/-- What `Path.Ok` asks of such a cycle. -/
def fits (s : Path 2 1 1 40 1) (i : In 2 1 1 40 1) : Bool :=
  cycleOk s.pipe (s.pipeIn i) && decide ((i.dests 0).pdst ≠ 0) &&
  (!s.pipe.core.dis_fire (s.coreIn i) 0 ||
    (flights s).all fun f => decide ((s.destOf f.item).pdst ≠ (i.dests 0).pdst)) &&
  (List.finRange 2).all fun r => !Rob.unbusy_at (s.robIn i).toIn r 0 ||
    (s.resp ports i 0).any fun st => decide (st.item = s.pipe.core.sys.item (r, 0))

theorem ok_of_fits (s : Path 2 1 1 40 1) {dec : Option (RobUop 2 1 1)} {grant : Option ℕ}
    {wb : List (Fin 2)} {pdst : ℕ} (h : fits s (cycle dec grant wb pdst) = true) :
    s.Ok ports (cycle dec grant wb pdst) := by
  simp only [fits, Bool.and_eq_true, decide_eq_true_eq, List.all_eq_true, Bool.or_eq_true,
    Bool.not_eq_true', Option.any_eq_true] at h
  obtain ⟨⟨⟨hpipe, hpdst⟩, hfresh⟩, hans⟩ := h
  refine
    { pipe := ok_of_cycleOk hpipe rfl (fun _ => rfl) rfl rfl rfl fun k l p hk hl =>
        grants_inj dec grant wb k l p hk hl
      row_addi := fun _ _ _ => ⟨rfl, rfl⟩
      pdst := fun _ _ _ _ => hpdst
      fresh := fun w hw _ _ => ⟨fun f hf _ => ?_, fun v _ _ _ => Subsingleton.elim v w⟩
      others := fun x hx => absurd hx List.not_mem_nil
      csr_rdata := fun _ _ _ _ => rfl
      fu_types := fun _ _ _ _ => Nat.one_ne_zero
      answers := ?_ }
  · rw [Subsingleton.elim w 0] at hw
    rcases hfresh with hno | hall
    · exact absurd (hno.symm.trans hw) (by simp)
    · exact hall f (mem_flights hf)
  · rintro ⟨r, w⟩ hun _
    obtain rfl : w = 0 := Subsingleton.elim w 0
    rcases hans r (List.mem_finRange r) with hno | ⟨st, hst, hitem⟩
    · exact absurd (hno.symm.trans hun) (by simp)
    · exact ⟨0, st, hst, hitem⟩

/-- A counter is read; then an instruction that uses the register comes through. -/
def readThenUse : List (In 2 1 1 40 1) :=
  [cycle (some (readUop 3)) none [] 5, cycle none none [] 5, cycle none (some 0) [] 5,
    cycle none none [] 5, cycle none none [] 5, cycle none none [0] 5, cycle none none [] 6,
    cycle none none [] 6, cycle (some useUop) none [] 6, cycle none none [] 6,
    cycle none (some 0) [] 6, cycle none none [] 6, cycle none none [] 6, cycle none none [1] 6]

/-- Nothing is decoded. -/
def idling : In 2 1 1 40 1 := cycle none none [] 6

/-- Nothing is decoded, waits or executes. -/
def Waits (s : Path 2 1 1 40 1) : Prop :=
  s.pipe.core.ren2_valid 0 = false ∧ s.pipe.core.prv = 3 ∧ s.pipe.core.sys.pending = none ∧
    s.pipe.queue = [] ∧ s.pipe.rrd_uops 0 = none ∧ s.pipe.exe_reg_uops 0 = none

theorem waits_step {s : Path 2 1 1 40 1} (h : Waits s) :
    s.Ok ports idling ∧ Waits (s.next ports idling) := by
  obtain ⟨hv, hp, hpend, hq, hr, hx⟩ := h
  have hfire : s.pipe.core.dis_fire (s.coreIn idling) 0 = false := by simp [Core.dis_fire, hv]
  have hdec : ∀ w, s.pipe.core.dec_fire (s.coreIn idling) w = false := fun w => by
    simp [Core.dec_fire, Path.coreIn, Pipe.coreIn, Path.pipeIn, idling, cycle, CustomWrite.cycle,
      Sampling.cycle]
  have hwrites : (s.coreIn idling).ucsr_writes = [] := by
    simp [Path.coreIn, Pipe.coreIn, Pipe.ucsr_writes, Pipe.exe_uop, List.finRange_succ, hx]
    rfl
  have hnone : s.pipe.queue_next (s.pipeIn idling) = [] := by
    have hd : s.pipe.dispatched (s.pipeIn idling) = [] := by
      refine List.flatMap_eq_nil_iff.2 fun w _ => ?_
      rw [Subsingleton.elim w 0]
      exact if_neg (by simp [show s.pipe.core.dis_fire (s.pipe.coreIn (s.pipeIn idling)) 0 = false
        from hfire])
    rw [Pipe.queue_next, hq, hd]
    rfl
  have hiss : s.iss_uops idling 0 = none := by
    rw [Path.iss_uops, Pipe.iss_uops, hq]
    rfl
  have hcalm : Sampling.calm s.pipe.core (s.coreIn idling) = true := by
    simp only [Sampling.calm, hfire, hwrites, hpend]
    simp [Path.coreIn, Pipe.coreIn, Path.pipeIn, idling, cycle, CustomWrite.cycle, Sampling.cycle,
      decode, userUop, hp]
  have hun : ∀ r, Rob.unbusy_at (s.robIn idling).toIn r 0 = false := fun r => by
    simp [Rob.unbusy_at, Path.robIn, Pipe.robIn, Core.robIn, Pipe.coreIn, Path.pipeIn, idling,
      cycle, CustomWrite.cycle, Sampling.cycle]
  refine ⟨ok_of_fits s ?_, ?_, rfl, rfl, hnone, ?_, ?_⟩
  · show fits s idling = true
    have hrow : cycleOk s.pipe (s.pipeIn idling) = true := by
      unfold cycleOk
      rw [show Sampling.calm s.pipe.core (s.pipe.coreIn (s.pipeIn idling)) = true from hcalm]
      simp only [show ∀ r, Rob.unbusy_at (s.pipe.robIn (s.pipeIn idling)).toIn r 0 = false from hun]
      rfl
    unfold fits
    rw [hrow, hfire]
    simp only [hun]
    rfl
  · show s.pipe.core.ren2_valid_next (s.coreIn idling) 0 = false
    simp [Core.ren2_valid_next, hdec, hv]
  · exact congrArg (Option.map _) hiss
  · show (if s.pipe.rrd_kill (s.pipeIn idling) 0 then none else (s.pipe.rrd_uops 0).map _) = none
    rw [hr]
    exact ite_self _

set_option maxRecDepth 20000 in
theorem accepts_readThenUse : (path ports).Accepts resetPath readThenUse := by
  refine ⟨?_, ?_, ?_, ?_, ?_, ?_, ?_, ?_, ?_, ?_, ?_, ?_, ?_, ?_, trivial⟩ <;>
    exact ok_of_fits _ (by decide +kernel)

set_option maxRecDepth 20000 in
/-- The run of `readThenUse`, with nothing after it. -/
def counterRun : (path ports : Machine (Path 2 1 1 40 1) (In 2 1 1 40 1)).Run :=
  Machine.Run.of resetPath (Machine.pad readThenUse idling)
    ⟨⟨Sampling.resetCore_reset, rfl, fun _ => rfl, fun _ => rfl, rfl, rfl⟩, fun _ _ => rfl⟩
    (Machine.ok_pad (fun _ => waits_step) _ _ accepts_readThenUse
      ⟨by decide +kernel, by decide +kernel, by decide +kernel, by decide +kernel,
        by decide +kernel, by decide +kernel⟩)

set_option maxRecDepth 20000 in
/-- The read as it is issued. -/
def issuedRead : Waiting 2 1 1 :=
  ((counterRun.state 2).iss_uops (counterRun.input 2) 0).get (by decide +kernel)

end Run

end BoomStop.CustomRead
