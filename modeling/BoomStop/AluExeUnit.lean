/-
  An integer execution unit (`ALUExeUnit` in `execution-unit.scala`) with the
  register read before it: a pipelined ALU, a multiplier, a divider, and the
  conversion to floating point with its queue.

  * `AluExe.fu_types`: what may be issued to it, with the mask of `core.scala`
    for a division that has just been issued;
  * `AluExe.next`: one cycle;
  * `AluExe.total`: how many uops of some kind there are, on their way or
    delivered; `total_next`: a cycle loses none; `AluExe.book`: the uops as jobs;
  * `AluExe.Inv`: the queue has room for what is on its way to it, and at most
    one division is;
  * `of_reach`: nothing is lost as long as the ALU and the multiplier do not
    both have a result; `no_collision`: with pipelines of one length they do
    not.

  RoCC commands and memory operations are left out.
-/
import BoomStop.FuncUnit
import BoomStop.Lib.Ledger

namespace BoomStop.ExeUnit

open KillableQueue (MicroOp Bits)
open Issue (BrUpdate isKilledByBranch getNewBrMask)
open FuncUnit
open Ledger (Book)

/-! ## The unit -/

/-- The units that a uop may be for; `STA` is store data, for `F2I`. -/
inductive Fu
  | ALU | JMP | CSR | MUL | DIV | I2F | FPU | FDV | F2I | STA
  deriving DecidableEq

/-- What stays of a uop; they are numbered as they are issued. -/
structure Uop (A : Type) where
  number : ℕ
  fu : Fu
  pdst : ℕ
  args : A

/-- The parameters of `ALUExeUnit`. -/
structure AluCfg where
  hasMul : Bool
  hasDiv : Bool
  hasIfpu : Bool
  hasCSR : Bool
  hasJmpUnit : Bool
  imulLatency : ℕ
  intToFpLatency : ℕ

/-- The stages of the ALU: `TODO XXX p(tile.TileKey).core.imulLatency`. -/
def AluCfg.numBypassStages (c : AluCfg) : ℕ := if c.hasMul then 3 else 1

variable {T : ℕ} {A D : Type}

/-- The queues are flushed as a whole, and hand through when they are empty. -/
def queueConfig (T : ℕ) (A : Type) : KillableQueue.Config T (Uop A) := ⟨fun _ => true, true⟩

/-- The registers.  Ghosts: the uops that were issued, the numbers of those that
    were killed, and the results. -/
structure AluExe (c : AluCfg) (T : ℕ) (A D : Type) where
  rrd : Option (MicroOp T (Uop A))
  exe : Option (MicroOp T (Uop A))
  alu : Pipe T (Uop A) D
  imul : Pipe T (Uop A) D
  ifpu : Pipe T (Uop A) D
  queue : KillableQueue.Sys (c.intToFpLatency + 3) T (Uop A) D
  div : DivUnit T (Uop A)
  idiv_issued : Bool
  issued : List (Uop A)
  killed : List ℕ
  results : List (Uop A × D)

/-- The inputs of a cycle. -/
structure AluIn (T : ℕ) (A D : Type) where
  iss : Option (MicroOp T (Uop A))
  /-- it was issued for a load that misses, and is called back -/
  squash : Bool
  brupdate : BrUpdate T
  kill : Bool
  ll_fresp_ready : Bool
  /-- `MulDiv` finishes -/
  finish : Bool
  /-- what the data paths carry without a uop -/
  junk : D

namespace AluExe

variable {c : AluCfg} (value : Uop A → D) (s : AluExe c T A D) (i : AluIn T A D)

/-- The uop that is issued. -/
def new : Option (MicroOp T (Uop A)) := if i.squash then none else i.iss

/-- The request to the units for these codes. -/
def req (fus : List Fu) : Option (MicroOp T (Uop A)) := s.exe.filter fun u => u.fields.fu ∈ fus

/-- The request of the ALU. -/
def aluReq : Option (MicroOp T (Uop A)) := s.req [.ALU, .JMP, .CSR]

/-- The request with the data that goes into the pipelines. -/
def stage (fus : List Fu) : Stage T (Uop A) D :=
  ⟨s.req fus, (s.exe.map fun u => value u.fields).getD i.junk⟩

/-- What goes into the ALU. -/
def aluStage : Stage T (Uop A) D := s.stage value i [.ALU, .JMP, .CSR]

/-- The answer of the ALU. -/
def aluResp : Option (Bits T (Uop A) D) := Pipe.resp s.alu i.brupdate (s.aluStage value i)

/-- The answer of the multiplier. -/
def imulResp : Option (Bits T (Uop A) D) := Pipe.resp s.imul i.brupdate (s.stage value i [.MUL])

/-- The answer of `IntToFPUnit`. -/
def ifpuResp : Option (Bits T (Uop A) D) := Pipe.resp s.ifpu i.brupdate (s.stage value i [.I2F])

/-- The request of the divider. -/
def divReq : Option (MicroOp T (Uop A)) := s.req [.DIV]

/-- The divider shares the write port with the pipelined units. -/
def divRespReady : Bool := (s.aluResp value i).isNone && (s.imulResp value i).isNone

/-- The answer of the divider, if it is taken. -/
def divFired : Option (Bits T (Uop A) D) :=
  s.div.fired i.brupdate i.kill s.divReq (s.divRespReady value i) value

/-- `io.iresp`: the first unit that has a result. -/
def iresp : Option (Bits T (Uop A) D) :=
  ((s.aluResp value i).or (s.imulResp value i)).or (s.div.resp i.brupdate i.kill s.divReq value)

/-- What the queue behind `IntToFPUnit` gets. -/
def queueIn : KillableQueue.In T (Uop A) D :=
  ⟨s.ifpuResp value i, i.ll_fresp_ready, i.brupdate, i.kill⟩

/-- `io.ll_fresp`, if it is taken. -/
def ll_fresp : Option (Bits T (Uop A) D) :=
  s.queue.q.fired (queueConfig T A) (s.queueIn value i)

/-- `div_busy`. -/
def div_busy : Bool := !s.div.ready || s.divReq.isSome

/-- `io.fu_types`: what may be issued. -/
def fu_types : Fu → Bool
  | .ALU => true
  | .MUL => c.hasMul
  | .DIV => !s.div_busy && c.hasDiv && !s.idiv_issued
  | .CSR => c.hasCSR
  | .JMP => c.hasJmpUnit
  | .I2F => s.queue.q.empty && c.hasIfpu
  | _ => false

/-- The uops that are on their way. -/
def flight : List (MicroOp T (Uop A)) :=
  s.rrd.toList ++ s.exe.toList ++ (s.alu ++ s.imul ++ s.ifpu).filterMap Stage.uop ++
    s.queue.waiting.map (·.bits.uop) ++ s.div.held.toList

/-- One cycle. -/
def next : AluExe c T A D where
  rrd := (new i).bind (advance i.brupdate false)
  exe := s.rrd.bind (advance i.brupdate i.kill)
  alu := s.alu.next i.brupdate i.kill (s.aluStage value i)
  imul := s.imul.next i.brupdate i.kill (s.stage value i [.MUL])
  ifpu := s.ifpu.next i.brupdate i.kill (s.stage value i [.I2F])
  queue := s.queue.next (queueConfig T A) (s.queueIn value i)
  div := s.div.next i.brupdate i.kill s.divReq (s.divRespReady value i) i.finish
  idiv_issued := i.iss.any fun u => u.fields.fu = .DIV
  issued := s.issued ++ (new i).toList.map (·.fields)
  killed := s.killed ++ ((s.flight ++ (new i).toList).filter (doomed i.brupdate i.kill)).map
    (·.fields.number)
  results := s.results ++ ((s.iresp value i).toList ++ (s.ll_fresp value i).toList).map fun x =>
    (x.uop.fields, x.data)

/-- What is issued may be issued, and has the next number. -/
structure Ok : Prop where
  fu_types : ∀ u, i.iss = some u → s.fu_types u.fields.fu = true
  number : ∀ u, i.iss = some u → u.fields.number = s.issued.length

/-- The ALU and the multiplier both have a result. -/
def Collide : Prop := (s.aluResp value i).isSome = true ∧ (s.imulResp value i).isSome = true

/-- After reset. -/
structure Reset : Prop where
  rrd : s.rrd = none
  exe : s.exe = none
  alu : s.alu.length = c.numBypassStages ∧ ∀ st ∈ s.alu, st.uop = none
  imul : s.imul.length = c.imulLatency ∧ ∀ st ∈ s.imul, st.uop = none
  ifpu : s.ifpu.length = c.intToFpLatency ∧ ∀ st ∈ s.ifpu, st.uop = none
  queue : s.queue.Reset
  div : s.div.op = none ∧ s.div.done = false
  idiv_issued : s.idiv_issued = false
  issued : s.issued = []
  killed : s.killed = []
  results : s.results = []

/-- How many uops of some kind are on their way, -/
def holding (p : Uop A → Bool) : ℕ :=
  (has p s.rrd).toNat + (has p s.exe).toNat + Pipe.holding s.alu p + Pipe.holding s.imul p +
    Pipe.holding s.ifpu p + s.queue.holding (fun x => p x.uop.fields) + s.div.holding p

/-- or delivered. -/
def total (p : Uop A → Bool) : ℕ := (s.results.countP fun r => p r.1) + s.holding p

/-- What became of the uops. -/
def book : Book (Uop A) D := ⟨s.issued, s.flight.map (·.fields), s.killed, s.results⟩

end AluExe

open AluExe in
/-- The unit, with what it computes. -/
def aluExeUnit (c : AluCfg) (T : ℕ) (value : Uop A → D) :
    Sync.Machine (AluExe c T A D) (AluIn T A D) where
  start s := s.Reset
  ok s i := s.Ok i
  next s i := s.next value i

/-! ## Nothing is lost -/

namespace AluExe

variable {c : AluCfg} {value : Uop A → D} {s : AluExe c T A D} {i : AluIn T A D}
  {p : Uop A → Bool}

/-- The codes that an integer unit knows. -/
def known : List Fu := [.ALU, .JMP, .CSR, .MUL, .DIV, .I2F]

/-- What is executed is requested from one unit. -/
theorem has_req_le (s : AluExe c T A D) (p : Uop A → Bool) : (has p s.aluReq).toNat + (has p (s.req [.MUL])).toNat +
    (has p (s.req [.I2F])).toNat + (has p s.divReq).toNat ≤ (has p s.exe).toNat := by
  unfold aluReq divReq req
  cases s.exe with
  | none => exact le_rfl
  | some u =>
    cases hf : u.fields.fu <;> cases hp : p u.fields <;>
      simp [has, Option.filter, hf, hp]

theorem has_req (p : Uop A → Bool) (h : ∀ u ∈ s.exe, u.fields.fu ∈ known) : (has p s.aluReq).toNat +
    (has p (s.req [.MUL])).toNat + (has p (s.req [.I2F])).toNat + (has p s.divReq).toNat =
      (has p s.exe).toNat := by
  unfold aluReq divReq req
  cases he : s.exe with
  | none => rfl
  | some u =>
    have hk := h u he
    cases hf : u.fields.fu <;> cases hp : p u.fields <;>
      simp [has, Option.filter, hf, hp, known] at hk ⊢

theorem countP_delivered (p : Uop A → Bool) (o : Option (Bits T (Uop A) D)) :
    (o.toList.map fun x => (x.uop.fields, x.data)).countP (fun r => p r.1) =
      (o.any fun x => p x.uop.fields).toNat := by
  cases o with
  | none => rfl
  | some x => cases hx : p x.uop.fields <;> simp [hx]

theorem countP_results_next : ((s.next value i).results.countP fun r => p r.1) =
    (s.results.countP fun r => p r.1) + ((s.iresp value i).any fun x => p x.uop.fields).toNat +
      ((s.ll_fresp value i).any fun x => p x.uop.fields).toNat := by
  rw [next, List.countP_append, List.map_append, List.countP_append, countP_delivered,
    countP_delivered, Nat.add_assoc]

/-- The divider's result is taken if it is the one that is shown. -/
theorem any_iresp_le (value : Uop A → D) (s : AluExe c T A D) (i : AluIn T A D) (p : Uop A → Bool) :
     ((s.iresp value i).any fun x => p x.uop.fields).toNat ≤
    ((s.aluResp value i).any fun x => p x.uop.fields).toNat +
      ((s.imulResp value i).any fun x => p x.uop.fields).toNat +
      ((s.divFired value i).any fun x => p x.uop.fields).toNat := by
  unfold iresp divFired divRespReady DivUnit.fired
  cases s.aluResp value i <;> cases s.imulResp value i <;> simp

theorem any_iresp (p : Uop A → Bool) (h : ¬ s.Collide value i) :
    ((s.iresp value i).any fun x => p x.uop.fields).toNat =
      ((s.aluResp value i).any fun x => p x.uop.fields).toNat +
        ((s.imulResp value i).any fun x => p x.uop.fields).toNat +
        ((s.divFired value i).any fun x => p x.uop.fields).toNat := by
  unfold Collide at h
  unfold iresp divFired divRespReady DivUnit.fired
  cases ha : s.aluResp value i <;> cases hm : s.imulResp value i <;> simp [ha, hm] at h ⊢

/-- What the queue has to do with. -/
structure Sound (s : AluExe c T A D) : Prop where
  ring : s.queue.Ring
  div : s.div.Own
  ready : s.divReq.isSome = true → s.div.ready = true

/-- No uop comes from nowhere. -/
theorem total_next_le (value : Uop A → D) (i : AluIn T A D) (p : Uop A → Bool) (h : s.Sound) :
    (s.next value i).total p ≤ s.total p + (has p (new i)).toNat := by
  have h1 := toNat_has_advance_le p i.brupdate false (new i)
  have h2 := toNat_has_advance_le p i.brupdate i.kill s.rrd
  have h3 := Pipe.holding_next_le s.alu i.brupdate i.kill (s.aluStage value i) p
  have h4 := Pipe.holding_next_le s.imul i.brupdate i.kill (s.stage value i [.MUL]) p
  have h5 := Pipe.holding_next_le s.ifpu i.brupdate i.kill (s.stage value i [.I2F]) p
  have h6 := KillableQueue.holding_next_le (c := queueConfig T A) (i := s.queueIn value i)
    (p := fun x => p x.uop.fields) h.ring fun _ _ => rfl
  have h7 := DivUnit.holding_next_le i.brupdate i.kill (s.divRespReady value i) i.finish value p
    h.ready h.div
  have h8 := has_req_le s p
  have h9 := any_iresp_le value s i p
  have h10 : _ ≤ ((s.ifpuResp value i).any fun x => p x.uop.fields).toNat :=
    s.queue.q.any_accepts_le (s.queueIn value i) fun x => p x.uop.fields
  rw [total, countP_results_next, total, holding, holding]
  simp only [next, Stage.has, aluStage, stage, aluReq, aluResp, imulResp, ifpuResp, ll_fresp,
    divFired] at *
  omega

/-- None of the kind is killed in this cycle. -/
def Spared (p : Uop A → Bool) (s : AluExe c T A D) (i : AluIn T A D) : Prop :=
  ∀ u ∈ s.flight ++ (new i).toList, p u.fields = true → doomed i.brupdate i.kill u = false

theorem mem_of_req {fus : List Fu} {u : MicroOp T (Uop A)} (h : u ∈ s.req fus) : u ∈ s.exe := by
  unfold req at h
  exact (Option.filter_eq_some_iff.1 h).1

theorem flight_of_rrd {u : MicroOp T (Uop A)} (h : u ∈ s.rrd) : u ∈ s.flight := by
  simp only [flight, List.mem_append, Option.mem_toList]
  exact .inl (.inl (.inl (.inl h)))

theorem flight_of_exe {u : MicroOp T (Uop A)} (h : u ∈ s.exe) : u ∈ s.flight := by
  simp only [flight, List.mem_append, Option.mem_toList]
  exact .inl (.inl (.inl (.inr h)))

theorem flight_of_stage {st : Stage T (Uop A) D} (hst : st ∈ s.alu ++ s.imul ++ s.ifpu)
    {u : MicroOp T (Uop A)} (h : u ∈ st.uop) : u ∈ s.flight := by
  simp only [flight, List.mem_append]
  exact .inl (.inl (.inr (List.mem_filterMap.2 ⟨st, hst, h⟩)))

theorem flight_of_waiting {x : KillableQueue.Item T (Uop A) D} (h : x ∈ s.queue.waiting) :
    x.bits.uop ∈ s.flight := by
  simp only [flight, List.mem_append]
  exact .inl (.inr (List.mem_map.2 ⟨x, h, rfl⟩))

theorem flight_of_held {u : MicroOp T (Uop A)} (h : u ∈ s.div.held) : u ∈ s.flight := by
  simp only [flight, List.mem_append, Option.mem_toList]
  exact .inr h

theorem Spared.flight (h : s.Spared p i) {u : MicroOp T (Uop A)} (hu : u ∈ s.flight)
    (hp : p u.fields = true) : doomed i.brupdate i.kill u = false :=
  h u (List.mem_append_left _ hu) hp

theorem Spared.stages (h : s.Spared p i) (value : Uop A → D) (fus : List Fu) {l : Pipe T (Uop A) D}
    (hl : ∀ st ∈ l, st ∈ s.alu ++ s.imul ++ s.ifpu) : ∀ st ∈ s.stage value i fus :: l,
      ∀ u ∈ st.uop, p u.fields = true → doomed i.brupdate i.kill u = false := by
  intro st hst u hu hp
  rcases List.mem_cons.1 hst with rfl | hst
  · exact h.flight (flight_of_exe (mem_of_req hu)) hp
  · exact h.flight (flight_of_stage (hl st hst) hu) hp

/-- **A cycle loses no uop** that it does not kill. -/
theorem total_next (h : s.Sound) (hknown : ∀ u ∈ s.exe, u.fields.fu ∈ known)
    (hroom : (s.ifpuResp value i).isSome = true → s.queue.q.full = false)
    (hno : ¬ s.Collide value i) (hs : s.Spared p i) :
    (s.next value i).total p = s.total p + (has p (new i)).toNat := by
  have h1 : has p ((new i).bind (advance i.brupdate false)) = has p (new i) :=
    has_advance_eq fun u hu hp =>
      doomed_mono (hs u (List.mem_append_right _ (Option.mem_toList.2 hu)) hp)
  have h2 : has p (s.rrd.bind (advance i.brupdate i.kill)) = has p s.rrd :=
    has_advance_eq fun u hu hp => hs.flight (flight_of_rrd hu) hp
  have h3 := Pipe.holding_next (hs.stages value [.ALU, .JMP, .CSR] (l := s.alu) fun st hst => by
    simp [hst])
  have h4 := Pipe.holding_next (hs.stages value [.MUL] (l := s.imul) fun st hst => by simp [hst])
  have h5 := Pipe.holding_next (hs.stages value [.I2F] (l := s.ifpu) fun st hst => by simp [hst])
  have h6 := KillableQueue.holding_next (c := queueConfig T A) (i := s.queueIn value i)
    (p := fun x => p x.uop.fields) h.ring (fun _ _ => rfl) fun x hx hp => by
      have hd := hs.flight (flight_of_waiting hx) hp
      rwa [doomed, ← Bool.and_true i.kill] at hd
  have h7 := DivUnit.holding_next (p := p) (s.divRespReady value i) i.finish value h.ready h.div
    (fun u hu hp => hs.flight (flight_of_exe (mem_of_req hu)) hp)
    fun u hu hp => hs.flight (flight_of_held hu) hp
  have h8 := has_req p hknown
  have h9 := any_iresp p hno
  have h10 : _ = (s.ifpuResp value i).any fun x => p x.uop.fields :=
    KillableQueue.Queue.any_accepts (i := s.queueIn value i) (fun x => p x.uop.fields) hroom
  rw [h10] at h6
  rw [total, countP_results_next, total, holding, holding]
  simp only [next, h1, h2]
  simp only [Stage.has, aluStage, stage, aluReq, aluResp, imulResp, ifpuResp, ll_fresp,
    divFired] at *
  omega

theorem holding_eq : s.holding p = s.flight.countP fun u => p u.fields := by
  have hopt : ∀ o : Option (MicroOp T (Uop A)),
      o.toList.countP (fun u => p u.fields) = (has p o).toNat := fun o =>
    KillableQueue.countP_toList _ o
  have hpipe : ∀ l : Pipe T (Uop A) D,
      (l.filterMap Stage.uop).countP (fun u => p u.fields) = Pipe.holding l p := by
    intro l
    rw [Pipe.holding, List.countP_filterMap]
    refine List.countP_congr fun st _ => ?_
    rw [Stage.has, has]
    cases st.uop <;> simp
  rw [holding, flight, List.countP_append, List.countP_append, List.countP_append,
    List.countP_append, hopt, hopt, hopt, List.filterMap_append, List.filterMap_append,
    List.countP_append, List.countP_append, hpipe, hpipe, hpipe, List.countP_map]
  simp only [DivUnit.holding, KillableQueue.Sys.holding, Function.comp_def]
  omega

/-! ## The invariant -/

/-- The uop is for the functional unit. -/
def isFu (fu : Fu) (u : Uop A) : Bool := u.fu = fu

/-- One division at a time on its way to the divider. -/
structure Divides (s : AluExe c T A D) : Prop where
  rrd : has (isFu .DIV) s.rrd = true →
    s.idiv_issued = true ∧ s.divReq = none ∧ s.div.ready = true
  exe : s.divReq.isSome = true → s.div.ready = true

/-- The queue has room for what is on its way to it. -/
structure Room (s : AluExe c T A D) : Prop where
  length : s.ifpu.length = c.intToFpLatency
  room : s.queue.occupied + (has (isFu .I2F) s.rrd).toNat + (has (isFu .I2F) s.exe).toNat +
    Pipe.holding s.ifpu (fun _ => true) ≤ c.intToFpLatency + 3

/-- Data stay with their uops. -/
structure Own (value : Uop A → D) (s : AluExe c T A D) : Prop where
  alu : ∀ st ∈ s.alu, st.Own value
  imul : ∀ st ∈ s.imul, st.Own value
  ifpu : ∀ st ∈ s.ifpu, st.Own value
  queue : ∀ x ∈ s.queue.waiting, x.bits.data = value x.bits.uop.fields
  results : ∀ r ∈ s.results, r.2 = value r.1

/-- The invariant of the unit. -/
structure Inv (value : Uop A → D) (s : AluExe c T A D) : Prop where
  ring : s.queue.Ring
  div : s.div.Own
  divides : s.Divides
  known : ∀ o ∈ [s.rrd, s.exe], ∀ u ∈ o, u.fields.fu ∈ known
  room : s.Room
  own : s.Own value

theorem Inv.sound (h : s.Inv value) : s.Sound := ⟨h.ring, h.div, h.divides.exe⟩

theorem fu_of_new (hok : s.Ok i) {u : MicroOp T (Uop A)} (hu : u ∈ new i) :
    s.fu_types u.fields.fu = true ∧ u.fields.number = s.issued.length ∧ i.iss = some u := by
  unfold new at hu
  split_ifs at hu
  · cases hu
  · exact ⟨hok.fu_types u hu, hok.number u hu, hu⟩

theorem known_of_fu_types {fu : Fu} (h : s.fu_types fu = true) : fu ∈ known := by
  cases fu <;> first | decide | cases h

theorem Inv.known_next (h : s.Inv value) (hok : s.Ok i) :
    ∀ o ∈ [(s.next value i).rrd, (s.next value i).exe], ∀ u ∈ o, u.fields.fu ∈ AluExe.known := by
  intro o ho u hu
  rcases List.mem_cons.1 ho with rfl | ho
  · obtain ⟨v, hv, hadv⟩ := Option.bind_eq_some_iff.1 hu
    rw [fields_of_advance hadv]
    exact known_of_fu_types (fu_of_new hok hv).1
  · obtain rfl := List.mem_singleton.1 ho
    obtain ⟨v, hv, hadv⟩ := Option.bind_eq_some_iff.1 hu
    rw [fields_of_advance hadv]
    exact h.known _ (by simp) v hv

theorem divReq_isSome : s.divReq.isSome = has (isFu .DIV) s.exe := by
  unfold divReq req has isFu
  cases s.exe with
  | none => rfl
  | some u => cases hf : u.fields.fu <;> simp [Option.filter, hf]

/-- A division is issued only if none is on its way. -/
theorem of_issued_div (value : Uop A → D) (hok : s.Ok i) (h : has (isFu .DIV) (new i) = true) :
    s.idiv_issued = false ∧ s.divReq = none ∧ s.div.ready = true ∧
      (s.next value i).idiv_issued = true := by
  obtain ⟨u, hu, hf⟩ := (Option.any_eq_true _ _).1 h
  have hfu : u.fields.fu = .DIV := of_decide_eq_true hf
  obtain ⟨hty, -, hiss⟩ := fu_of_new hok hu
  rw [hfu, fu_types, div_busy, Bool.and_eq_true, Bool.and_eq_true, Bool.not_eq_true',
    Bool.not_eq_true', Bool.or_eq_false_iff, Bool.not_eq_false'] at hty
  refine ⟨hty.2, ?_, hty.1.1.1, ?_⟩
  · rw [← Option.isNone_iff_eq_none, ← Option.not_isSome, hty.1.1.2]
    rfl
  · rw [next, hiss]
    exact decide_eq_true hfu

/-- A divider that is ready and has no request stays ready. -/
theorem ready_next (h : s.div.ready = true) (hreq : s.divReq = none) :
    (s.next value i).div.ready = true := by
  have hop : s.div.op = none := Option.isNone_iff_eq_none.1 h
  have hstart : s.div.starts i.brupdate i.kill none = none := by
    rw [DivUnit.starts, DivUnit.fire, h]
    split_ifs <;> rfl
  rw [next, DivUnit.ready, hreq, DivUnit.next, hstart, hop]
  simp

theorem Inv.divides_next (h : s.Inv value) (hok : s.Ok i) : (s.next value i).Divides := by
  constructor
  · intro hr
    have hnew : has (isFu .DIV) (new i) = true := has_advance_le hr
    obtain ⟨hidiv, hreq, hready, hidiv'⟩ := of_issued_div value hok hnew
    refine ⟨hidiv', ?_, ready_next hready hreq⟩
    rw [← Option.isNone_iff_eq_none, ← Option.not_isSome, divReq_isSome]
    cases hx : has (isFu .DIV) (s.next value i).exe with
    | false => rfl
    | true =>
      have hi := (h.divides.rrd (has_advance_le hx)).1
      rw [hidiv] at hi
      cases hi
  · intro he
    rw [divReq_isSome] at he
    obtain ⟨-, hreq, hready⟩ := h.divides.rrd (has_advance_le he)
    exact ready_next hready hreq

theorem has_i2f_req : (has (fun _ => true) (s.req [.I2F])) = has (isFu .I2F) s.exe := by
  unfold req has isFu
  cases s.exe with
  | none => rfl
  | some u => cases hf : u.fields.fu <;> simp [Option.filter, hf]

/-- What reaches the queue has been counted on its way. -/
theorem any_ifpuResp (value : Uop A → D) (s : AluExe c T A D) (i : AluIn T A D) : (s.ifpuResp value i).isSome.toNat +
    Pipe.holding (s.next value i).ifpu (fun _ => true) ≤
      Pipe.holding s.ifpu (fun _ => true) + (has (isFu .I2F) s.exe).toNat := by
  have h := Pipe.holding_next_le s.ifpu i.brupdate i.kill (s.stage value i [.I2F]) fun _ => true
  have hsome : ((s.ifpuResp value i).any fun _ => true) = (s.ifpuResp value i).isSome := by
    cases s.ifpuResp value i <;> rfl
  simp only [Stage.has, stage, has_i2f_req] at h
  rw [← hsome, Nat.add_comm]
  exact h

theorem Room.not_full (h : s.Room) (hring : s.queue.Ring)
    (hr : (s.ifpuResp value i).isSome = true) : s.queue.q.full = false := by
  have hle := any_ifpuResp value s i
  have hroom := h.room
  rw [hr, Bool.toNat_true] at hle
  exact KillableQueue.not_full_of_occupied hring (by omega)

theorem Inv.room_next (h : s.Inv value) (hok : s.Ok i) : (s.next value i).Room := by
  have hring := h.ring
  have hlen : (s.next value i).ifpu.length = c.intToFpLatency :=
    (Pipe.length_next ..).trans h.room.length
  refine ⟨hlen, ?_⟩
  have hocc : (s.next value i).queue.occupied ≤
      s.queue.occupied + (s.ifpuResp value i).isSome.toNat := KillableQueue.occupied_next_le hring
  have hexe := toNat_has_advance_le (isFu .I2F) i.brupdate i.kill s.rrd
  have hrrd := toNat_has_advance_le (isFu .I2F) i.brupdate false (new i)
  have hpipe := any_ifpuResp value s i
  have hroom := h.room.room
  have hone : ∀ b : Bool, b.toNat ≤ 1 := Bool.toNat_le
  cases hempty : s.queue.q.empty with
  | true =>
    -- every place on the way may be taken
    have hzero := KillableQueue.occupied_of_empty hring hempty
    have hcount : Pipe.holding (s.next value i).ifpu (fun _ => true) ≤ c.intToFpLatency :=
      hlen ▸ List.countP_le_length
    have h1 := hone (has (isFu .I2F) (s.next value i).rrd)
    have h2 := hone (has (isFu .I2F) (s.next value i).exe)
    have h3 := hone (s.ifpuResp value i).isSome
    omega
  | false =>
    -- nothing more is issued
    have hno : has (isFu .I2F) (new i) = false := by
      rw [Bool.eq_false_iff]
      intro hx
      obtain ⟨u, hu, hf⟩ := (Option.any_eq_true _ _).1 hx
      have hty := (fu_of_new hok hu).1
      rw [show u.fields.fu = .I2F from of_decide_eq_true hf, fu_types, hempty] at hty
      cases hty
    rw [hno, Bool.toNat_false] at hrrd
    simp only [next] at hocc hexe hrrd hpipe ⊢
    omega

theorem own_stage {fus : List Fu} : (s.stage value i fus).Own value := by
  intro u hu
  have he : s.exe = some u := mem_of_req hu
  rw [stage, he]
  rfl

/-- What is shown is the uop's own. -/
theorem own_iresp (h : s.Inv value) {x : Bits T (Uop A) D} (hx : s.iresp value i = some x) :
    x.data = value x.uop.fields := by
  unfold iresp at hx
  rcases Option.or_eq_some_iff.1 hx with hx | ⟨-, hx⟩
  · rcases Option.or_eq_some_iff.1 hx with hx | ⟨-, hx⟩
    · exact Pipe.own_resp h.own.alu own_stage hx
    · exact Pipe.own_resp h.own.imul own_stage hx
  · exact (DivUnit.own_resp h.div hx).1

theorem own_ifpuResp (h : s.Inv value) {x : Bits T (Uop A) D} (hx : s.ifpuResp value i = some x) :
    x.data = value x.uop.fields :=
  Pipe.own_resp h.own.ifpu own_stage hx

/-- What is taken from a queue, or stays in it, has the data it came with. -/
theorem own_queue {n : ℕ} [NeZero n] {q : KillableQueue.Sys n T (Uop A) D}
    {j : KillableQueue.In T (Uop A) D} (hring : q.Ring)
    (hq : ∀ x ∈ q.waiting, x.bits.data = value x.bits.uop.fields)
    (hj : ∀ x, j.enq = some x → x.data = value x.uop.fields) :
    (∀ x, q.q.fired (queueConfig T A) j = some x → x.data = value x.uop.fields) ∧
      ∀ x ∈ (q.next (queueConfig T A) j).waiting, x.bits.data = value x.bits.uop.fields := by
  constructor
  · intro x hx
    rcases KillableQueue.fired_cases hring hx with ⟨y, hy, rfl⟩ | ⟨b, hb, rfl⟩
    · exact hq y hy
    · exact hj b (KillableQueue.not_full_of_accepts hb).2
  · intro x hx
    rcases KillableQueue.mem_waiting_next hring hx with ⟨y, hy, hupd⟩ | ⟨b, hb, he⟩
    · rw [(KillableQueue.bits_of_upd hupd).2]
      exact hq y hy
    · rw [he]
      exact hj b (KillableQueue.not_full_of_accepts (KillableQueue.accepts_of_do_enq hb)).2

theorem own_ll_fresp (h : s.Inv value) {x : Bits T (Uop A) D} (hx : s.ll_fresp value i = some x) :
    x.data = value x.uop.fields :=
  (own_queue (j := s.queueIn value i) h.ring h.own.queue fun _ hb => own_ifpuResp h hb).1 x hx

theorem Inv.own_next (h : s.Inv value) : (s.next value i).Own value := by
  have hqueue := own_queue (j := s.queueIn value i) h.ring h.own.queue fun x hx => own_ifpuResp h hx
  refine ⟨Pipe.own_next h.own.alu own_stage, Pipe.own_next h.own.imul own_stage,
    Pipe.own_next h.own.ifpu own_stage, hqueue.2, fun r hr => ?_⟩
  rcases List.mem_append.1 hr with hr | hr
  · exact h.own.results r hr
  · obtain ⟨x, hx, rfl⟩ := List.mem_map.1 hr
    rcases List.mem_append.1 hx with hx | hx
    · exact own_iresp h (Option.mem_toList.1 hx)
    · exact hqueue.1 x (Option.mem_toList.1 hx)

theorem Inv.next (h : s.Inv value) (hok : s.Ok i) : (s.next value i).Inv value :=
  ⟨KillableQueue.ring_next h.ring, DivUnit.own_next h.div, h.divides_next hok, h.known_next hok,
    h.room_next hok, h.own_next⟩

theorem inv_of_reset (h : s.Reset) : s.Inv value := by
  have hq := KillableQueue.inv_start h.queue
  have hreq : s.divReq = none := by
    rw [divReq, req, h.exe]
    rfl
  refine ⟨hq.ring, ⟨fun f hf => ?_, fun hd => ?_⟩, ⟨fun hr => ?_, fun he => ?_⟩, ?_, ?_, ?_⟩
  · rw [h.div.1] at hf
    cases hf
  · rw [h.div.2] at hd
    cases hd
  · rw [h.rrd] at hr
    cases hr
  · rw [hreq] at he
    cases he
  · rw [h.rrd, h.exe]
    simp
  · refine ⟨h.ifpu.1, ?_⟩
    rw [Pipe.holding_of_empty h.ifpu.2, h.rrd, h.exe, (KillableQueue.waiting_of_reset h.queue).2]
    exact Nat.zero_le _
  · refine ⟨Pipe.own_of_empty h.alu.2, Pipe.own_of_empty h.imul.2, Pipe.own_of_empty h.ifpu.2,
      fun x hx => ?_, fun r hr => ?_⟩
    · rw [(KillableQueue.waiting_of_reset h.queue).1] at hx
      cases hx
    · rw [h.results] at hr
      cases hr

/-! ## Counts -/

theorem total_of_reset (h : s.Reset) : s.total p = 0 := by
  rw [total, holding, h.results, h.rrd, h.exe, Pipe.holding_of_empty h.alu.2,
    Pipe.holding_of_empty h.imul.2, Pipe.holding_of_empty h.ifpu.2, KillableQueue.Sys.holding,
    (KillableQueue.waiting_of_reset h.queue).1, DivUnit.holding, DivUnit.held, h.div.1]
  rfl

theorem book_total : s.book.total p = s.total p := by
  rw [total, holding_eq, Book.total, book, List.countP_map]
  rfl

/-- What a cycle kills. -/
theorem spared_of_not_killed (value : Uop A → D) {n : ℕ} (h : n ∉ (s.next value i).killed) :
    s.Spared (Book.numbered Uop.number n) i := by
  intro u hu hn
  rw [Bool.eq_false_iff]
  intro hd
  refine h (List.mem_append_right _ (List.mem_map.2 ⟨u, List.mem_filter.2 ⟨hu, hd⟩, ?_⟩))
  exact of_decide_eq_true hn

/-- A cycle as a step of the book. -/
theorem book_step (hinv : s.Inv value) (hok : s.Ok i) (hno : ¬ s.Collide value i) :
    s.book.Step Uop.number ((new i).map (·.fields)) (s.next value i).book where
  issued := by
    show s.issued ++ (new i).toList.map _ = s.issued ++ _
    cases new i <;> rfl
  fresh := by
    intro f hf
    obtain ⟨u, hu, rfl⟩ := Option.map_eq_some_iff.1 hf
    exact (fu_of_new hok hu).2.1
  killed := List.subset_append_left _ _
  le p := by
    rw [book_total, book_total, Option.any_map]
    exact total_next_le value i p hinv.sound
  eq n hn := by
    rw [book_total, book_total, Option.any_map]
    exact total_next hinv.sound (hinv.known _ (by simp)) (hinv.room.not_full hinv.ring) hno
      (spared_of_not_killed value hn)

theorem counted_of_reset (h : s.Reset) : s.book.Counted Uop.number :=
  Book.counted_empty h.issued fun _ => book_total.trans (total_of_reset h)

/-! ## What is on its way

It was on its way before, and was not killed, or was issued; as long as nothing
is written to the queue in the cycle of a flush, which does not kill it there. -/

theorem advance_of_upd {j : KillableQueue.In T (Uop A) D} {x y : KillableQueue.Item T (Uop A) D}
    (h : KillableQueue.Sys.upd (queueConfig T A) j x = some y) :
    advance j.brupdate j.flush x.bits.uop = some y.bits.uop := by
  obtain ⟨hd, he⟩ := KillableQueue.bits_of_upd h
  rw [KillableQueue.In.drops, queueConfig, Bool.and_true] at hd
  rw [he]
  exact advance_eq_some.2 ⟨hd, rfl⟩

/-- What waits in a queue has waited in it, or comes from where its uops come
    from. -/
theorem mem_queue_next {n : ℕ} [NeZero n] {q : KillableQueue.Sys n T (Uop A) D}
    {j : KillableQueue.In T (Uop A) D} (hring : q.Ring)
    (hcalm : j.flush = true → q.q.do_enq (queueConfig T A) j = none) {l : List (MicroOp T (Uop A))}
    (hj : ∀ b, j.enq = some b → ∃ u ∈ l, advance j.brupdate false u = some b.uop)
    {x : KillableQueue.Item T (Uop A) D} (hx : x ∈ (q.next (queueConfig T A) j).waiting) :
    (∃ y ∈ q.waiting, advance j.brupdate j.flush y.bits.uop = some x.bits.uop) ∨
      ∃ u ∈ l, advance j.brupdate j.flush u = some x.bits.uop := by
  rcases KillableQueue.mem_waiting_next hring hx with ⟨y, hy, hupd⟩ | ⟨b, hb, he⟩
  · exact .inl ⟨y, hy, advance_of_upd hupd⟩
  · obtain ⟨u, hu, hadv⟩ := hj b (KillableQueue.not_full_of_accepts
      (KillableQueue.accepts_of_do_enq hb)).2
    have hflush : j.flush = false := by
      rw [Bool.eq_false_iff]
      intro hf
      rw [hcalm hf] at hb
      cases hb
    obtain ⟨hd, hupd⟩ := advance_eq_some.1 hadv
    refine .inr ⟨u, hu, ?_⟩
    rw [hflush, advance_eq_some, he]
    refine ⟨hd, ?_⟩
    show u.update j.brupdate = b.uop.update j.brupdate
    rw [← hupd, update_update]

theorem flight_of_pipe {l : Pipe T (Uop A) D} (hl : ∀ st ∈ l, st ∈ s.alu ++ s.imul ++ s.ifpu)
    {fus : List Fu} {st : Stage T (Uop A) D} (hst : st ∈ s.stage value i fus :: l)
    {u : MicroOp T (Uop A)} (hu : u ∈ st.uop) : u ∈ s.flight := by
  rcases List.mem_cons.1 hst with rfl | hst
  · exact flight_of_exe (mem_of_req hu)
  · exact flight_of_stage (hl st hst) hu

theorem mem_ifpuResp {x : Bits T (Uop A) D} (hx : s.ifpuResp value i = some x) :
    ∃ u ∈ s.flight, advance i.brupdate false u = some x.uop := by
  obtain ⟨st, hst, -, -, u, hu, hadv⟩ := Pipe.mem_resp hx
  exact ⟨u, flight_of_pipe (fun st hst => by simp [hst]) hst hu, hadv⟩

/-- Nothing is written to the queue in the cycle of a flush. -/
def Calm (value : Uop A → D) (s : AluExe c T A D) (i : AluIn T A D) : Prop :=
  i.kill = true → s.queue.q.do_enq (queueConfig T A) (s.queueIn value i) = none

theorem mem_flight_next (h : s.Sound) (hcalm : s.Calm value i) {v : MicroOp T (Uop A)}
    (hv : v ∈ (s.next value i).flight) :
    (∃ u ∈ s.flight, advance i.brupdate i.kill u = some v) ∨
      ∃ u ∈ new i, advance i.brupdate false u = some v := by
  simp only [flight, List.mem_append, Option.mem_toList] at hv
  rcases hv with (((hv | hv) | hv) | hv) | hv
  · obtain ⟨u, hu, hadv⟩ := Option.bind_eq_some_iff.1 hv
    exact .inr ⟨u, hu, hadv⟩
  · obtain ⟨u, hu, hadv⟩ := Option.bind_eq_some_iff.1 hv
    exact .inl ⟨u, flight_of_rrd hu, hadv⟩
  · obtain ⟨st, hst, hv⟩ := List.mem_filterMap.1 hv
    simp only [List.mem_append] at hst
    have hpipe : ∀ {l : Pipe T (Uop A) D} (fus : List Fu), (∀ st ∈ l, st ∈ s.alu ++ s.imul ++ s.ifpu) →
        st ∈ l.next i.brupdate i.kill (s.stage value i fus) →
        ∃ u ∈ s.flight, advance i.brupdate i.kill u = some v := by
      intro l fus hl hst
      obtain ⟨st', hst', u, hu, hadv⟩ := Pipe.mem_next hst hv
      exact ⟨u, flight_of_pipe hl hst' hu, hadv⟩
    rcases hst with (hst | hst) | hst
    · exact .inl (hpipe _ (fun st hst => by simp [hst]) hst)
    · exact .inl (hpipe _ (fun st hst => by simp [hst]) hst)
    · exact .inl (hpipe _ (fun st hst => by simp [hst]) hst)
  · obtain ⟨x, hx, rfl⟩ := List.mem_map.1 hv
    rcases mem_queue_next (j := s.queueIn value i) h.ring hcalm (fun b hb => mem_ifpuResp hb) hx with
      ⟨y, hy, hadv⟩ | ⟨u, hu, hadv⟩
    · exact .inl ⟨_, flight_of_waiting hy, hadv⟩
    · exact .inl ⟨u, hu, hadv⟩
  · rw [show (s.next value i).div.held = _ from DivUnit.held_next h.ready h.div] at hv
    split_ifs at hv
    · obtain ⟨u, hu, hadv⟩ := Option.bind_eq_some_iff.1 hv
      exact .inl ⟨u, flight_of_exe (mem_of_req hu), hadv⟩
    · obtain ⟨u, hu, hadv⟩ := Option.bind_eq_some_iff.1 hv
      exact .inl ⟨u, flight_of_held hu, hadv⟩

/-- What is taken from the queue was on its way. -/
theorem mem_ll_fresp (h : s.queue.Ring) {x : Bits T (Uop A) D} (hx : s.ll_fresp value i = some x) :
    ∃ u ∈ s.flight, u.fields = x.uop.fields := by
  rcases KillableQueue.fired_cases h hx with ⟨y, hy, rfl⟩ | ⟨b, hb, rfl⟩
  · exact ⟨y.bits.uop, flight_of_waiting hy, rfl⟩
  · obtain ⟨u, hu, hadv⟩ := mem_ifpuResp (KillableQueue.not_full_of_accepts hb).2
    exact ⟨u, hu, (fields_of_advance hadv).symm⟩

/-- What is converted is a conversion. -/
structure Sorted (s : AluExe c T A D) : Prop where
  ifpu : ∀ st ∈ s.ifpu, ∀ u ∈ st.uop, u.fields.fu = .I2F
  queue : ∀ x ∈ s.queue.waiting, x.bits.uop.fields.fu = .I2F

theorem fu_of_stage {u : MicroOp T (Uop A)} (hu : u ∈ (s.stage value i [.I2F]).uop) :
    u.fields.fu = .I2F := by
  obtain ⟨-, hf⟩ := Option.filter_eq_some_iff.1 hu
  exact List.mem_singleton.1 (of_decide_eq_true hf)

theorem Sorted.fu_of_ifpuResp (h : s.Sorted) {x : Bits T (Uop A) D}
    (hx : s.ifpuResp value i = some x) : x.uop.fields.fu = .I2F :=
  Pipe.forall_resp (P := fun f : Uop A => f.fu = .I2F) h.ifpu (fun _ hu => fu_of_stage hu) hx

theorem Sorted.fu_of_ll_fresp (h : s.Sorted) (hring : s.queue.Ring) {x : Bits T (Uop A) D}
    (hx : s.ll_fresp value i = some x) : x.uop.fields.fu = .I2F := by
  rcases KillableQueue.fired_cases hring hx with ⟨y, hy, rfl⟩ | ⟨b, hb, rfl⟩
  · exact h.queue y hy
  · have hfu : b.uop.fields.fu = .I2F := h.fu_of_ifpuResp (KillableQueue.not_full_of_accepts hb).2
    exact hfu

theorem Sorted.next (h : s.Sorted) (hring : s.queue.Ring) : (s.next value i).Sorted :=
  ⟨Pipe.forall_next (P := fun f : Uop A => f.fu = .I2F) h.ifpu fun _ hu => fu_of_stage hu,
    KillableQueue.forall_waiting_next (i := s.queueIn value i) (P := fun f : Uop A => f.fu = .I2F)
      hring h.queue fun _ hb => h.fu_of_ifpuResp hb⟩

theorem sorted_of_reset (h : s.Reset) : s.Sorted := by
  refine ⟨fun st hst u hu => ?_, fun x hx => ?_⟩
  · rw [h.ifpu.2 st hst] at hu
    cases hu
  · rw [(KillableQueue.waiting_of_reset h.queue).1] at hx
    cases hx

/-- What was on its way and is not any more was delivered, at most. -/
theorem holding_next_le (h : s.Sound) (i : AluIn T A D) (p : Uop A → Bool) :
    (s.next value i).holding p + ((s.ll_fresp value i).any fun x => p x.uop.fields).toNat ≤
      s.holding p + (has p (new i)).toNat := by
  have hle := total_next_le value i p h
  rw [total, total, countP_results_next] at hle
  omega

/-! ## Runs -/

/-- What the units find in a cycle. -/
structure Safe (value : Uop A → D) (s : AluExe c T A D) (i : AluIn T A D) : Prop where
  /-- a conversion finds room in the queue -/
  queue : (s.ifpuResp value i).isSome = true → s.queue.q.full = false
  /-- a division finds the divider ready -/
  div : s.divReq.isSome = true → s.div.ready = true
  /-- the divider keeps its result as long as a pipelined unit has one -/
  waits : (s.aluResp value i).isSome = true ∨ (s.imulResp value i).isSome = true →
    s.divFired value i = none

theorem Inv.safe (h : s.Inv value) : s.Safe value i := by
  refine ⟨h.room.not_full h.ring, h.divides.exe, fun hr => ?_⟩
  have hready : s.divRespReady value i = false := by
    unfold divRespReady
    rcases hr with hr | hr
    · rw [← Option.not_isSome, hr]
      rfl
    · rw [← Option.not_isSome (s.imulResp value i), hr, Bool.not_true, Bool.and_false]
  rw [divFired, DivUnit.fired, hready]
  rfl

theorem inv_of_reach (h : (aluExeUnit c T value).Reach s) : s.Inv value :=
  h.inv (fun _ h0 => inv_of_reset h0) fun _ _ hinv hok => hinv.next hok

/-- As long as the two do not collide, nothing is lost. -/
theorem exact_of_reach
    (h : ((aluExeUnit c T value).restrict fun s i => ¬ s.Collide value i).Reach s) :
    s.book.Exact Uop.number value := by
  have hboth : s.Inv value ∧ s.book.Counted Uop.number :=
    h.inv (P := fun s => s.Inv value ∧ s.book.Counted Uop.number)
      (fun _ h0 => ⟨inv_of_reset h0, counted_of_reset h0⟩)
      fun _ _ hinv hok => ⟨hinv.1.next hok.1, hinv.2.step (book_step hinv.1 hok.1 hok.2)⟩
  exact hboth.2.exact hboth.1.own.results

/-! ### Pipelines of one length -/

/-- One of the two is empty. -/
def Apart (a m : Stage T (Uop A) D) : Prop := a.uop = none ∨ m.uop = none

theorem Apart.advance {a m : Stage T (Uop A) D} {b : BrUpdate T} {kill : Bool} (h : Apart a m) :
    Apart (a.advance b kill) (m.advance b kill) := by
  rcases h with h | h
  · exact .inl (by rw [Stage.advance, h]; rfl)
  · exact .inr (by rw [Stage.advance, h]; rfl)

/-- A uop is for one of the two. -/
theorem apart_stage (value : Uop A → D) (s : AluExe c T A D) (i : AluIn T A D) :
    Apart (s.aluStage value i) (s.stage value i [.MUL]) := by
  unfold Apart aluStage stage req
  cases s.exe with
  | none => exact .inl rfl
  | some u => cases hf : u.fields.fu <;> simp [Option.filter, hf]

theorem apart_of_reset (hlat : c.imulLatency = c.numBypassStages) (h : s.Reset) :
    List.Forall₂ Apart s.alu s.imul := by
  rw [List.forall₂_iff_get]
  refine ⟨h.alu.1.trans (hlat.symm.trans h.imul.1.symm), fun k hk _ => ?_⟩
  exact .inl (h.alu.2 _ (List.get_mem _ _))

theorem apart_next (h : List.Forall₂ Apart s.alu s.imul) :
    List.Forall₂ Apart (s.next value i).alu (s.next value i).imul :=
  ShiftReg.forall₂_shift h (apart_stage value s i) fun _ _ hab => hab.advance

/-- Without a multiplier nothing gets into its pipeline. -/
structure NoMul (s : AluExe c T A D) : Prop where
  front : ∀ o ∈ [s.rrd, s.exe], has (isFu .MUL) o = false
  imul : ∀ st ∈ s.imul, st.uop = none

theorem NoMul.stage (h : s.NoMul) : (s.stage value i [.MUL]).uop = none := by
  show s.req [.MUL] = none
  have hexe := h.front s.exe (by simp)
  unfold req
  cases he : s.exe with
  | none => rfl
  | some u =>
    rw [he] at hexe
    have hne : u.fields.fu ≠ .MUL := of_decide_eq_false hexe
    simp [Option.filter, hne]

theorem NoMul.next (hc : c.hasMul = false) (h : s.NoMul) (hok : s.Ok i) :
    (s.next value i).NoMul := by
  have hmove : ∀ (kill : Bool) (o : Option (MicroOp T (Uop A))), has (isFu .MUL) o = false →
      has (isFu .MUL) (o.bind (advance i.brupdate kill)) = false := by
    intro kill o ho
    rw [Bool.eq_false_iff] at ho ⊢
    exact fun hx => ho (has_advance_le hx)
  have hnew : has (isFu .MUL) (new i) = false := by
    rw [Bool.eq_false_iff]
    intro hx
    obtain ⟨u, hu, hf⟩ := (Option.any_eq_true _ _).1 hx
    have hty := (fu_of_new hok hu).1
    rw [show u.fields.fu = .MUL from of_decide_eq_true hf, fu_types, hc] at hty
    cases hty
  refine ⟨?_, ?_⟩
  · intro o ho
    rcases List.mem_cons.1 ho with rfl | ho
    · exact hmove false (new i) hnew
    · obtain rfl := List.mem_singleton.1 ho
      exact hmove i.kill s.rrd (h.front s.rrd (by simp))
  · exact Pipe.next_of_empty h.imul h.stage

theorem noMul_of_reset (h : s.Reset) : s.NoMul := by
  refine ⟨fun o ho => ?_, h.imul.2⟩
  rw [h.rrd, h.exe] at ho
  rcases List.mem_cons.1 ho with rfl | ho
  · rfl
  · obtain rfl := List.mem_singleton.1 ho
    rfl

theorem not_collide (h : Apart (ShiftReg.out (s.aluStage value i) s.alu)
    (ShiftReg.out (s.stage value i [.MUL]) s.imul)) : ¬ s.Collide value i := by
  rintro ⟨ha, hm⟩
  rcases h with h | h
  · rw [aluResp, Pipe.resp, h] at ha
    cases ha
  · rw [imulResp, Pipe.resp, h] at hm
    cases hm

/-- **Pipelines of one length do not collide.** -/
theorem no_collision (hlat : c.hasMul = true → c.imulLatency = c.numBypassStages)
    (h : (aluExeUnit c T value).Reach s) (i : AluIn T A D) : ¬ s.Collide value i := by
  refine not_collide ?_
  cases hmul : c.hasMul with
  | true =>
    have hapart : List.Forall₂ Apart s.alu s.imul :=
      h.inv (fun _ h0 => apart_of_reset (hlat hmul) h0) fun _ _ hs _ => apart_next hs
    exact ShiftReg.forall₂_out hapart (apart_stage value s i)
  | false =>
    have hno : s.NoMul := h.inv (fun _ h0 => noMul_of_reset h0) fun _ _ hs hok => hs.next hmul hok
    refine .inr ?_
    rcases List.mem_cons.1 (ShiftReg.out_mem (x := s.stage value i [.MUL]) (l := s.imul)) with he | hm
    · rw [he]
      exact hno.stage
    · exact hno.imul _ hm

end AluExe

end BoomStop.ExeUnit
