/-
  The floating-point execution unit (`FPUExeUnit` in `execution-unit.scala`)
  with the register read before it: the pipelined FPU, the unit for divisions
  and roots, and the queues for results and store data that go to the integer
  side.

  * `FpuExe.fu_types`: what may be issued to it, with the mask of
    `fp-pipeline.scala` for a division that has just been issued;
  * `FpuExe.next`: one cycle;
  * `FpuExe.total`, `total_next`: as for the integer unit, a cycle loses no uop;
  * `FpuExe.Inv`: the two queues have room for what is on its way to them, and
    at most one division is.
-/
import BoomStop.AluExeUnit

namespace BoomStop.ExeUnit

open KillableQueue (MicroOp Bits)
open Issue (BrUpdate isKilledByBranch getNewBrMask)
open FuncUnit
open Ledger (Book)

variable {T : ℕ} {A R D : Type}

/-! ## The unit -/

/-- The parameters of `FPUExeUnit`. -/
structure FpuCfg where
  hasFdiv : Bool
  hasFpiu : Bool
  dfmaLatency : ℕ

/-- What the units compute.  A division is computed in double precision, and
    rounded as it is taken. -/
structure FpOps (A R D : Type) where
  value : Uop A → D
  raw : Uop A → R
  down : Uop A → R → D
  value_div : ∀ u : Uop A, u.fu = .FDV → down u (raw u) = value u

/-- The registers, with ghosts as in the integer unit. -/
structure FpuExe (c : FpuCfg) (T : ℕ) (A R D : Type) where
  rrd : Option (MicroOp T (Uop A))
  exe : Option (MicroOp T (Uop A))
  fpu : Pipe T (Uop A) D
  fdiv : FDivSqrtUnit T (Uop A) R
  queue : KillableQueue.Sys (c.dfmaLatency + 3) T (Uop A) D
  fp_sdq : KillableQueue.Sys 3 T (Uop A) D
  fdiv_issued : Bool
  issued : List (Uop A)
  killed : List ℕ
  results : List (Uop A × D)

/-- The inputs of a cycle. -/
structure FpuIn (T : ℕ) (A R D : Type) where
  iss : Option (MicroOp T (Uop A))
  brupdate : BrUpdate T
  kill : Bool
  ll_iresp_ready : Bool
  /-- `DivSqrtRecF64` takes a request, and gives a result -/
  divsqrt_ready : Bool
  divsqrt_out : Option R
  junk : D

namespace FpuExe

variable {c : FpuCfg} (ops : FpOps A R D) (s : FpuExe c T A R D) (i : FpuIn T A R D)

/-- The uop in execute, if it is for one of these units. -/
def req (fus : List Fu) : Option (MicroOp T (Uop A)) := s.exe.filter fun u => u.fields.fu ∈ fus

/-- Store data passes the FPU, too. -/
def fpuStage : Stage T (Uop A) D :=
  ⟨s.req [.FPU, .F2I, .STA], (s.exe.map fun u => ops.value u.fields).getD i.junk⟩

/-- The answer of the FPU. -/
def fpuResp : Option (Bits T (Uop A) D) := Pipe.resp s.fpu i.brupdate (s.fpuStage ops i)

/-- The request of the divider. -/
def fdivReq : Option (MicroOp T (Uop A)) := s.req [.FDV]

/-- The answer of the divider, if it is taken: the FPU goes first. -/
def fdivFired : Option (Bits T (Uop A) D) :=
  s.fdiv.fired i.brupdate (s.fpuResp ops i).isNone ops.down

/-- `io.fresp`: not for what goes to the integer side. -/
def fresp : Option (Bits T (Uop A) D) :=
  match s.fpuResp ops i with
  | some x => if x.uop.fields.fu ∈ [Fu.F2I, .STA] then none else some x
  | none => s.fdiv.resp i.brupdate ops.down

/-- What goes into the queue of results for integer registers. -/
def queueEnq : Option (Bits T (Uop A) D) :=
  (s.fpuResp ops i).filter fun x => x.uop.fields.fu = .F2I

/-- What this queue gets. -/
def queueIn : KillableQueue.In T (Uop A) D :=
  ⟨s.queueEnq ops i, i.ll_iresp_ready, i.brupdate, i.kill⟩

/-- The store data do not wait for the FPU. -/
def sdqEnq : Option (Bits T (Uop A) D) :=
  ((s.req [.STA]).filter fun u => !isKilledByBranch i.brupdate u.br_mask).map fun u =>
    ⟨ops.value u.fields, u⟩

/-- The results go before the store data. -/
def sdqIn : KillableQueue.In T (Uop A) D where
  enq := s.sdqEnq ops i
  deq_ready := i.ll_iresp_ready &&
    (s.queue.q.deq (queueConfig T A) (s.queueIn ops i)).isNone
  brupdate := i.brupdate
  flush := i.kill

/-- What leaves this queue. -/
def queueFired : Option (Bits T (Uop A) D) :=
  s.queue.q.fired (queueConfig T A) (s.queueIn ops i)

/-- What leaves the queue of store data. -/
def sdqFired : Option (Bits T (Uop A) D) :=
  s.fp_sdq.q.fired (queueConfig T A) (s.sdqIn ops i)

/-- `io.ll_iresp`, if it is taken. -/
def ll_iresp : Option (Bits T (Uop A) D) := (s.queueFired ops i).or (s.sdqFired ops i)

/-- `fdiv_busy`. -/
def fdiv_busy : Bool := !s.fdiv.ready || s.fdivReq.isSome

/-- `fpiu_busy`. -/
def fpiu_busy : Bool := !(s.queue.q.empty && s.fp_sdq.q.empty)

/-- `io.fu_types`: what may be issued. -/
def fu_types : Fu → Bool
  | .FPU => true
  | .FDV => !s.fdiv_busy && c.hasFdiv && !s.fdiv_issued
  | .F2I | .STA => !s.fpiu_busy && c.hasFpiu
  | _ => false

/-- The FPU has no result for store data. -/
def counted (p : Uop A → Bool) (u : Uop A) : Bool := p u && decide (u.fu ≠ .STA)

/-- The uops that are on their way. -/
def flight : List (MicroOp T (Uop A)) :=
  s.rrd.toList ++ s.exe.toList ++ (s.fpu.filterMap Stage.uop).filter (·.fields.fu ≠ .STA) ++
    (s.queue.waiting ++ s.fp_sdq.waiting).map (·.bits.uop) ++
    (s.fdiv.r_buffer.toList ++ s.fdiv.live.toList ++ s.fdiv.outUop.toList)

/-- One cycle. -/
def next : FpuExe c T A R D where
  rrd := i.iss.bind (advance i.brupdate false)
  exe := s.rrd.bind (advance i.brupdate i.kill)
  fpu := s.fpu.next i.brupdate i.kill (s.fpuStage ops i)
  fdiv := s.fdiv.next i.brupdate i.kill s.fdivReq (s.fpuResp ops i).isNone i.divsqrt_ready
    i.divsqrt_out
  queue := s.queue.next (queueConfig T A) (s.queueIn ops i)
  fp_sdq := s.fp_sdq.next (queueConfig T A) (s.sdqIn ops i)
  fdiv_issued := i.iss.any fun u => u.fields.fu = .FDV
  issued := s.issued ++ i.iss.toList.map (·.fields)
  killed := s.killed ++ ((s.flight ++ i.iss.toList).filter (doomed i.brupdate i.kill)).map
    (·.fields.number)
  results := s.results ++ ((s.fresp ops i).toList ++ (s.ll_iresp ops i).toList).map fun x =>
    (x.uop.fields, x.data)

/-- What is issued may be issued, and has the next number; and
    `DivSqrtRecF64` keeps its promise. -/
structure Ok : Prop where
  fu_types : ∀ u, i.iss = some u → s.fu_types u.fields.fu = true
  number : ∀ u, i.iss = some u → u.fields.number = s.issued.length
  divsqrt : s.fdiv.Answers i.divsqrt_out ops.raw

/-- After reset. -/
structure Reset : Prop where
  rrd : s.rrd = none
  exe : s.exe = none
  fpu : s.fpu.length = c.dfmaLatency ∧ ∀ st ∈ s.fpu, st.uop = none
  fdiv : s.fdiv.r_buffer = none ∧ s.fdiv.r_divsqrt_val = false ∧ s.fdiv.r_out = none ∧
    s.fdiv.op = none
  queue : s.queue.Reset
  fp_sdq : s.fp_sdq.Reset
  fdiv_issued : s.fdiv_issued = false
  issued : s.issued = []
  killed : s.killed = []
  results : s.results = []

/-- How many uops of some kind are on their way, -/
def holding (p : Uop A → Bool) : ℕ :=
  (has p s.rrd).toNat + (has p s.exe).toNat + Pipe.holding s.fpu (counted p) +
    s.queue.holding (fun x => p x.uop.fields) + s.fp_sdq.holding (fun x => p x.uop.fields) +
    s.fdiv.holding p

/-- or delivered. -/
def total (p : Uop A → Bool) : ℕ := (s.results.countP fun r => p r.1) + s.holding p

/-- What became of the uops. -/
def book : Book (Uop A) D := ⟨s.issued, s.flight.map (·.fields), s.killed, s.results⟩

end FpuExe

open FpuExe in
/-- The unit, with what it computes. -/
def fpuExeUnit (c : FpuCfg) (T : ℕ) (ops : FpOps A R D) :
    Sync.Machine (FpuExe c T A R D) (FpuIn T A R D) where
  start s := s.Reset
  ok s i := s.Ok ops i
  next s i := s.next ops i

/-! ## Nothing is lost -/

namespace FpuExe

variable {c : FpuCfg} {ops : FpOps A R D} {s : FpuExe c T A R D} {i : FpuIn T A R D}
  {p : Uop A → Bool}

/-- The codes that the unit knows. -/
def known : List Fu := [.FPU, .FDV, .F2I, .STA]

theorem any_filter {α : Type} {q r : α → Bool} (o : Option α) :
    (o.filter r).any q = o.any fun x => q x && r x := by
  cases o with
  | none => rfl
  | some x => cases hr : r x <;> simp [Option.filter, hr]

theorem has_req (fus : List Fu) : has p (s.req fus) = has (fun u => p u && decide (u.fu ∈ fus)) s.exe :=
  any_filter s.exe

/-- What is executed is for one unit, or is store data. -/
theorem has_exe (p : Uop A → Bool) (h : ∀ u ∈ s.exe, u.fields.fu ∈ known) :
    (has (counted p) (s.req [.FPU, .F2I, .STA])).toNat + (has p (s.req [.STA])).toNat +
      (has p s.fdivReq).toNat = (has p s.exe).toNat := by
  rw [fdivReq, has_req, has_req, has_req]
  cases he : s.exe with
  | none => rfl
  | some u =>
    have hk := h u he
    cases hf : u.fields.fu <;> cases hp : p u.fields <;>
      simp [has, hf, hp, known, counted] at hk ⊢

theorem has_exe_le (s : FpuExe c T A R D) (p : Uop A → Bool) : (has (counted p) (s.req [.FPU, .F2I, .STA])).toNat +
    (has p (s.req [.STA])).toNat + (has p s.fdivReq).toNat ≤ (has p s.exe).toNat := by
  rw [fdivReq, has_req, has_req, has_req]
  cases s.exe with
  | none => exact le_rfl
  | some u => cases hf : u.fields.fu <;> cases hp : p u.fields <;> simp [has, hf, hp, counted]

theorem any_sdqEnq : ((s.sdqEnq ops i).any fun x => p x.uop.fields) =
    (s.req [.STA]).any fun u => p u.fields && !isKilledByBranch i.brupdate u.br_mask := by
  rw [sdqEnq]
  cases s.req [.STA] with
  | none => rfl
  | some u => cases hk : isKilledByBranch i.brupdate u.br_mask <;> simp [Option.filter, hk]

/-- The result of the FPU goes to one of the two sides, and then the other
    unit waits. -/
theorem any_fresp (ops : FpOps A R D) (s : FpuExe c T A R D) (i : FpuIn T A R D) (p : Uop A → Bool) :
     ((s.fresp ops i).any fun x => p x.uop.fields).toNat +
    ((s.queueEnq ops i).any fun x => p x.uop.fields).toNat =
      ((s.fpuResp ops i).any fun x => counted p x.uop.fields).toNat +
        ((s.fdivFired ops i).any fun x => p x.uop.fields).toNat := by
  unfold fresp queueEnq fdivFired FDivSqrtUnit.fired
  cases s.fpuResp ops i with
  | none => simp
  | some x =>
    cases hf : x.uop.fields.fu <;> cases hp : p x.uop.fields <;>
      simp [Option.filter, hf, hp, counted]

/-- One of the two queues is taken from. -/
theorem any_ll_iresp (ops : FpOps A R D) (s : FpuExe c T A R D) (i : FpuIn T A R D)
    (p : Uop A → Bool) :  ((s.ll_iresp ops i).any fun x => p x.uop.fields).toNat =
    ((s.queueFired ops i).any fun x => p x.uop.fields).toNat +
      ((s.sdqFired ops i).any fun x => p x.uop.fields).toNat := by
  rw [ll_iresp]
  cases hq : s.queueFired ops i with
  | none => simp
  | some x =>
    have hno : s.sdqFired ops i = none := by
      unfold queueFired KillableQueue.Queue.fired at hq
      split_ifs at hq
      unfold sdqFired KillableQueue.Queue.fired sdqIn
      rw [hq]
      simp
    rw [hno]
    simp

theorem countP_results_next : ((s.next ops i).results.countP fun r => p r.1) =
    (s.results.countP fun r => p r.1) + ((s.fresp ops i).any fun x => p x.uop.fields).toNat +
      ((s.ll_iresp ops i).any fun x => p x.uop.fields).toNat := by
  rw [next, List.countP_append, List.map_append, List.countP_append, AluExe.countP_delivered,
    AluExe.countP_delivered, Nat.add_assoc]

/-- What the units find. -/
structure Sound (ops : FpOps A R D) (s : FpuExe c T A R D) : Prop where
  queue : s.queue.Ring
  fp_sdq : s.fp_sdq.Ring
  fdiv : s.fdiv.Own ops.raw
  ready : s.fdivReq.isSome = true → s.fdiv.ready = true

/-- No uop comes from nowhere. -/
theorem total_next_le (p : Uop A → Bool) (h : s.Sound ops) (hok : s.Ok ops i) :
    (s.next ops i).total p ≤ s.total p + (has p i.iss).toNat := by
  have h1 := toNat_has_advance_le p i.brupdate false i.iss
  have h2 := toNat_has_advance_le p i.brupdate i.kill s.rrd
  have h3 := Pipe.holding_next_le s.fpu i.brupdate i.kill (s.fpuStage ops i) (counted p)
  have h4 := KillableQueue.holding_next_le (c := queueConfig T A) (i := s.queueIn ops i)
    (p := fun x => p x.uop.fields) h.queue fun _ _ => rfl
  have h5 := KillableQueue.holding_next_le (c := queueConfig T A) (i := s.sdqIn ops i)
    (p := fun x => p x.uop.fields) h.fp_sdq fun _ _ => rfl
  have h6 := FDivSqrtUnit.holding_next_le i.brupdate i.kill (s.fpuResp ops i).isNone i.divsqrt_ready
    ops.down p h.ready h.fdiv hok.divsqrt
  have h7 := has_exe_le s p
  have h8 := any_fresp ops s i p
  have h9 := any_ll_iresp ops s i p
  have h10 : _ ≤ ((s.queueEnq ops i).any fun x => p x.uop.fields).toNat :=
    s.queue.q.any_accepts_le (s.queueIn ops i) fun x => p x.uop.fields
  have h11 : _ ≤ ((s.sdqEnq ops i).any fun x => p x.uop.fields).toNat :=
    s.fp_sdq.q.any_accepts_le (s.sdqIn ops i) fun x => p x.uop.fields
  have h12 : ((s.sdqEnq ops i).any fun x => p x.uop.fields).toNat ≤ (has p (s.req [.STA])).toNat := by
    rw [any_sdqEnq, has]
    refine toNat_mono fun hx => ?_
    obtain ⟨u, hu, hx⟩ := (Option.any_eq_true _ _).1 hx
    exact (Option.any_eq_true _ _).2 ⟨u, hu, ((Bool.and_eq_true _ _).mp hx).1⟩
  rw [total, countP_results_next, total, holding, holding]
  simp only [next, Stage.has, fpuStage, fpuResp, queueFired, sdqFired, fdivFired, queueIn, sdqIn] at *
  omega

/-- None of the kind is killed in this cycle. -/
def Spared (p : Uop A → Bool) (s : FpuExe c T A R D) (i : FpuIn T A R D) : Prop :=
  ∀ u ∈ s.flight ++ i.iss.toList, p u.fields = true → doomed i.brupdate i.kill u = false

theorem mem_of_req {fus : List Fu} {u : MicroOp T (Uop A)} (h : u ∈ s.req fus) :
    u ∈ s.exe ∧ u.fields.fu ∈ fus := by
  obtain ⟨hu, hf⟩ := Option.filter_eq_some_iff.1 h
  exact ⟨hu, of_decide_eq_true hf⟩

theorem flight_of_rrd {u : MicroOp T (Uop A)} (h : u ∈ s.rrd) : u ∈ s.flight := by
  simp only [flight, List.mem_append, Option.mem_toList]
  exact .inl (.inl (.inl (.inl h)))

theorem flight_of_exe {u : MicroOp T (Uop A)} (h : u ∈ s.exe) : u ∈ s.flight := by
  simp only [flight, List.mem_append, Option.mem_toList]
  exact .inl (.inl (.inl (.inr h)))

theorem flight_of_fpu {st : Stage T (Uop A) D} (hst : st ∈ s.fpu) {u : MicroOp T (Uop A)}
    (h : u ∈ st.uop) (hf : u.fields.fu ≠ .STA) : u ∈ s.flight := by
  simp only [flight, List.mem_append]
  refine .inl (.inl (.inr (List.mem_filter.2 ⟨List.mem_filterMap.2 ⟨st, hst, h⟩, ?_⟩)))
  exact decide_eq_true hf

theorem flight_of_waiting {x : KillableQueue.Item T (Uop A) D}
    (h : x ∈ s.queue.waiting ++ s.fp_sdq.waiting) : x.bits.uop ∈ s.flight :=
  List.mem_append_left _ (List.mem_append_right _ (List.mem_map.2 ⟨x, h, rfl⟩))

theorem flight_of_fdiv {o : Option (MicroOp T (Uop A))}
    (ho : o ∈ [s.fdiv.r_buffer, s.fdiv.live, s.fdiv.outUop]) {u : MicroOp T (Uop A)} (h : u ∈ o) :
    u ∈ s.flight := by
  refine List.mem_append_right _ ?_
  simp only [List.mem_append, Option.mem_toList]
  simp only [List.mem_cons, List.not_mem_nil, or_false] at ho
  rcases ho with rfl | rfl | rfl
  · exact .inl (.inl h)
  · exact .inl (.inr h)
  · exact .inr h

theorem Spared.flight (h : s.Spared p i) {u : MicroOp T (Uop A)} (hu : u ∈ s.flight)
    (hp : p u.fields = true) : doomed i.brupdate i.kill u = false :=
  h u (List.mem_append_left _ hu) hp

theorem Spared.stages (h : s.Spared p i) (ops : FpOps A R D) : ∀ st ∈ s.fpuStage ops i :: s.fpu,
    ∀ u ∈ st.uop, counted p u.fields = true → doomed i.brupdate i.kill u = false := by
  intro st hst u hu hc
  rw [counted, Bool.and_eq_true, decide_eq_true_eq] at hc
  rcases List.mem_cons.1 hst with rfl | hst
  · exact h.flight (flight_of_exe (mem_of_req hu).1) hc.1
  · exact h.flight (flight_of_fpu hst hu hc.2) hc.1

/-- The queues have room for what is offered. -/
structure Roomy (ops : FpOps A R D) (s : FpuExe c T A R D) (i : FpuIn T A R D) : Prop where
  queue : (s.queueEnq ops i).isSome = true → s.queue.q.full = false
  fp_sdq : (s.sdqEnq ops i).isSome = true → s.fp_sdq.q.full = false

/-- **A cycle loses no uop** that it does not kill. -/
theorem total_next (h : s.Sound ops) (hok : s.Ok ops i) (hknown : ∀ u ∈ s.exe, u.fields.fu ∈ known)
    (hroom : s.Roomy ops i) (hs : s.Spared p i) :
    (s.next ops i).total p = s.total p + (has p i.iss).toNat := by
  have h1 : has p (i.iss.bind (advance i.brupdate false)) = has p i.iss :=
    has_advance_eq fun u hu hp =>
      doomed_mono (hs u (List.mem_append_right _ (Option.mem_toList.2 hu)) hp)
  have h2 : has p (s.rrd.bind (advance i.brupdate i.kill)) = has p s.rrd :=
    has_advance_eq fun u hu hp => hs.flight (flight_of_rrd hu) hp
  have h3 := Pipe.holding_next (hs.stages ops)
  have hdrop : ∀ x ∈ s.queue.waiting ++ s.fp_sdq.waiting, p x.bits.uop.fields = true →
      doomed i.brupdate (i.kill && true) x.bits.uop = false := by
    intro x hx hp
    rw [Bool.and_true]
    exact hs.flight (flight_of_waiting hx) hp
  have h4 := KillableQueue.holding_next (c := queueConfig T A) (i := s.queueIn ops i)
    (p := fun x => p x.uop.fields) h.queue (fun _ _ => rfl) fun x hx =>
      hdrop x (List.mem_append_left _ hx)
  have h5 := KillableQueue.holding_next (c := queueConfig T A) (i := s.sdqIn ops i)
    (p := fun x => p x.uop.fields) h.fp_sdq (fun _ _ => rfl) fun x hx =>
      hdrop x (List.mem_append_right _ hx)
  have h6 := FDivSqrtUnit.holding_next (p := p) (s.fpuResp ops i).isNone i.divsqrt_ready ops.down
    h.ready h.fdiv hok.divsqrt
    (fun u hu hp => hs.flight (flight_of_exe (mem_of_req hu).1) hp)
    fun o ho u hu hp => hs.flight (flight_of_fdiv ho hu) hp
  have h7 := has_exe p hknown
  have h8 := any_fresp ops s i p
  have h9 := any_ll_iresp ops s i p
  have h10 : _ = (s.queueEnq ops i).any fun x => p x.uop.fields :=
    KillableQueue.Queue.any_accepts (i := s.queueIn ops i) (fun x => p x.uop.fields) hroom.queue
  have h11 : _ = (s.sdqEnq ops i).any fun x => p x.uop.fields :=
    KillableQueue.Queue.any_accepts (i := s.sdqIn ops i) (fun x => p x.uop.fields) hroom.fp_sdq
  have h12 : ((s.sdqEnq ops i).any fun x => p x.uop.fields) = has p (s.req [.STA]) := by
    rw [any_sdqEnq, has, Bool.eq_iff_iff, Option.any_eq_true, Option.any_eq_true]
    refine exists_congr fun u => and_congr_right fun hu => ?_
    rw [Bool.and_eq_true, Bool.not_eq_true']
    refine and_iff_left_of_imp fun hp => ?_
    exact ((Bool.or_eq_false_iff).1 (hs.flight (flight_of_exe (mem_of_req hu).1) hp)).1
  rw [h10] at h4
  rw [h11] at h5
  rw [total, countP_results_next, total, holding, holding]
  simp only [next, h1, h2]
  simp only [Stage.has, fpuStage, fpuResp, queueFired, sdqFired, fdivFired, queueIn, sdqIn, h12] at *
  omega

theorem holding_eq : s.holding p = s.flight.countP fun u => p u.fields := by
  have hopt : ∀ o : Option (MicroOp T (Uop A)),
      o.toList.countP (fun u => p u.fields) = (has p o).toNat := fun o =>
    KillableQueue.countP_toList _ o
  have hpipe : ((s.fpu.filterMap Stage.uop).filter (·.fields.fu ≠ .STA)).countP
      (fun u => p u.fields) = Pipe.holding s.fpu (counted p) := by
    rw [Pipe.holding, List.countP_filter, List.countP_filterMap]
    refine List.countP_congr fun st _ => ?_
    rw [Stage.has, has]
    cases st.uop <;> simp [counted]
  rw [holding, flight, List.countP_append, List.countP_append, List.countP_append,
    List.countP_append, List.countP_append, List.countP_append, hopt, hopt, hopt, hopt, hopt, hpipe,
    List.countP_map, List.countP_append]
  simp only [FDivSqrtUnit.holding, KillableQueue.Sys.holding, Function.comp_def]
  omega

/-! ## The invariant -/

/-- One division at a time on its way to its unit. -/
structure Divides (s : FpuExe c T A R D) : Prop where
  rrd : has (AluExe.isFu .FDV) s.rrd = true →
    s.fdiv_issued = true ∧ s.fdivReq = none ∧ s.fdiv.ready = true
  exe : s.fdivReq.isSome = true → s.fdiv.ready = true
  /-- and nothing else gets there -/
  only : s.fdiv.holding (fun u => decide (u.fu ≠ .FDV)) = 0

/-- The queues have room for what is on its way to them. -/
structure Room (s : FpuExe c T A R D) : Prop where
  length : s.fpu.length = c.dfmaLatency
  queue : s.queue.occupied + (has (AluExe.isFu .F2I) s.rrd).toNat +
    (has (AluExe.isFu .F2I) s.exe).toNat + Pipe.holding s.fpu (AluExe.isFu .F2I) ≤
      c.dfmaLatency + 3
  fp_sdq : s.fp_sdq.occupied + (has (AluExe.isFu .STA) s.rrd).toNat +
    (has (AluExe.isFu .STA) s.exe).toNat ≤ 3

/-- Data stay with their uops. -/
structure Own (ops : FpOps A R D) (s : FpuExe c T A R D) : Prop where
  fpu : ∀ st ∈ s.fpu, st.Own ops.value
  waiting : ∀ x ∈ s.queue.waiting ++ s.fp_sdq.waiting, x.bits.data = ops.value x.bits.uop.fields
  results : ∀ r ∈ s.results, r.2 = ops.value r.1

/-- The invariant of the unit. -/
structure Inv (ops : FpOps A R D) (s : FpuExe c T A R D) : Prop where
  queue : s.queue.Ring
  fp_sdq : s.fp_sdq.Ring
  fdiv : s.fdiv.Own ops.raw
  divides : s.Divides
  known : ∀ o ∈ [s.rrd, s.exe], ∀ u ∈ o, u.fields.fu ∈ known
  room : s.Room
  own : s.Own ops

theorem Inv.sound (h : s.Inv ops) : s.Sound ops := ⟨h.queue, h.fp_sdq, h.fdiv, h.divides.exe⟩

theorem known_of_fu_types {fu : Fu} (h : s.fu_types fu = true) : fu ∈ known := by
  cases fu <;> first | decide | cases h

theorem Inv.known_next (h : s.Inv ops) (hok : s.Ok ops i) :
    ∀ o ∈ [(s.next ops i).rrd, (s.next ops i).exe], ∀ u ∈ o, u.fields.fu ∈ FpuExe.known := by
  intro o ho u hu
  rcases List.mem_cons.1 ho with rfl | ho
  · obtain ⟨v, hv, hadv⟩ := Option.bind_eq_some_iff.1 hu
    rw [fields_of_advance hadv]
    exact known_of_fu_types (hok.fu_types v hv)
  · obtain rfl := List.mem_singleton.1 ho
    obtain ⟨v, hv, hadv⟩ := Option.bind_eq_some_iff.1 hu
    rw [fields_of_advance hadv]
    exact h.known _ (by simp) v hv

theorem isSome_req {fu : Fu} : (s.req [fu]).isSome = has (AluExe.isFu fu) s.exe := by
  unfold req has AluExe.isFu
  cases s.exe with
  | none => rfl
  | some u => by_cases hf : u.fields.fu = fu <;> simp [Option.filter, hf]

/-- A uop that is issued finds its unit free. -/
theorem fu_types_of_has (hok : s.Ok ops i) {fu : Fu} (h : has (AluExe.isFu fu) i.iss = true) :
    s.fu_types fu = true ∧ ∃ u, i.iss = some u ∧ u.fields.fu = fu := by
  obtain ⟨u, hu, hf⟩ := (Option.any_eq_true _ _).1 h
  have hfu : u.fields.fu = fu := of_decide_eq_true hf
  exact ⟨hfu ▸ hok.fu_types u hu, u, hu, hfu⟩

theorem of_issued_div (hok : s.Ok ops i) (h : has (AluExe.isFu .FDV) i.iss = true) :
    s.fdiv_issued = false ∧ s.fdivReq = none ∧ s.fdiv.ready = true ∧
      (s.next ops i).fdiv_issued = true := by
  obtain ⟨hty, u, hiss, hfu⟩ := fu_types_of_has hok h
  rw [fu_types, fdiv_busy, Bool.and_eq_true, Bool.and_eq_true, Bool.not_eq_true',
    Bool.not_eq_true', Bool.or_eq_false_iff, Bool.not_eq_false'] at hty
  refine ⟨hty.2, ?_, hty.1.1.1, ?_⟩
  · rw [← Option.isNone_iff_eq_none, ← Option.not_isSome, hty.1.1.2]
    rfl
  · rw [next, hiss]
    exact decide_eq_true hfu

/-- A unit that is ready and has no request stays ready. -/
theorem ready_next (h : s.fdiv.ready = true) (hreq : s.fdivReq = none) :
    (s.next ops i).fdiv.ready = true := by
  have hbuf : s.fdiv.r_buffer = none := Option.isNone_iff_eq_none.1 h
  have hfire : s.fdiv.fires i.divsqrt_ready = none := by
    rw [FDivSqrtUnit.fires, FDivSqrtUnit.may_fire_input, hbuf, ite_self, ite_self]
  have hnext : (s.next ops i).fdiv.r_buffer = none := by
    show (s.fdiv.next _ _ _ _ _ _).r_buffer = none
    rw [FDivSqrtUnit.buffer_next fun _ => h, hfire, hreq, hbuf]
    rfl
  rw [FDivSqrtUnit.ready, hnext]
  rfl

theorem Inv.divides_next (h : s.Inv ops) (hok : s.Ok ops i) : (s.next ops i).Divides := by
  have hexe : (s.next ops i).fdivReq.isSome = has (AluExe.isFu .FDV) (s.next ops i).exe := isSome_req
  refine ⟨fun hr => ?_, fun he => ?_, ?_⟩
  · have hnew : has (AluExe.isFu .FDV) i.iss = true := has_advance_le hr
    obtain ⟨hidiv, hreq, hready, hidiv'⟩ := of_issued_div hok hnew
    refine ⟨hidiv', ?_, ready_next hready hreq⟩
    rw [← Option.isNone_iff_eq_none, ← Option.not_isSome, hexe]
    cases hx : has (AluExe.isFu .FDV) (s.next ops i).exe with
    | false => rfl
    | true =>
      have hi := (h.divides.rrd (has_advance_le hx)).1
      rw [hidiv] at hi
      cases hi
  · rw [hexe] at he
    obtain ⟨-, hreq, hready⟩ := h.divides.rrd (has_advance_le he)
    exact ready_next hready hreq
  · have hle := FDivSqrtUnit.holding_next_le i.brupdate i.kill (s.fpuResp ops i).isNone
      i.divsqrt_ready ops.down (fun u => decide (u.fu ≠ .FDV)) h.divides.exe h.fdiv hok.divsqrt
    have hreq : has (fun u => decide (u.fu ≠ .FDV)) s.fdivReq = false := by
      rw [Bool.eq_false_iff]
      intro hx
      obtain ⟨u, hu, hf⟩ := (Option.any_eq_true _ _).1 hx
      exact of_decide_eq_true hf (List.mem_singleton.1 (mem_of_req hu).2)
    rw [h.divides.only, hreq] at hle
    exact Nat.le_zero.1 ((Nat.le_add_right _ _).trans hle)

theorem has_f2i_req : has (AluExe.isFu .F2I) (s.req [.FPU, .F2I, .STA]) =
    has (AluExe.isFu .F2I) s.exe := by
  rw [has_req]
  cases s.exe with
  | none => rfl
  | some u => cases hf : u.fields.fu <;> simp [has, AluExe.isFu, hf]

/-- What reaches the queue has been counted on its way. -/
theorem any_queueEnq (ops : FpOps A R D) (s : FpuExe c T A R D) (i : FpuIn T A R D) :
     (s.queueEnq ops i).isSome.toNat +
    Pipe.holding (s.next ops i).fpu (AluExe.isFu .F2I) ≤
      Pipe.holding s.fpu (AluExe.isFu .F2I) + (has (AluExe.isFu .F2I) s.exe).toNat := by
  have h := Pipe.holding_next_le s.fpu i.brupdate i.kill (s.fpuStage ops i) (AluExe.isFu .F2I)
  have hsome : ((s.fpuResp ops i).any fun x => AluExe.isFu .F2I x.uop.fields) =
      (s.queueEnq ops i).isSome := by
    rw [queueEnq]
    cases s.fpuResp ops i with
    | none => rfl
    | some x => by_cases hf : x.uop.fields.fu = .F2I <;> simp [Option.filter, AluExe.isFu, hf]
  simp only [Stage.has, fpuStage, has_f2i_req] at h
  rw [← hsome, Nat.add_comm]
  exact h

theorem isSome_sdqEnq (ops : FpOps A R D) (s : FpuExe c T A R D) (i : FpuIn T A R D) :
     (s.sdqEnq ops i).isSome.toNat ≤ (has (AluExe.isFu .STA) s.exe).toNat := by
  rw [← isSome_req]
  refine toNat_mono fun hx => ?_
  rw [sdqEnq, Option.isSome_map] at hx
  cases hr : s.req [.STA] with
  | none =>
    rw [hr] at hx
    cases hx
  | some u => rfl

theorem Inv.roomy (h : s.Inv ops) : s.Roomy ops i := by
  constructor
  · intro hq
    have hle := any_queueEnq ops s i
    have hroom := h.room.queue
    rw [hq, Bool.toNat_true] at hle
    exact KillableQueue.not_full_of_occupied h.queue (by omega)
  · intro hq
    have hle := isSome_sdqEnq ops s i
    have hroom := h.room.fp_sdq
    rw [hq, Bool.toNat_true] at hle
    exact KillableQueue.not_full_of_occupied h.fp_sdq (by omega)

/-- As long as a queue has an entry, nothing is issued for either. -/
theorem not_issued (hok : s.Ok ops i) (hb : s.fpiu_busy = true) {fu : Fu}
    (hfu : fu = .F2I ∨ fu = .STA) : has (AluExe.isFu fu) i.iss = false := by
  rw [Bool.eq_false_iff]
  intro hx
  have hty := (fu_types_of_has hok hx).1
  rcases hfu with rfl | rfl <;> rw [fu_types, hb] at hty <;> cases hty

theorem Inv.room_next (h : s.Inv ops) (hok : s.Ok ops i) : (s.next ops i).Room := by
  have hlen : (s.next ops i).fpu.length = c.dfmaLatency :=
    (Pipe.length_next ..).trans h.room.length
  have hq : (s.next ops i).queue.occupied ≤ s.queue.occupied + (s.queueEnq ops i).isSome.toNat :=
    KillableQueue.occupied_next_le h.queue
  have hs : (s.next ops i).fp_sdq.occupied ≤ s.fp_sdq.occupied + (s.sdqEnq ops i).isSome.toNat :=
    KillableQueue.occupied_next_le h.fp_sdq
  have hexe : ∀ fu, (has (AluExe.isFu fu) (s.next ops i).exe).toNat ≤
      (has (AluExe.isFu fu) s.rrd).toNat := fun fu =>
    toNat_has_advance_le (AluExe.isFu fu) i.brupdate i.kill s.rrd
  have hrrd : ∀ fu, (has (AluExe.isFu fu) (s.next ops i).rrd).toNat ≤
      (has (AluExe.isFu fu) i.iss).toNat := fun fu =>
    toNat_has_advance_le (AluExe.isFu fu) i.brupdate false i.iss
  have hpipe := any_queueEnq ops s i
  have hsta := isSome_sdqEnq ops s i
  have hroom := h.room.queue
  have hroom' := h.room.fp_sdq
  have h1 := hexe .F2I
  have h2 := hexe .STA
  have h3 := hrrd .F2I
  have h4 := hrrd .STA
  cases hb : s.fpiu_busy with
  | true =>
    -- nothing more is issued
    rw [not_issued hok hb (.inl rfl), Bool.toNat_false] at h3
    rw [not_issued hok hb (.inr rfl), Bool.toNat_false] at h4
    exact ⟨hlen, by omega, by omega⟩
  | false =>
    -- every place on the way may be taken
    rw [fpiu_busy, Bool.not_eq_false', Bool.and_eq_true] at hb
    have hz := KillableQueue.occupied_of_empty h.queue hb.1
    have hz' := KillableQueue.occupied_of_empty h.fp_sdq hb.2
    have hcount : Pipe.holding (s.next ops i).fpu (AluExe.isFu .F2I) ≤ c.dfmaLatency :=
      hlen ▸ List.countP_le_length
    have h5 := Bool.toNat_le (has (AluExe.isFu .F2I) (s.next ops i).rrd)
    have h6 := Bool.toNat_le (has (AluExe.isFu .F2I) (s.next ops i).exe)
    have h7 := Bool.toNat_le (s.queueEnq ops i).isSome
    have h8 := Bool.toNat_le (has (AluExe.isFu .STA) (s.next ops i).rrd)
    have h9 := Bool.toNat_le (has (AluExe.isFu .STA) (s.next ops i).exe)
    have h10 := Bool.toNat_le (s.sdqEnq ops i).isSome
    exact ⟨hlen, by omega, by omega⟩

/-! ### Data stay with their uops -/

theorem own_fpuStage : (s.fpuStage ops i).Own ops.value := by
  intro u hu
  have he : s.exe = some u := (mem_of_req hu).1
  rw [fpuStage, he]
  rfl

theorem own_queueEnq (h : s.Inv ops) {x : Bits T (Uop A) D} (hx : s.queueEnq ops i = some x) :
    x.data = ops.value x.uop.fields :=
  Pipe.own_resp h.own.fpu own_fpuStage (Option.filter_eq_some_iff.1 hx).1

theorem own_sdqEnq {x : Bits T (Uop A) D} (hx : s.sdqEnq ops i = some x) :
    x.data = ops.value x.uop.fields := by
  obtain ⟨u, -, rfl⟩ := Option.map_eq_some_iff.1 hx
  rfl

/-- What the divider shows is a division. -/
theorem fu_of_fdiv (h : s.Inv ops) {x : Bits T (Uop A) D}
    (hx : s.fdiv.resp i.brupdate ops.down = some x) : x.uop.fields.fu = .FDV := by
  have honly := h.divides.only
  by_contra hne
  have hone : has (fun u => decide (u.fu ≠ .FDV)) s.fdiv.outUop = true := by
    rw [(FDivSqrtUnit.own_resp h.fdiv hx).2]
    exact decide_eq_true hne
  rw [FDivSqrtUnit.holding, hone, Bool.toNat_true] at honly
  omega

theorem own_fdiv (h : s.Inv ops) {x : Bits T (Uop A) D}
    (hx : s.fdiv.resp i.brupdate ops.down = some x) : x.data = ops.value x.uop.fields := by
  rw [(FDivSqrtUnit.own_resp h.fdiv hx).1, ops.value_div _ (fu_of_fdiv h hx)]

theorem own_fresp (h : s.Inv ops) {x : Bits T (Uop A) D} (hx : s.fresp ops i = some x) :
    x.data = ops.value x.uop.fields := by
  unfold fresp at hx
  cases hf : s.fpuResp ops i with
  | none =>
    rw [hf] at hx
    exact own_fdiv h hx
  | some y =>
    simp only [hf] at hx
    split_ifs at hx
    obtain rfl := Option.some.inj hx
    exact Pipe.own_resp h.own.fpu own_fpuStage hf

theorem Inv.own_next (h : s.Inv ops) : (s.next ops i).Own ops := by
  have hqueue := AluExe.own_queue (j := s.queueIn ops i) h.queue
    (fun x hx => h.own.waiting x (List.mem_append_left _ hx)) fun x hx => own_queueEnq h hx
  have hsdq := AluExe.own_queue (j := s.sdqIn ops i) h.fp_sdq
    (fun x hx => h.own.waiting x (List.mem_append_right _ hx)) fun x hx => own_sdqEnq hx
  refine ⟨Pipe.own_next h.own.fpu own_fpuStage, fun x hx => ?_, fun r hr => ?_⟩
  · exact (List.mem_append.1 hx).elim (hqueue.2 x) (hsdq.2 x)
  · rcases List.mem_append.1 hr with hr | hr
    · exact h.own.results r hr
    · obtain ⟨x, hx, rfl⟩ := List.mem_map.1 hr
      rcases List.mem_append.1 hx with hx | hx
      · exact own_fresp h (Option.mem_toList.1 hx)
      · rcases Option.or_eq_some_iff.1 (Option.mem_toList.1 hx) with hx | ⟨-, hx⟩
        · exact hqueue.1 x hx
        · exact hsdq.1 x hx

theorem Inv.next (h : s.Inv ops) (hok : s.Ok ops i) : (s.next ops i).Inv ops :=
  ⟨KillableQueue.ring_next h.queue, KillableQueue.ring_next h.fp_sdq,
    FDivSqrtUnit.own_next h.fdiv hok.divsqrt, h.divides_next hok, h.known_next hok,
    h.room_next hok, h.own_next⟩

theorem fdiv_of_reset (h : s.Reset) : s.fdiv.holding p = 0 := by
  rw [FDivSqrtUnit.holding, FDivSqrtUnit.live, FDivSqrtUnit.outUop, h.fdiv.1, h.fdiv.2.1,
    h.fdiv.2.2.1]
  rfl

theorem inv_of_reset (h : s.Reset) : s.Inv ops := by
  have hreq : s.fdivReq = none := by
    rw [fdivReq, req, h.exe]
    rfl
  obtain ⟨hwait, hocc⟩ := KillableQueue.waiting_of_reset h.queue
  obtain ⟨hwait', hocc'⟩ := KillableQueue.waiting_of_reset h.fp_sdq
  refine ⟨(KillableQueue.inv_start h.queue).ring, (KillableQueue.inv_start h.fp_sdq).ring,
    ⟨?_, fun f hf => ?_, fun hv => ?_, fun o ho => ?_⟩, ⟨fun hr => ?_, fun he => ?_, fdiv_of_reset h⟩,
    ?_, ⟨h.fpu.1, ?_, ?_⟩, ⟨Pipe.own_of_empty h.fpu.2, fun x hx => ?_, fun r hr => ?_⟩⟩
  · rw [h.fdiv.2.1, h.fdiv.2.2.2]
    rfl
  · rw [h.fdiv.2.2.2] at hf
    cases hf
  · rw [h.fdiv.2.1] at hv
    cases hv
  · rw [h.fdiv.2.2.1] at ho
    cases ho
  · rw [h.rrd] at hr
    cases hr
  · rw [hreq] at he
    cases he
  · rw [h.rrd, h.exe]
    simp
  · rw [hocc, h.rrd, h.exe, Pipe.holding_of_empty h.fpu.2]
    exact Nat.zero_le _
  · rw [hocc', h.rrd, h.exe]
    exact Nat.zero_le _
  · rw [hwait, hwait'] at hx
    cases hx
  · rw [h.results] at hr
    cases hr

/-! ## What is on its way

As in the integer unit; the FPU has no result for store data. -/

theorem mem_fpuResp {x : Bits T (Uop A) D} (hx : s.fpuResp ops i = some x)
    (hf : x.uop.fields.fu ≠ .STA) : ∃ u ∈ s.flight, advance i.brupdate false u = some x.uop := by
  obtain ⟨st, hst, -, -, u, hu, hadv⟩ := Pipe.mem_resp hx
  rw [fields_of_advance hadv] at hf
  refine ⟨u, ?_, hadv⟩
  rcases List.mem_cons.1 hst with rfl | hst
  · exact flight_of_exe (mem_of_req hu).1
  · exact flight_of_fpu hst hu hf

theorem mem_queueEnq {x : Bits T (Uop A) D} (hx : s.queueEnq ops i = some x) :
    ∃ u ∈ s.flight, advance i.brupdate false u = some x.uop := by
  obtain ⟨hx, hf⟩ := Option.filter_eq_some_iff.1 hx
  refine mem_fpuResp hx ?_
  rw [of_decide_eq_true hf]
  decide

theorem fu_of_sdqEnq {x : Bits T (Uop A) D} (hx : s.sdqEnq ops i = some x) :
    x.uop.fields.fu = .STA := by
  obtain ⟨u, hu, rfl⟩ := Option.map_eq_some_iff.1 hx
  exact List.mem_singleton.1 (mem_of_req (Option.filter_eq_some_iff.1 hu).1).2

/-- No result is written to the queue in the cycle of a flush. -/
def Calm (ops : FpOps A R D) (s : FpuExe c T A R D) (i : FpuIn T A R D) : Prop :=
  i.kill = true → s.queue.q.do_enq (queueConfig T A) (s.queueIn ops i) = none

theorem mem_fdiv_next (h : s.Sound ops) (hok : s.Ok ops i) {o : Option (MicroOp T (Uop A))}
    (ho : o ∈ [(s.next ops i).fdiv.r_buffer, (s.next ops i).fdiv.live, (s.next ops i).fdiv.outUop])
    {v : MicroOp T (Uop A)} (hv : v ∈ o) :
    ∃ u ∈ s.flight, advance i.brupdate i.kill u = some v := by
  have hbind : ∀ {o' : Option (MicroOp T (Uop A))}, (∀ u ∈ o', u ∈ s.flight) →
      v ∈ o'.bind (advance i.brupdate i.kill) →
      ∃ u ∈ s.flight, advance i.brupdate i.kill u = some v := by
    intro o' ho' hv
    obtain ⟨u, hu, hadv⟩ := Option.bind_eq_some_iff.1 hv
    exact ⟨u, ho' u hu, hadv⟩
  have hlive : ∀ u ∈ s.fdiv.live, u ∈ s.flight := fun u => flight_of_fdiv (by simp)
  have hbuf : ∀ u ∈ s.fdiv.r_buffer, u ∈ s.flight := fun u => flight_of_fdiv (by simp)
  have hout : ∀ u ∈ s.fdiv.outUop, u ∈ s.flight := fun u => flight_of_fdiv (by simp)
  simp only [List.mem_cons, List.not_mem_nil, or_false] at ho
  rcases ho with rfl | rfl | rfl
  · rw [show (s.next ops i).fdiv.r_buffer = _ from FDivSqrtUnit.buffer_next h.ready] at hv
    split_ifs at hv
    · cases hv
    · exact hbind (fun u hu => flight_of_exe (mem_of_req hu).1) hv
    · exact hbind hbuf hv
  · rw [show (s.next ops i).fdiv.live = _ from FDivSqrtUnit.live_next] at hv
    split_ifs at hv
    · cases hv
    · cases hf : s.fdiv.fires i.divsqrt_ready with
      | some u =>
        rw [hf] at hv
        exact ⟨u, hbuf u (FDivSqrtUnit.of_fires hf).2.2, hv⟩
      | none =>
        rw [hf] at hv
        exact hbind hlive hv
  · rw [show (s.next ops i).fdiv.outUop = _ from FDivSqrtUnit.outUop_next h.fdiv hok.divsqrt] at hv
    split_ifs at hv
    · exact hbind hlive hv
    · cases hv
    · exact hbind hout hv

theorem mem_flight_next (h : s.Sound ops) (hok : s.Ok ops i) (hcalm : s.Calm ops i)
    {v : MicroOp T (Uop A)} (hv : v ∈ (s.next ops i).flight) (hf : v.fields.fu ≠ .STA) :
    (∃ u ∈ s.flight, advance i.brupdate i.kill u = some v) ∨
      ∃ u ∈ i.iss, advance i.brupdate false u = some v := by
  rcases List.mem_append.1 hv with hv | hv
  · simp only [List.mem_append, Option.mem_toList, List.mem_map] at hv
    rcases hv with ((hv | hv) | hv) | ⟨x, hx | hx, rfl⟩
    · obtain ⟨u, hu, hadv⟩ := Option.bind_eq_some_iff.1 hv
      exact .inr ⟨u, hu, hadv⟩
    · obtain ⟨u, hu, hadv⟩ := Option.bind_eq_some_iff.1 hv
      exact .inl ⟨u, flight_of_rrd hu, hadv⟩
    · obtain ⟨st, hst, hv⟩ := List.mem_filterMap.1 (List.mem_filter.1 hv).1
      obtain ⟨st', hst', u, hu, hadv⟩ := Pipe.mem_next hst hv
      refine .inl ⟨u, ?_, hadv⟩
      rcases List.mem_cons.1 hst' with rfl | hst'
      · exact flight_of_exe (mem_of_req hu).1
      · exact flight_of_fpu hst' hu (fields_of_advance hadv ▸ hf)
    · rcases AluExe.mem_queue_next (j := s.queueIn ops i) h.queue hcalm
        (fun b hb => mem_queueEnq hb) hx with ⟨y, hy, hadv⟩ | ⟨u, hu, hadv⟩
      · exact .inl ⟨_, flight_of_waiting (List.mem_append_left _ hy), hadv⟩
      · exact .inl ⟨u, hu, hadv⟩
    · rcases KillableQueue.mem_waiting_next h.fp_sdq hx with ⟨y, hy, hupd⟩ | ⟨b, hb, he⟩
      · exact .inl ⟨_, flight_of_waiting (List.mem_append_right _ hy), AluExe.advance_of_upd hupd⟩
      · rw [he] at hf
        exact absurd (fu_of_sdqEnq (KillableQueue.not_full_of_accepts
          (KillableQueue.accepts_of_do_enq hb)).2) hf
  · simp only [List.mem_append, Option.mem_toList] at hv
    rcases hv with (hv | hv) | hv
    · exact .inl (mem_fdiv_next h hok (o := (s.next ops i).fdiv.r_buffer) (by simp) hv)
    · exact .inl (mem_fdiv_next h hok (o := (s.next ops i).fdiv.live) (by simp) hv)
    · exact .inl (mem_fdiv_next h hok (o := (s.next ops i).fdiv.outUop) (by simp) hv)

/-- What is in the FPU and in the queues is for them. -/
structure Sorted (s : FpuExe c T A R D) : Prop where
  fpu : ∀ st ∈ s.fpu, ∀ u ∈ st.uop, u.fields.fu ∈ [Fu.FPU, .F2I, .STA]
  queue : ∀ x ∈ s.queue.waiting, x.bits.uop.fields.fu = .F2I
  fp_sdq : ∀ x ∈ s.fp_sdq.waiting, x.bits.uop.fields.fu = .STA

theorem fu_of_queueEnq {x : Bits T (Uop A) D} (hx : s.queueEnq ops i = some x) :
    x.uop.fields.fu = .F2I := of_decide_eq_true (Option.filter_eq_some_iff.1 hx).2

theorem Sorted.fu_of_fpuResp (h : s.Sorted) {x : Bits T (Uop A) D}
    (hx : s.fpuResp ops i = some x) : x.uop.fields.fu ∈ [Fu.FPU, .F2I, .STA] :=
  Pipe.forall_resp (P := fun f : Uop A => f.fu ∈ [Fu.FPU, .F2I, .STA]) h.fpu
    (fun _ hu => (mem_of_req hu).2) hx

theorem Sorted.fu_of_sdqFired (h : s.Sorted) (hring : s.fp_sdq.Ring) {x : Bits T (Uop A) D}
    (hx : s.sdqFired ops i = some x) : x.uop.fields.fu = .STA := by
  rcases KillableQueue.fired_cases hring hx with ⟨y, hy, rfl⟩ | ⟨b, hb, rfl⟩
  · exact h.fp_sdq y hy
  · have hfu : b.uop.fields.fu = .STA := fu_of_sdqEnq (KillableQueue.not_full_of_accepts hb).2
    exact hfu

theorem Sorted.next (h : s.Sorted) (hring : s.queue.Ring) (hring' : s.fp_sdq.Ring) :
    (s.next ops i).Sorted :=
  ⟨Pipe.forall_next (P := fun f : Uop A => f.fu ∈ [Fu.FPU, .F2I, .STA]) h.fpu
      fun _ hu => (mem_of_req hu).2,
    KillableQueue.forall_waiting_next (i := s.queueIn ops i) (P := fun f : Uop A => f.fu = .F2I)
      hring h.queue fun _ hb => fu_of_queueEnq hb,
    KillableQueue.forall_waiting_next (i := s.sdqIn ops i) (P := fun f : Uop A => f.fu = .STA)
      hring' h.fp_sdq fun _ hb => fu_of_sdqEnq hb⟩

theorem sorted_of_reset (h : s.Reset) : s.Sorted := by
  refine ⟨fun st hst u hu => ?_, fun x hx => ?_, fun x hx => ?_⟩
  · rw [h.fpu.2 st hst] at hu
    cases hu
  · rw [(KillableQueue.waiting_of_reset h.queue).1] at hx
    cases hx
  · rw [(KillableQueue.waiting_of_reset h.fp_sdq).1] at hx
    cases hx

/-- What was on its way and is not any more was delivered, at most. -/
theorem holding_next_le (p : Uop A → Bool) (h : s.Sound ops) (hok : s.Ok ops i) :
    (s.next ops i).holding p + ((s.fresp ops i).any fun x => p x.uop.fields).toNat +
      ((s.ll_iresp ops i).any fun x => p x.uop.fields).toNat ≤ s.holding p + (has p i.iss).toNat := by
  have hle := total_next_le p h hok
  rw [total, total, countP_results_next] at hle
  omega

/-! ## Runs -/

theorem total_of_reset (h : s.Reset) : s.total p = 0 := by
  rw [total, holding, h.results, h.rrd, h.exe, Pipe.holding_of_empty h.fpu.2,
    KillableQueue.Sys.holding, KillableQueue.Sys.holding, (KillableQueue.waiting_of_reset h.queue).1,
    (KillableQueue.waiting_of_reset h.fp_sdq).1, fdiv_of_reset h]
  rfl

theorem book_total : s.book.total p = s.total p := by
  rw [total, holding_eq, Book.total, book, List.countP_map]
  rfl

/-- What a cycle kills. -/
theorem spared_of_not_killed (ops : FpOps A R D) {n : ℕ} (h : n ∉ (s.next ops i).killed) :
    s.Spared (Book.numbered Uop.number n) i := by
  intro u hu hn
  rw [Bool.eq_false_iff]
  intro hd
  refine h (List.mem_append_right _ (List.mem_map.2 ⟨u, List.mem_filter.2 ⟨hu, hd⟩, ?_⟩))
  exact of_decide_eq_true hn

/-- A cycle as a step of the book. -/
theorem book_step (hinv : s.Inv ops) (hok : s.Ok ops i) :
    s.book.Step Uop.number (i.iss.map (·.fields)) (s.next ops i).book where
  issued := by
    show s.issued ++ i.iss.toList.map _ = s.issued ++ _
    cases i.iss <;> rfl
  fresh := by
    intro f hf
    obtain ⟨u, hu, rfl⟩ := Option.map_eq_some_iff.1 hf
    exact hok.number u hu
  killed := List.subset_append_left _ _
  le p := by
    rw [book_total, book_total, Option.any_map]
    exact total_next_le p hinv.sound hok
  eq n hn := by
    rw [book_total, book_total, Option.any_map]
    exact total_next hinv.sound hok (hinv.known _ (by simp)) hinv.roomy
      (spared_of_not_killed ops hn)

/-- What the units find in a cycle. -/
structure Safe (ops : FpOps A R D) (s : FpuExe c T A R D) (i : FpuIn T A R D) : Prop where
  /-- results and store data find room in their queues -/
  roomy : s.Roomy ops i
  /-- a division finds the buffer empty -/
  fdiv : s.fdivReq.isSome = true → s.fdiv.ready = true
  /-- a quotient finds the buffer for it empty -/
  out : s.fdiv.Answers i.divsqrt_out ops.raw → i.divsqrt_out.isSome = true → s.fdiv.r_out = none
  /-- and stays there as long as the FPU has a result -/
  waits : (s.fpuResp ops i).isSome = true → s.fdivFired ops i = none

theorem Inv.safe (h : s.Inv ops) : s.Safe ops i where
  roomy := h.roomy
  fdiv := h.divides.exe
  out := fun ha ho => (FDivSqrtUnit.of_answer i.divsqrt_ready h.fdiv ha ho).2.1
  waits := by
    intro hr
    rw [fdivFired, FDivSqrtUnit.fired, ← Option.not_isSome, hr]
    rfl

theorem inv_of_reach (h : (fpuExeUnit c T ops).Reach s) : s.Inv ops :=
  h.inv (fun _ h0 => inv_of_reset h0) fun _ _ hinv hok => hinv.next hok

/-- **Nothing is lost.** -/
theorem exact_of_reach (h : (fpuExeUnit c T ops).Reach s) : s.book.Exact Uop.number ops.value := by
  have hboth : s.Inv ops ∧ s.book.Counted Uop.number :=
    h.inv (P := fun s => s.Inv ops ∧ s.book.Counted Uop.number)
      (fun _ h0 => ⟨inv_of_reset h0,
        Book.counted_empty h0.issued fun _ => book_total.trans (total_of_reset h0)⟩)
      fun _ _ hinv hok => ⟨hinv.1.next hok, hinv.2.step (book_step hinv.1 hok)⟩
  exact hboth.2.exact hboth.1.own.results

end FpuExe

end BoomStop.ExeUnit
