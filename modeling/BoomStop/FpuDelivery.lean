/-
  What is issued to the floating-point execution unit is delivered, if it is not
  killed.

  * `fpuResp_of_issue`, `req_of_issue`: where a uop is how many cycles after its
    issue;
  * `sdq_ready`: the store data get their turn, since no result is on its way as
    long as they wait;
  * `Fair`: the write port and the port to the integer side are free again and
    again, and `DivSqrtRecF64` gets ready and answers;
  * `delivers_of_run`: the result.
-/
import BoomStop.FpuExeUnit
import BoomStop.FuncProgress

namespace BoomStop.ExeUnit.FpuExe

open KillableQueue (MicroOp Bits)
open Issue (isKilledByBranch)
open FuncUnit Waiting
open Ledger (Book)

variable {c : FpuCfg} {T : ℕ} {A R D : Type} {ops : FpOps A R D}

/-- A run of the unit. -/
abbrev Run (c : FpuCfg) (T : ℕ) (ops : FpOps A R D) := (fpuExeUnit c T ops).Run

variable (r : Run c T ops)

theorem state_next (t : ℕ) : r.state (t + 1) = (r.state t).next ops (r.input t) := r.next t

theorem inv_run (t : ℕ) : (r.state t).Inv ops := inv_of_reach (r.reach t)

theorem killed_mono {t v n : ℕ} (htv : t ≤ v) (h : n ∉ (r.state v).killed) :
    n ∉ (r.state t).killed := by
  induction v, htv using Nat.le_induction with
  | base => exact h
  | succ v _ ih =>
    refine ih fun hin => h ?_
    rw [state_next]
    exact List.mem_append_left _ hin

/-- What is on its way in a cycle, and not killed by then, is not killed in it. -/
theorem spares {t : ℕ} {f : Uop A} (h : f.number ∉ (r.state (t + 1)).killed) {u : MicroOp T (Uop A)}
    (hu : u ∈ (r.state t).flight ++ (r.input t).iss.toList) (hf : u.fields = f) :
    doomed (r.input t).brupdate (r.input t).kill u = false := by
  rw [state_next] at h
  refine spared_of_not_killed ops h u hu ?_
  rw [hf]
  exact decide_eq_true rfl

/-! ## From issue to the units -/

/-- Where a uop is that goes through the FPU. -/
def cell (s : FpuExe c T A R D) (k : ℕ) : Option (MicroOp T (Uop A)) :=
  Pipe.cell (fun f : Uop A => decide (f.fu ∈ [Fu.FPU, .F2I, .STA])) s.rrd s.exe s.fpu k

theorem flight_of_cell {s : FpuExe c T A R D} {k : ℕ} {u : MicroOp T (Uop A)}
    (hu : cell s k = some u) (hf : u.fields.fu ≠ .STA) : u ∈ s.flight := by
  match k with
  | 0 => exact flight_of_rrd (Option.filter_eq_some_iff.1 hu).1
  | 1 => exact flight_of_exe (Option.filter_eq_some_iff.1 hu).1
  | k + 2 =>
    obtain ⟨st, hst, hu⟩ := Option.bind_eq_some_iff.1 hu
    exact flight_of_fpu (List.mem_of_getElem? hst) hu hf

/-- What the FPU shows is the last of them. -/
theorem cell_of_fpuResp {s : FpuExe c T A R D} {i : FpuIn T A R D} {x : Bits T (Uop A) D}
    (hx : s.fpuResp ops i = some x) :
    ∃ u, cell s (s.fpu.length + 1) = some u ∧ advance i.brupdate false u = some x.uop := by
  have hlast := Pipe.resp_cell s.fpu i.brupdate
    (fun f : Uop A => decide (f.fu ∈ [Fu.FPU, .F2I, .STA])) s.rrd s.exe (s.fpuStage ops i).data
  exact Option.bind_eq_some_iff.1 (hlast.symm.trans (congrArg (Option.map Bits.uop) hx))

theorem cell_next (t : ℕ) {k : ℕ} (hk : k ≤ c.dfmaLatency) : cell (r.state (t + 1)) (k + 1) =
    (cell (r.state t) k).bind (advance (r.input t).brupdate (r.input t).kill) := by
  rw [state_next]
  exact Pipe.cell_next (by rwa [(inv_run r t).room.length])

variable {r} in
/-- **The FPU has its result** as many cycles after the issue as there are registers. -/
theorem fpuResp_of_issue {t : ℕ} {u : MicroOp T (Uop A)} (hu : u ∈ (r.input t).iss)
    (hfu : u.fields.fu = .FPU ∨ u.fields.fu = .F2I)
    (hs : u.fields.number ∉ (r.state (t + c.dfmaLatency + 3)).killed) :
    ∃ x, (r.state (t + c.dfmaLatency + 2)).fpuResp ops (r.input (t + c.dfmaLatency + 2)) = some x ∧
      x.uop.fields = u.fields := by
  have hne : u.fields.fu ≠ .STA := by
    rcases hfu with h | h <;> rw [h] <;> decide
  have hin : u.fields.fu ∈ [Fu.FPU, .F2I, .STA] := by
    rcases hfu with h | h <;> rw [h] <;> decide
  exact Pipe.resp_of_issue (fun v => (r.state v).rrd) (fun v => (r.state v).exe)
    (fun v => (r.input v).iss) (fun v => (r.state v).fpu)
    (fun v => ((r.state v).fpuStage ops (r.input v)).data) (fun v => (r.input v).brupdate)
    (fun v => (r.input v).kill) (fun f => decide (f.fu ∈ [Fu.FPU, .F2I, .STA]))
    (fun v => congrArg FpuExe.rrd (state_next r v)) (fun v => congrArg FpuExe.exe (state_next r v))
    (fun v => congrArg FpuExe.fpu (state_next r v)) (fun v => (inv_run r v).room.length)
    ⟨u, hu, rfl⟩ (decide_eq_true hin)
    (fun v hv hf => doomed_mono (spares r (killed_mono r (by omega) (hf ▸ hs))
      (List.mem_append_right _ (Option.mem_toList.2 hv)) rfl))
    fun m hm v hv hf => spares r (killed_mono r (by omega) hs)
      (List.mem_append_left _ (flight_of_cell hv (hf ▸ hne))) hf

variable {r} in
/-- A uop is executed two cycles after its issue. -/
theorem req_of_issue {t : ℕ} {u : MicroOp T (Uop A)} (hu : u ∈ (r.input t).iss)
    (hs : u.fields.number ∉ (r.state (t + 2)).killed) :
    Held ((r.state (t + 2)).req [u.fields.fu]) u.fields :=
  Pipe.cell_of_issue (fun v => (r.state v).rrd) (fun v => (r.state v).exe)
    (fun v => (r.input v).iss) (fun _ => ([] : Pipe T (Uop A) Unit)) (fun _ => ())
    (fun v => (r.input v).brupdate) (fun v => (r.input v).kill)
    (fun f => decide (f.fu ∈ [u.fields.fu])) (n := 0) (k := 1)
    (fun v => congrArg FpuExe.rrd (state_next r v)) (fun v => congrArg FpuExe.exe (state_next r v))
    (fun v => rfl) (fun v => rfl) ⟨u, hu, rfl⟩ (decide_eq_true (List.mem_singleton_self _))
    (fun v hv hf => doomed_mono (spares r (killed_mono r (by omega) (hf ▸ hs))
      (List.mem_append_right _ (Option.mem_toList.2 hv)) rfl)) le_rfl
    fun m hm v hv hf => by
      obtain rfl : m = 0 := by omega
      exact spares r hs (List.mem_append_left _
        (flight_of_rrd (Option.filter_eq_some_iff.1 hv).1)) hf

/-! ## Delivery -/

/-- The result of a uop is shown, on the port of the unit or on that to the
    integer side. -/
def Gives (r : Run c T ops) (t : ℕ) (f : Uop A) : Prop :=
  ∃ x, ((r.state t).fresp ops (r.input t) = some x ∨
    (r.state t).ll_iresp ops (r.input t) = some x) ∧ x.uop.fields = f

variable {r}

theorem Gives.result {t : ℕ} {f : Uop A} (h : Gives r t f) :
    (f, ops.value f) ∈ (r.state (t + 1)).results := by
  obtain ⟨x, hx, rfl⟩ := h
  have hmem : (x.uop.fields, x.data) ∈ (r.state (t + 1)).results := by
    rw [state_next]
    refine List.mem_append_right _ (List.mem_map.2 ⟨x, ?_, rfl⟩)
    rcases hx with hx | hx
    · exact List.mem_append_left _ (Option.mem_toList.2 hx)
    · exact List.mem_append_right _ (Option.mem_toList.2 hx)
  have hown : x.data = ops.value x.uop.fields := (inv_run r (t + 1)).own.results _ hmem
  rwa [hown] at hmem

theorem gives_of_fpuResp {t : ℕ} {x : Bits T (Uop A) D}
    (hx : (r.state t).fpuResp ops (r.input t) = some x) (hf : x.uop.fields.fu = .FPU) :
    Gives r t x.uop.fields := by
  refine ⟨x, .inl ?_, rfl⟩
  unfold fresp
  rw [hx]
  exact if_neg (by rw [hf]; decide)

/-- The divider has the port for itself when the FPU has no result. -/
theorem gives_of_fdivFired {t : ℕ} {x : Bits T (Uop A) D}
    (hx : (r.state t).fdivFired ops (r.input t) = some x) : Gives r t x.uop.fields := by
  unfold fdivFired FDivSqrtUnit.fired at hx
  split_ifs at hx with hr
  refine ⟨x, .inl ?_, rfl⟩
  unfold fresp
  rw [Option.isNone_iff_eq_none.1 hr]
  exact hx

theorem gives_of_queueFired {t : ℕ} {x : Bits T (Uop A) D}
    (hx : (r.state t).queueFired ops (r.input t) = some x) : Gives r t x.uop.fields :=
  ⟨x, .inr (by rw [ll_iresp, hx]; rfl), rfl⟩

/-- Store data go when no result does. -/
theorem gives_of_sdqFired {t : ℕ} {x : Bits T (Uop A) D}
    (hx : (r.state t).sdqFired ops (r.input t) = some x) : Gives r t x.uop.fields := by
  have hno : (r.state t).queueFired ops (r.input t) = none := by
    unfold sdqFired KillableQueue.Queue.fired at hx
    split_ifs at hx with hr
    rw [sdqIn, Bool.and_eq_true, Option.isNone_iff_eq_none] at hr
    rw [queueFired, KillableQueue.Queue.fired, hr.2, ite_self]
  exact ⟨x, .inr (by rw [ll_iresp, hno]; exact hx), rfl⟩

/-- What the queues are offered they accept. -/
theorem accepts_of_queueEnq {t : ℕ} {x : Bits T (Uop A) D}
    (hx : (r.state t).queueEnq ops (r.input t) = some x) :
    (r.state t).queue.q.accepts ((r.state t).queueIn ops (r.input t)) = some x := by
  have hroom := ((inv_run r t).roomy (i := r.input t)).queue (by rw [hx]; rfl)
  rw [KillableQueue.Queue.accepts, hroom]
  exact hx

theorem accepts_of_sdqEnq {t : ℕ} {x : Bits T (Uop A) D}
    (hx : (r.state t).sdqEnq ops (r.input t) = some x) :
    (r.state t).fp_sdq.q.accepts ((r.state t).sdqIn ops (r.input t)) = some x := by
  have hroom := ((inv_run r t).roomy (i := r.input t)).fp_sdq (by rw [hx]; rfl)
  rw [KillableQueue.Queue.accepts, hroom]
  exact hx

variable (r)

/-- The write port and the port to the integer side are free again and again;
    `DivSqrtRecF64` gets ready, and answers what it is asked. -/
structure Fair : Prop where
  port : Often fun t => (r.state t).fpuResp ops (r.input t) = none
  ll_iresp_ready : Often fun t => (r.input t).ll_iresp_ready = true
  divsqrt_ready : Often fun t => (r.input t).divsqrt_ready = true
  divsqrt_out : ∀ t, (r.state t).fdiv.op.isSome = true →
    Later t fun v => (r.input v).divsqrt_out.isSome = true

/-- A uop is never killed. -/
def Spares (f : Uop A) : Prop := ∀ t, f.number ∉ (r.state t).killed

variable {r}

/-- What waits is not dropped. -/
theorem keeps {t : ℕ} {f : Uop A} (hs : f.number ∉ (r.state (t + 1)).killed)
    {x : KillableQueue.Item T (Uop A) D}
    (hx : x ∈ (r.state t).queue.waiting ++ (r.state t).fp_sdq.waiting)
    (hf : x.bits.uop.fields = f) :
    (isKilledByBranch (r.input t).brupdate x.bits.uop.br_mask || (r.input t).kill && true) =
      false := by
  rw [Bool.and_true]
  exact spares r hs (List.mem_append_left _ (flight_of_waiting hx)) hf

/-- **A result that waits** is taken. -/
theorem gives_of_queue (hfair : Fair r) {t k : ℕ} {f : Uop A} (hs : Spares r f)
    (hat : (r.state t).queue.At k f) : Later t fun v => Gives r v f := by
  refine (KillableQueue.taken_of_at (c := queueConfig T A) (q := fun u => (r.state u).queue)
    (j := fun u => (r.state u).queueIn ops (r.input u))
    (fun u => congrArg FpuExe.queue (state_next r u)) (fun u => (inv_run r u).queue)
    (fun u hat x hx => ?_) (fun u _ _ => hfair.ll_iresp_ready u) hat).mono fun v _ hx => ?_
  · obtain ⟨hw, hf⟩ := hat.waiting hx
    exact keeps (hs (u + 1)) (List.mem_append_left _ hw) hf
  · obtain ⟨x, hx, rfl⟩ := hx
    exact gives_of_queueFired hx

/-- As long as store data wait no result is issued for the integer side, and some
    cycles later none comes. -/
theorem queueEnq_none {t k : ℕ} {f : Uop A} (hat : ∀ v, t ≤ v → (r.state v).fp_sdq.At k f) :
    ∀ v, t + c.dfmaLatency + 2 ≤ v → (r.state v).queueEnq ops (r.input v) = none := by
  have hbusy : ∀ v, t ≤ v → (r.state v).fpiu_busy = true := by
    intro v hv
    obtain ⟨hle, hlt, -⟩ := hat v hv
    have he : (r.state v).fp_sdq.q.empty = false := by
      rw [Bool.eq_false_iff, Ne, KillableQueue.empty_iff (inv_run r v).fp_sdq]
      omega
    rw [fpiu_busy, he, Bool.and_false]
    rfl
  -- one place more is free of them in every cycle
  have hclean : ∀ m, m ≤ c.dfmaLatency + 1 → ∀ v, t + 1 + m ≤ v → ∀ w ∈ cell (r.state v) m,
      w.fields.fu ≠ .F2I := by
    intro m hm
    induction m with
    | zero =>
      intro v hv w hw hfu
      obtain ⟨v, rfl⟩ := Nat.exists_eq_add_of_le' (show 1 ≤ v by omega)
      have hrrd : w ∈ (r.state (v + 1)).rrd := (Option.filter_eq_some_iff.1 hw).1
      rw [state_next] at hrrd
      have hnone := not_issued (r.ok v) (hbusy v (by omega)) (.inl rfl)
      have hsome : has (AluExe.isFu .F2I) ((r.input v).iss.bind
          (advance (r.input v).brupdate false)) = true :=
        (Option.any_eq_true _ _).2 ⟨w, hrrd, decide_eq_true hfu⟩
      rw [has_advance_le hsome] at hnone
      cases hnone
    | succ m ih =>
      intro v hv w hw
      obtain ⟨v, rfl⟩ := Nat.exists_eq_add_of_le' (show 1 ≤ v by omega)
      rw [cell_next r v (by omega)] at hw
      obtain ⟨u, hu, hadv⟩ := Option.bind_eq_some_iff.1 hw
      rw [fields_of_advance hadv]
      exact ih (by omega) v (by omega) u hu
  intro v hv
  by_contra hne
  obtain ⟨x, hx⟩ := Option.ne_none_iff_exists'.1 hne
  obtain ⟨hresp, hf⟩ := Option.filter_eq_some_iff.1 hx
  obtain ⟨u, hu, hadv⟩ := cell_of_fpuResp hresp
  rw [(inv_run r v).room.length] at hu
  refine hclean _ le_rfl v (by omega) u hu ?_
  rw [← fields_of_advance hadv]
  exact of_decide_eq_true hf

/-- **The store data get their turn.** -/
theorem sdq_ready (hfair : Fair r) {t k : ℕ} {f : Uop A}
    (hat : ∀ v, t ≤ v → (r.state v).fp_sdq.At k f) :
    Later t fun v => ((r.state v).sdqIn ops (r.input v)).deq_ready = true := by
  obtain ⟨v, hv, hr, hd⟩ := KillableQueue.drained (c := queueConfig T A)
    (q := fun u => (r.state u).queue) (j := fun u => (r.state u).queueIn ops (r.input u))
    (fun u => congrArg FpuExe.queue (state_next r u)) (fun u => (inv_run r u).queue)
    (queueEnq_none hat) hfair.ll_iresp_ready
  refine ⟨v, by omega, ?_⟩
  exact (Bool.and_eq_true _ _).mpr ⟨hr, Option.isNone_iff_eq_none.2 hd⟩

/-- **Store data that wait** are taken. -/
theorem gives_of_sdq (hfair : Fair r) {t k : ℕ} {f : Uop A} (hs : Spares r f)
    (hat : (r.state t).fp_sdq.At k f) : Later t fun v => Gives r v f := by
  refine (KillableQueue.taken_of_at (c := queueConfig T A) (q := fun u => (r.state u).fp_sdq)
    (j := fun u => (r.state u).sdqIn ops (r.input u))
    (fun u => congrArg FpuExe.fp_sdq (state_next r u)) (fun u => (inv_run r u).fp_sdq)
    (fun u hat x hx => ?_) (fun u hu hall => sdq_ready hfair fun v hv => hall v (by omega))
    hat).mono fun v _ hx => ?_
  · obtain ⟨hw, hf⟩ := hat.waiting hx
    exact keeps (hs (u + 1)) (List.mem_append_right _ hw) hf
  · obtain ⟨x, hx, rfl⟩ := hx
    exact gives_of_sdqFired hx

/-- **A division in the buffer** is delivered. -/
theorem gives_of_buffer (hfair : Fair r) {t : ℕ} {f : Uop A} (hs : Spares r f)
    (hbuf : Held (r.state t).fdiv.r_buffer f) : Later t fun v => Gives r v f := by
  refine (FDivSqrtUnit.fired_of_buffer (fun u => (r.state u).fdiv)
    (fun u => (r.input u).brupdate) (fun u => (r.input u).kill) (fun u => (r.state u).fdivReq)
    (fun u => ((r.state u).fpuResp ops (r.input u)).isNone) (fun u => (r.input u).divsqrt_ready)
    (fun u => (r.input u).divsqrt_out)
    (fun u => congrArg FpuExe.fdiv (state_next r u)) (fun u => (inv_run r u).divides.exe)
    (fun u => (inv_run r u).fdiv) (fun u => (r.ok u).divsqrt)
    (fun u o ho v hv hf => spares r (hs (u + 1)) (List.mem_append_left _ (flight_of_fdiv ho hv)) hf)
    ops.down hfair.divsqrt_out (fun u => (hfair.port u).mono fun v _ hv => Option.isNone_iff_eq_none.2 hv)
    hfair.divsqrt_ready hbuf).mono fun v _ hx => ?_
  obtain ⟨x, hx, rfl⟩ := hx
  exact gives_of_fdivFired hx

/-- Every result of the FPU for the floating-point side is shown. -/
theorem gives_of_fpu {t : ℕ} {u : MicroOp T (Uop A)} (hu : u ∈ (r.input t).iss)
    (hfu : u.fields.fu = .FPU)
    (hs : u.fields.number ∉ (r.state (t + c.dfmaLatency + 3)).killed) :
    Gives r (t + c.dfmaLatency + 2) u.fields := by
  obtain ⟨x, hx, hf⟩ := fpuResp_of_issue hu (.inl hfu) hs
  exact hf ▸ gives_of_fpuResp hx (hf ▸ hfu)

/-- The others are accepted by the queue. -/
theorem accepts_of_f2i {t : ℕ} {u : MicroOp T (Uop A)} (hu : u ∈ (r.input t).iss)
    (hfu : u.fields.fu = .F2I)
    (hs : u.fields.number ∉ (r.state (t + c.dfmaLatency + 3)).killed) :
    ∃ x, (r.state (t + c.dfmaLatency + 2)).queue.q.accepts
      ((r.state (t + c.dfmaLatency + 2)).queueIn ops (r.input (t + c.dfmaLatency + 2))) = some x ∧
        x.uop.fields = u.fields := by
  obtain ⟨x, hx, hf⟩ := fpuResp_of_issue hu (.inr hfu) hs
  refine ⟨x, accepts_of_queueEnq (Option.filter_eq_some_iff.2 ⟨hx, ?_⟩), hf⟩
  exact decide_eq_true (hf ▸ hfu)

theorem accepts_of_sta {t : ℕ} {u : MicroOp T (Uop A)} (hu : u ∈ (r.input t).iss)
    (hfu : u.fields.fu = .STA) (hs : u.fields.number ∉ (r.state (t + 3)).killed) :
    ∃ x, (r.state (t + 2)).fp_sdq.q.accepts ((r.state (t + 2)).sdqIn ops (r.input (t + 2))) = some x ∧
      x.uop.fields = u.fields := by
  obtain ⟨v, hv, hf⟩ := req_of_issue hu (killed_mono r (by omega) hs)
  have hd := spares r hs (List.mem_append_left _ (flight_of_exe (mem_of_req hv).1)) hf
  refine ⟨⟨ops.value v.fields, v⟩, accepts_of_sdqEnq ?_, hf⟩
  rw [hfu] at hv
  rw [sdqEnq, hv, Option.filter_some, (Bool.or_eq_false_iff.1 hd).1]
  rfl

/-- What is at the head of the queue goes. -/
theorem gives_of_queue_head {t : ℕ} {x : KillableQueue.Item T (Uop A) D}
    (hlt : (r.state t).queue.deqNo < (r.state t).queue.enqNo)
    (hx : (r.state t).queue.cell (r.state t).queue.deqNo = some x)
    (hs : x.bits.uop.fields.number ∉ (r.state (t + 1)).killed)
    (hr : (r.input t).ll_iresp_ready = true) : Gives r t x.bits.uop.fields := by
  have hwait : x ∈ (r.state t).queue.waiting :=
    List.mem_filterMap.2 ⟨_, List.mem_range'_1.2 (by omega), hx⟩
  refine gives_of_queueFired (x := x.bits.update (r.input t).brupdate) ?_
  rw [queueFired, KillableQueue.Queue.fired]
  exact (if_pos hr).trans (KillableQueue.deq_of_cell (inv_run r t).queue hlt hx
    (keeps hs (List.mem_append_left _ hwait) rfl))

theorem gives_of_sdq_head {t : ℕ} {x : KillableQueue.Item T (Uop A) D}
    (hlt : (r.state t).fp_sdq.deqNo < (r.state t).fp_sdq.enqNo)
    (hx : (r.state t).fp_sdq.cell (r.state t).fp_sdq.deqNo = some x)
    (hs : x.bits.uop.fields.number ∉ (r.state (t + 1)).killed)
    (hr : (r.input t).ll_iresp_ready = true)
    (hno : (r.state t).queue.q.deq (queueConfig T A) ((r.state t).queueIn ops (r.input t)) = none) :
    Gives r t x.bits.uop.fields := by
  have hwait : x ∈ (r.state t).fp_sdq.waiting :=
    List.mem_filterMap.2 ⟨_, List.mem_range'_1.2 (by omega), hx⟩
  have hready : ((r.state t).sdqIn ops (r.input t)).deq_ready = true :=
    (Bool.and_eq_true _ _).mpr ⟨hr, Option.isNone_iff_eq_none.2 hno⟩
  refine gives_of_sdqFired (x := x.bits.update (r.input t).brupdate) ?_
  rw [sdqFired, KillableQueue.Queue.fired]
  exact (if_pos hready).trans (KillableQueue.deq_of_cell (inv_run r t).fp_sdq hlt hx
    (keeps hs (List.mem_append_right _ hwait) rfl))

/-- What is in the divider is not killed with it. -/
theorem spares_fdiv {t : ℕ} {f : Uop A} (hs : f.number ∉ (r.state (t + 1)).killed)
    {o : Option (MicroOp T (Uop A))}
    (ho : o ∈ [(r.state t).fdiv.r_buffer, (r.state t).fdiv.live, (r.state t).fdiv.outUop])
    {v : MicroOp T (Uop A)} (hv : v ∈ o) (hf : v.fields = f) :
    doomed (r.input t).brupdate (r.input t).kill v = false :=
  spares r hs (List.mem_append_left _ (flight_of_fdiv ho hv)) hf

/-! ### In the end -/

theorem later_of_queue (hfair : Fair r) {t : ℕ} {f : Uop A} (hs : Spares r f) {x : Bits T (Uop A) D}
    (hx : (r.state t).queue.q.accepts ((r.state t).queueIn ops (r.input t)) = some x)
    (hf : x.uop.fields = f) : Later t fun v => Gives r v f := by
  subst hf
  rcases KillableQueue.at_of_accepts (c := queueConfig T A) (inv_run r t).queue hx with
    ⟨y, hy, hyf⟩ | hat
  · exact ⟨t, le_rfl, hyf ▸ gives_of_queueFired hy⟩
  · have hat : (r.state (t + 1)).queue.At (r.state t).queue.enqNo x.uop.fields := by
      rw [state_next]
      exact hat
    exact .of_le (Nat.le_succ t) (gives_of_queue hfair hs hat)

theorem later_of_sdq (hfair : Fair r) {t : ℕ} {f : Uop A} (hs : Spares r f) {x : Bits T (Uop A) D}
    (hx : (r.state t).fp_sdq.q.accepts ((r.state t).sdqIn ops (r.input t)) = some x)
    (hf : x.uop.fields = f) : Later t fun v => Gives r v f := by
  subst hf
  rcases KillableQueue.at_of_accepts (c := queueConfig T A) (inv_run r t).fp_sdq hx with
    ⟨y, hy, hyf⟩ | hat
  · exact ⟨t, le_rfl, hyf ▸ gives_of_sdqFired hy⟩
  · have hat : (r.state (t + 1)).fp_sdq.At (r.state t).fp_sdq.enqNo x.uop.fields := by
      rw [state_next]
      exact hat
    exact .of_le (Nat.le_succ t) (gives_of_sdq hfair hs hat)

/-- A division gets into the buffer, and from there through the divider. -/
theorem later_of_div (hfair : Fair r) {t : ℕ} {u : MicroOp T (Uop A)} (hu : u ∈ (r.input t).iss)
    (hfu : u.fields.fu = .FDV) (hs : Spares r u.fields) : Later t fun v => Gives r v u.fields := by
  have hreq := req_of_issue hu (hs (t + 2))
  rw [hfu] at hreq
  have hbuf : Held (r.state (t + 3)).fdiv.r_buffer u.fields := by
    rw [state_next]
    exact FDivSqrtUnit.buffer_of_req (inv_run r (t + 2)).divides.exe hreq fun v hv hf =>
      spares r (hs (t + 3)) (List.mem_append_left _ (flight_of_exe (mem_of_req hv).1)) hf
  exact .of_le (by omega) (gives_of_buffer hfair hs hbuf)

theorem later_of_issue (hfair : Fair r) {t : ℕ} {u : MicroOp T (Uop A)} (hu : u ∈ (r.input t).iss)
    (hs : Spares r u.fields) : Later t fun v => Gives r v u.fields := by
  have hknown : u.fields.fu ∈ known := known_of_fu_types ((r.ok t).fu_types u hu)
  simp only [known, List.mem_cons, List.not_mem_nil, or_false] at hknown
  rcases hknown with hfu | hfu | hfu | hfu
  · exact ⟨_, by omega, gives_of_fpu hu hfu (hs _)⟩
  · exact later_of_div hfair hu hfu hs
  · obtain ⟨x, hx, hf⟩ := accepts_of_f2i hu hfu (hs _)
    exact .of_le (by omega) (later_of_queue hfair hs hx hf)
  · obtain ⟨x, hx, hf⟩ := accepts_of_sta hu hfu (hs _)
    exact .of_le (by omega) (later_of_sdq hfair hs hx hf)

variable (r)

/-- What the unit does for a uop that is issued and not killed. -/
structure Delivers : Prop where
  /-- the FPU has its result exactly at its latency, and it is shown, -/
  fpu : ∀ t, ∀ u ∈ (r.input t).iss, u.fields.fu = .FPU →
    u.fields.number ∉ (r.state (t + c.dfmaLatency + 3)).killed →
    Gives r (t + c.dfmaLatency + 2) u.fields
  /-- or accepted by the queue to the integer side; -/
  f2i : ∀ t, ∀ u ∈ (r.input t).iss, u.fields.fu = .F2I →
    u.fields.number ∉ (r.state (t + c.dfmaLatency + 3)).killed →
    ∃ x, (r.state (t + c.dfmaLatency + 2)).queue.q.accepts
      ((r.state (t + c.dfmaLatency + 2)).queueIn ops (r.input (t + c.dfmaLatency + 2))) = some x ∧
        x.uop.fields = u.fields
  /-- store data are accepted as they are executed; -/
  sta : ∀ t, ∀ u ∈ (r.input t).iss, u.fields.fu = .STA →
    u.fields.number ∉ (r.state (t + 3)).killed →
    ∃ x, (r.state (t + 2)).fp_sdq.q.accepts ((r.state (t + 2)).sdqIn ops (r.input (t + 2))) = some x ∧
      x.uop.fields = u.fields
  /-- the first result goes when the port is ready, and if there is none the first
      store data; -/
  queue : ∀ t x, (r.state t).queue.deqNo < (r.state t).queue.enqNo →
    (r.state t).queue.cell (r.state t).queue.deqNo = some x →
    x.bits.uop.fields.number ∉ (r.state (t + 1)).killed →
    (r.input t).ll_iresp_ready = true → Gives r t x.bits.uop.fields
  fp_sdq : ∀ t x, (r.state t).fp_sdq.deqNo < (r.state t).fp_sdq.enqNo →
    (r.state t).fp_sdq.cell (r.state t).fp_sdq.deqNo = some x →
    x.bits.uop.fields.number ∉ (r.state (t + 1)).killed →
    (r.input t).ll_iresp_ready = true →
    (r.state t).queue.q.deq (queueConfig T A) ((r.state t).queueIn ops (r.input t)) = none →
    Gives r t x.bits.uop.fields
  /-- a division in the buffer begins when nothing is divided, no result waits and
      the divider is ready; -/
  buffer : ∀ t f, Held (r.state t).fdiv.r_buffer f → f.number ∉ (r.state (t + 1)).killed →
    (r.state t).fdiv.r_divsqrt_val = false → (r.state t).fdiv.r_out = none →
    (r.input t).divsqrt_ready = true → Held (r.state (t + 1)).fdiv.live f
  /-- it waits from the answer on, and goes when the write port is free; -/
  live : ∀ t f, Held (r.state t).fdiv.live f → f.number ∉ (r.state (t + 1)).killed →
    (r.input t).divsqrt_out.isSome = true → Held (r.state (t + 1)).fdiv.outUop f
  out : ∀ t f, Held (r.state t).fdiv.outUop f → f.number ∉ (r.state (t + 1)).killed →
    (r.state t).fpuResp ops (r.input t) = none → Gives r t f
  /-- and in the end each one has its result -/
  all : Fair r → ∀ t, ∀ u ∈ (r.input t).iss, Spares r u.fields →
    Later t fun v => (u.fields, ops.value u.fields) ∈ (r.state v).results

theorem delivers_of_run : Delivers r where
  fpu _ _ hu hfu hs := gives_of_fpu hu hfu hs
  f2i _ _ hu hfu hs := accepts_of_f2i hu hfu hs
  sta _ _ hu hfu hs := accepts_of_sta hu hfu hs
  queue _ _ hlt hx hs hr := gives_of_queue_head hlt hx hs hr
  fp_sdq _ _ hlt hx hs hr hno := gives_of_sdq_head hlt hx hs hr hno
  buffer t f hbuf hs hval hout hr := by
    rw [state_next]
    exact (FDivSqrtUnit.buffer_step _ _ (inv_run r t).divides.exe (inv_run r t).fdiv (r.ok t).divsqrt
      hbuf fun v hv hf => spares_fdiv hs (by simp) hv hf).1 ⟨hval, hout, hr⟩
  live t f hlive hs ho := by
    have hstep := FDivSqrtUnit.live_step (r.state t).fdivReq
      ((r.state t).fpuResp ops (r.input t)).isNone (r.input t).divsqrt_ready (inv_run r t).fdiv (r.ok t).divsqrt
      hlive fun v hv hf => spares_fdiv hs (by simp) hv hf
    rw [if_pos ho] at hstep
    rw [state_next]
    exact hstep
  out t f hout hs hno := by
    have hstep := FDivSqrtUnit.out_step (r.state t).fdivReq
      ((r.state t).fpuResp ops (r.input t)).isNone (r.input t).divsqrt_ready ops.down (inv_run r t).fdiv (r.ok t).divsqrt
      hout fun v hv hf => spares_fdiv hs (by simp) hv hf
    rw [if_pos (Option.isNone_iff_eq_none.2 hno)] at hstep
    obtain ⟨x, hx, rfl⟩ := hstep
    exact gives_of_fdivFired hx
  all hfair _ _ hu hs := by
    obtain ⟨v, hv, hx⟩ := later_of_issue hfair hu hs
    exact ⟨v + 1, by omega, hx.result⟩

end BoomStop.ExeUnit.FpuExe
