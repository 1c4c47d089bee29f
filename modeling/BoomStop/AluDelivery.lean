/-
  What is issued to an integer execution unit is delivered, if it is not killed.

  * `cell_of_issue`, `resp_of_issue`: a uop for a pipelined unit is in its last
    stage as many cycles after its issue as there are registers before it;
  * `Fair`: the write port and the queue's port are free again and again, and
    `MulDiv` finishes;
  * `delivers_of_run`: the result.
-/
import BoomStop.AluExeUnit
import BoomStop.FuncProgress

namespace BoomStop.ExeUnit.AluExe

open KillableQueue (MicroOp Bits)
open FuncUnit Waiting
open Ledger (Book)

variable {c : AluCfg} {T : ℕ} {A D : Type} {value : Uop A → D}

/-- A run in which the ALU and the multiplier never both have a result. -/
abbrev Run (c : AluCfg) (T : ℕ) (value : Uop A → D) :=
  ((aluExeUnit c T value).restrict fun s i => ¬ s.Collide value i).Run

variable (r : Run c T value)

/-- The units have the stages they are made with. -/
structure Stages (s : AluExe c T A D) : Prop where
  alu : s.alu.length = c.numBypassStages
  imul : s.imul.length = c.imulLatency
  ifpu : s.ifpu.length = c.intToFpLatency

theorem stages_run (t : ℕ) : (r.state t).Stages :=
  (r.reach t).inv (fun _ h => ⟨h.alu.1, h.imul.1, h.ifpu.1⟩) fun _ _ h _ =>
    ⟨Pipe.length_next.trans h.alu, Pipe.length_next.trans h.imul, Pipe.length_next.trans h.ifpu⟩

theorem state_next (t : ℕ) : r.state (t + 1) = (r.state t).next value (r.input t) := r.next t

theorem inv_run (t : ℕ) : (r.state t).Inv value := inv_of_reach (r.reach t).of_restrict

theorem killed_mono {t v n : ℕ} (htv : t ≤ v) (h : n ∉ (r.state v).killed) :
    n ∉ (r.state t).killed := by
  induction v, htv using Nat.le_induction with
  | base => exact h
  | succ v _ ih =>
    refine ih fun hin => h ?_
    rw [state_next]
    exact List.mem_append_left _ hin

/-- What is on its way in a cycle, and not killed by then, is not killed in it. -/
theorem spares {t : ℕ} {f : Uop A} (h : f.number ∉ (r.state (t + 1)).killed) {u : MicroOp T (Uop A)}
    (hu : u ∈ (r.state t).flight ++ (new (r.input t)).toList) (hf : u.fields = f) :
    doomed (r.input t).brupdate (r.input t).kill u = false := by
  rw [state_next] at h
  refine spared_of_not_killed value h u hu ?_
  rw [hf]
  exact decide_eq_true rfl

/-! ## Pipelined units -/

section Lane

variable (fus : List Fu) {lane : AluExe c T A D → Pipe T (Uop A) D} {n : ℕ}

/-- A pipeline of the unit, for the uops with these codes. -/
structure Lane (fus : List Fu) (lane : AluExe c T A D → Pipe T (Uop A) D) (n : ℕ) : Prop where
  next : ∀ s i, lane (s.next value i) =
    (lane s).next i.brupdate i.kill (s.stage value i fus)
  mem : ∀ s, ∀ st ∈ lane s, st ∈ s.alu ++ s.imul ++ s.ifpu
  length : ∀ t, (lane (r.state t)).length = n

/-- Where a uop is that goes through the pipeline. -/
def cell (lane : AluExe c T A D → Pipe T (Uop A) D) (s : AluExe c T A D) (k : ℕ) :
    Option (MicroOp T (Uop A)) :=
  Pipe.cell (fun f : Uop A => decide (f.fu ∈ fus)) s.rrd s.exe (lane s) k

variable {fus r}

theorem flight_of_cell (h : Lane r fus lane n) {s : AluExe c T A D} {k : ℕ}
    {u : MicroOp T (Uop A)} (hu : cell fus lane s k = some u) : u ∈ s.flight := by
  match k with
  | 0 => exact flight_of_rrd (Option.filter_eq_some_iff.1 hu).1
  | 1 => exact flight_of_exe (Option.filter_eq_some_iff.1 hu).1
  | k + 2 =>
    obtain ⟨st, hst, hu⟩ := Option.bind_eq_some_iff.1 hu
    exact flight_of_stage (h.mem s st (List.mem_of_getElem? hst)) hu

section Issue

variable (h : Lane r fus lane n) {t : ℕ} {u : MicroOp T (Uop A)} (hu : u ∈ new (r.input t))
  (hfu : u.fields.fu ∈ fus)

include h hu hfu

/-- **From issue to the last stage**, one place in a cycle. -/
theorem cell_of_issue {k : ℕ} (hk : k ≤ n + 1)
    (hs : u.fields.number ∉ (r.state (t + 1 + k)).killed) :
    Held (cell fus lane (r.state (t + 1 + k)) k) u.fields :=
  Pipe.cell_of_issue (fun v => (r.state v).rrd) (fun v => (r.state v).exe)
    (fun v => new (r.input v)) (fun v => lane (r.state v))
    (fun v => ((r.state v).stage value (r.input v) fus).data) (fun v => (r.input v).brupdate)
    (fun v => (r.input v).kill) (fun f => decide (f.fu ∈ fus))
    (fun v => congrArg AluExe.rrd (state_next r v)) (fun v => congrArg AluExe.exe (state_next r v))
    (fun v => (congrArg lane (state_next r v)).trans (h.next _ _)) h.length ⟨u, hu, rfl⟩
    (decide_eq_true hfu)
    (fun v hv hf => doomed_mono (spares r (killed_mono r (by omega) (hf ▸ hs))
      (List.mem_append_right _ (Option.mem_toList.2 hv)) rfl)) hk
    fun m hm v hv hf => spares r (killed_mono r (by omega) hs)
      (List.mem_append_left _ (flight_of_cell h hv)) hf

/-- **The response** comes exactly then. -/
theorem resp_of_issue (hs : u.fields.number ∉ (r.state (t + n + 3)).killed) :
    ∃ x, Pipe.resp (lane (r.state (t + n + 2))) (r.input (t + n + 2)).brupdate
      ((r.state (t + n + 2)).stage value (r.input (t + n + 2)) fus) = some x ∧
        x.uop.fields = u.fields :=
  Pipe.resp_of_issue (fun v => (r.state v).rrd) (fun v => (r.state v).exe)
    (fun v => new (r.input v)) (fun v => lane (r.state v))
    (fun v => ((r.state v).stage value (r.input v) fus).data) (fun v => (r.input v).brupdate)
    (fun v => (r.input v).kill) (fun f => decide (f.fu ∈ fus))
    (fun v => congrArg AluExe.rrd (state_next r v)) (fun v => congrArg AluExe.exe (state_next r v))
    (fun v => (congrArg lane (state_next r v)).trans (h.next _ _)) h.length ⟨u, hu, rfl⟩
    (decide_eq_true hfu)
    (fun v hv hf => doomed_mono (spares r (killed_mono r (by omega) (hf ▸ hs))
      (List.mem_append_right _ (Option.mem_toList.2 hv)) rfl))
    fun m hm v hv hf => spares r (killed_mono r (by omega) hs)
      (List.mem_append_left _ (flight_of_cell h hv)) hf

end Issue

end Lane

theorem lane_alu : Lane r [.ALU, .JMP, .CSR] AluExe.alu c.numBypassStages :=
  ⟨fun _ _ => rfl, fun s st hst => by simp [hst], fun t => (stages_run r t).alu⟩

theorem lane_imul : Lane r [.MUL] AluExe.imul c.imulLatency :=
  ⟨fun _ _ => rfl, fun s st hst => by simp [hst], fun t => (stages_run r t).imul⟩

theorem lane_ifpu : Lane r [.I2F] AluExe.ifpu c.intToFpLatency :=
  ⟨fun _ _ => rfl, fun s st hst => by simp [hst], fun t => (stages_run r t).ifpu⟩

/-! ## Delivery -/

/-- The result of a uop is shown, on the port of the unit or on that of the queue. -/
def Gives (r : Run c T value) (t : ℕ) (f : Uop A) : Prop :=
  ∃ x, ((r.state t).iresp value (r.input t) = some x ∨
    (r.state t).ll_fresp value (r.input t) = some x) ∧ x.uop.fields = f

variable {r}

theorem Gives.result {t : ℕ} {f : Uop A} (h : Gives r t f) :
    (f, value f) ∈ (r.state (t + 1)).results := by
  obtain ⟨x, hx, rfl⟩ := h
  have hown : x.data = value x.uop.fields :=
    hx.elim (own_iresp (inv_run r t)) (own_ll_fresp (inv_run r t))
  rw [state_next, ← hown]
  refine List.mem_append_right _ (List.mem_map.2 ⟨x, ?_, rfl⟩)
  rcases hx with hx | hx
  · exact List.mem_append_left _ (Option.mem_toList.2 hx)
  · exact List.mem_append_right _ (Option.mem_toList.2 hx)

theorem gives_of_aluResp {t : ℕ} {x : KillableQueue.Bits T (Uop A) D}
    (hx : (r.state t).aluResp value (r.input t) = some x) : Gives r t x.uop.fields :=
  ⟨x, .inl (by rw [iresp, hx]; rfl), rfl⟩

/-- The multiplier has the port for itself when the ALU has no result. -/
theorem gives_of_imulResp {t : ℕ} {x : KillableQueue.Bits T (Uop A) D}
    (hx : (r.state t).imulResp value (r.input t) = some x) : Gives r t x.uop.fields := by
  have hno : (r.state t).aluResp value (r.input t) = none := by
    by_contra hne
    exact (r.ok t).2 ⟨Option.isSome_iff_ne_none.2 hne, by rw [hx]; rfl⟩
  exact ⟨x, .inl (by rw [iresp, hno, hx]; rfl), rfl⟩

theorem gives_of_divFired {t : ℕ} {x : KillableQueue.Bits T (Uop A) D}
    (hx : (r.state t).divFired value (r.input t) = some x) : Gives r t x.uop.fields := by
  unfold divFired DivUnit.fired at hx
  split_ifs at hx with hr
  rw [divRespReady, Bool.and_eq_true, Option.isNone_iff_eq_none, Option.isNone_iff_eq_none] at hr
  exact ⟨x, .inl (by rw [iresp, hr.1, hr.2]; exact hx), rfl⟩

/-- A conversion gets from its pipeline into the queue, or past it. -/
theorem accepts_of_ifpuResp {t : ℕ} {x : KillableQueue.Bits T (Uop A) D}
    (hx : (r.state t).ifpuResp value (r.input t) = some x) :
    (r.state t).queue.q.accepts ((r.state t).queueIn value (r.input t)) = some x := by
  have hroom := (inv_run r t).room.not_full (i := r.input t) (inv_run r t).ring (by rw [hx]; rfl)
  rw [KillableQueue.Queue.accepts, hroom]
  exact hx

variable (r)

/-- The write port and the port of the queue are free again and again, and
    `MulDiv` finishes. -/
structure Fair : Prop where
  port : Often fun t => (r.state t).divRespReady value (r.input t) = true
  ll_fresp_ready : Often fun t => (r.input t).ll_fresp_ready = true
  finish : Often fun t => (r.input t).finish = true

/-- A uop is never killed. -/
def Spares (f : Uop A) : Prop := ∀ t, f.number ∉ (r.state t).killed

variable {r}

/-- **What waits in the queue** is taken. -/
theorem gives_of_at (hfair : Fair r) {t k : ℕ} {f : Uop A} (hs : Spares r f)
    (hat : (r.state t).queue.At k f) : Later t fun v => Gives r v f := by
  have hdrops : ∀ u, (r.state u).queue.At k f → ∀ x, (r.state u).queue.cell k = some x →
      ((r.state u).queueIn value (r.input u)).drops (queueConfig T A) x.bits.uop = false := by
    intro u hat x hx
    obtain ⟨hw, hf⟩ := hat.waiting hx
    have hd := spares r (hs (u + 1)) (List.mem_append_left _ (flight_of_waiting hw)) hf
    rwa [doomed, ← Bool.and_true (r.input u).kill] at hd
  refine (KillableQueue.taken_of_at (c := queueConfig T A)
    (q := fun u => (r.state u).queue) (j := fun u => (r.state u).queueIn value (r.input u))
    (fun u => congrArg AluExe.queue (state_next r u)) (fun u => (inv_run r u).ring) hdrops
    (fun u _ _ => hfair.ll_fresp_ready u) hat).mono fun v _ hx => ?_
  obtain ⟨x, hx, hf⟩ := hx
  exact ⟨x, .inr hx, hf⟩

/-- **What the divider holds** it gives. -/
theorem gives_of_held (hfair : Fair r) {t : ℕ} {f : Uop A} (hs : Spares r f)
    (hheld : Held (r.state t).div.held f) : Later t fun v => Gives r v f := by
  refine (DivUnit.fired_of_held (fun u => (r.state u).div) (fun u => (r.input u).brupdate)
    (fun u => (r.input u).kill) (fun u => (r.state u).divReq)
    (fun u => (r.state u).divRespReady value (r.input u)) (fun u => (r.input u).finish) value
    (fun u => congrArg AluExe.div (state_next r u)) (fun u => (inv_run r u).divides.exe)
    (fun u => (inv_run r u).div) (fun u v hv hf => ?_) hfair.finish hfair.port hheld).mono
      fun v _ hx => ?_
  · exact spares r (hs (u + 1)) (List.mem_append_left _ (flight_of_held hv)) hf
  · obtain ⟨x, hx, rfl⟩ := hx
    exact gives_of_divFired hx

/-- A division is held after its register read. -/
theorem held_of_issue {t : ℕ} {u : MicroOp T (Uop A)} (hu : u ∈ new (r.input t))
    (hfu : u.fields.fu = .DIV) (hs : Spares r u.fields) :
    Held (r.state (t + 3)).div.held u.fields := by
  -- it is requested two cycles after its issue, as if for a pipeline
  have hlane : Lane r [.DIV] (fun _ => ([] : Pipe T (Uop A) D)) 0 :=
    ⟨fun _ _ => rfl, fun _ _ hst => absurd hst List.not_mem_nil, fun _ => rfl⟩
  have hreq : Held (r.state (t + 2)).divReq u.fields :=
    cell_of_issue hlane hu (by rw [hfu]; decide) (k := 1) le_rfl (hs _)
  rw [state_next]
  refine DivUnit.held_of_req (inv_run r (t + 2)).divides.exe (inv_run r (t + 2)).div hreq
    fun v hv hf => ?_
  exact spares r (hs (t + 3)) (List.mem_append_left _ (flight_of_exe (mem_of_req hv))) hf

/-- A conversion is accepted by the queue. -/
theorem accepts_of_ifpu {t : ℕ} {u : MicroOp T (Uop A)} (hu : u ∈ new (r.input t))
    (hfu : u.fields.fu = .I2F)
    (hs : u.fields.number ∉ (r.state (t + c.intToFpLatency + 3)).killed) :
    ∃ x, (r.state (t + c.intToFpLatency + 2)).queue.q.accepts
      ((r.state (t + c.intToFpLatency + 2)).queueIn value (r.input (t + c.intToFpLatency + 2))) =
        some x ∧ x.uop.fields = u.fields := by
  obtain ⟨x, hx, hf⟩ := resp_of_issue (lane_ifpu r) hu (by rw [hfu]; decide) hs
  exact ⟨x, accepts_of_ifpuResp hx, hf⟩

/-- What is at the head of the queue goes. -/
theorem gives_of_head {t : ℕ} {x : KillableQueue.Item T (Uop A) D}
    (hlt : (r.state t).queue.deqNo < (r.state t).queue.enqNo)
    (hx : (r.state t).queue.cell (r.state t).queue.deqNo = some x)
    (hs : x.bits.uop.fields.number ∉ (r.state (t + 1)).killed)
    (hr : (r.input t).ll_fresp_ready = true) : Gives r t x.bits.uop.fields := by
  have hwait : x ∈ (r.state t).queue.waiting :=
    List.mem_filterMap.2 ⟨_, List.mem_range'_1.2 (by omega), hx⟩
  have hd := spares r hs (List.mem_append_left _ (flight_of_waiting hwait)) rfl
  rw [doomed, ← Bool.and_true (r.input t).kill] at hd
  refine ⟨x.bits.update (r.input t).brupdate, .inr ?_, rfl⟩
  rw [ll_fresp, KillableQueue.Queue.fired]
  exact (if_pos hr).trans (KillableQueue.deq_of_cell (inv_run r t).ring hlt hx hd)

/-! ### In the end -/

theorem later_of_queue (hfair : Fair r) {t : ℕ} {f : Uop A} (hs : Spares r f) {x : Bits T (Uop A) D}
    (hx : (r.state t).queue.q.accepts ((r.state t).queueIn value (r.input t)) = some x)
    (hf : x.uop.fields = f) : Later t fun v => Gives r v f := by
  subst hf
  rcases KillableQueue.at_of_accepts (c := queueConfig T A) (inv_run r t).ring hx with
    ⟨y, hy, hyf⟩ | hat
  · exact ⟨t, le_rfl, y, .inr hy, hyf⟩
  · have hat : (r.state (t + 1)).queue.At (r.state t).queue.enqNo x.uop.fields := by
      rw [state_next]
      exact hat
    exact .of_le (Nat.le_succ t) (gives_of_at hfair hs hat)

theorem later_of_issue (hfair : Fair r) {t : ℕ} {u : MicroOp T (Uop A)} (hu : u ∈ new (r.input t))
    (hs : Spares r u.fields) : Later t fun v => Gives r v u.fields := by
  have hknown : u.fields.fu ∈ known := known_of_fu_types (fu_of_new (r.ok t).1 hu).1
  have halu : u.fields.fu ∈ [Fu.ALU, .JMP, .CSR] → Later t fun v => Gives r v u.fields := by
    intro hfu
    obtain ⟨x, hx, hf⟩ := resp_of_issue (lane_alu r) hu hfu (hs _)
    exact ⟨_, by omega, hf ▸ gives_of_aluResp hx⟩
  simp only [known, List.mem_cons, List.not_mem_nil, or_false] at hknown
  rcases hknown with hfu | hfu | hfu | hfu | hfu | hfu
  · exact halu (by rw [hfu]; decide)
  · exact halu (by rw [hfu]; decide)
  · exact halu (by rw [hfu]; decide)
  · obtain ⟨x, hx, hf⟩ := resp_of_issue (lane_imul r) hu (by rw [hfu]; decide) (hs _)
    exact ⟨_, by omega, hf ▸ gives_of_imulResp hx⟩
  · exact .of_le (by omega) (gives_of_held hfair hs (held_of_issue hu hfu hs))
  · obtain ⟨x, hx, hf⟩ := accepts_of_ifpu hu hfu (hs _)
    exact .of_le (by omega) (later_of_queue hfair hs hx hf)

variable (r)

/-- What the unit does for a uop that is issued and not killed. -/
structure Delivers : Prop where
  /-- the ALU and the multiplier have its result exactly at their latency, -/
  alu : ∀ t, ∀ u ∈ new (r.input t), u.fields.fu ∈ [Fu.ALU, .JMP, .CSR] →
    u.fields.number ∉ (r.state (t + c.numBypassStages + 3)).killed →
    Gives r (t + c.numBypassStages + 2) u.fields
  imul : ∀ t, ∀ u ∈ new (r.input t), u.fields.fu = .MUL →
    u.fields.number ∉ (r.state (t + c.imulLatency + 3)).killed →
    Gives r (t + c.imulLatency + 2) u.fields
  /-- and then a conversion is accepted by the queue; -/
  ifpu : ∀ t, ∀ u ∈ new (r.input t), u.fields.fu = .I2F →
    u.fields.number ∉ (r.state (t + c.intToFpLatency + 3)).killed →
    ∃ x, (r.state (t + c.intToFpLatency + 2)).queue.q.accepts
      ((r.state (t + c.intToFpLatency + 2)).queueIn value (r.input (t + c.intToFpLatency + 2))) =
        some x ∧ x.uop.fields = u.fields
  /-- the first entry of the queue goes when its port is ready, -/
  queue : ∀ t x, (r.state t).queue.deqNo < (r.state t).queue.enqNo →
    (r.state t).queue.cell (r.state t).queue.deqNo = some x →
    x.bits.uop.fields.number ∉ (r.state (t + 1)).killed →
    (r.input t).ll_fresp_ready = true → Gives r t x.bits.uop.fields
  /-- and a finished division when the write port is free; -/
  div : ∀ t f, Held (r.state t).div.held f → f.number ∉ (r.state (t + 1)).killed →
    (r.state t).div.done = true → (r.state t).divRespReady value (r.input t) = true → Gives r t f
  /-- and in the end each one has its result -/
  all : Fair r → ∀ t, ∀ u ∈ new (r.input t), Spares r u.fields →
    Later t fun v => (u.fields, value u.fields) ∈ (r.state v).results

theorem delivers_of_run : Delivers r where
  alu _ _ hu hfu hs := by
    obtain ⟨x, hx, hf⟩ := resp_of_issue (lane_alu r) hu hfu hs
    exact hf ▸ gives_of_aluResp hx
  imul _ _ hu hfu hs := by
    obtain ⟨x, hx, hf⟩ := resp_of_issue (lane_imul r) hu (by rw [hfu]; decide) hs
    exact hf ▸ gives_of_imulResp hx
  ifpu _ _ hu hfu hs := accepts_of_ifpu hu hfu hs
  queue _ _ hlt hx hs hr := gives_of_head hlt hx hs hr
  div t f hheld hs hd hr := by
    obtain ⟨x, hx, rfl⟩ := (DivUnit.held_step ((r.state t).divRespReady value (r.input t))
      (r.input t).finish value (inv_run r t).divides.exe (inv_run r t).div hheld fun v hv hf =>
        spares r hs (List.mem_append_left _ (flight_of_held hv)) hf).1 ⟨hd, hr⟩
    exact gives_of_divFired hx
  all hfair _ _ hu hs := by
    obtain ⟨v, hv, hx⟩ := later_of_issue hfair hu hs
    exact ⟨v + 1, by omega, hx.result⟩

end BoomStop.ExeUnit.AluExe
