/-
  The execution units of both sides: what is issued to them is delivered once,
  unless it is killed.

  * `exe_units_exact`: in every run of an integer unit in which the ALU and the
    multiplier never have a result in the same cycle, and in every run of a
    floating-point unit; and when the two never have; pipelined results come
    exactly at their latency, and the others when their port is free;
  * `exe_units_lose`: a multiplier of four stages beside the three of the ALU,
    and its result is gone.
-/
import BoomStop.AluDelivery
import BoomStop.FpuDelivery

namespace BoomStop.ExeUnit

open KillableQueue (MicroOp Bits)
open Issue (BrUpdate)
open FuncUnit

variable {T T' : ℕ} {A A' R D D' : Type}

/-- **No uop is lost**, and none is delivered twice or with the data of another
    one; every unit is ready for what it gets; and each uop is delivered. -/
theorem exe_units_exact {c : AluCfg} {value : Uop A → D} {s : AluExe c T A D}
    (hs : ((aluExeUnit c T value).restrict fun s i => ¬ s.Collide value i).Reach s)
    {f : FpuCfg} {ops : FpOps A' R D'} {t : FpuExe f T' A' R D'}
    (ht : (fpuExeUnit f T' ops).Reach t) :
    (s.book.Exact Uop.number value ∧ ∀ i, s.Safe value i) ∧
      (t.book.Exact Uop.number ops.value ∧ ∀ i, t.Safe ops i) ∧
      ((c.hasMul = true → c.imulLatency = c.numBypassStages) →
        ∀ s' i, (aluExeUnit c T value).Reach s' → ¬ s'.Collide value i) ∧
      (∀ r : AluExe.Run c T value, AluExe.Delivers r) ∧
      ∀ r : FpuExe.Run f T' ops, FpuExe.Delivers r :=
  ⟨⟨AluExe.exact_of_reach hs, fun _ => (AluExe.inv_of_reach hs.of_restrict).safe⟩,
    ⟨FpuExe.exact_of_reach ht, fun _ => (FpuExe.inv_of_reach ht).safe⟩,
    fun hlat _ i hs' => AluExe.no_collision hlat hs' i, AluExe.delivers_of_run,
    FpuExe.delivers_of_run⟩

/-! ## Two runs -/

/-- A uop without a branch, for a unit. -/
def plain (number : ℕ) (fu : Fu) : MicroOp 1 (Uop Unit) := ⟨⟨number, fu, number, ()⟩, fun _ => false⟩

/-- A queue after reset. -/
def noEntries (n : ℕ) [NeZero n] : KillableQueue.Sys n 1 (Uop Unit) ℕ where
  q :=
    { ram := fun _ => ⟨0, plain 0 .ALU⟩
      valids := fun _ => false
      uops := fun _ => plain 0 .ALU
      enq_ptr := 0
      deq_ptr := 0
      maybe_full := false }
  tag _ := 0
  enqNo := 0
  deqNo := 0
  now := 0
  fifo := .empty
  resolved := []

theorem reset_noEntries {n : ℕ} [NeZero n] : (noEntries n).Reset :=
  ⟨fun _ => rfl, rfl, rfl, rfl, rfl, rfl, rfl, rfl, rfl⟩

/-- Empty stages. -/
def noStages (n : ℕ) : Pipe 1 (Uop Unit) ℕ := List.replicate n ⟨none, 0⟩

theorem reset_noStages {n : ℕ} : (noStages n).length = n ∧ ∀ st ∈ noStages n, st.uop = none := by
  refine ⟨List.length_replicate, fun st hst => ?_⟩
  rw [(List.mem_replicate.1 hst).2]

/-- A unit with all of its functions. -/
def aluCfg (imulLatency : ℕ) : AluCfg where
  hasMul := true
  hasDiv := true
  hasIfpu := true
  hasCSR := true
  hasJmpUnit := true
  imulLatency := imulLatency
  intToFpLatency := 2

/-- The unit after reset. -/
def aluStart (imulLatency : ℕ) : AluExe (aluCfg imulLatency) 1 Unit ℕ where
  rrd := none
  exe := none
  alu := noStages 3
  imul := noStages imulLatency
  ifpu := noStages 2
  queue := noEntries 5
  div := ⟨plain 0 .DIV, none, false⟩
  idiv_issued := false
  issued := []
  killed := []
  results := []

theorem reset_aluStart (imulLatency : ℕ) : (aluStart imulLatency).Reset where
  rrd := rfl
  exe := rfl
  alu := reset_noStages
  imul := reset_noStages
  ifpu := reset_noStages
  queue := reset_noEntries
  div := ⟨rfl, rfl⟩
  idiv_issued := rfl
  issued := rfl
  killed := rfl
  results := rfl

/-- No branch resolves. -/
def noBranch : BrUpdate 1 := ⟨fun _ => false, fun _ => false⟩

/-- A cycle that may issue a uop. -/
def aluIssue (u : Option (MicroOp 1 (Uop Unit))) : AluIn 1 Unit ℕ where
  iss := u
  squash := false
  brupdate := noBranch
  kill := false
  ll_fresp_ready := true
  finish := true
  junk := 0

/-- A multiplication, and an addition in the next cycle. -/
def mulAdd : List (AluIn 1 Unit ℕ) :=
  [aluIssue (some (plain 0 .MUL)), aluIssue (some (plain 1 .ALU)), aluIssue none, aluIssue none,
    aluIssue none, aluIssue none, aluIssue none]

/-- What may be issued. -/
def aluMay {n : ℕ} (s : AluExe (aluCfg n) 1 Unit ℕ) (i : AluIn 1 Unit ℕ) : Bool :=
  i.iss.all fun u => s.fu_types u.fields.fu && u.fields.number == s.issued.length

theorem ok_of_aluMay {n : ℕ} {s : AluExe (aluCfg n) 1 Unit ℕ} {i : AluIn 1 Unit ℕ}
    (h : aluMay s i = true) : s.Ok i := by
  have hall : ∀ u, i.iss = some u → (s.fu_types u.fields.fu = true ∧
      u.fields.number = s.issued.length) := by
    intro u hu
    rw [aluMay, hu, Option.all_some, Bool.and_eq_true, beq_iff_eq] at h
    exact h
  exact ⟨fun u hu => (hall u hu).1, fun u hu => (hall u hu).2⟩

/-- **The multiplication is lost**: nothing is on its way, nothing was killed,
    and there is one result for two uops. -/
theorem exe_units_lose : ∃ s : AluExe (aluCfg 4) 1 Unit ℕ,
    (aluExeUnit (aluCfg 4) 1 Uop.number).Reach s ∧ ¬ s.book.Exact Uop.number Uop.number := by
  refine ⟨(aluExeUnit (aluCfg 4) 1 Uop.number).run (aluStart 4) mulAdd,
    Sync.Machine.reach_run mulAdd (.start (reset_aluStart 4))
      (Sync.Machine.accepts_of_passes (fun _ _ => ok_of_aluMay) _ _ (by decide +kernel)),
    fun hexact => ?_⟩
  have hissued : ((aluExeUnit (aluCfg 4) 1 Uop.number).run (aluStart 4) mulAdd).book.issued =
      [(plain 0 .MUL).fields, (plain 1 .ALU).fields] := rfl
  have honce := hexact.once (plain 0 .MUL).fields (by rw [hissued]; exact List.mem_cons_self)
    (by decide +kernel)
  revert honce
  decide +kernel

/-- A unit with all of its functions. -/
def fpuCfg : FpuCfg := ⟨true, true, 2⟩

/-- Every unit gives the number of the uop. -/
def numbers : FpOps Unit ℕ ℕ := ⟨Uop.number, Uop.number, fun _ r => r, fun _ _ => rfl⟩

/-- The unit after reset. -/
def fpuStart : FpuExe fpuCfg 1 Unit ℕ ℕ where
  rrd := none
  exe := none
  fpu := noStages 2
  fdiv := ⟨none, false, false, plain 0 .FDV, (plain 0 .FDV).fields, none, none⟩
  queue := noEntries 5
  fp_sdq := noEntries 3
  fdiv_issued := false
  issued := []
  killed := []
  results := []

theorem reset_fpuStart : fpuStart.Reset where
  rrd := rfl
  exe := rfl
  fpu := reset_noStages
  fdiv := ⟨rfl, rfl, rfl, rfl⟩
  queue := reset_noEntries
  fp_sdq := reset_noEntries
  fdiv_issued := rfl
  issued := rfl
  killed := rfl
  results := rfl

/-- A cycle that may issue a uop. -/
def fpuIssue (u : Option (MicroOp 1 (Uop Unit))) (divsqrt_out : Option ℕ) : FpuIn 1 Unit ℕ ℕ where
  iss := u
  brupdate := noBranch
  kill := false
  ll_iresp_ready := true
  divsqrt_ready := true
  divsqrt_out := divsqrt_out
  junk := 0

/-- What is issued, and what the divider answers. -/
def fpuInputs (is : List (Option (MicroOp 1 (Uop Unit)) × Option ℕ)) : List (FpuIn 1 Unit ℕ ℕ) :=
  is.map fun x => fpuIssue x.1 x.2

/-- A division, and a conversion whose result is there with that of the division. -/
def divConvert : List (Option (MicroOp 1 (Uop Unit)) × Option ℕ) :=
  [(some (plain 0 .FDV), none), (some (plain 1 .F2I), none), (none, none), (none, none),
    (none, some 0), (none, none), (none, none)]

/-- What may be issued, and answered. -/
def fpuMay (s : FpuExe fpuCfg 1 Unit ℕ ℕ) (i : FpuIn 1 Unit ℕ ℕ) : Bool :=
  (i.iss.all fun u => s.fu_types u.fields.fu && u.fields.number == s.issued.length) &&
    i.divsqrt_out.all fun r => s.fdiv.op.any fun f => r == f.number

theorem ok_of_fpuMay {s : FpuExe fpuCfg 1 Unit ℕ ℕ} {i : FpuIn 1 Unit ℕ ℕ}
    (h : fpuMay s i = true) : s.Ok numbers i := by
  rw [fpuMay, Bool.and_eq_true] at h
  have hall : ∀ u, i.iss = some u → (s.fu_types u.fields.fu = true ∧
      u.fields.number = s.issued.length) := by
    intro u hu
    have hu' := h.1
    rw [hu, Option.all_some, Bool.and_eq_true, beq_iff_eq] at hu'
    exact hu'
  refine ⟨fun u hu => (hall u hu).1, fun u hu => (hall u hu).2, fun r hr => ?_⟩
  have hany := h.2
  rw [Option.mem_def.1 hr, Option.all_some, Option.any_eq_true] at hany
  obtain ⟨f, hf, he⟩ := hany
  exact ⟨f, hf, beq_iff_eq.1 he⟩

/-! ### For ever after -/

/-- Nothing is on its way through the pipelines. -/
structure AluQuiet {n : ℕ} (s : AluExe (aluCfg n) 1 Unit ℕ) : Prop where
  rrd : s.rrd = none
  exe : s.exe = none
  alu : ∀ st ∈ s.alu, st.uop = none
  imul : ∀ st ∈ s.imul, st.uop = none

theorem AluQuiet.resp {n : ℕ} {s : AluExe (aluCfg n) 1 Unit ℕ} (h : AluQuiet s)
    (i : AluIn 1 Unit ℕ) : s.aluResp Uop.number i = none ∧ s.imulResp Uop.number i = none := by
  have hreq : ∀ fus, s.req fus = none := fun fus => by rw [AluExe.req, h.exe]; rfl
  exact ⟨Pipe.resp_of_empty h.alu (hreq _), Pipe.resp_of_empty h.imul (hreq _)⟩

theorem AluQuiet.idle {n : ℕ} {s : AluExe (aluCfg n) 1 Unit ℕ} (h : AluQuiet s) :
    AluQuiet (s.next Uop.number (aluIssue none)) := by
  have hreq : ∀ fus, s.req fus = none := fun fus => by rw [AluExe.req, h.exe]; rfl
  refine ⟨rfl, ?_, Pipe.next_of_empty h.alu (hreq _), Pipe.next_of_empty h.imul (hreq _)⟩
  rw [AluExe.next, h.rrd]
  rfl

/-- A multiplication, an addition and a division. -/
def mulAddDiv : List (Option (MicroOp 1 (Uop Unit))) :=
  [some (plain 0 .MUL), some (plain 1 .ALU), some (plain 2 .DIV), none, none, none, none, none]

/-- The multiplier has as many stages as the ALU. -/
abbrev aluUnit := (aluExeUnit (aluCfg 3) 1 (A := Unit) Uop.number).restrict
  fun s i => ¬ s.Collide Uop.number i

theorem ok_aluUnit {s : AluExe (aluCfg 3) 1 Unit ℕ} {i : AluIn 1 Unit ℕ}
    (h : (aluMay s i && !((s.aluResp Uop.number i).isSome &&
      (s.imulResp Uop.number i).isSome)) = true) : aluUnit.ok s i := by
  rw [Bool.and_eq_true, Bool.not_eq_true', Bool.and_eq_false_iff] at h
  refine ⟨ok_of_aluMay h.1, fun hc => ?_⟩
  rcases h.2 with h | h
  · rw [hc.1] at h
    cases h
  · rw [hc.2] at h
    cases h

theorem ok_quiet {s : AluExe (aluCfg 3) 1 Unit ℕ} (h : AluQuiet s) :
    aluUnit.ok s (aluIssue none) :=
  ok_aluUnit (by rw [(h.resp _).1]; rfl)

theorem quiet_mulAddDiv : AluQuiet (aluUnit.run (aluStart 3) (mulAddDiv.map aluIssue)) :=
  ⟨by decide +kernel, by decide +kernel, by decide +kernel, by decide +kernel⟩

/-- The three are issued, and then nothing is. -/
def aluRun : AluExe.Run (aluCfg 3) 1 (A := Unit) Uop.number :=
  .of (aluStart 3) (Sync.Machine.pad (mulAddDiv.map aluIssue) (aluIssue none)) (reset_aluStart 3)
    (Sync.Machine.ok_pad (P := AluQuiet) (fun _ h => ⟨ok_quiet h, h.idle⟩) _ _
      (Sync.Machine.accepts_of_passes (fun _ _ => ok_aluUnit) _ _ (by decide +kernel))
      quiet_mulAddDiv)

theorem input_aluRun (t : ℕ) : aluRun.input t = aluIssue (mulAddDiv.getD t none) :=
  Sync.Machine.pad_map _ _ _ t

theorem quiet_aluRun {t : ℕ} (ht : 8 ≤ t) : AluQuiet (aluRun.state t) :=
  Sync.Machine.stream_pad (P := AluQuiet) (fun _ h => h.idle) _ _ quiet_mulAddDiv t ht

theorem fair_aluRun : AluExe.Fair aluRun where
  port t := ⟨t + 8, Nat.le_add_right _ _, by
    obtain ⟨ha, hm⟩ := (quiet_aluRun (Nat.le_add_left 8 t)).resp (aluRun.input (t + 8))
    rw [AluExe.divRespReady, ha, hm]
    rfl⟩
  ll_fresp_ready t := ⟨t, le_rfl, congrArg AluIn.ll_fresp_ready (input_aluRun t)⟩
  finish t := ⟨t, le_rfl, congrArg AluIn.finish (input_aluRun t)⟩

/-- Nothing is killed without a branch and a flush. -/
theorem not_doomed (u : MicroOp 1 (Uop Unit)) : doomed noBranch false u = false := by
  simp [doomed, Issue.isKilledByBranch, noBranch]

theorem spares_aluRun (f : Uop Unit) : AluExe.Spares aluRun f := by
  have hnone : ∀ t, (aluRun.state t).killed = [] := by
    intro t
    induction t with
    | zero => rfl
    | succ t ih =>
      rw [AluExe.state_next, AluExe.next, ih, input_aluRun]
      simp [aluIssue, not_doomed]
  intro t
  rw [hnone]
  exact List.not_mem_nil

/-- Nothing is on its way through the FPU, or divided. -/
structure FpuQuiet (s : FpuExe fpuCfg 1 Unit ℕ ℕ) : Prop where
  rrd : s.rrd = none
  exe : s.exe = none
  fpu : ∀ st ∈ s.fpu, st.uop = none
  buffer : s.fdiv.r_buffer = none
  op : s.fdiv.op = none

theorem FpuQuiet.resp {s : FpuExe fpuCfg 1 Unit ℕ ℕ} (h : FpuQuiet s) (i : FpuIn 1 Unit ℕ ℕ) :
    s.fpuResp numbers i = none := by
  have hreq : ∀ fus, s.req fus = none := fun fus => by rw [FpuExe.req, h.exe]; rfl
  exact Pipe.resp_of_empty h.fpu (hreq _)

theorem FpuQuiet.idle {s : FpuExe fpuCfg 1 Unit ℕ ℕ} (h : FpuQuiet s) :
    FpuQuiet (s.next numbers (fpuIssue none none)) := by
  have hreq : ∀ fus, s.req fus = none := fun fus => by rw [FpuExe.req, h.exe]; rfl
  have hfire : s.fdiv.fires true = none := by
    rw [FDivSqrtUnit.fires, FDivSqrtUnit.may_fire_input, h.buffer, ite_self, ite_self]
  refine ⟨rfl, ?_, Pipe.next_of_empty h.fpu (hreq _), ?_, ?_⟩
  · rw [FpuExe.next, h.rrd]
    rfl
  · show (s.fdiv.next _ _ s.fdivReq _ true none).r_buffer = none
    rw [FDivSqrtUnit.next, hfire, FpuExe.fdivReq, hreq, h.buffer]
    rfl
  · show (s.fdiv.next _ _ s.fdivReq _ true none).op = none
    rw [FDivSqrtUnit.next, hfire]
    exact h.op

theorem ok_fpuQuiet {s : FpuExe fpuCfg 1 Unit ℕ ℕ} : s.Ok numbers (fpuIssue none none) :=
  ok_of_fpuMay rfl

theorem quiet_divConvert :
    FpuQuiet ((fpuExeUnit fpuCfg 1 numbers).run fpuStart (fpuInputs divConvert)) :=
  ⟨by decide +kernel, by decide +kernel, by decide +kernel, by decide +kernel, by decide +kernel⟩

/-- The two are issued, and then nothing is. -/
def fpuRun : FpuExe.Run fpuCfg 1 numbers :=
  .of fpuStart (Sync.Machine.pad (fpuInputs divConvert) (fpuIssue none none)) reset_fpuStart
    (Sync.Machine.ok_pad (P := FpuQuiet) (fun _ h => ⟨ok_fpuQuiet, h.idle⟩) _ _
      (Sync.Machine.accepts_of_passes (M := fpuExeUnit fpuCfg 1 numbers)
        (fun _ _ => ok_of_fpuMay) _ _ (by decide +kernel)) quiet_divConvert)

theorem input_fpuRun (t : ℕ) : fpuRun.input t =
    fpuIssue (divConvert.getD t (none, none)).1 (divConvert.getD t (none, none)).2 :=
  Sync.Machine.pad_map (fun x : Option (MicroOp 1 (Uop Unit)) × Option ℕ => fpuIssue x.1 x.2) _
    (none, none) t

theorem quiet_fpuRun {t : ℕ} (ht : 7 ≤ t) : FpuQuiet (fpuRun.state t) :=
  Sync.Machine.stream_pad (P := FpuQuiet) (fun _ h => h.idle) _ _ quiet_divConvert t ht

theorem fair_fpuRun : FpuExe.Fair fpuRun where
  port t := ⟨t + 7, Nat.le_add_right _ _, (quiet_fpuRun (Nat.le_add_left 7 t)).resp _⟩
  ll_iresp_ready t := ⟨t, le_rfl, congrArg FpuIn.ll_iresp_ready (input_fpuRun t)⟩
  divsqrt_ready t := ⟨t, le_rfl, congrArg FpuIn.divsqrt_ready (input_fpuRun t)⟩
  divsqrt_out := by
    intro t ht
    by_cases h4 : t ≤ 4
    · exact ⟨4, h4, rfl⟩
    · exfalso
      by_cases h7 : 7 ≤ t
      · rw [(quiet_fpuRun h7).op] at ht
        cases ht
      · have h56 : t = 5 ∨ t = 6 := by omega
        rcases h56 with rfl | rfl <;> revert ht <;> decide +kernel

theorem spares_fpuRun (f : Uop Unit) : FpuExe.Spares fpuRun f := by
  have hnone : ∀ t, (fpuRun.state t).killed = [] := by
    intro t
    induction t with
    | zero => rfl
    | succ t ih =>
      rw [FpuExe.state_next, FpuExe.next, ih, input_fpuRun]
      simp [fpuIssue, not_doomed]
  intro t
  rw [hnone]
  exact List.not_mem_nil

/-- With three stages the multiplication and the addition are delivered one after
    the other, and then the division, which has waited for the port; and so are the
    division and the conversion of the other side. -/
theorem exe_units_exact_run :
    (((aluRun.state 8).results.map Prod.snd = [0, 1, 2] ∧
        (fpuRun.state 7).results.map Prod.snd = [1, 0]) ∧
      (aluRun.state 8).book.Exact Uop.number Uop.number ∧
        (fpuRun.state 7).book.Exact Uop.number Uop.number) ∧
    (AluExe.Gives aluRun 5 (plain 0 .MUL).fields ∧
      Waiting.Later 2 fun t => ((plain 2 .DIV).fields, 2) ∈ (aluRun.state t).results) ∧
    Waiting.Later 0 fun t => ((plain 0 .FDV).fields, 0) ∈ (fpuRun.state t).results := by
  have hexact := exe_units_exact (aluRun.reach 8) (fpuRun.reach 7)
  have halu := hexact.2.2.2.1 aluRun
  have hfpu := hexact.2.2.2.2 fpuRun
  exact ⟨⟨⟨by decide +kernel, by decide +kernel⟩, hexact.1.1, hexact.2.1.1⟩,
    ⟨halu.imul 0 (plain 0 .MUL) rfl rfl (spares_aluRun _ _),
      halu.all fair_aluRun 2 (plain 2 .DIV) rfl (spares_aluRun _)⟩,
    hfpu.all fair_fpuRun 0 (plain 0 .FDV) rfl (spares_fpuRun _)⟩

end BoomStop.ExeUnit
