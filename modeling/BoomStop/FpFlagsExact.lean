/-
  What is in the table of `FpFlags` when a uop commits.

  * `FlagsSys.Inv`: every conversion or arithmetic uop that is on its way has its
    row, alone, and a row that is not busy has the flags of its uop;
  * `of_mem_writes`: what is written belongs to the uop that has the row, unless
    it is stale; `fflags_of_wbOk`: what is written back is in the table;
  * `commit_fflags_exact`: the flags that commit gives to the CSR file, as long as
    no row has been given away that a killed conversion still writes to;
  * `commit_fflags_wrong`: a run in which one has.
-/
import Mathlib.Algebra.BigOperators.Fin
import Mathlib.Algebra.Order.BigOperators.Group.Finset
import BoomStop.FpFlags

namespace BoomStop.FpFlags

open KillableQueue (MicroOp Bits)
open Issue (BrUpdate isKilledByBranch getNewBrMask)
open FuncUnit ExeUnit

variable {W N T : ℕ} {O R : Type}

/-! ## The invariant -/

/-- The uop computes flags for this row. -/
def computesFor (r : Fin N) (u : Uop (Instr N O)) : Bool :=
  computes u && decide (u.args.rob_idx = r)

theorem of_mem_fflags {flags : Instr N O → Flags} {u : Uop (Instr N O)} {x : Instr N O × Flags}
    (hx : x ∈ fflags flags u) : computes u = true ∧ x.1 = u.args ∧ x.2 = flags x.1 := by
  unfold fflags at hx
  split_ifs at hx with hc
  · obtain rfl := Option.some.inj hx
    exact ⟨hc, rfl, rfl⟩
  · cases hx

namespace FlagsSys

variable {c : Cfg W} {ops : FlagOps N O R} {s : FlagsSys c N T O R} {i : FlagsIn W N T O R}

/-- The uop is on its way in one of the units. -/
def OnWay (s : FlagsSys c N T O R) (u : MicroOp T (Uop (Instr N O))) : Prop :=
  u ∈ s.alu.flight ∨ ∃ w, u ∈ (s.fpu w).flight

/-- How many are for a row. -/
def inFlight (s : FlagsSys c N T O R) (r : Fin N) : ℕ :=
  s.alu.holding (computesFor r) + ∑ w, (s.fpu w).holding (computesFor r)

/-- The uop has its row. -/
def Holds (s : FlagsSys c N T O R) (u : MicroOp T (Uop (Instr N O))) : Prop :=
  u.fields.args.kind = .arith ∧ ∃ e, s.rob u.fields.args.rob_idx = some e ∧
    e.uop = ⟨u.fields.args, u.br_mask⟩ ∧ e.bsy = true ∧ e.issued = true ∧ e.flushed = false

/-- Flags with the uop that they belong to. -/
def Belongs (ops : FlagOps N O R) (d : FFlags N O) : Prop :=
  ∀ x ∈ d, x.2 = ops.flags x.1 ∧ x.1.kind = .arith

/-- The table has what commit takes from it. -/
structure TableOk (ops : FlagOps N O R) (s : FlagsSys c N T O R) : Prop where
  right : ∀ r e, s.rob r = some e → e.uop.fields.kind = .arith → e.bsy = false →
    s.rob_fflags r = ops.flags e.uop.fields
  clean : ∀ r e, s.rob r = some e → e.uop.fields.kind ≠ .arith → s.rob_fflags r = 0
  /-- a result for the integer side has its flags there already -/
  queue : ∀ w, ∀ x ∈ (s.fpu w).queue.waiting,
    s.rob_fflags x.bits.uop.fields.args.rob_idx = ops.flags x.bits.uop.fields.args

/-- What is shown, valid or not, was computed. -/
structure ShownOk (ops : FlagOps N O R) (s : FlagsSys c N T O R) : Prop where
  ifpu : ∀ st ∈ s.alu.ifpu, Belongs ops st.data
  ram : ∀ k, s.alu.queue.deqNo ≤ k → k < s.alu.queue.enqNo →
    Belongs ops (s.alu.queue.q.ram (RingOrder.place _ k)).data

/-- The invariant: what is on its way to the table has its entry, and only one. -/
structure Inv (ops : FlagOps N O R) (s : FlagsSys c N T O R) : Prop where
  alu : s.alu.Inv (fflags ops.flags)
  fpu : ∀ w, (s.fpu w).Inv ops.fpOps
  aluSorted : s.alu.Sorted
  fpuSorted : ∀ w, (s.fpu w).Sorted
  holds : ∀ u, s.OnWay u → computes u.fields = true → s.Holds u
  once : ∀ r, s.inFlight r ≤ 1
  waits : ∀ r e, s.rob r = some e → e.uop.fields.kind = .arith → e.issued = false → e.bsy = true
  table : s.TableOk ops
  shown : s.ShownOk ops

/-! ### What is written -/

/-- What is taken from the queue is what it shows. -/
theorem shown_of_fired {y : Bits T (Uop (Instr N O)) (FFlags N O)}
    (hy : s.alu.ll_fresp (fflags ops.flags) i.aluIn = some y) : s.shown ops i = y.data := by
  have hd : s.alu.queue.q.deq (queueConfig T (Instr N O))
      (s.alu.queueIn (fflags ops.flags) i.aluIn) = some y := by
    unfold AluExe.ll_fresp KillableQueue.Queue.fired at hy
    split_ifs at hy
    exact hy
  rw [shown]
  unfold KillableQueue.Queue.deq at hd
  cases he : s.alu.queue.q.empty with
  | true =>
    have hb : s.alu.queue.q.bypasses (queueConfig T (Instr N O)) = true := by
      rw [KillableQueue.Queue.bypasses, he]
      rfl
    rw [if_pos hb] at hd
    obtain ⟨b, hb, rfl⟩ := Option.map_eq_some_iff.1 hd
    obtain ⟨st, -, rfl, hdata, -⟩ := Pipe.mem_resp hb
    exact hdata.symm
  | false =>
    have hb : s.alu.queue.q.bypasses (queueConfig T (Instr N O)) = false := by
      rw [KillableQueue.Queue.bypasses, he]
      rfl
    rw [if_neg (by rw [hb]; exact Bool.false_ne_true)] at hd
    split_ifs at hd
    obtain rfl := Option.some.inj hd
    rfl

/-- What a floating-point unit writes is of a uop that it has. -/
theorem live_of_fpu_fflags (h : s.Inv ops) {w : Fin W} {x : Instr N O × Flags}
    (hx : x ∈ s.fpu_fflags ops i w) : x.2 = ops.flags x.1 ∧
      ∃ u ∈ (s.fpu w).flight, computes u.fields = true ∧ u.fields.args = x.1 := by
  unfold fpu_fflags at hx
  cases hr : (s.fpu w).fpuResp ops.fpOps (i.fpuIn w) with
  | some y =>
    have hown : y.data = fflags ops.flags y.uop.fields :=
      Pipe.own_resp (h.fpu w).own.fpu FpuExe.own_fpuStage hr
    rw [hr] at hx
    change x ∈ y.data at hx
    rw [hown] at hx
    obtain ⟨hc, he, hflags⟩ := of_mem_fflags hx
    have hsta : y.uop.fields.fu ≠ .STA := by
      intro hf
      rw [computes, hf] at hc
      cases hc
    obtain ⟨u, hu, hadv⟩ := FpuExe.mem_fpuResp hr hsta
    have hfields := fields_of_advance hadv
    exact ⟨hflags, u, hu, hfields ▸ hc, by rw [he, hfields]⟩
  | none =>
    rw [hr] at hx
    obtain ⟨y, hy, hx⟩ := Option.bind_eq_some_iff.1 hx
    have hown : y.data = fflags ops.flags y.uop.fields :=
      FpuExe.own_fdiv (i := i.fpuIn w) (h.fpu w) hy
    have hx : x ∈ y.data := hx
    rw [hown] at hx
    obtain ⟨hc, he, hflags⟩ := of_mem_fflags hx
    have hout := (FDivSqrtUnit.own_resp (h.fpu w).fdiv hy).2
    exact ⟨hflags, y.uop, FpuExe.flight_of_fdiv (o := (s.fpu w).fdiv.outUop) (by simp) hout, hc,
      he.symm⟩

/-- What is taken from the queue is written. -/
theorem live_of_fired (h : s.Inv ops) {y : Bits T (Uop (Instr N O)) (FFlags N O)}
    (hy : s.alu.ll_fresp (fflags ops.flags) i.aluIn = some y) :
    s.shown ops i = some (y.uop.fields.args, ops.flags y.uop.fields.args) ∧
      computes y.uop.fields = true ∧ ∃ u ∈ s.alu.flight, u.fields = y.uop.fields := by
  have hc : computes y.uop.fields = true := by
    rw [computes, h.aluSorted.fu_of_ll_fresp h.alu.ring hy]
    rfl
  refine ⟨?_, hc, AluExe.mem_ll_fresp h.alu.ring hy⟩
  rw [shown_of_fired hy, AluExe.own_ll_fresp h.alu hy, fflags, if_pos hc]

/-- A row that a uop holds has not been given to another one. -/
theorem not_given (hok : s.Ok ops i) {u : MicroOp T (Uop (Instr N O))} (hu : s.Holds u) :
    ¬ s.Given i u.fields.args := by
  obtain ⟨-, e, he, huop, -⟩ := hu
  rintro (⟨e', he', hne⟩ | ⟨v, hv, hrow, -⟩)
  · rw [he] at he'
    obtain rfl := Option.some.inj he'
    exact hne (by rw [huop])
  · rw [← hrow, hok.free v hv] at he
    cases he

theorem belongs_stage (h : s.Inv ops) {fus : List Fu} :
    Belongs ops (s.alu.stage (fflags ops.flags) i.aluIn fus).data := by
  intro x hx
  change x ∈ (s.alu.exe.map fun u => fflags ops.flags u.fields).getD none at hx
  cases he : s.alu.exe with
  | none =>
    rw [he] at hx
    cases hx
  | some u =>
    rw [he] at hx
    obtain ⟨hc, hx1, hx2⟩ := of_mem_fflags (u := u.fields) hx
    exact ⟨hx2, hx1 ▸ (h.holds u (.inl (AluExe.flight_of_exe he)) hc).1⟩

theorem belongs_shown (h : s.Inv ops) : Belongs ops (s.shown ops i) := by
  unfold shown
  cases he : s.alu.queue.q.empty with
  | true =>
    rcases List.mem_cons.1 (ShiftReg.out_mem
      (x := s.alu.stage (fflags ops.flags) i.aluIn [.I2F]) (l := s.alu.ifpu)) with hout | hmem
    · rw [if_pos rfl, hout]
      exact belongs_stage h
    · exact h.shown.ifpu _ hmem
  | false =>
    have hne : s.alu.queue.enqNo ≠ s.alu.queue.deqNo := by
      intro hempty
      rw [(KillableQueue.empty_iff h.alu.ring).2 hempty] at he
      cases he
    have hle := h.alu.ring.le
    rw [if_neg Bool.false_ne_true, h.alu.ring.deq_ptr]
    exact h.shown.ram _ le_rfl (by omega)

/-- **Every write** is of the flags of its uop, and not to a row that has been
    given away unless it comes from what is shown without being valid. -/
theorem of_mem_writes (h : s.Inv ops) (hok : s.Ok ops i) {x : Instr N O × Flags}
    (hx : x ∈ s.fflagsWrites ops i) :
    x.2 = ops.flags x.1 ∧ x.1.kind = .arith ∧ (s.Given i x.1 → s.Stale ops i) := by
  rcases List.mem_append.1 hx with hx | hx
  · have hx : x ∈ s.ll_fflags ops i := Option.mem_toList.1 hx
    unfold ll_fflags at hx
    split_ifs at hx with hl
    · cases hx
    · have hl : i.load = none := by simpa using hl
      cases hf : s.alu.ll_fresp (fflags ops.flags) i.aluIn with
      | some y =>
        obtain ⟨hs, hc, u, hu, hfields⟩ := live_of_fired h hf
        rw [hs] at hx
        obtain rfl := Option.some.inj hx
        have hheld := h.holds u (.inl hu) (hfields ▸ hc)
        exact ⟨rfl, hfields ▸ hheld.1, fun hg => absurd hg (hfields ▸ not_given hok hheld)⟩
      | none =>
        obtain ⟨h1, h2⟩ := belongs_shown h x hx
        exact ⟨h1, h2, fun hg => ⟨hl, hf, x, hx, hg⟩⟩
  · obtain ⟨w, -, hx⟩ := List.mem_filterMap.1 hx
    obtain ⟨hflags, u, hu, hc, he⟩ := live_of_fpu_fflags h hx
    have hheld := h.holds u (.inr ⟨w, hu⟩) hc
    exact ⟨hflags, he ▸ hheld.1, fun hg => absurd hg (he ▸ not_given hok hheld)⟩

/-- What is shown is written if no load is written back. -/
theorem given_of_stale (h : s.Stale ops i) : ∃ x ∈ s.fflagsWrites ops i, s.Given i x.1 := by
  obtain ⟨hl, -, x, hx, hg⟩ := h
  refine ⟨x, List.mem_append_left _ (Option.mem_toList.2 ?_), hg⟩
  rw [ll_fflags, hl]
  exact hx

/-! ### What is written back -/

/-- What is written back was on its way, and its flags are in the table or are
    written, too. -/
def WbOk (ops : FlagOps N O R) (s : FlagsSys c N T O R) (i : FlagsIn W N T O R)
    (f : Uop (Instr N O)) : Prop :=
  (computes f = true ∧ ∃ u, s.OnWay u ∧ u.fields = f) ∧
    ((∃ x ∈ s.fflagsWrites ops i, x.1 = f.args) ∨ s.rob_fflags f.args.rob_idx = ops.flags f.args)

theorem wb_of_fpu_fflags {w : Fin W} {y : Bits T (Uop (Instr N O)) (FFlags N O)}
    (hown : y.data = fflags ops.flags y.uop.fields) (hw : s.fpu_fflags ops i w = y.data)
    (hc : computes y.uop.fields = true) (hu : ∃ u ∈ (s.fpu w).flight, u.fields = y.uop.fields) :
    s.WbOk ops i y.uop.fields := by
  obtain ⟨u, hu, he⟩ := hu
  refine ⟨⟨hc, u, .inr ⟨w, hu⟩, he⟩, .inl ⟨(y.uop.fields.args, ops.flags y.uop.fields.args), ?_, rfl⟩⟩
  refine List.mem_append_right _ (List.mem_filterMap.2 ⟨w, List.mem_finRange w, ?_⟩)
  rw [hw, hown, fflags, if_pos hc]

/-- A result of the FPU. -/
theorem wb_of_fpuResp (h : s.Inv ops) {w : Fin W} {y : Bits T (Uop (Instr N O)) (FFlags N O)}
    (hy : (s.fpu w).fpuResp ops.fpOps (i.fpuIn w) = some y)
    (hc : computes y.uop.fields = true) : s.WbOk ops i y.uop.fields := by
  have hown : y.data = fflags ops.flags y.uop.fields :=
    Pipe.own_resp (h.fpu w).own.fpu FpuExe.own_fpuStage hy
  have hw : s.fpu_fflags ops i w = y.data := by
    rw [fpu_fflags, hy]
  have hsta : y.uop.fields.fu ≠ .STA := by
    intro hf
    rw [computes, hf] at hc
    cases hc
  obtain ⟨u, hu, hadv⟩ := FpuExe.mem_fpuResp hy hsta
  exact wb_of_fpu_fflags hown hw hc ⟨u, hu, (fields_of_advance hadv).symm⟩

theorem wb_of_fresp (h : s.Inv ops) {w : Fin W} {y : Bits T (Uop (Instr N O)) (FFlags N O)}
    (hy : (s.fpu w).fresp ops.fpOps (i.fpuIn w) = some y) : s.WbOk ops i y.uop.fields := by
  unfold FpuExe.fresp at hy
  cases hr : (s.fpu w).fpuResp ops.fpOps (i.fpuIn w) with
  | some z =>
    simp only [hr] at hy
    split_ifs at hy with hf
    obtain rfl := Option.some.inj hy
    have hfu := (h.fpuSorted w).fu_of_fpuResp hr
    refine wb_of_fpuResp h hr ?_
    cases hfu' : z.uop.fields.fu <;> simp [hfu', computes] at hf hfu ⊢
  | none =>
    rw [hr] at hy
    have hfu := FpuExe.fu_of_fdiv (i := i.fpuIn w) (h.fpu w) hy
    have hw : s.fpu_fflags ops i w = y.data := by
      rw [fpu_fflags, hr]
      show ((s.fpu w).fdiv.resp i.brupdate ops.fpOps.down).bind Bits.data = _
      rw [show (s.fpu w).fdiv.resp i.brupdate ops.fpOps.down = some y from hy, Option.bind_some]
    refine wb_of_fpu_fflags (FpuExe.own_fdiv (i := i.fpuIn w) (h.fpu w) hy) hw ?_
      ⟨y.uop, FpuExe.flight_of_fdiv (o := (s.fpu w).fdiv.outUop) (by simp)
        (FDivSqrtUnit.own_resp (h.fpu w).fdiv hy).2, rfl⟩
    rw [computes, hfu]
    rfl

theorem wb_of_ll_iresp (h : s.Inv ops) {w : Fin W} {y : Bits T (Uop (Instr N O)) (FFlags N O)}
    (hy : (s.fpu w).ll_iresp ops.fpOps (i.fpuIn w) = some y) (hsta : y.uop.fields.fu ≠ .STA) :
    s.WbOk ops i y.uop.fields := by
  have hf2i : ∀ f : Uop (Instr N O), f.fu = .F2I → computes f = true := by
    intro f hf
    rw [computes, hf]
    rfl
  rcases Option.or_eq_some_iff.1 hy with hy | ⟨-, hy⟩
  · rcases KillableQueue.fired_cases (h.fpu w).queue hy with ⟨z, hz, rfl⟩ | ⟨b, hb, rfl⟩
    · refine ⟨⟨hf2i _ ((h.fpuSorted w).queue z hz), z.bits.uop, .inr ⟨w, ?_⟩, rfl⟩, .inr ?_⟩
      · exact FpuExe.flight_of_waiting (List.mem_append_left _ hz)
      · exact h.table.queue w z hz
    · have hb : (s.fpu w).queueEnq ops.fpOps (i.fpuIn w) = some b :=
        (KillableQueue.not_full_of_accepts hb).2
      have hok : s.WbOk ops i b.uop.fields := wb_of_fpuResp h (Option.filter_eq_some_iff.1 hb).1
        (hf2i _ (FpuExe.fu_of_queueEnq hb))
      exact hok
  · exact absurd ((h.fpuSorted w).fu_of_sdqFired (h.fpu w).fp_sdq hy) hsta

theorem of_mem_wb (h : s.Inv ops) {f : Uop (Instr N O)} (hf : f ∈ s.wb_resps ops i) :
    s.WbOk ops i f := by
  rcases List.mem_append.1 hf with hf | hf
  · obtain ⟨y, hy, rfl⟩ := List.mem_map.1 hf
    have hy := Option.mem_toList.1 hy
    obtain ⟨hs, hc, u, hu, he⟩ := live_of_fired h hy
    refine ⟨⟨hc, u, .inl hu, he⟩, .inl ⟨(y.uop.fields.args, ops.flags y.uop.fields.args),
      List.mem_append_left _ (Option.mem_toList.2 ?_), rfl⟩⟩
    have hl : i.load.isSome = false := by
      unfold AluExe.ll_fresp KillableQueue.Queue.fired at hy
      split_ifs at hy with hr
      rw [← Option.not_isNone]
      exact (congrArg not hr).trans rfl
    rw [ll_fflags, hl, if_neg Bool.false_ne_true]
    exact hs
  · obtain ⟨w, -, hf⟩ := List.mem_flatMap.1 hf
    obtain ⟨y, hy, rfl⟩ := List.mem_map.1 hf
    rcases List.mem_append.1 hy with hy | hy
    · exact wb_of_fresp h (Option.mem_toList.1 hy)
    · obtain ⟨hy, hsta⟩ := List.mem_filter.1 hy
      exact wb_of_ll_iresp h (Option.mem_toList.1 hy) (of_decide_eq_true hsta)

/-! ### One uop for a row -/

/-- How many uops for a row are delivered. -/
def delivered (ops : FlagOps N O R) (s : FlagsSys c N T O R) (i : FlagsIn W N T O R) (r : Fin N) : ℕ :=
  ((s.alu.ll_fresp (fflags ops.flags) i.aluIn).any fun x => computesFor r x.uop.fields).toNat +
    ∑ w, ((((s.fpu w).fresp ops.fpOps (i.fpuIn w)).any fun x => computesFor r x.uop.fields).toNat +
      (((s.fpu w).ll_iresp ops.fpOps (i.fpuIn w)).any fun x => computesFor r x.uop.fields).toNat)

/-- How many are issued. -/
def starting (i : FlagsIn W N T O R) (r : Fin N) : ℕ :=
  i.issues.countP fun u => computesFor r u.fields

theorem countP_filterMap {α β : Type} (f : α → Option β) (q : β → Bool) (l : List α) :
    (l.filterMap f).countP q = (l.map fun a => ((f a).any q).toNat).sum := by
  induction l with
  | nil => rfl
  | cons a l ih =>
    rw [List.filterMap_cons, List.map_cons, List.sum_cons, ← ih]
    cases f a with
    | none => exact (Nat.zero_add _).symm
    | some b => cases hq : q b <;> simp [hq, Nat.add_comm]

theorem starting_eq (r : Fin N) : starting i r = (has (computesFor r) (AluExe.new i.aluIn)).toNat +
    ∑ w, (has (computesFor r) (i.fpu_iss w)).toNat := by
  rw [starting, FlagsIn.issues, List.countP_append, KillableQueue.countP_toList, countP_filterMap,
    Fin.sum_univ_def]
  rfl

/-- Uops for a row go on, are delivered, or are killed. -/
theorem inFlight_next (h : s.Inv ops) (hok : s.Ok ops i) (r : Fin N) :
    (s.next ops i).inFlight r + s.delivered ops i r ≤ s.inFlight r + starting i r := by
  have halu : (s.next ops i).alu.holding (computesFor r) + _ ≤ _ :=
    AluExe.holding_next_le h.alu.sound i.aluIn (computesFor r)
  have hfpu : ∑ w, (((s.next ops i).fpu w).holding (computesFor r) +
      ((((s.fpu w).fresp ops.fpOps (i.fpuIn w)).any fun x => computesFor r x.uop.fields).toNat +
        (((s.fpu w).ll_iresp ops.fpOps (i.fpuIn w)).any fun x => computesFor r x.uop.fields).toNat)) ≤
      ∑ w, ((s.fpu w).holding (computesFor r) + (has (computesFor r) (i.fpu_iss w)).toNat) := by
    refine Finset.sum_le_sum fun w _ => ?_
    rw [← Nat.add_assoc]
    exact FpuExe.holding_next_le (computesFor r) (h.fpu w).sound (hok.fpu w)
  rw [Finset.sum_add_distrib (f := fun w => ((s.next ops i).fpu w).holding (computesFor r)),
    Finset.sum_add_distrib (f := fun w => (s.fpu w).holding (computesFor r))] at hfpu
  rw [starting_eq, inFlight, inFlight, delivered]
  omega

theorem onWay_of_inFlight {r : Fin N} (hpos : 0 < s.inFlight r) :
    ∃ u, s.OnWay u ∧ computes u.fields = true ∧ u.fields.args.rob_idx = r := by
  have hof : ∀ {l : List (MicroOp T (Uop (Instr N O)))},
      0 < (l.countP fun u => computesFor r u.fields) →
      ∃ u ∈ l, computes u.fields = true ∧ u.fields.args.rob_idx = r := by
    intro l hl
    obtain ⟨u, hu, hc⟩ := List.countP_pos_iff.1 hl
    rw [computesFor, Bool.and_eq_true, decide_eq_true_eq] at hc
    exact ⟨u, hu, hc⟩
  rw [inFlight, AluExe.holding_eq] at hpos
  by_cases halu : 0 < s.alu.flight.countP fun u => computesFor r u.fields
  · obtain ⟨u, hu, hc⟩ := hof halu
    exact ⟨u, .inl hu, hc⟩
  · have hsum : ∑ w, (s.fpu w).holding (computesFor r) ≠ 0 := by omega
    obtain ⟨w, -, hw⟩ := Finset.exists_ne_zero_of_sum_ne_zero hsum
    rw [FpuExe.holding_eq] at hw
    obtain ⟨u, hu, hc⟩ := hof (Nat.pos_of_ne_zero hw)
    exact ⟨u, .inr ⟨w, hu⟩, hc⟩

theorem inFlight_of_onWay {u : MicroOp T (Uop (Instr N O))} (hu : s.OnWay u)
    (hc : computes u.fields = true) : 1 ≤ s.inFlight u.fields.args.rob_idx := by
  have hfor : computesFor u.fields.args.rob_idx u.fields = true := by
    rw [computesFor, hc, Bool.true_and, decide_eq_true_eq]
  have hof : ∀ {l : List (MicroOp T (Uop (Instr N O)))}, u ∈ l →
      1 ≤ l.countP fun v => computesFor u.fields.args.rob_idx v.fields :=
    fun hl => List.countP_pos_iff.2 ⟨u, hl, hfor⟩
  rw [inFlight]
  rcases hu with hu | ⟨w, hu⟩
  · rw [AluExe.holding_eq]
    exact Nat.le_add_right_of_le (hof hu)
  · refine Nat.le_add_left_of_le ?_
    refine le_trans ?_ (Finset.single_le_sum (f := fun w => (s.fpu w).holding
      (computesFor u.fields.args.rob_idx)) (fun _ _ => Nat.zero_le _) (Finset.mem_univ w))
    rw [FpuExe.holding_eq]
    exact hof hu

/-- A row for which a uop is issued has none on its way. -/
theorem inFlight_add_starting (h : s.Inv ops) (hok : s.Ok ops i) (r : Fin N) :
    s.inFlight r + starting i r ≤ 1 := by
  have hone : starting i r ≤ 1 := by
    have hle : starting i r ≤ (i.issues.map fun u => u.fields.args.rob_idx).count r := by
      rw [List.count, List.countP_map]
      refine List.countP_mono_left fun u _ hu => ?_
      rw [computesFor, Bool.and_eq_true, decide_eq_true_eq] at hu
      exact beq_iff_eq.2 hu.2
    exact hle.trans (List.nodup_iff_count_le_one.1 hok.once r)
  by_cases hpos : 0 < s.inFlight r
  · obtain ⟨u, hu, hc, hr⟩ := onWay_of_inFlight hpos
    obtain ⟨-, e, he, -, -, hissued, -⟩ := h.holds u hu hc
    have hzero : starting i r = 0 := by
      refine List.countP_eq_zero.2 fun v hv hf => ?_
      rw [computesFor, Bool.and_eq_true, decide_eq_true_eq] at hf
      obtain ⟨e', he', -, hno, -⟩ := hok.issue v hv
      rw [hf.2, ← hr, he] at he'
      obtain rfl := Option.some.inj he'
      rw [hissued] at hno
      cases hno
    have := h.once r
    omega
  · omega

/-- A uop that is on its way after a cycle was not delivered in it. -/
theorem not_delivered (h : s.Inv ops) (hok : s.Ok ops i) {v : MicroOp T (Uop (Instr N O))}
    (hv : (s.next ops i).OnWay v) (hc : computes v.fields = true) {f : Uop (Instr N O)}
    (hf : f ∈ s.wb_resps ops i) : f.args.rob_idx ≠ v.fields.args.rob_idx := by
  intro hrow
  have hfor : computesFor v.fields.args.rob_idx f = true := by
    rw [computesFor, (of_mem_wb h hf).1.1, hrow, Bool.true_and, decide_eq_true_eq]
  have hany : ∀ {o : Option (Bits T (Uop (Instr N O)) (FFlags N O))} {y : Bits T (Uop (Instr N O)) _},
      o = some y → y.uop.fields = f →
      (o.any fun x => computesFor v.fields.args.rob_idx x.uop.fields).toNat = 1 := by
    intro o y ho hy
    rw [ho, Option.any_some, hy, hfor, Bool.toNat_true]
  have hdel : 1 ≤ s.delivered ops i v.fields.args.rob_idx := by
    rw [delivered]
    rcases List.mem_append.1 hf with hf | hf
    · obtain ⟨y, hy, he⟩ := List.mem_map.1 hf
      have := hany (Option.mem_toList.1 hy) he
      omega
    · obtain ⟨w, -, hf⟩ := List.mem_flatMap.1 hf
      obtain ⟨y, hy, he⟩ := List.mem_map.1 hf
      refine Nat.le_add_left_of_le (le_trans ?_ (Finset.single_le_sum
        (f := fun w => (((s.fpu w).fresp ops.fpOps (i.fpuIn w)).any fun x =>
            computesFor v.fields.args.rob_idx x.uop.fields).toNat +
          (((s.fpu w).ll_iresp ops.fpOps (i.fpuIn w)).any fun x =>
            computesFor v.fields.args.rob_idx x.uop.fields).toNat)
        (fun _ _ => Nat.zero_le _) (Finset.mem_univ w)))
      rcases List.mem_append.1 hy with hy | hy
      · have := hany (Option.mem_toList.1 hy) he
        omega
      · have := hany (Option.mem_toList.1 (List.mem_filter.1 hy).1) he
        omega
  have hnext := inFlight_next h hok v.fields.args.rob_idx
  have hone := inFlight_add_starting h hok v.fields.args.rob_idx
  have hway := inFlight_of_onWay hv hc
  omega

/-! ### The rows -/

/-- What is in a row after a cycle was given it now, or has kept it. -/
theorem robNext_cases {r : Fin N} {e' : Entry T N O} (he : s.robNext ops i r = some e') :
    (∃ u ∈ i.enq_uops, u.fields.rob_idx = r ∧ e' = ⟨u, u.fields.kind ≠ .fence, false, false⟩) ∨
      ((∀ u ∈ i.enq_uops, u.fields.rob_idx ≠ r) ∧ ∃ e, s.rob r = some e ∧
        e' = ⟨e.uop.update i.brupdate, e.bsy && !s.wb ops i r, e.issued || i.issued r,
          e.flushed || i.kill⟩) := by
  unfold robNext at he
  cases hf : i.enq_uops.find? fun u => u.fields.rob_idx = r with
  | some u =>
    have hr := List.find?_some hf
    rw [hf] at he
    exact .inl ⟨u, List.mem_of_find?_eq_some hf, of_decide_eq_true hr, (Option.some.inj he).symm⟩
  | none =>
    simp only [hf] at he
    split_ifs at he
    obtain ⟨e, hrob, hkeep⟩ := Option.bind_eq_some_iff.1 he
    unfold keep at hkeep
    split_ifs at hkeep
    refine .inr ⟨fun u hu hr => ?_, e, hrob, (Option.some.inj hkeep).symm⟩
    exact absurd (decide_eq_true hr) (by simpa using List.find?_eq_none.1 hf u hu)

theorem robNext_of_kept {r : Fin N} {e : Entry T N O} (he : s.rob r = some e)
    (hfree : ∀ u ∈ i.enq_uops, u.fields.rob_idx ≠ r) (hstay : ¬ (r ∈ i.commit ∨ r ∈ i.rollback))
    (hkill : isKilledByBranch i.brupdate e.uop.br_mask = false) :
    s.robNext ops i r = some ⟨e.uop.update i.brupdate, e.bsy && !s.wb ops i r,
      e.issued || i.issued r, e.flushed || i.kill⟩ := by
  have hf : i.enq_uops.find? (fun u => u.fields.rob_idx = r) = none := by
    refine List.find?_eq_none.2 fun u hu => ?_
    simpa using hfree u hu
  unfold robNext
  simp only [hf]
  have hgone : ¬ (i.commit.contains r || i.rollback.contains r) = true := by
    rw [Bool.or_eq_true, List.contains_iff_mem, List.contains_iff_mem]
    exact hstay
  rw [if_neg hgone, he, Option.bind_some, keep, hkill, if_neg Bool.false_ne_true]

theorem not_enq (hok : s.Ok ops i) {r : Fin N} {e : Entry T N O} (he : s.rob r = some e) :
    ∀ u ∈ i.enq_uops, u.fields.rob_idx ≠ r := by
  rintro u hu rfl
  rw [hok.free u hu] at he
  cases he

/-- An arithmetic uop is not written back by the LSU. -/
theorem wb_of_arith (hok : s.Ok ops i) {r : Fin N} {e : Entry T N O} (he : s.rob r = some e)
    (hk : e.uop.fields.kind = .arith) (hwb : s.wb ops i r = true) :
    ∃ f ∈ s.wb_resps ops i, f.args.rob_idx = r := by
  simp only [wb, Bool.or_eq_true, List.any_eq_true, decide_eq_true_eq, List.contains_iff_mem] at hwb
  rcases hwb with (hf | hl) | hclr
  · exact hf
  · obtain ⟨e', he', hload⟩ := hok.load r hl
    rw [he] at he'
    obtain rfl := Option.some.inj he'
    rw [hk] at hload
    cases hload
  · exact absurd hk (hok.clr_bsy r hclr e he)

/-- A uop that is on its way has gone on, or was issued. -/
theorem onWay_next (h : s.Inv ops) (hok : s.Ok ops i) (hcalm : s.Calm ops i)
    {v : MicroOp T (Uop (Instr N O))} (hv : (s.next ops i).OnWay v) (hc : computes v.fields = true) :
    (∃ u, s.OnWay u ∧ advance i.brupdate i.kill u = some v) ∨
      ∃ u ∈ i.issues, advance i.brupdate false u = some v := by
  rcases hv with hv | ⟨w, hv⟩
  · rcases AluExe.mem_flight_next h.alu.sound hcalm.1 hv with ⟨u, hu, hadv⟩ | ⟨u, hu, hadv⟩
    · exact .inl ⟨u, .inl hu, hadv⟩
    · exact .inr ⟨u, List.mem_append_left _ (Option.mem_toList.2 hu), hadv⟩
  · have hsta : v.fields.fu ≠ .STA := by
      intro hf
      rw [computes, hf] at hc
      cases hc
    rcases FpuExe.mem_flight_next (h.fpu w).sound (hok.fpu w) (hcalm.2 w) hv hsta with
      ⟨u, hu, hadv⟩ | ⟨u, hu, hadv⟩
    · exact .inl ⟨u, .inr ⟨w, hu⟩, hadv⟩
    · refine .inr ⟨u, List.mem_append_right _ (List.mem_filterMap.2 ⟨w, ?_, hu⟩), hadv⟩
      exact List.mem_finRange w

/-- A busy row stays with its uop as long as that is on its way. -/
theorem holds_of_kept (h : s.Inv ops) (hok : s.Ok ops i) {u v : MicroOp T (Uop (Instr N O))}
    (hv : (s.next ops i).OnWay v) (hc : computes v.fields = true)
    (hadv : advance i.brupdate false u = some v) (hkill : i.kill = false)
    (hk : u.fields.args.kind = .arith) {e : Entry T N O}
    (he : s.rob u.fields.args.rob_idx = some e) (huop : e.uop = ⟨u.fields.args, u.br_mask⟩)
    (hb : e.bsy = true) (hissued : (e.issued || i.issued u.fields.args.rob_idx) = true)
    (hflushed : e.flushed = false) : (s.next ops i).Holds v := by
  obtain ⟨hd, hupd⟩ := advance_eq_some.1 hadv
  have hfields := fields_of_advance hadv
  have hspared : isKilledByBranch i.brupdate e.uop.br_mask = false := by
    rw [huop]
    exact (Bool.or_eq_false_iff.1 hd).1
  have hstay : ¬ (u.fields.args.rob_idx ∈ i.commit ∨ u.fields.args.rob_idx ∈ i.rollback) := by
    rintro (hcom | hroll)
    · obtain ⟨e', he', hidle⟩ := hok.commit _ hcom
      rw [he] at he'
      obtain rfl := Option.some.inj he'
      rw [hb] at hidle
      cases hidle
    · rcases hok.rollback _ hroll e he with hf | hf
      · rw [hflushed] at hf
        cases hf
      · rw [hkill] at hf
        cases hf
  have hwb : s.wb ops i u.fields.args.rob_idx = false := by
    rw [Bool.eq_false_iff]
    intro hwb
    obtain ⟨f, hf, hrow⟩ := wb_of_arith hok he (by rw [huop]; exact hk) hwb
    exact not_delivered h hok hv hc hf (by rw [hrow, hfields])
  refine ⟨hfields ▸ hk, ⟨e.uop.update i.brupdate, true, true, false⟩, ?_, ?_, rfl, rfl, rfl⟩
  · rw [hfields]
    show s.robNext ops i u.fields.args.rob_idx = _
    rw [robNext_of_kept he (not_enq hok he) hstay hspared, hb, hwb, hissued, hflushed, hkill]
    rfl
  · rw [huop, ← hupd]
    rfl

theorem Inv.holds_next (h : s.Inv ops) (hok : s.Ok ops i) (hcalm : s.Calm ops i)
    {v : MicroOp T (Uop (Instr N O))} (hv : (s.next ops i).OnWay v) (hc : computes v.fields = true) :
    (s.next ops i).Holds v := by
  rcases onWay_next h hok hcalm hv hc with ⟨u, hu, hadv⟩ | ⟨u, hu, hadv⟩
  · obtain ⟨hk, e, he, huop, hb, hissued, hflushed⟩ :=
      h.holds u hu (by rw [← fields_of_advance hadv]; exact hc)
    obtain ⟨hd, hupd⟩ := advance_eq_some.1 hadv
    have hkill : i.kill = false := (Bool.or_eq_false_iff.1 hd).2
    rw [hkill] at hadv
    exact holds_of_kept h hok hv hc hadv hkill hk he huop hb (by rw [hissued]; rfl) hflushed
  · obtain ⟨e, he, huop, hissued, hflushed⟩ := hok.issue u hu
    have hk : u.fields.args.kind = .arith :=
      hok.kinds u hu (by rw [← fields_of_advance hadv]; exact hc)
    have hkill : i.kill = false := by
      rw [Bool.eq_false_iff]
      intro hkill
      rw [hok.kill hkill] at hu
      cases hu
    have hnow : i.issued u.fields.args.rob_idx = true :=
      List.any_eq_true.2 ⟨u, hu, decide_eq_true rfl⟩
    exact holds_of_kept h hok hv hc hadv hkill hk he huop
      (h.waits _ e he (by rw [huop]; exact hk) hissued) (by rw [hnow, Bool.or_true]) hflushed

/-- A row that has not been issued is not written back. -/
theorem Inv.waits_next (h : s.Inv ops) (hok : s.Ok ops i) {r : Fin N} {e' : Entry T N O}
    (he' : (s.next ops i).rob r = some e') (hk : e'.uop.fields.kind = .arith)
    (hissued : e'.issued = false) : e'.bsy = true := by
  rcases robNext_cases he' with ⟨u, -, -, rfl⟩ | ⟨-, e, he, rfl⟩
  · change u.fields.kind = .arith at hk
    simp [hk]
  · change e.uop.fields.kind = .arith at hk
    have hold : e.issued = false := (Bool.or_eq_false_iff.1 hissued).1
    have hwb : s.wb ops i r = false := by
      rw [Bool.eq_false_iff]
      intro hwb
      obtain ⟨f, hf, rfl⟩ := wb_of_arith hok he hk hwb
      obtain ⟨⟨hc, u, hu, rfl⟩, -⟩ := of_mem_wb h hf
      obtain ⟨-, e', he', -, -, hnow, -⟩ := h.holds u hu hc
      rw [he] at he'
      obtain rfl := Option.some.inj he'
      rw [hold] at hnow
      cases hnow
    show (e.bsy && !s.wb ops i r) = true
    rw [h.waits r e he hk hold, hwb]
    rfl

/-! ### The table -/

/-- A row that all writes to it agree on. -/
theorem fflags_next {r : Fin N} {v : Flags}
    (hall : ∀ x ∈ s.fflagsWrites ops i, x.1.rob_idx = r → x.2 = v)
    (hsome : (∃ x ∈ s.fflagsWrites ops i, x.1.rob_idx = r) ∨
      (if i.enq_uops.any fun u => u.fields.rob_idx = r then 0 else s.rob_fflags r) = v) :
    (s.next ops i).rob_fflags r = v := by
  refine Writes.writes_eq (fun w hw hr => ?_) (hsome.imp_left fun ⟨x, hx, hr⟩ =>
    ⟨_, List.mem_map.2 ⟨x, hx, rfl⟩, hr⟩)
  obtain ⟨x, hx, rfl⟩ := List.mem_map.1 hw
  exact hall x hx hr

theorem base_of_rob (hok : s.Ok ops i) {r : Fin N} {e : Entry T N O} (he : s.rob r = some e) :
    (if i.enq_uops.any fun u => u.fields.rob_idx = r then 0 else s.rob_fflags r) =
      s.rob_fflags r := by
  refine if_neg fun hany => ?_
  obtain ⟨u, hu, hr⟩ := List.any_eq_true.1 hany
  exact not_enq hok he u hu (of_decide_eq_true hr)

/-- A write to a row that is taken is of the uop that has it. -/
theorem eq_of_write (h : s.Inv ops) (hok : s.Ok ops i) (hno : ¬ s.Stale ops i)
    {x : Instr N O × Flags} (hx : x ∈ s.fflagsWrites ops i) {e : Entry T N O}
    (he : s.rob x.1.rob_idx = some e) : e.uop.fields = x.1 := by
  by_contra hne
  exact hno ((of_mem_writes h hok hx).2.2 (.inl ⟨e, he, hne⟩))

theorem eq_of_write_next (h : s.Inv ops) (hok : s.Ok ops i) (hno : ¬ s.Stale ops i)
    {x : Instr N O × Flags} (hx : x ∈ s.fflagsWrites ops i) {e' : Entry T N O}
    (he' : (s.next ops i).rob x.1.rob_idx = some e') : e'.uop.fields = x.1 := by
  rcases robNext_cases he' with ⟨u, hu, hr, rfl⟩ | ⟨-, e, he, rfl⟩
  · by_contra hne
    exact hno ((of_mem_writes h hok hx).2.2 (.inr ⟨u, hu, hr, hne⟩))
  · show e.uop.fields = x.1
    exact eq_of_write h hok hno hx he

/-- **What is written back has its flags in the table** after the cycle. -/
theorem fflags_of_wbOk (h : s.Inv ops) (hok : s.Ok ops i) (hno : ¬ s.Stale ops i)
    {f : Uop (Instr N O)} (hf : s.WbOk ops i f) :
    (s.next ops i).rob_fflags f.args.rob_idx = ops.flags f.args := by
  obtain ⟨⟨hc, u, hu, rfl⟩, hsome⟩ := hf
  obtain ⟨-, e, he, huop, -⟩ := h.holds u hu hc
  refine fflags_next (fun x hx hr => ?_) ?_
  · have hown := eq_of_write h hok hno hx (hr ▸ he)
    rw [(of_mem_writes h hok hx).1, ← hown, huop]
  · rcases hsome with ⟨x, hx, hxf⟩ | htable
    · exact .inl ⟨x, hx, by rw [hxf]⟩
    · right
      rw [base_of_rob hok he]
      exact htable

theorem Inv.right_next (h : s.Inv ops) (hok : s.Ok ops i) (hno : ¬ s.Stale ops i) {r : Fin N}
    {e' : Entry T N O} (he' : (s.next ops i).rob r = some e') (hk : e'.uop.fields.kind = .arith)
    (hb : e'.bsy = false) : (s.next ops i).rob_fflags r = ops.flags e'.uop.fields := by
  rcases robNext_cases he' with ⟨u, -, -, rfl⟩ | ⟨-, e, he, hentry⟩
  · change u.fields.kind = .arith at hk
    simp [hk] at hb
  · have hfields : e'.uop.fields = e.uop.fields := by
      rw [hentry]
      rfl
    rw [hfields] at hk
    cases hold : e.bsy with
    | false =>
      refine fflags_next (fun x hx hr => ?_) (.inr ?_)
      · rw [(of_mem_writes h hok hx).1, eq_of_write_next h hok hno hx (hr ▸ he')]
      · rw [base_of_rob hok he, h.table.right r e he hk hold, hfields]
    | true =>
      have hwb : s.wb ops i r = true := by
        rw [hentry] at hb
        simpa [hold] using hb
      obtain ⟨f, hf, rfl⟩ := wb_of_arith hok he hk hwb
      have hok' := of_mem_wb h hf
      obtain ⟨⟨hc, u, hu, rfl⟩, -⟩ := hok'
      obtain ⟨-, e₀, he₀, huop, -⟩ := h.holds u hu hc
      rw [he] at he₀
      obtain rfl := Option.some.inj he₀
      rw [hfields, huop]
      exact fflags_of_wbOk h hok hno (of_mem_wb h hf)

theorem Inv.clean_next (h : s.Inv ops) (hok : s.Ok ops i) (hno : ¬ s.Stale ops i) {r : Fin N}
    {e' : Entry T N O} (he' : (s.next ops i).rob r = some e') (hk : e'.uop.fields.kind ≠ .arith) :
    (s.next ops i).rob_fflags r = 0 := by
  refine fflags_next (fun x hx hr => ?_) (.inr ?_)
  · rw [eq_of_write_next h hok hno hx (hr ▸ he')] at hk
    exact absurd (of_mem_writes h hok hx).2.1 hk
  · rcases robNext_cases he' with ⟨u, hu, hr, -⟩ | ⟨-, e, he, rfl⟩
    · exact if_pos (List.any_eq_true.2 ⟨u, hu, decide_eq_true hr⟩)
    · rw [base_of_rob hok he]
      exact h.table.clean r e he hk

theorem Inv.queue_next (h : s.Inv ops) (hok : s.Ok ops i) (hno : ¬ s.Stale ops i) {w : Fin W}
    {x : KillableQueue.Item T (Uop (Instr N O)) (FFlags N O)}
    (hx : x ∈ ((s.next ops i).fpu w).queue.waiting) :
    (s.next ops i).rob_fflags x.bits.uop.fields.args.rob_idx =
      ops.flags x.bits.uop.fields.args := by
  have hf2i : ∀ f : Uop (Instr N O), f.fu = .F2I → computes f = true := by
    intro f hf
    rw [computes, hf]
    rfl
  rcases KillableQueue.mem_waiting_next (h.fpu w).queue hx with ⟨y, hy, hupd⟩ | ⟨b, hb, he⟩
  · rw [(KillableQueue.bits_of_upd hupd).2]
    refine fflags_of_wbOk (f := y.bits.uop.fields) h hok hno ⟨⟨hf2i _ ((h.fpuSorted w).queue y hy),
      y.bits.uop, .inr ⟨w, ?_⟩, rfl⟩, .inr (h.table.queue w y hy)⟩
    exact FpuExe.flight_of_waiting (List.mem_append_left _ hy)
  · have hb : (s.fpu w).queueEnq ops.fpOps (i.fpuIn w) = some b :=
      (KillableQueue.not_full_of_accepts (KillableQueue.accepts_of_do_enq hb)).2
    rw [he]
    exact fflags_of_wbOk (f := b.uop.fields) h hok hno
      (wb_of_fpuResp h (Option.filter_eq_some_iff.1 hb).1 (hf2i _ (FpuExe.fu_of_queueEnq hb)))

/-! ### What is shown -/

theorem belongs_pipe (h : s.Inv ops) :
    ∀ st ∈ s.alu.stage (fflags ops.flags) i.aluIn [.I2F] :: s.alu.ifpu, Belongs ops st.data := by
  intro st hst
  rcases List.mem_cons.1 hst with rfl | hst
  · exact belongs_stage h
  · exact h.shown.ifpu st hst

theorem Inv.shown_next (h : s.Inv ops) : (s.next ops i).ShownOk ops where
  ifpu := ShiftReg.forall_shift (P := fun st : Stage T (Uop (Instr N O)) (FFlags N O) =>
    Belongs ops st.data) (belongs_pipe h) fun _ hst => hst
  ram := by
    refine KillableQueue.forall_ram_next (P := Belongs ops) h.alu.ring h.shown.ram fun b hb => ?_
    have hb : s.alu.ifpuResp (fflags ops.flags) i.aluIn = some b :=
      (KillableQueue.not_full_of_accepts (KillableQueue.accepts_of_do_enq hb)).2
    obtain ⟨st, hst, -, hdata, -⟩ := Pipe.mem_resp hb
    rw [hdata]
    exact belongs_pipe h st hst

/-! ### Runs -/

theorem Inv.next (h : s.Inv ops) (hok : s.Ok ops i) (hcalm : s.Calm ops i)
    (hno : ¬ s.Stale ops i) : (s.next ops i).Inv ops where
  alu := h.alu.next hok.alu
  fpu w := (h.fpu w).next (hok.fpu w)
  aluSorted := h.aluSorted.next h.alu.ring
  fpuSorted w := (h.fpuSorted w).next (h.fpu w).queue (h.fpu w).fp_sdq
  holds _ := h.holds_next hok hcalm
  once r := by
    have hnext := inFlight_next h hok r
    have hone := inFlight_add_starting h hok r
    omega
  waits _ _ := h.waits_next hok
  table := ⟨fun _ _ => h.right_next hok hno, fun _ _ => h.clean_next hok hno,
    fun _ _ => h.queue_next hok hno⟩
  shown := h.shown_next

theorem inFlight_of_reset (h : s.Reset) (r : Fin N) : s.inFlight r = 0 := by
  have halu := AluExe.total_of_reset (p := computesFor r) h.alu
  have hfpu : ∀ w, (s.fpu w).holding (computesFor r) = 0 := by
    intro w
    have hw := FpuExe.total_of_reset (p := computesFor r) (h.fpu w)
    rw [FpuExe.total] at hw
    omega
  rw [AluExe.total] at halu
  rw [inFlight, Finset.sum_eq_zero fun w _ => hfpu w]
  omega

theorem inv_of_reset (h : s.Reset) : s.Inv ops where
  alu := AluExe.inv_of_reset h.alu
  fpu w := FpuExe.inv_of_reset (h.fpu w)
  aluSorted := AluExe.sorted_of_reset h.alu
  fpuSorted w := FpuExe.sorted_of_reset (h.fpu w)
  holds u hu hc := by
    have hone := inFlight_of_onWay hu hc
    rw [inFlight_of_reset h] at hone
    omega
  once r := by
    rw [inFlight_of_reset h]
    exact Nat.zero_le 1
  waits r e he := by
    rw [h.rob] at he
    cases he
  table := by
    refine ⟨fun r e he => ?_, fun r e he => ?_, fun w x hx => ?_⟩
    · rw [h.rob] at he
      cases he
    · rw [h.rob] at he
      cases he
    · rw [(KillableQueue.waiting_of_reset (h.fpu w).queue).1] at hx
      cases hx
  shown := by
    refine ⟨fun st hst x hx => ?_, fun k _ hk => ?_⟩
    · rw [h.ifpu st hst] at hx
      cases hx
    · rw [h.alu.queue.enqNo] at hk
      cases hk

/-- What commits has its flags in the table. -/
theorem commitOne_eq (h : s.Inv ops) (hok : s.Ok ops i) {r : Fin N} (hr : r ∈ i.commit) :
    s.commitOne r = s.computedOne ops.flags r := by
  obtain ⟨e, he, hb⟩ := hok.commit r hr
  rw [commitOne, computedOne, he]
  cases hk : e.uop.fields.kind with
  | arith => simpa [hk, Kind.fp_val, Kind.uses_stq] using h.table.right r e he hk hb
  | fpLoad =>
    have hclean := h.table.clean r e he (by rw [hk]; decide)
    simp [hk, Kind.fp_val, Kind.uses_stq, hclean]
  | fpStore => simp [hk, Kind.fp_val, Kind.uses_stq]
  | fence => simp [hk, Kind.fp_val]
  | other => simp [hk, Kind.fp_val]

end FlagsSys

open FlagsSys in
/-- **Committed flags are exact** as long as every cycle was calm and nothing stale
    was shown; and what is shown is stale if and only if flags are written to a row
    that has been given away. -/
theorem commit_fflags_exact {c : Cfg W} {ops : FlagOps N O R} {s : FlagsSys c N T O R}
    {i : FlagsIn W N T O R}
    (h : ((flagsMachine c T ops).restrict fun s i => s.Calm ops i ∧ ¬ s.Stale ops i).Reach s)
    (hok : s.Ok ops i) :
    s.commit_fflags i = s.computed i ops.flags ∧
      (∀ x ∈ s.fflagsWrites ops i, x.2 = ops.flags x.1 ∧ x.1.kind = .arith) ∧
      ((∀ x ∈ s.fflagsWrites ops i, ¬ s.Given i x.1) ↔ ¬ s.Stale ops i) := by
  have hinv : s.Inv ops := h.inv (P := fun s => s.Inv ops) (fun _ h0 => inv_of_reset h0)
    fun _ _ hinv hok => hinv.next hok.1 hok.2.1 hok.2.2
  refine ⟨?_, fun x hx => ?_, fun hall hstale => ?_, fun hno x hx hg => ?_⟩
  · rw [commit_fflags, computed, List.map_congr_left fun r hr => commitOne_eq hinv hok hr]
  · obtain ⟨hflags, hk, -⟩ := of_mem_writes hinv hok hx
    exact ⟨hflags, hk⟩
  · obtain ⟨x, hx, hg⟩ := given_of_stale hstale
    exact hall x hx hg
  · exact hno ((of_mem_writes hinv hok hx).2.2 hg)

/-! ## Two runs

What a cycle has to keep can be decided. -/

section Decide

local instance decidableExistsSome {α : Type} {o : Option α} {P : α → Prop} [DecidablePred P] :
    Decidable (∃ a, o = some a ∧ P a) := decidable_of_iff (∃ a ∈ o, P a) Iff.rfl

local instance decidableForallSome {α : Type} {o : Option α} {P : α → Prop} [DecidablePred P] :
    Decidable (∀ a, o = some a → P a) := decidable_of_iff (∀ a ∈ o, P a) Iff.rfl

variable {c : Cfg W} [DecidableEq O] [DecidableEq R] (ops : FlagOps N O R)
  (s : FlagsSys c N T O R) (i : FlagsIn W N T O R)

instance decidableEqInstr : DecidableEq (Instr N O) := fun x y =>
  decidable_of_iff (x.seq = y.seq ∧ x.rob_idx = y.rob_idx ∧ x.kind = y.kind ∧ x.operands = y.operands)
    (by cases x; cases y; simp)

instance decidableEqMicroOp : DecidableEq (MicroOp T (Instr N O)) := fun u v =>
  decidable_of_iff (u.fields = v.fields ∧ u.br_mask = v.br_mask) (by cases u; cases v; simp)

instance decidableAluOk : Decidable (s.alu.Ok i.aluIn) :=
  decidable_of_iff ((∀ u, i.alu_iss = some u → s.alu.fu_types u.fields.fu = true) ∧
      ∀ u, i.alu_iss = some u → u.fields.number = s.alu.issued.length)
    ⟨fun h => ⟨h.1, h.2⟩, fun h => ⟨h.fu_types, h.number⟩⟩

instance decidableFpuOk (w : Fin W) : Decidable ((s.fpu w).Ok ops.fpOps (i.fpuIn w)) :=
  decidable_of_iff ((∀ u, i.fpu_iss w = some u → (s.fpu w).fu_types u.fields.fu = true) ∧
      (∀ u, i.fpu_iss w = some u → u.fields.number = (s.fpu w).issued.length) ∧
      ∀ r ∈ i.divsqrt_out w, ∃ f ∈ (s.fpu w).fdiv.op, r = ops.raw f)
    ⟨fun h => ⟨h.1, h.2.1, h.2.2⟩, fun h => ⟨h.fu_types, h.number, h.divsqrt⟩⟩

instance decidableGiven (x : Instr N O) : Decidable (s.Given i x) :=
  inferInstanceAs (Decidable ((∃ e, s.rob x.rob_idx = some e ∧ e.uop.fields ≠ x) ∨
    ∃ u ∈ i.enq_uops, u.fields.rob_idx = x.rob_idx ∧ u.fields ≠ x))

set_option synthInstance.maxSize 1024 in
instance decidableOk : Decidable (s.Ok ops i) :=
  decidable_of_iff (s.alu.Ok i.aluIn ∧ (∀ w, (s.fpu w).Ok ops.fpOps (i.fpuIn w)) ∧
      (∀ u ∈ i.issues, ∃ e, s.rob u.fields.args.rob_idx = some e ∧
        e.uop = ⟨u.fields.args, u.br_mask⟩ ∧ e.issued = false ∧ e.flushed = false) ∧
      (i.issues.map fun u => u.fields.args.rob_idx).Nodup ∧
      (∀ u ∈ i.issues, computes u.fields = true → u.fields.args.kind = .arith) ∧
      (i.kill = true → i.issues.isEmpty = true) ∧
      (∀ u ∈ i.enq_uops, (s.rob u.fields.rob_idx).isNone = true) ∧
      (i.enq_uops.map fun u => u.fields.rob_idx).Nodup ∧
      i.enq_uops.map (fun u => u.fields.seq) = List.range' s.dispatched i.enq_uops.length ∧
      (i.enq_uops.isEmpty = true ∨ i.kill = false ∧ ∀ t, i.brupdate.mispredict_mask t = false) ∧
      (∀ r ∈ i.load, ∃ e, s.rob r = some e ∧ e.uop.fields.kind = .fpLoad) ∧
      (∀ r ∈ i.clr_bsy, ∀ e, s.rob r = some e → e.uop.fields.kind ≠ .arith) ∧
      (∀ r ∈ i.commit, ∃ e, s.rob r = some e ∧ e.bsy = false) ∧
      ∀ r ∈ i.rollback, ∀ e, s.rob r = some e → e.flushed = true ∨ i.kill = true)
    ⟨fun ⟨h1, h2, h3, h4, h5, h6, h7, h8, h9, h10, h11, h12, h13, h14⟩ =>
      ⟨h1, h2, h3, h4, h5, fun hk => List.isEmpty_iff.1 (h6 hk),
        fun u hu => Option.isNone_iff_eq_none.1 (h7 u hu), h8, h9,
        fun hne => h10.resolve_left fun he => hne (List.isEmpty_iff.1 he), h11, h12, h13, h14⟩,
    fun h => ⟨h.alu, h.fpu, h.issue, h.once, h.kinds, fun hk => List.isEmpty_iff.2 (h.kill hk),
      fun u hu => Option.isNone_iff_eq_none.2 (h.free u hu), h.rows, h.seq,
      or_iff_not_imp_left.2 fun he => h.hazard fun hnil => he (List.isEmpty_iff.2 hnil),
      h.load, h.clr_bsy, h.commit, h.rollback⟩⟩

instance decidableStale : Decidable (s.Stale ops i) :=
  decidable_of_iff (i.load.isNone = true ∧
      (s.alu.ll_fresp (fflags ops.flags) i.aluIn).isNone = true ∧
      ∃ x ∈ s.shown ops i, s.Given i x.1)
    (by rw [Option.isNone_iff_eq_none, Option.isNone_iff_eq_none]; exact Iff.rfl)

omit [DecidableEq O] [DecidableEq R] in
/-- A cycle without a flush is calm. -/
theorem calm_of_kill {i : FlagsIn W N T O R} (h : i.kill = false) : s.Calm ops i :=
  ⟨fun hk => absurd (h.symm.trans hk) Bool.false_ne_true,
    fun _ hk => absurd (h.symm.trans hk) Bool.false_ne_true⟩

end Decide

/-! ### The parts -/

/-- An instruction, named by the flags that it computes. -/
abbrev Fp := Instr 16 Flags

/-- The flags are given with the instruction. -/
def given : FlagOps 16 Flags Flags :=
  ⟨fun x => x.operands, fun u => u.args.operands, fun _ r => r, fun _ _ => rfl⟩

/-- `imulLatency`, `intToFpLatency` and `dfmaLatency` are the usual ones. -/
def usual : Cfg 1 := ⟨⟨true, true, true, true, true, 3, 2⟩, fun _ => ⟨true, true, 4⟩⟩

/-- A uop. -/
def instr (seq : ℕ) (rob_idx : Fin 16) (kind : Kind) (flags : Flags) (tagged : Bool) :
    MicroOp 1 Fp := ⟨⟨seq, rob_idx, kind, flags⟩, fun _ => tagged⟩

/-- The uop as it is issued. -/
def issue (number : ℕ) (fu : Fu) (u : MicroOp 1 Fp) : MicroOp 1 (Uop Fp) :=
  ⟨⟨number, fu, 0, u.fields⟩, u.br_mask⟩

/-- A uop that computes nothing. -/
def noUop : MicroOp 1 (Uop Fp) := issue 0 .ALU (instr 0 0 .other 0 false)

/-- An empty queue. -/
def emptyQueue (n : ℕ) [NeZero n] : KillableQueue.Sys n 1 (Uop Fp) (FFlags 16 Flags) where
  q :=
    { ram := fun _ => ⟨none, noUop⟩
      valids := fun _ => false
      uops := fun _ => noUop
      enq_ptr := 0
      deq_ptr := 0
      maybe_full := false }
  tag _ := 0
  enqNo := 0
  deqNo := 0
  now := 0
  fifo := .empty
  resolved := []

/-- An empty pipeline. -/
def emptyPipe (n : ℕ) : Pipe 1 (Uop Fp) (FFlags 16 Flags) := List.replicate n ⟨none, none⟩

/-- After reset. -/
def flagsStart : FlagsSys usual 16 1 Flags Flags where
  alu := ⟨none, none, emptyPipe 3, emptyPipe 3, emptyPipe 2, emptyQueue 5, ⟨noUop, none, false⟩,
    false, [], [], []⟩
  fpu _ := ⟨none, none, emptyPipe 4, ⟨none, false, false, noUop, noUop.fields, none, none⟩,
    emptyQueue 7, emptyQueue 3, false, [], [], []⟩
  rob _ := none
  rob_fflags _ := 0
  dispatched := 0

theorem reset_emptyQueue (n : ℕ) [NeZero n] : (emptyQueue n).Reset :=
  ⟨fun _ => rfl, rfl, rfl, rfl, rfl, rfl, rfl, rfl, rfl⟩

theorem uop_emptyPipe (n : ℕ) : ∀ st ∈ emptyPipe n, st = ⟨none, none⟩ :=
  fun _ hst => List.eq_of_mem_replicate hst

theorem reset_flagsStart : flagsStart.Reset := by
  have hempty : ∀ n, (emptyPipe n).length = n ∧ ∀ st ∈ emptyPipe n, st.uop = none :=
    fun n => ⟨List.length_replicate, fun st hst => by rw [uop_emptyPipe n st hst]⟩
  refine ⟨⟨rfl, rfl, hempty 3, hempty 3, hempty 2, reset_emptyQueue 5, ⟨rfl, rfl⟩, rfl, rfl, rfl, rfl⟩,
    fun st hst => ?_, fun _ => ⟨rfl, rfl, hempty 4, ⟨rfl, rfl, rfl, rfl⟩, reset_emptyQueue 7,
      reset_emptyQueue 3, rfl, rfl, rfl, rfl⟩, fun _ => rfl, rfl⟩
  rw [uop_emptyPipe 2 st hst]

/-- Nothing happens. -/
def idle : FlagsIn 1 16 1 Flags Flags where
  enq_uops := []
  alu_iss := none
  squash := false
  fpu_iss _ := none
  brupdate := ⟨fun _ => false, fun _ => false⟩
  kill := false
  finish := true
  ll_iresp_ready _ := true
  divsqrt_ready _ := true
  divsqrt_out _ := none
  load := none
  clr_bsy := []
  commit := []
  rollback := []

/-- A conversion and an addition that are executed side by side. -/
def convert : MicroOp 1 Fp := instr 0 0 .arith 1 false

/-- The addition. -/
def add : MicroOp 1 Fp := instr 1 1 .arith 2 false

/-- A conversion and an addition that answer in the same cycle. -/
def sideBySide : List (FlagsIn 1 16 1 Flags Flags) :=
  [{ idle with enq_uops := [convert, add] },
    { idle with alu_iss := some (issue 0 .I2F convert), fpu_iss := fun _ => some (issue 0 .FPU add) },
    idle, idle, idle, idle, idle, idle]

/-- Both commit, and so do the flags of both. -/
theorem commit_fflags_exact_run :
    ((flagsMachine usual 1 given).run flagsStart sideBySide).commit_fflags
        { idle with commit := [0, 1] } = 3 ∧
      ((flagsMachine usual 1 given).run flagsStart sideBySide).computed
        { idle with commit := [0, 1] } given.flags = 3 := by
  have hmay : ∀ (s : FlagsSys usual 16 1 Flags Flags) (i : FlagsIn 1 16 1 Flags Flags),
      (decide (s.Ok given i) && !i.kill && !decide (s.Stale given i)) = true →
      ((flagsMachine usual 1 given).restrict fun s i => s.Calm given i ∧ ¬ s.Stale given i).ok s i := by
    intro s i h
    rw [Bool.and_eq_true, Bool.and_eq_true, Bool.not_eq_true', Bool.not_eq_true'] at h
    exact ⟨of_decide_eq_true (p := s.Ok given i) h.1.1, calm_of_kill given s h.1.2, of_decide_eq_false h.2⟩
  have hreach := Sync.Machine.reach_run sideBySide (.start reset_flagsStart)
    (Sync.Machine.accepts_of_passes hmay _ _ (by decide +kernel))
  rw [Sync.Machine.run_restrict] at hreach
  have hexact := commit_fflags_exact (i := { idle with commit := [0, 1] }) hreach (by decide +kernel)
  rw [← hexact.1]
  exact ⟨by decide +kernel, by decide +kernel⟩

/-- Two conversions, the second behind a branch. -/
def older : MicroOp 1 Fp := instr 0 0 .arith 0 false

/-- The second one. -/
def younger : MicroOp 1 Fp := instr 12 12 .arith 1 true

/-- A load. -/
def fpLoad (seq : ℕ) (r : Fin 16) : MicroOp 1 Fp := instr seq r .fpLoad 0 false

/-- The loads keep the conversions in the queue while the branch is found to be
    mispredicted, and the row of the second one is given to a load. -/
def recycled : List (FlagsIn 1 16 1 Flags Flags) :=
  [{ idle with enq_uops := [older, fpLoad 1 1, fpLoad 2 2, fpLoad 3 3] },
    { idle with enq_uops := [fpLoad 4 4, fpLoad 5 5, fpLoad 6 6, fpLoad 7 7] },
    { idle with enq_uops := [fpLoad 8 8, fpLoad 9 9, fpLoad 10 10, instr 11 11 .other 0 false] },
    { idle with enq_uops := [younger] },
    { idle with alu_iss := some (issue 0 .I2F older) },
    { idle with alu_iss := some (issue 1 .I2F younger) },
    idle, idle,
    { idle with load := some 1 },
    { idle with load := some 2 },
    { idle with load := some 3, brupdate := ⟨fun _ => true, fun _ => true⟩, clr_bsy := [11] },
    { idle with load := some 4 }, { idle with load := some 5 }, { idle with load := some 6 },
    { idle with load := some 7 }, { idle with load := some 8 },
    { idle with load := some 9, enq_uops := [fpLoad 13 12] },
    { idle with load := some 10 },
    idle, idle,
    { idle with load := some 12 },
    { idle with commit := [0, 1, 2, 3] },
    { idle with commit := [4, 5, 6, 7] },
    { idle with commit := [8, 9, 10, 11] }]

/-- **The load commits the flags** of the conversion that had its row. -/
theorem commit_fflags_wrong : ∃ (s : FlagsSys usual 16 1 Flags Flags)
    (i : FlagsIn 1 16 1 Flags Flags), (flagsMachine usual 1 given).Reach s ∧ s.Ok given i ∧
      s.commit_fflags i ≠ s.computed i given.flags := by
  have hmay : ∀ (s : FlagsSys usual 16 1 Flags Flags) (i : FlagsIn 1 16 1 Flags Flags),
      decide (s.Ok given i) = true → (flagsMachine usual 1 given).ok s i :=
    fun s i h => of_decide_eq_true (p := s.Ok given i) h
  exact ⟨(flagsMachine usual 1 given).run flagsStart recycled, { idle with commit := [12] },
    Sync.Machine.reach_run recycled (.start reset_flagsStart)
      (Sync.Machine.accepts_of_passes hmay _ _ (by decide +kernel)),
    by decide +kernel, by decide +kernel⟩

end BoomStop.FpFlags
