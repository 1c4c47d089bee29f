/-
  Whether the private cause of a sample reaches the CSR file: it does not, as
  long as no custom write ends an overflow while a marked uop is in flight, and
  it does in a run where one does.

  * `overflow_next`: how an overflow lasts;
  * `Core.Inv`, `inv_step`: a marked uop in flight means that it is still an
    overflow, or that a flush will take the uop away;
  * `sample_handled`: every exception with the private cause becomes a sample;
  * `cause_leaks`: the run in which it does not.
-/
import BoomStop.Sampling

namespace BoomStop.Sampling

open Sync Reorder
open Issue (getNewBrMask)

variable {N W T va : ℕ}

/-! ## An overflow lasts -/

/-- The part of `overflow_event` that the custom registers decide. -/
def Over (u : Ucsr va) : Prop :=
  u.procTag = targetTag ∧ u.maxEventNum ≠ 0 ∧ u.warmupInstNum = 0 ∧ u.maxEventNum < u.nowEventNum

theorem overflow_iff {s : Core N W T va} :
    s.overflow_event = true ↔ s.isUserMode = true ∧ Over s.ucsr := by
  simp only [Core.overflow_event, Core.sampleValid, Core.isTargetProc, Over, Bool.and_eq_true,
    decide_eq_true_eq, and_assoc]

theorem over_setUCSR {u : Ucsr va} {p : BitVec 12 × BitVec 64} (h : Over u)
    (hp : Core.disturbs p = false) : Over (u.setUCSR p.1 p.2) := by
  obtain ⟨htag, hmax, hwarm, hlt⟩ := h
  simp only [Core.disturbs, Bool.or_eq_false_iff, Bool.and_eq_false_iff, decide_eq_false_iff_not,
    not_not] at hp
  obtain ⟨⟨hp1, hp5⟩, hp4⟩ := hp
  unfold Over
  rw [Ucsr.setUCSR_procTag, Ucsr.setUCSR_warmupInstNum, Ucsr.setUCSR_maxEventNum,
    Ucsr.setUCSR_nowEventNum, if_neg hp4, if_neg hp4]
  refine ⟨?_, hmax, ?_, hlt⟩
  · split_ifs with h1
    · exact hp1.resolve_left (not_not.2 h1)
    · exact htag
  · split_ifs with h5
    · exact hp5.resolve_left (not_not.2 h5)
    · exact hwarm

theorem over_writes {ps : List (BitVec 12 × BitVec 64)} (hp : ∀ p ∈ ps, Core.disturbs p = false) :
    ∀ {u : Ucsr va}, Over u → Over (ps.foldl (fun u p => u.setUCSR p.1 p.2) u) := by
  induction ps with
  | nil => exact fun h => h
  | cons p ps ih =>
    intro u h
    exact ih (fun q hq => hp q (List.mem_cons_of_mem _ hq))
      (over_setUCSR h (hp p List.mem_cons_self))

section

variable {s : Core N W T va} {i : In N W T va}

theorem over_ucsr_next (ho : s.overflow_event = true) (hx : s.isOverFlowExcpt = false)
    (hw : ∀ p ∈ i.ucsr_writes, Core.disturbs p = false)
    (hc : s.ucsr.nowEventNum.toNat + (s.event i).toNat < 2 ^ 64) : Over (s.ucsr_next i) := by
  obtain ⟨-, htag, hmax, hwarm, hlt⟩ := overflow_iff.1 ho
  have hvalid : s.sampleValid = true := by
    unfold Core.overflow_event at ho
    exact (Bool.and_eq_true _ _ ▸ ho).1
  have hidle : s.warmup_next = s.ucsr := by simp [Core.warmup_next, Core.warmupValid, hwarm]
  refine over_writes hw ?_
  rw [Core.exit_next, hx, if_neg Bool.false_ne_true, Core.redirect_next, Core.sample_redirect, hx,
    Bool.and_false, Bool.not_false, if_pos rfl, Core.count_next, hvalid, if_pos rfl, hidle]
  refine ⟨htag, hmax, hwarm, ?_⟩
  show s.ucsr.maxEventNum < s.ucsr.nowEventNum + s.event i
  rw [BitVec.lt_def] at hlt ⊢
  rw [BitVec.toNat_add, Nat.mod_eq_of_lt hc]
  omega

/-- **An overflow lasts** while the privilege level stays, no sample is taken
    and no write disturbs. -/
theorem overflow_next [NeZero N] [NeZero W] (ho : s.overflow_event = true)
    (hp : i.new_prv = s.prv) (hx : s.isOverFlowExcpt = false)
    (hw : ∀ p ∈ i.ucsr_writes, Core.disturbs p = false)
    (hc : s.ucsr.nowEventNum.toNat + (s.event i).toNat < 2 ^ 64) :
    (s.next i).overflow_event = true := by
  refine overflow_iff.2 ⟨?_, over_ucsr_next ho hx hw hc⟩
  have hu := (overflow_iff.1 ho).1
  simp only [Core.isUserMode, Bool.and_eq_true, decide_eq_true_eq] at hu ⊢
  obtain ⟨⟨h0, h1⟩, -⟩ := hu
  refine ⟨⟨hp.trans h0, ?_⟩, h1⟩
  show decide (s.prv = 0) = true
  simp [h0]

end

/-! ## The invariant -/

namespace Core

/-- A flush is on its way that will empty rename2. -/
def Draining (s : Core N W T va) : Prop :=
  s.flush_d1 = true ∨
    s.sys.Quiet ∧ ∃ a, s.sys.Val a ∧ Rob.flushes (s.sys.rob.bank a.1 a.2).uop = true

/-- The invariant: an exception is taken before anything else executes. -/
structure Inv (s : Core N W T va) : Prop where
  sys : s.sys.Inv
  xcpt : s.sys.XInv
  thrown : s.sys.rob.exc_d1 = true → s.flush_d1 = true
  delayed : s.com_xcpt_d1.isSome = true → s.sys.rob.exc_d1 = true ∧ s.evec_redirect = true
  /-- nothing executes during the flush of an exception -/
  flushing : ¬ s.sys.Quiet → ∀ a, s.sys.Val a →
    (s.sys.rob.bank a.1 a.2).uop.is_unique = true → (s.sys.rob.bank a.1 a.2).exception = true
  ren2 : ∀ w, s.ren2_valid w = true → marked (s.ren2_uop w) = true →
    s.overflow_event = true ∨ s.Draining
  record : s.sys.rob.r_xcpt_val = true → s.sys.rob.r_xcpt_uop.exc_cause = cause_OverFlow →
    s.overflow_event = true
  taken : s.com_xcpt_d1 = some cause_OverFlow → s.overflow_event = true

end Core

section

variable {s : Core N W T va} {i : In N W T va}

theorem inv_reset (h : s.Reset) : s.Inv where
  sys := Reorder.inv_reset h.sys
  xcpt := xinv_reset h.sys
  thrown h1 := absurd (h1.symm.trans h.sys.exc_d1) (by simp)
  delayed hd := by
    rw [h.xcpt] at hd
    exact absurd hd (by simp)
  flushing _ a ha := absurd (ha.symm.trans (h.sys.val a.1 a.2)) (by simp)
  ren2 w hw := absurd (hw.symm.trans (h.ren2 w)) (by simp)
  record hr := absurd (hr.symm.trans h.sys.r_xcpt_val) (by simp)
  taken ht := absurd (ht.symm.trans h.xcpt) (by simp)

/-- While something unique executes, no exception is recorded or in flight, and
    dispatch waits. -/
theorem calm_of_executing (h : s.Inv) (hx : s.Executing fun u => u.is_unique = true) :
    s.sys.Quiet ∧ s.sys.rob.r_xcpt_val = false ∧ s.sys.rob.ready = false := by
  obtain ⟨a, hv, hexc, hu⟩ := hx
  exact calm_of_alone h.xcpt h.flushing hv hu hexc

theorem executing_unique (h : s.Inv) (hx : s.Executing fun u => Rob.flushes u = true) :
    s.Executing fun u => u.is_unique = true := by
  obtain ⟨a, hv, hexc, hf⟩ := hx
  exact ⟨a, hv, hexc, h.xcpt.flushes a hv hf⟩

/-- Without a delayed exception no sample is taken. -/
theorem not_taken (h : s.Inv) (h1 : s.sys.rob.exc_d1 = false) :
    s.isOverFlowExcpt = false ∧ s.csr_exception = false := by
  have hnone : s.com_xcpt_d1 = none := by
    by_contra hne
    exact absurd ((h.delayed (Option.isSome_iff_ne_none.2 hne)).1.symm.trans h1) (by simp)
  have hx : s.isOverFlowExcpt = false := by simp [Core.isOverFlowExcpt, hnone]
  exact ⟨hx, by simp [Core.csr_exception, hx, hnone]⟩

/-- The privilege level stays while the record holds the private cause, or
    while a marked uop waits that no flush will take away. -/
theorem prv_stays (h : s.Inv) (ok : s.Ok i) (h1 : s.sys.rob.exc_d1 = false)
    (hx : ¬ s.Executing fun u => Rob.flushes u = true) : i.new_prv = s.prv := by
  rcases ok.prv with e | e | e
  · exact e
  · exact absurd ((not_taken h h1).2.symm.trans e) (by simp)
  · exact absurd e hx

theorem open_of_flush (h : s.Inv) (hf : s.flush_d1 = false) : s.sys.rob.exc_d1 = false := by
  by_contra h1
  exact absurd ((h.thrown (by simpa using h1)).symm.trans hf) (by simp)

/-- Decode marks only during an overflow. -/
theorem overflow_of_marked (ok : s.Ok i) {w : Fin W} (hm : Core.marked (s.dec_uop i w) = true) :
    s.overflow_event = true := by
  by_contra ho
  rw [Core.dec_uop, if_neg ho] at hm
  simp only [Core.marked, Bool.and_eq_true, decide_eq_true_eq] at hm
  exact ok.dec_cause w hm.1 hm.2

section Next

variable [NeZero N] [NeZero W]

theorem sys_next : (s.next i).sys = s.sys.next (s.robIn i) := rfl

/-- An overflow with a marked uop in flight lasts, if nothing flushes. -/
theorem overflow_stays (h : s.Inv) (ok : s.Ok i) (hu : s.Undisturbed i) (hfl : s.InFlight i)
    (h1 : s.sys.rob.exc_d1 = false) (hx : ¬ s.Executing fun u => Rob.flushes u = true)
    (ho : s.overflow_event = true) : (s.next i).overflow_event = true :=
  overflow_next ho (prv_stays h ok h1 hx) (not_taken h h1).1 (hu hfl).1 (hu hfl).2

/-- What is recorded with the private cause was recorded before, or comes from
    a marked uop of rename2. -/
theorem recorded_cases (x : s.sys.XInv) (ok : s.Ok i) (hr : (s.next i).sys.rob.r_xcpt_val = true)
    (hc : (s.next i).sys.rob.r_xcpt_uop.exc_cause = cause_OverFlow) : s.sys.Quiet ∧
      (s.sys.rob.r_xcpt_val = true ∧ s.sys.rob.r_xcpt_uop.exc_cause = cause_OverFlow ∧
          (s.next i).sys.record = s.sys.record ∨
        ∃ w, s.dis_fire i w = true ∧ Core.marked (s.ren2_uop w) = true ∧
          (s.next i).sys.record = (s.sys.rob.rob_tail, w)) := by
  rw [sys_next] at hr hc ⊢
  have hcause : ((s.sys.next (s.robIn i)).rob.r_xcpt_uop).exc_cause =
      (s.sys.rob.next_xcpt (s.robIn i).toIn).2.exc_cause := rfl
  rw [r_xcpt_val_next] at hr
  simp only [Bool.and_eq_true, Bool.not_eq_true', Bool.or_eq_false_iff] at hr
  obtain ⟨hv, hf, -⟩ := hr
  rw [hcause] at hc
  rw [record_next_eq]
  by_cases hq : s.sys.Quiet
  · refine ⟨hq, ?_⟩
    rcases next_xcpt_cases hf hq.2.2 with ⟨x, hx, -, heq⟩ | ⟨w, -, -, hw, -, heq⟩ | ⟨heq, -, -⟩ <;>
      rw [heq] at hv hc ⊢
    · exact absurd hc (ok.lxcpt_cause x hx)
    · simp only [Rob.enq_xcpts, Bool.and_eq_true] at hw
      refine .inr ⟨w, hw.1, ?_, rfl⟩
      rw [Core.marked, show (s.ren2_uop w).exception = true from hw.2,
        show (s.ren2_uop w).exc_cause = cause_OverFlow from hc]
      simp
    · exact .inl ⟨hv, hc, rfl⟩
  · rw [next_xcpt_flush ok.xcpt hq, x.cleared hq] at hv
    exact absurd hv (by simp)

/-- A uop that flushes at its commit leaves only with a flush. -/
theorem draining_next (h : s.Inv) (ok : s.Ok i) (hq : s.sys.Quiet) {a : RobIdx N W}
    (hv : s.sys.Val a) (hf : Rob.flushes (s.sys.rob.bank a.1 a.2).uop = true) :
    (s.next i).Draining := by
  by_cases hflush : s.sys.rob.flush_val (s.robIn i).toIn = true
  · exact .inl hflush
  · simp only [Rob.flush_val, Bool.or_eq_true, not_or, Bool.not_eq_true] at hflush
    obtain ⟨ht, hc⟩ := hflush
    have hu := h.xcpt.flushes a hv hf
    obtain ⟨hrow, -, -⟩ := h.xcpt.alone a hv hu
    have hstay : (s.sys.next (s.robIn i)).Val a := by
      refine alone_stays h.xcpt ok.rob hq hv hu ?_
      by_contra hcom
      simp only [Rob.commit_at, Bool.not_eq_false, Bool.and_eq_true, decide_eq_true_eq] at hcom
      have hmask := List.any_eq_false.1 hc a.2 (List.mem_finRange _)
      rw [hrow] at hf
      rw [Rob.flush_commit_mask, hcom.2, Rob.commit_uops, Rob.com_idx,
        if_neg hq.2.2, flushes_congr (markMispredict_base _ _ _), hf] at hmask
      exact hmask rfl
    refine .inr ⟨Quiet.next hq ht, a, hstay, ?_⟩
    rcases uop_next_cases h.sys ok.rob hstay with ⟨-, hbase⟩ | ⟨he, -⟩
    · rw [sys_next, flushes_congr hbase]
      exact hf
    · exact absurd hv (enq_free h.sys ok.rob he)

theorem record_next (h : s.Inv) (ok : s.Ok i) (hu : s.Undisturbed i)
    (hr : (s.next i).sys.rob.r_xcpt_val = true)
    (hc : (s.next i).sys.rob.r_xcpt_uop.exc_cause = cause_OverFlow) :
    (s.next i).overflow_event = true := by
  obtain ⟨hq, ⟨hv, hcause, -⟩ | ⟨w, hw, hm, -⟩⟩ := recorded_cases h.xcpt ok hr hc
  · refine overflow_stays h ok hu (.inr (.inr ⟨hv, hcause⟩)) hq.1 (fun hx => ?_) (h.record hv hcause)
    have hcalm := (calm_of_executing h (executing_unique h hx)).2.1
    exact absurd (hv.symm.trans hcalm) (by simp)
  · obtain ⟨hv, hready, -, -, -, hredir⟩ := open_of_fire hw
    have ho : s.overflow_event = true := by
      rcases h.ren2 w hv hm with ho | hf | ⟨-, a, hva, hfa⟩
      · exact ho
      · exact absurd (hf.symm.trans (flush_of_redirect hredir)) (by simp)
      · obtain ⟨-, -, hstate⟩ := h.xcpt.alone a hva (h.xcpt.flushes a hva hfa)
        rcases hstate with e | e <;> simp [Rob.ready, e] at hready
    refine overflow_stays h ok hu (.inl ⟨w, hv, hm⟩) hq.1 (fun hx => ?_) ho
    have hcalm := (calm_of_executing h (executing_unique h hx)).2.2
    exact absurd (hready.symm.trans hcalm) (by simp)

theorem taken_next (h : s.Inv) (ok : s.Ok i) (hu : s.Undisturbed i)
    (ht : (s.next i).com_xcpt_d1 = some cause_OverFlow) : (s.next i).overflow_event = true := by
  have hcom : (s.next i).com_xcpt_d1 = if s.sys.rob.com_xcpt_valid (s.robIn i).toIn then
      some s.sys.rob.r_xcpt_uop.exc_cause else none := rfl
  rw [hcom, Option.ite_none_right_eq_some, Rob.com_xcpt_valid, Bool.and_eq_true,
    Option.some.injEq] at ht
  obtain ⟨⟨hthrow, -⟩, hc⟩ := ht
  obtain ⟨w, -, hw⟩ := List.any_eq_true.1 hthrow
  obtain ⟨hr, -⟩ := record_of_throws h.xcpt hw
  obtain ⟨hq, -⟩ := thrown_open hthrow
  refine overflow_stays h ok hu (.inr (.inr ⟨hr, hc⟩)) hq.1 (fun hx => ?_) (h.record hr hc)
  have hcalm := (calm_of_executing h (executing_unique h hx)).2.1
  exact absurd (hr.symm.trans hcalm) (by simp)

theorem ren2_next (h : s.Inv) (ok : s.Ok i) (hu : s.Undisturbed i) {w : Fin W}
    (hv : (s.next i).ren2_valid w = true) (hm : Core.marked ((s.next i).ren2_uop w) = true) :
    (s.next i).overflow_event = true ∨ (s.next i).Draining := by
  have hvalid : (s.next i).ren2_valid w = s.ren2_valid_next i w := rfl
  have huop : Core.marked ((s.next i).ren2_uop w) = Core.marked
      (if !s.redirect_flush i && s.dis_ready i then s.dec_uop i w else s.ren2_uop w) := rfl
  rw [hvalid, Core.ren2_valid_next] at hv
  rw [huop] at hm
  cases hredir : s.redirect_flush i with
  | true => simp [hredir] at hv
  | false =>
    have hf := flush_of_redirect hredir
    have h1 := open_of_flush h hf
    rw [hredir, if_neg Bool.false_ne_true] at hv
    rw [hredir, Bool.not_false, Bool.true_and] at hm
    -- an overflow in flight, unless a system instruction is about to end it
    have hcase : s.InFlight i → s.overflow_event = true →
        (s.next i).overflow_event = true ∨ (s.next i).Draining := by
      intro hfl ho
      by_cases hx : s.Executing fun u => Rob.flushes u = true
      · obtain ⟨hq, -, -⟩ := calm_of_executing h (executing_unique h hx)
        obtain ⟨a, hva, -, hfa⟩ := hx
        exact .inr (draining_next h ok hq hva hfa)
      · exact .inl (overflow_stays h ok hu hfl h1 hx ho)
    cases hready : s.dis_ready i with
    | true =>
      rw [hready, if_pos rfl] at hv hm
      have ho := overflow_of_marked ok hm
      exact hcase (.inr (.inl ⟨ho, w, hv⟩)) ho
    | false =>
      rw [hready, if_neg Bool.false_ne_true] at hv hm
      simp only [Bool.and_eq_true] at hv
      rcases h.ren2 w hv.1 hm with ho | hd | ⟨hq, a, hva, hfa⟩
      · exact hcase (.inl ⟨w, hv.1, hm⟩) ho
      · exact absurd (hd.symm.trans hf) (by simp)
      · exact .inr (draining_next h ok hq hva hfa)

/-- The flush of an exception goes where the CSR file says. -/
theorem delayed_next (hd : (s.next i).com_xcpt_d1.isSome = true) :
    (s.next i).sys.rob.exc_d1 = true ∧ (s.next i).evec_redirect = true := by
  have hcom : s.sys.rob.com_xcpt_valid (s.robIn i).toIn = true := by
    by_contra hno
    have hnone : (s.next i).com_xcpt_d1 = none := if_neg hno
    rw [hnone] at hd
    exact absurd hd (by simp)
  have hboth := hcom
  simp only [Rob.com_xcpt_valid, Bool.and_eq_true] at hboth
  refine ⟨hboth.1, ?_⟩
  have hflush : s.sys.rob.flush_val (s.robIn i).toIn = true := by
    rw [Rob.flush_val, hboth.1, Bool.true_or]
  show (s.sys.rob.flush_val (s.robIn i).toIn &&
    Core.useCsrEvec (s.sys.rob.flush_typ (s.robIn i).toIn)) = true
  rw [hflush, Bool.true_and, Rob.flush_typ]
  simp only [hflush, Bool.not_true, Bool.false_eq_true, if_false, hboth.1, hboth.2,
    Bool.and_self, if_true]
  split_ifs <;> rfl

theorem inv_step (h : s.Inv) (ok : s.Ok i) (hu : s.Undisturbed i) : (s.next i).Inv where
  sys := Reorder.inv_step h.sys ok.rob
  xcpt := xinv_step h.sys h.xcpt ok.rob ok.xcpt
  thrown h1 := by
    have ht : s.sys.rob.exception_thrown (s.robIn i).toIn = true := h1
    show s.sys.rob.flush_val (s.robIn i).toIn = true
    rw [Rob.flush_val, ht, Bool.true_or]
  delayed hd := delayed_next hd
  flushing := Reorder.flushing_next h.sys h.xcpt ok.rob ok.xcpt h.flushing
  ren2 _ hv hm := ren2_next h ok hu hv hm
  record := record_next h ok hu
  taken := taken_next h ok hu

theorem inv_reach (h : (core.restrict Core.Undisturbed).Reach s) : s.Inv :=
  h.inv (P := Core.Inv) (fun _ h0 => inv_reset h0) (fun _ _ hi ok => inv_step hi ok.1 ok.2)

/-- **Every sample is handled**, in a run in which no custom write ends an
    overflow that has been marked: the exception that the ROB has thrown with
    the private cause is still an overflow, so it is taken away from the CSR
    file and jumps to the sample function, or it is an `ecall` of the user and
    `sampleHappen` is set.  The CSR file never sees the private cause. -/
theorem sample_handled (h : (core.restrict Core.Undisturbed).Reach s) (ok : s.Ok i) :
    (s.com_xcpt_d1 = some cause_OverFlow → s.overflow_event = true ∧
      (s.ucsr.exitFuncAddr ≠ 0 ∧ s.csr_exception = false ∧
          s.redirect_pc i = some s.ucsr.exitFuncAddr ∨
        s.ucsr.exitFuncAddr = 0 ∧ s.csr_exception = true ∧ s.csr_cause = user_ecall ∧
          (s.next i).ucsr.sampleHappen = 1)) ∧
    (s.csr_exception = true → s.csr_cause ≠ cause_OverFlow) := by
  have hi := inv_reach h
  have hover : s.com_xcpt_d1 = some cause_OverFlow → s.isOverFlowExcpt = true := fun ht => by
    simp [Core.isOverFlowExcpt, ht, hi.taken ht]
  refine ⟨fun ht => ⟨hi.taken ht, ?_⟩, fun hexc hcause => ?_⟩
  · obtain ⟨h1, hevec⟩ := hi.delayed (by rw [ht]; rfl)
    have hx := hover ht
    by_cases haddr : s.ucsr.exitFuncAddr = 0
    · refine .inr ⟨haddr, ?_, ?_, ?_⟩
      · simp [Core.csr_exception, hx, haddr]
      · simp [Core.csr_cause, hx, haddr]
      · -- nothing executes now, so the registers are not written
        have hnil : i.ucsr_writes = [] := by
          refine List.eq_nil_iff_forall_not_mem.2 fun p hp => ?_
          obtain ⟨a, hv, hexc, -, hu, -⟩ := ok.writes p hp
          have hq := (calm_of_executing hi ⟨a, hv, hexc, hu⟩).1
          exact absurd (h1.symm.trans hq.1) (by simp)
        show (s.ucsr_next i).sampleHappen = 1
        simp [Core.ucsr_next, hnil, Core.exit_next, hx, Core.redirect_next, Core.sample_redirect,
          hevec, haddr]
    · refine .inl ⟨haddr, ?_, ?_⟩
      · simpa [Core.csr_exception, hx] using haddr
      · simp only [Core.redirect_pc, hevec, hx, Bool.not_true, Bool.false_eq_true, if_false,
          if_true, ne_eq, haddr, not_false_eq_true]
  · cases hx : s.isOverFlowExcpt with
    | true =>
      simp only [Core.csr_cause, hx, if_true] at hcause
      split_ifs at hcause <;> exact absurd hcause (by decide)
    | false =>
      simp only [Core.csr_exception, Core.csr_cause, hx, Bool.false_eq_true, if_false] at hexc hcause
      obtain ⟨c, hc⟩ := Option.isSome_iff_exists.1 hexc
      rw [hc, Option.getD_some] at hcause
      rw [hcause] at hc
      exact absurd ((hover hc).symm.trans hx) (by simp)

end Next

end

/-! ## Two runs -/

section Runs

/-- A uop with `addi x0, rs1, tag`, if there is a tag. -/
def userUop (tag : Option (BitVec 12)) : RobUop 2 1 1 where
  uopc := 1
  inst := (tag.getD 0).setWidth 32 <<< 20
  is_fence := false
  is_fencei := false
  is_unique := tag.isSome
  is_sys_pc2epc := false
  flush_on_commit := false
  ucsrInst := tag.isSome
  isUnsafe := false
  exception := false
  exc_cause := 0
  rob_idx := (0, 0)
  br_mask _ := false
  debug_fsrc := 0
  taken := false

/-- A return from a trap. -/
def mret : RobUop 2 1 1 :=
  { userUop none with uopc := uopERET, is_unique := true, flush_on_commit := true }

/-- Two rows of one bank, after reset. -/
def resetCore : Core 2 1 1 40 where
  sys :=
    { rob :=
        { rob_state := .s_reset
          rob_head := 0
          rob_head_lsb := 0
          rob_tail := 0
          rob_tail_lsb := 0
          rob_pnr := 0
          rob_pnr_lsb := 0
          pnr_maybe_at_tail := false
          maybe_full := false
          r_partial_row := false
          r_xcpt_val := false
          r_xcpt_uop := userUop none
          exc_d1 := false
          exc_d2 := false
          bank := fun _ _ => ⟨false, false, false, false, false, userUop none⟩ }
      pending := none
      disp_lsb := 0
      now := 0
      born := fun _ _ => 0
      enqueued := []
      committed := [] }
  ren2_valid _ := false
  ren2_uop _ := userUop none
  ucsr := .reset
  prv := 3
  user_d1 := false
  user_d2 := false
  arch_d1 := 0
  flush_d1 := false
  flush_typ_d1 := .none
  com_xcpt_d1 := none
  evec_d1 := 0
  evec_d2 := 0

/-- A cycle that may decode a uop, write one back and write a register. -/
def cycle (dec : Option (RobUop 2 1 1)) (wb : List (Fin 2)) (writes : List (BitVec 12 × BitVec 64))
    (prv : BitVec 2) : In 2 1 1 40 where
  back :=
    { enq_valids := fun _ => false
      enq_uops := fun _ => userUop none
      enq_partial_stall := false
      b1 := ⟨fun _ => false, fun _ => false⟩
      b2 := none
      wb_resps := wb.map fun r => ⟨(r, 0), false⟩
      lsu_clr_bsy := []
      lsu_clr_unsafe := []
      lxcpt := none
      csr_stall := false
      oldest := none }
  dec_valids _ := dec.isSome
  dec_uops _ := dec.getD (userUop none)
  dec_block _ := false
  dis_block _ := false
  disableOOO := false
  fencei_rdy := true
  ucsr_writes := writes
  com_misp_cfi := 0
  perf_acquire := false
  perf_tlbMiss := false
  new_prv := prv
  com_pc := 0
  evec := 0

/-- Some row holds a uop that executes and passes the test. -/
def executes (s : Core 2 1 1 40) (test : RobUop 2 1 1 → Bool) : Bool :=
  (List.finRange 2).any fun r =>
    (s.sys.rob.bank r 0).val && !(s.sys.rob.bank r 0).exception && test (s.sys.rob.bank r 0).uop

/-- A cycle without branches and without exceptions of decode and the LSU. -/
def calm (s : Core 2 1 1 40) (i : In 2 1 1 40) : Bool :=
  (i.back.oldest.isNone && i.back.b2.isNone && s.sys.pending.isNone && i.back.lxcpt.isNone &&
    !i.back.b1.mispredict_mask 0 && !i.back.b1.resolve_mask 0 && !(i.dec_uops 0).exception) &&
  (!s.dis_fire i 0 || s.sys.rob.ready && decide s.sys.Quiet && decide (s.sys.disp_lsb = 0) &&
    (!(s.ren2_uop 0).is_unique || s.sys.rob.empty) &&
    (!Rob.flushes (s.ren2_uop 0) || (s.ren2_uop 0).is_unique)) &&
  (i.ucsr_writes.all fun p => executes s fun u =>
    u.ucsrInst && u.is_unique && decide (u.inst.extractLsb' 20 12 = p.1)) &&
  (decide (i.new_prv = s.prv) || s.csr_exception || executes s Rob.flushes)

theorem executing_of_executes {s : Core 2 1 1 40} {test : RobUop 2 1 1 → Bool}
    (h : executes s test = true) : s.Executing fun u => test u = true := by
  obtain ⟨r, -, hr⟩ := List.any_eq_true.1 h
  simp only [Bool.and_eq_true, Bool.not_eq_true'] at hr
  exact ⟨(r, 0), hr.1.1, hr.1.2, hr.2⟩

theorem ok_of_calm (s : Core 2 1 1 40) (i : In 2 1 1 40) (h : calm s i = true) : s.Ok i := by
  simp only [calm, Bool.and_eq_true, Option.isNone_iff_eq_none, Bool.not_eq_true',
    List.all_eq_true, Bool.or_eq_true, decide_eq_true_eq] at h
  obtain ⟨⟨⟨⟨⟨⟨⟨⟨⟨hold, hb2⟩, hpend⟩, hlx⟩, hmis⟩, hres⟩, hdec⟩, hfire⟩, hwr⟩, hprv⟩ := h
  have hmis' : ∀ t, i.back.b1.mispredict_mask t = false := fun t => by
    rw [Subsingleton.elim t 0]
    exact hmis
  -- what dispatch does is about its only slot
  have henq : ∀ w, (s.robIn i).enq_valids w = true → w = 0 ∧ s.sys.rob.ready = true ∧
      s.sys.Quiet ∧ s.sys.disp_lsb = 0 ∧
      ((s.ren2_uop 0).is_unique = false ∨ s.sys.rob.empty = true) ∧
      (Rob.flushes (s.ren2_uop 0) = false ∨ (s.ren2_uop 0).is_unique = true) := by
    intro w hw
    obtain rfl : w = 0 := Subsingleton.elim w 0
    rcases hfire with hno | ⟨⟨⟨⟨hr, hq⟩, hl⟩, hu⟩, hf⟩
    · exact absurd (hno.symm.trans hw) (by simp)
    · exact ⟨rfl, hr, hq, hl, hu, hf⟩
  have hany : Rob.enq (s.robIn i).toIn = true → (s.robIn i).enq_valids 0 = true := by
    intro he
    obtain ⟨w, -, hw⟩ := List.any_eq_true.1 he
    rw [← Subsingleton.elim w 0]
    exact hw
  refine
    { rob :=
        { enq_ready := fun he => ⟨(henq 0 (hany he)).2.1, hb2, hold⟩
          enq_idx := fun w _ => rfl
          enq_slot := fun w hw => by rw [(henq w hw).2.2.2.1]; exact Nat.zero_le _
          b2 := by rw [hpend]; show i.back.b2.map _ = none; rw [hb2]; rfl
          quiet := fun _ => hmis'
          kill := fun b hb => absurd (hb.symm.trans hold) (by simp)
          drained := fun hs => by
            rw [show (s.robIn i).oldest = none from hold] at hs
            exact absurd hs (by simp) }
      xcpt :=
        { enq_calm := fun he => (henq 0 (hany he)).2.2.1
          enq_mask := fun w _ => funext fun t => ?_
          enq_unique := fun w hw hu => ?_
          enq_flush := fun w hw hf => ?_
          lxcpt := fun x hx => absurd (hx.symm.trans hlx) (by simp) }
      dec_cause := fun w hx => ?_
      lxcpt_cause := fun x hx => absurd (hx.symm.trans hlx) (by simp)
      writes := fun p hp => ?_
      prv := ?_ }
  · show (_ && !i.back.b1.resolve_mask t && !i.back.b1.resolve_mask t) =
      (_ && !i.back.b1.resolve_mask t)
    rw [Subsingleton.elim t 0, hres]
    simp
  · obtain ⟨rfl, -, -, -, hun, -⟩ := henq w hw
    exact ⟨hun.resolve_left (by rw [show (s.ren2_uop 0).is_unique = true from hu]; simp),
      fun v _ => Subsingleton.elim v 0⟩
  · obtain ⟨rfl, -, -, -, -, hfl⟩ := henq w hw
    have hf' : Rob.flushes (s.ren2_uop 0) = true := (flushes_congr rfl).trans hf
    exact hfl.resolve_left (by rw [hf']; simp)
  · rw [Subsingleton.elim w 0, hdec] at hx
    exact absurd hx (by simp)
  · have hex := executing_of_executes (hwr p hp)
    simpa only [Bool.and_eq_true, decide_eq_true_eq, and_assoc] using hex
  · rcases hprv with (h1 | h2) | h3
    · exact .inl h1
    · exact .inr (.inl h2)
    · exact .inr (.inr (executing_of_executes h3))

/-- No write disturbs, or nothing is in flight. -/
def undisturbed (s : Core 2 1 1 40) (i : In 2 1 1 40) : Bool :=
  ((i.ucsr_writes.all fun p => !Core.disturbs p) ||
    !(s.ren2_valid 0 && Core.marked (s.ren2_uop 0)) && !s.overflow_event && !s.sys.rob.r_xcpt_val) &&
  decide (s.ucsr.nowEventNum.toNat + (s.event i).toNat < 2 ^ 64)

theorem undisturbed_of_test (s : Core 2 1 1 40) (i : In 2 1 1 40) (h : undisturbed s i = true) :
    s.Undisturbed i := by
  simp only [undisturbed, Bool.and_eq_true, Bool.or_eq_true, List.all_eq_true, Bool.not_eq_true',
    Bool.and_eq_false_iff, decide_eq_true_eq] at h
  obtain ⟨hw | ⟨⟨hren, hov⟩, hrec⟩, hc⟩ := h
  · exact fun _ => ⟨hw, hc⟩
  · rintro (⟨w, hv, hm⟩ | ⟨ho, -⟩ | ⟨hr, -⟩)
    · rw [Subsingleton.elim w 0] at hv hm
      rcases hren with hno | hno
      · exact absurd (hv.symm.trans hno) (by simp)
      · exact absurd (hm.symm.trans hno) (by simp)
    · exact absurd (ho.symm.trans hov) (by simp)
    · exact absurd (hr.symm.trans hrec) (by simp)

theorem resetCore_reset : resetCore.Reset := by
  refine ⟨?_, fun _ => rfl, rfl, rfl, rfl, rfl⟩
  constructor <;> intros <;> rfl

/-- From reset to user mode, by `mret`. -/
def toUser : List (In 2 1 1 40) :=
  [cycle none [] [] 3, cycle (some mret) [] [] 3, cycle none [] [] 3, cycle none [0] [] 0,
    cycle none [] [] 0, cycle none [] [] 0]

/-- `procTag` and a limit of one event are written, and two instructions
    follow. -/
def arm : List (In 2 1 1 40) :=
  [cycle (some (userUop (some setUCSR_ProcTag))) [] [] 0,
    cycle (some (userUop (some setUCSR_MaxEventNum))) [] [] 0,
    cycle none [1] [(setUCSR_ProcTag, 0x1234567)] 0, cycle none [] [] 0, cycle none [] [] 0,
    cycle (some (userUop none)) [] [] 0, cycle none [0] [(setUCSR_MaxEventNum, 1)] 0,
    cycle none [] [] 0, cycle none [] [] 0, cycle (some (userUop none)) [] [] 0]

/-- They commit, the next one is decoded over the limit, and it throws. -/
def sampled : List (In 2 1 1 40) :=
  toUser ++ arm ++ [cycle none [1] [] 0, cycle none [] [] 0, cycle none [] [] 0,
    cycle none [0] [] 0, cycle none [] [] 0, cycle (some (userUop none)) [] [] 0,
    cycle none [] [] 0, cycle none [] [] 0]

set_option maxRecDepth 20000 in
theorem sample_handled_sampled :
    let s := core.run resetCore sampled
    s.com_xcpt_d1 = some cause_OverFlow ∧ s.overflow_event = true ∧ s.csr_exception = true ∧
      s.csr_cause ≠ cause_OverFlow := by
  have test : ∀ s i, (calm s i && undisturbed s i) = true →
      (core.restrict Core.Undisturbed).ok s i := by
    intro s i h
    rw [Bool.and_eq_true] at h
    exact ⟨ok_of_calm s i h.1, undisturbed_of_test s i h.2⟩
  have hreach : (core.restrict Core.Undisturbed).Reach (core.run resetCore sampled) :=
    Machine.reach_run (M := core.restrict Core.Undisturbed) sampled (.start resetCore_reset)
      (Machine.accepts_of_passes test sampled resetCore (by decide))
  have hok : (core.run resetCore sampled).Ok (cycle none [] [] 3) := ok_of_calm _ _ (by decide)
  have hx : (core.run resetCore sampled).com_xcpt_d1 = some cause_OverFlow := by decide
  have hexc : (core.run resetCore sampled).csr_exception = true := by decide
  exact ⟨hx, ((sample_handled hreach hok).1 hx).1, hexc, (sample_handled hreach hok).2 hexc⟩

/-- Before the limit is reached, a write that ends the sampling is decoded.  It
    waits for the ROB to be empty; in the cycle in which it leaves rename2, the
    next instruction is marked. -/
def disarmed : List (In 2 1 1 40) :=
  toUser ++ arm ++ [cycle (some (userUop (some setUCSR_ProcTag))) [1] [] 0, cycle none [] [] 0,
    cycle none [] [] 0, cycle none [0] [] 0, cycle none [] [] 0,
    cycle (some (userUop none)) [] [] 0, cycle none [1] [(setUCSR_ProcTag, 0)] 0,
    cycle none [] [] 0, cycle none [] [] 0, cycle none [] [] 0, cycle none [] [] 0]

set_option maxRecDepth 20000 in
/-- **The private cause reaches the CSR file.** -/
theorem cause_leaks : ¬ ∀ s : Core 2 1 1 40, core.Reach s →
    (s.com_xcpt_d1 = some cause_OverFlow → s.overflow_event = true) ∧
      (s.csr_exception = true → s.csr_cause ≠ cause_OverFlow) := by
  intro hall
  have hreach : core.Reach (core.run resetCore disarmed) :=
    Machine.reach_run disarmed (.start resetCore_reset)
      (Machine.accepts_of_passes ok_of_calm disarmed resetCore (by decide))
  exact (hall _ hreach).2 (by decide) (by decide)

end Runs

end BoomStop.Sampling
