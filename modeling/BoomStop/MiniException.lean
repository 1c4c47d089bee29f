/-
  The event `mini_exception` (`core.scala`): a register that is set when the
  ROB flushes without a valid `com_xcpt` while the cause of the exception record
  is `MINI_EXCEPTION_MEM_ORDERING`.  The record keeps its cause after the
  exception has been handled, so a uop that flushes at its commit is counted,
  too, if the last recorded exception was one of memory ordering.

  * `State`: the ROB, the register, and the cause that was first reported for
    each entry;
  * `State.Inv`, `inv_step`: while no flush is in progress, the record has the
    cause of its entry;
  * `mini_exception_exact`: the result;
  * `flush_counted`: a run that counts too much.
-/
import BoomStop.RobXcpt

namespace BoomStop.MiniException

open Sync RingOrder Reorder

variable {N W T : ℕ}

/-- The ROB with its surroundings and the register of the core; `cause` is the
    cause that was first reported for an entry since it was enqueued. -/
structure State (N W T : ℕ) where
  sys : Sys N W T
  mini_exception : Bool
  cause : Fin N → Fin W → ℕ

/-- The inputs of a cycle. -/
structure In (N W T : ℕ) extends SysIn N W T where
  startCounter : Bool

namespace State

variable (s : State N W T) (i : In N W T)

/-- What the register takes on, from the outputs `flush.valid`, `com_xcpt.valid`
    and `com_xcpt.bits.cause` of the ROB. -/
def mini_exception_next : Bool :=
  s.sys.rob.flush_val i.toIn && !s.sys.rob.com_xcpt_valid i.toIn &&
    s.sys.rob.r_xcpt_uop.exc_cause = MINI_EXCEPTION_MEM_ORDERING

/-- `event_signals(61)`. -/
def event_signal : ℕ := if i.startCounter && s.mini_exception then 1 else 0

/-- The first report about an entry counts. -/
def cause_next (r : Fin N) (w : Fin W) : ℕ :=
  if s.sys.rob.enq_at i.toIn r w then (i.enq_uops w).exc_cause
  else match i.lxcpt with
    | some x =>
      if x.uop.rob_idx = (r, w) ∧ (s.sys.rob.bank r w).exception = false then x.cause
      else s.cause r w
    | none => s.cause r w

/-- One cycle. -/
def next [NeZero N] [NeZero W] : State N W T where
  sys := s.sys.next i.toSysIn
  mini_exception := s.mini_exception_next i
  cause := s.cause_next i

/-- The ROB throws an exception of memory ordering. -/
def ThrowsMini : Prop :=
  ∃ w, s.sys.rob.throws i.toIn w = true ∧
    s.cause s.sys.rob.rob_head w = MINI_EXCEPTION_MEM_ORDERING

/-- A uop flushes at its commit, and the last exception that was recorded was
    one of memory ordering. -/
def StaleFlush : Prop :=
  s.sys.rob.flush_commit i.toIn = true ∧ s.sys.rob.exception_thrown i.toIn = false ∧
    s.sys.rob.r_xcpt_uop.exc_cause = MINI_EXCEPTION_MEM_ORDERING

/-- The invariant. -/
structure Inv : Prop where
  rob : s.sys.Inv
  xcpt : s.sys.XInv
  cause : s.sys.Quiet → s.sys.rob.r_xcpt_val = true →
    s.sys.rob.r_xcpt_uop.exc_cause = s.cause s.sys.record.1 s.sys.record.2

end State

/-- The ROB and the event, from reset. -/
def mini [NeZero N] [NeZero W] : Machine (State N W T) (In N W T) where
  start s := s.sys.Reset
  ok s i := s.sys.Ok i.toSysIn ∧ s.sys.XOk i.toSysIn
  next s i := s.next i

section

variable {s : State N W T} {i : In N W T}

theorem cause_of_enq {a : RobIdx N W} (he : s.sys.rob.enq_at i.toIn a.1 a.2 = true) :
    s.cause_next i a.1 a.2 = (i.enq_uops a.2).exc_cause := by
  rw [State.cause_next, if_pos he]

theorem cause_of_report {x : Lxcpt N W T} (hx : i.lxcpt = some x)
    (he : s.sys.rob.enq_at i.toIn x.uop.rob_idx.1 x.uop.rob_idx.2 = false)
    (hexc : (s.sys.rob.bank x.uop.rob_idx.1 x.uop.rob_idx.2).exception = false) :
    s.cause_next i x.uop.rob_idx.1 x.uop.rob_idx.2 = x.cause := by
  rw [State.cause_next, if_neg (by simp [he]), hx]
  exact if_pos ⟨rfl, hexc⟩

/-- A second report changes nothing. -/
theorem cause_of_marked {a : RobIdx N W} (he : s.sys.rob.enq_at i.toIn a.1 a.2 = false)
    (hexc : (s.sys.rob.bank a.1 a.2).exception = true) :
    s.cause_next i a.1 a.2 = s.cause a.1 a.2 := by
  rw [State.cause_next, if_neg (by simp [he])]
  cases i.lxcpt with
  | none => rfl
  | some x => exact if_neg fun h => absurd (h.2.symm.trans hexc) (by simp)

/-- A report that replaces the record is the first one about its entry. -/
theorem first_report (h : s.Inv) (hok : s.sys.XOk i.toSysIn) (hq : s.sys.Quiet)
    {x : Lxcpt N W T} (hx : i.lxcpt = some x)
    (hold : s.sys.rob.r_xcpt_val = true →
      isOlder x.uop.rob_idx.toNat s.sys.record.toNat s.sys.rob.head_idx = true) :
    (s.sys.rob.bank x.uop.rob_idx.1 x.uop.rob_idx.2).exception = false := by
  obtain ⟨hv, -⟩ := hok.lxcpt x hx
  by_contra hexc
  rw [Bool.not_eq_false] at hexc
  obtain ⟨hr, hrec⟩ := h.xcpt.oldest hq _ ⟨hv, hexc⟩
  have hlt := (isOlder_iff h.xcpt.lsb hv (h.xcpt.record hq hr).1.1).1 (hold hr)
  rcases hrec with e | hgt
  · rw [e] at hlt
    exact before_asymm hlt hlt
  · exact before_asymm hlt hgt

section Next

variable [NeZero N] [NeZero W]

theorem cause_record_next (h : s.Inv) (ok : (mini (N := N)).ok s i) (hq : (s.next i).sys.Quiet)
    (hr : (s.next i).sys.rob.r_xcpt_val = true) :
    (s.next i).sys.rob.r_xcpt_uop.exc_cause =
      (s.next i).cause (s.next i).sys.record.1 (s.next i).sys.record.2 := by
  have hrec : (s.next i).sys.record = (s.sys.rob.next_xcpt i.toIn).2.rob_idx := rfl
  have hcause : (s.next i).sys.rob.r_xcpt_uop.exc_cause =
    (s.sys.rob.next_xcpt i.toIn).2.exc_cause := rfl
  have hval : (s.next i).sys.rob.r_xcpt_val = ((s.sys.rob.next_xcpt i.toIn).1 &&
    !(s.sys.rob.flush_val i.toIn ||
      Issue.isKilledByBranch i.b1 (s.sys.rob.next_xcpt i.toIn).2.br_mask)) := rfl
  rw [hval] at hr
  simp only [Bool.and_eq_true, Bool.not_eq_true', Bool.or_eq_false_iff] at hr
  obtain ⟨hv, hf, -⟩ := hr
  rw [hcause, hrec]
  show _ = s.cause_next i _ _
  rcases quiet_next h.xcpt hq with ⟨hs, -⟩ | ⟨hs, -⟩
  · rcases next_xcpt_cases hf hs.2.2 with ⟨x, hx, hold, heq⟩ | ⟨w, -, -, hw, -, heq⟩ |
      ⟨heq, -, -⟩ <;> rw [heq] at hv ⊢
    · have hlive := (ok.2.lxcpt x hx).1
      exact (cause_of_report hx (enq_at_of_val h.rob ok.1 hlive)
        (first_report h ok.2 hs hx hold)).symm
    · simp only [Rob.enq_xcpts, Bool.and_eq_true] at hw
      rw [ok.1.enq_idx w hw.1]
      exact (cause_of_enq (a := (s.sys.rob.rob_tail, w)) (by simp [Rob.enq_at, hw.1])).symm
    · obtain ⟨hlive, hexc⟩ := (h.xcpt.record hs hv).1
      exact (h.cause hs hv).trans (cause_of_marked (enq_at_of_val h.rob ok.1 hlive) hexc).symm
  · -- the record was cleared by the flush
    rw [next_xcpt_flush ok.2 hs, h.xcpt.cleared hs] at hv
    exact absurd hv (by simp)

theorem inv_step (h : s.Inv) (ok : (mini (N := N)).ok s i) : (s.next i).Inv where
  rob := Reorder.inv_step h.rob ok.1
  xcpt := xinv_step h.rob h.xcpt ok.1 ok.2
  cause := cause_record_next h ok

theorem inv_reach (h : (mini (N := N)).Reach s) : s.Inv :=
  h.inv (fun _ h0 => ⟨inv_reset h0, xinv_reset h0, fun _ hr =>
    absurd (hr.symm.trans h0.r_xcpt_val) (by simp)⟩) (fun _ _ hi ok => inv_step hi ok)

end Next

/-- An exception that is thrown has the cause of the record. -/
theorem throwsMini_iff (h : s.Inv) : s.ThrowsMini i ↔ s.sys.rob.exception_thrown i.toIn = true ∧
    s.sys.rob.r_xcpt_uop.exc_cause = MINI_EXCEPTION_MEM_ORDERING := by
  have hthrow : ∀ w, s.sys.rob.throws i.toIn w = true →
      s.sys.rob.r_xcpt_uop.exc_cause = s.cause s.sys.rob.rob_head w := by
    intro w hw
    have ht : s.sys.rob.exception_thrown i.toIn = true :=
      List.any_eq_true.2 ⟨w, List.mem_finRange w, hw⟩
    obtain ⟨hr, hrec, -⟩ := record_of_throws h.xcpt (i := i.toSysIn) hw
    have hc := h.cause (thrown_open (i := i.toSysIn) ht).1 hr
    rwa [hrec] at hc
  constructor
  · rintro ⟨w, hw, hc⟩
    exact ⟨List.any_eq_true.2 ⟨w, List.mem_finRange w, hw⟩, (hthrow w hw).trans hc⟩
  · rintro ⟨ht, hc⟩
    obtain ⟨w, -, hw⟩ := List.any_eq_true.1 ht
    exact ⟨w, hw, (hthrow w hw).symm.trans hc⟩

/-- The register is set by an exception of memory ordering, and by a flush that
    finds the record of an old one. -/
theorem mini_exception_next_iff (h : s.Inv) :
    s.mini_exception_next i = true ↔ s.ThrowsMini i ∨ s.StaleFlush i := by
  rw [throwsMini_iff h]
  simp only [State.mini_exception_next, State.StaleFlush, Rob.flush_val, Rob.com_xcpt_valid,
    Rob.is_mini_exception, Bool.and_eq_true, Bool.or_eq_true, Bool.not_eq_true',
    Bool.and_eq_false_iff, Bool.not_eq_false', decide_eq_true_eq]
  cases s.sys.rob.exception_thrown i.toIn <;> simp

theorem not_throwsMini_of_stale (h : s.Inv) (hst : s.StaleFlush i) : ¬ s.ThrowsMini i := by
  intro ht
  exact absurd (((throwsMini_iff h).1 ht).1.symm.trans hst.2.1) (by simp)

end

/-- **The event counts the flushes that find an old record, too.**  In a run,
    in every cycle in which the counters are on, event 61 tells whether an
    exception of memory ordering was thrown in the cycle before, if and only if
    no such cycle comes after one in which a uop flushes at its commit while
    the last recorded exception was one of memory ordering.  With the counters
    off there is no event. -/
theorem mini_exception_exact [NeZero N] [NeZero W] (r : (mini (N := N) (W := W) (T := T)).Run) :
    ((∀ t, (r.input (t + 1)).startCounter = true →
        ((r.state (t + 1)).event_signal (r.input (t + 1)) = 1 ↔
          (r.state t).ThrowsMini (r.input t))) ↔
      ∀ t, (r.input (t + 1)).startCounter = true → ¬ (r.state t).StaleFlush (r.input t)) ∧
    ∀ t, (r.input t).startCounter = false → (r.state t).event_signal (r.input t) = 0 := by
  have hsignal : ∀ t, (r.input (t + 1)).startCounter = true →
      ((r.state (t + 1)).event_signal (r.input (t + 1)) = 1 ↔
        (r.state t).ThrowsMini (r.input t) ∨ (r.state t).StaleFlush (r.input t)) := by
    intro t hstart
    rw [← mini_exception_next_iff (inv_reach (r.reach t)), State.event_signal, hstart, r.next]
    show (if (true && (r.state t).mini_exception_next (r.input t)) = true then 1 else 0) = 1 ↔ _
    cases (r.state t).mini_exception_next (r.input t) <;> simp
  refine ⟨⟨fun hall t hstart hst => ?_, fun hno t hstart => ?_⟩, fun t hoff => ?_⟩
  · have hthrow := (hall t hstart).1 ((hsignal t hstart).2 (.inr hst))
    exact not_throwsMini_of_stale (inv_reach (r.reach t)) hst hthrow
  · rw [hsignal t hstart]
    exact or_iff_left (hno t hstart)
  · simp [State.event_signal, hoff]

/-! ## A run -/

/-- `fence.i`, which flushes at its commit. -/
def flushUop (r w : Fin 2) : RobUop 2 2 1 :=
  { blankUop r w with is_unique := true, flush_on_commit := true }

/-- Nothing happens, and the counter may start. -/
def quiet : In 2 2 1 := { idle with startCounter := true }

/-- A load comes in and fails by memory ordering; after the rollback a uop
    follows that flushes at its commit. -/
def inputs : ℕ → In 2 2 1
  | 1 => { quiet with enq_valids := fun w => w = 0 }
  | 2 => { quiet with lxcpt := some ⟨blankUop 0 0, MINI_EXCEPTION_MEM_ORDERING⟩ }
  | 9 => { quiet with enq_valids := fun w => w = 0, enq_uops := flushUop 0 }
  | 10 => { quiet with wb_resps := [⟨(0, 0), false⟩] }
  | _ => quiet

theorem inputs_cases (t : ℕ) : t = 1 ∨ t = 2 ∨ t = 9 ∨
    (∀ w, (inputs t).enq_valids w = false) ∧ (inputs t).lxcpt = none := by
  unfold inputs
  split <;> simp [quiet, idle]

theorem inputs_calm (t : ℕ) : (inputs t).oldest = none ∧ (inputs t).b2 = none ∧
    (∀ k, (inputs t).b1.mispredict_mask k = false) ∧ (inputs t).startCounter = true := by
  unfold inputs
  split <;> exact ⟨rfl, rfl, fun _ => rfl, rfl⟩

/-- The core after reset. -/
def resetState : State 2 2 1 := ⟨resetSys, false, fun _ _ => 0⟩

theorem resetState_reset : resetState.sys.Reset := by
  constructor <;> intros <;> rfl

theorem pending_stream (t : ℕ) : (mini.stream resetState inputs t).sys.pending = none := by
  cases t with
  | zero => rfl
  | succ t => exact (inputs_calm t).1

set_option maxRecDepth 20000 in
theorem inputs_ok (t : ℕ) : mini.ok (mini.stream resetState inputs t) (inputs t) := by
  obtain ⟨hold, hb2, hmis, -⟩ := inputs_calm t
  have hp := pending_stream t
  rcases inputs_cases t with rfl | rfl | rfl | ⟨henq, hlx⟩
  · refine ⟨idle_ok _ _ hold hb2 hp hmis (by decide +kernel) (by decide +kernel)
      (by decide +kernel), by decide +kernel, by decide +kernel, by decide +kernel,
      by decide +kernel, by simp [inputs, quiet, idle]⟩
  · refine ⟨idle_ok _ _ hold hb2 hp hmis (by decide +kernel) (by decide +kernel)
      (by decide +kernel), by decide +kernel, by decide +kernel, by decide +kernel,
      by decide +kernel, fun x hx => ?_⟩
    obtain rfl := Option.some.inj hx
    exact ⟨by unfold Sys.Val; decide +kernel, by decide +kernel, rfl, by decide +kernel,
      by decide +kernel⟩
  · refine ⟨idle_ok _ _ hold hb2 hp hmis (by decide +kernel) (by decide +kernel)
      (by decide +kernel), by decide +kernel, by decide +kernel, by decide +kernel,
      by decide +kernel, by simp [inputs, quiet, idle]⟩
  · have hno : Rob.enq (inputs t).toIn = false := by simp [Rob.enq, henq]
    refine ⟨idle_ok _ _ hold hb2 hp hmis ?_ ?_ ?_, ?_, ?_, ?_, ?_, by simp [hlx]⟩ <;>
      simp [henq, hno]

/-- The run of `inputs`. -/
def failThenFlush : (mini (N := 2) (W := 2) (T := 1)).Run :=
  Machine.Run.of resetState inputs resetState_reset inputs_ok

set_option maxRecDepth 20000 in
theorem mini_exception_exact_failThenFlush : ¬ ∀ t,
    (failThenFlush.input (t + 1)).startCounter = true →
      ((failThenFlush.state (t + 1)).event_signal (failThenFlush.input (t + 1)) = 1 ↔
        (failThenFlush.state t).ThrowsMini (failThenFlush.input t)) := by
  rw [(mini_exception_exact failThenFlush).1]
  intro hno
  exact hno 11 (inputs_calm 12).2.2.2 ⟨by decide +kernel, by decide +kernel, by decide +kernel⟩

set_option maxRecDepth 20000 in
/-- **A flush at commit is counted.** -/
theorem flush_counted : ¬ ∀ (r : (mini (N := 2) (W := 2) (T := 1)).Run) (t : ℕ),
    (r.input (t + 1)).startCounter = true →
      ((r.state (t + 1)).event_signal (r.input (t + 1)) = 1 ↔
        (r.state t).ThrowsMini (r.input t)) := by
  intro hall
  have hsignal : (failThenFlush.state 12).event_signal (failThenFlush.input 12) = 1 := by
    decide +kernel
  obtain ⟨w, hw, -⟩ := (hall failThenFlush 11 (inputs_calm 12).2.2.2).1 hsignal
  have hno : ∀ w, (failThenFlush.state 11).sys.rob.throws (failThenFlush.input 11).toIn w = false := by
    decide +kernel
  exact absurd (hw.symm.trans (hno w)) (by simp)

end BoomStop.MiniException
