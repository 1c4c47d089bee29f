/-
  How often a sample is taken: a delivery clears `maxEventNum`, so that the next
  one needs a `SetMaxEventNum` with a value that is not zero, and more events than
  this value after it.  The marked uops that are in flight at a delivery are
  flushed.

  * `Core.counted`: the events that a cycle counts;
  * `foldl_setUCSR`, `counter_next`: what a cycle does to the limit and to the
    event counter;
  * `Base`, `base_step`: what a delivery finds in the pipeline;
  * `armed_since`, `young_since`: what holds since a delivery;
  * `one_sample_per_arming`: the result.
-/
import Mathlib.Algebra.BigOperators.Intervals
import BoomStop.SampleLeak

namespace BoomStop.Sampling

open Sync Reorder

variable {N W T va : ℕ}

/-- The events that the cycle adds to `nowEventNum`. -/
def Core.counted (s : Core N W T va) (i : In N W T va) : ℕ :=
  if s.sampleValid then (s.event i).toNat else 0

/-! ## The registers -/

/-- The last `SetMaxEventNum` of a cycle decides. -/
theorem foldl_setUCSR (ps : List (BitVec 12 × BitVec 64)) (u : Ucsr va) :
    let u' := ps.foldl (fun u p => u.setUCSR p.1 p.2) u
    (∃ p ∈ ps, p.1 = setUCSR_MaxEventNum ∧ u'.maxEventNum = p.2 ∧ u'.nowEventNum = 0) ∨
      u'.maxEventNum = u.maxEventNum ∧ u'.nowEventNum = u.nowEventNum := by
  induction ps generalizing u with
  | nil => exact .inr ⟨rfl, rfl⟩
  | cons p ps ih =>
    rcases ih (u.setUCSR p.1 p.2) with ⟨q, hq, htag, hmax, hnow⟩ | ⟨hmax, hnow⟩
    · exact .inl ⟨q, List.mem_cons_of_mem _ hq, htag, hmax, hnow⟩
    · rw [Ucsr.setUCSR_maxEventNum] at hmax
      rw [Ucsr.setUCSR_nowEventNum] at hnow
      by_cases htag : p.1 = setUCSR_MaxEventNum
      · rw [if_pos htag] at hmax hnow
        exact .inl ⟨p, List.mem_cons_self, htag, hmax, hnow⟩
      · rw [if_neg htag] at hmax hnow
        exact .inr ⟨hmax, hnow⟩

section

variable {s : Core N W T va} {i : In N W T va}

theorem maxEventNum_count_next : (s.count_next i).maxEventNum = s.ucsr.maxEventNum := by
  unfold Core.count_next Core.warmup_next
  split_ifs <;> rfl

theorem nowEventNum_count_next :
    (s.count_next i).nowEventNum.toNat ≤ s.ucsr.nowEventNum.toNat + s.counted i := by
  unfold Core.count_next Core.counted
  by_cases hv : s.sampleValid = true
  · rw [if_pos hv, if_pos hv]
    exact (BitVec.toNat_add ..).trans_le (Nat.mod_le _ _)
  · rw [if_neg hv, if_neg hv]
    unfold Core.warmup_next
    split_ifs
    · exact le_rfl
    · exact Nat.zero_le _
    · exact le_rfl

theorem maxEventNum_exit_next : (s.exit_next i).maxEventNum =
    if s.sample_redirect then 0 else s.ucsr.maxEventNum := by
  have hexit : (s.exit_next i).maxEventNum = (s.redirect_next i).maxEventNum := by
    unfold Core.exit_next
    split_ifs <;> rfl
  rw [hexit, ← maxEventNum_count_next (i := i), Core.redirect_next]
  cases s.sample_redirect with
  | false => rfl
  | true =>
    rw [Bool.not_true, if_neg Bool.false_ne_true, if_pos rfl]
    split_ifs <;> rfl

theorem nowEventNum_exit_next :
    (s.exit_next i).nowEventNum.toNat ≤ s.ucsr.nowEventNum.toNat + s.counted i := by
  have hexit : (s.exit_next i).nowEventNum = (s.redirect_next i).nowEventNum := by
    unfold Core.exit_next
    split_ifs <;> rfl
  rw [hexit, Core.redirect_next]
  split_ifs
  · exact nowEventNum_count_next
  · exact Nat.zero_le _
  · exact Nat.zero_le _

/-- After a cycle the limit is the value that was just written, or it was
    cleared, or it is the old one, and the counter has gone up by no more than
    the events of the cycle. -/
theorem counter_next : let u := s.ucsr_next i
    (∃ p ∈ i.ucsr_writes, p.1 = setUCSR_MaxEventNum ∧ u.maxEventNum = p.2 ∧ u.nowEventNum = 0) ∨
      u.maxEventNum = 0 ∨
      u.maxEventNum = s.ucsr.maxEventNum ∧
        u.nowEventNum.toNat ≤ s.ucsr.nowEventNum.toNat + s.counted i := by
  dsimp only
  refine (foldl_setUCSR i.ucsr_writes (s.exit_next i)).imp_right fun ⟨hmax, hnow⟩ => ?_
  rw [Core.ucsr_next, hmax, hnow, maxEventNum_exit_next]
  cases s.sample_redirect with
  | true => exact .inl rfl
  | false => exact .inr ⟨rfl, nowEventNum_exit_next⟩

/-! ## The pipeline -/

/-- What holds in every run. -/
structure Base (s : Core N W T va) : Prop where
  sys : s.sys.Inv
  xcpt : s.sys.XInv
  flushing : s.sys.Flushing
  delayed : s.com_xcpt_d1.isSome = true → s.sys.rob.exc_d1 = true

theorem base_reset (h : s.Reset) : Base s where
  sys := Reorder.inv_reset h.sys
  xcpt := xinv_reset h.sys
  flushing _ a ha := absurd (ha.symm.trans (h.sys.val a.1 a.2)) (by simp)
  delayed hd := by
    rw [h.xcpt] at hd
    exact absurd hd (by simp)

/-- A delivery comes during the flush of the exception. -/
theorem not_quiet_of_delivery (h : Base s) (hd : s.sample_redirect = true) : ¬ s.sys.Quiet := by
  simp only [Core.sample_redirect, Core.isOverFlowExcpt, Bool.and_eq_true, decide_eq_true_eq] at hd
  intro hq
  have hsome : s.com_xcpt_d1.isSome = true := by rw [hd.2.1]; rfl
  exact absurd ((h.delayed hsome).symm.trans hq.1) (by simp)

/-- During a flush no custom write executes. -/
theorem writes_of_not_quiet (h : Base s) (ok : s.Ok i) (hq : ¬ s.sys.Quiet) :
    i.ucsr_writes = [] := by
  refine List.eq_nil_iff_forall_not_mem.2 fun p hp => ?_
  obtain ⟨a, hv, hexc, -, hu, -⟩ := ok.writes p hp
  exact absurd (hexc.symm.trans (h.flushing hq a hv hu)) (by simp)

section Step

variable [NeZero N] [NeZero W]

theorem base_step (h : Base s) (ok : s.Ok i) : Base (s.next i) where
  sys := Reorder.inv_step h.sys ok.rob
  xcpt := xinv_step h.sys h.xcpt ok.rob ok.xcpt
  flushing := flushing_next h.sys h.xcpt ok.rob ok.xcpt h.flushing
  delayed hd := (delayed_next hd).1

theorem base_reach (h : core.Reach s) : Base s :=
  h.inv (P := Base) (fun _ h0 => base_reset h0) fun _ _ hi ok => base_step hi ok

/-- A delivery clears the limit. -/
theorem maxEventNum_of_delivery (h : Base s) (ok : s.Ok i) (hd : s.sample_redirect = true) :
    (s.next i).ucsr.maxEventNum = 0 := by
  show (s.ucsr_next i).maxEventNum = 0
  rw [Core.ucsr_next, writes_of_not_quiet h ok (not_quiet_of_delivery h hd), List.foldl_nil,
    maxEventNum_exit_next, if_pos hd]

/-- and rename2. -/
theorem ren2_of_delivery (hd : s.sample_redirect = true) (w : Fin W) :
    (s.next i).ren2_valid w = false := by
  simp only [Core.sample_redirect, Core.evec_redirect, Bool.and_eq_true] at hd
  show s.ren2_valid_next i w = false
  simp [Core.ren2_valid_next, Core.redirect_flush, hd.1.1]

end Step

end

/-! ## Runs -/

section Runs

variable [NeZero N] [NeZero W] (r : (core : Machine (Core N W T va) (In N W T va)).Run)

/-- A cycle takes a sample. -/
def Delivers (t : ℕ) : Prop := (r.state t).sample_redirect = true

variable {r}

theorem base (t : ℕ) : Base (r.state t) := base_reach (r.reach t)

/-- Since a delivery, a limit that is not zero was set by an instruction, and the
    counter holds no more than the events after it. -/
theorem armed_since {t₁ : ℕ} (hd : Delivers r t₁) (t : ℕ) (ht : t₁ < t)
    (hmax : (r.state t).ucsr.maxEventNum ≠ 0) :
    ∃ k, t₁ < k ∧ k < t ∧ (∃ p ∈ (r.input k).ucsr_writes, p.1 = setUCSR_MaxEventNum ∧
      p.2 = (r.state t).ucsr.maxEventNum) ∧ (r.state t).ucsr.nowEventNum.toNat ≤
        ∑ j ∈ Finset.Ico (k + 1) t, (r.state j).counted (r.input j) := by
  induction t, ht using Nat.le_induction with
  | base =>
    rw [r.next] at hmax
    exact absurd (maxEventNum_of_delivery (base t₁) (r.ok t₁) hd) hmax
  | succ t ht ih =>
    have hnext : (r.state (t + 1)).ucsr = (r.state t).ucsr_next (r.input t) := by
      rw [r.next]
      rfl
    rw [hnext] at hmax ⊢
    rcases counter_next (s := r.state t) (i := r.input t) with ⟨p, hp, htag, hval, hnow⟩ | h0 |
      ⟨hsame, hnow⟩
    · refine ⟨t, ht, Nat.lt_succ_self t, ⟨p, hp, htag, hval.symm⟩, ?_⟩
      rw [hnow]
      exact Nat.zero_le _
    · exact absurd h0 hmax
    · rw [hsame] at hmax ⊢
      obtain ⟨k, hk, hkt, hset, hle⟩ := ih hmax
      refine ⟨k, hk, hkt.trans (Nat.lt_succ_self t), hset, ?_⟩
      rw [Finset.sum_Ico_succ_top (show k + 1 ≤ t from hkt)]
      omega

theorem now_run (t : ℕ) : (r.state t).sys.now = (r.state 0).sys.now + t := by
  induction t with
  | zero => rfl
  | succ t ih =>
    have hnow : (r.state (t + 1)).sys.now = (r.state t).sys.now + 1 := by
      rw [r.next]
      rfl
    omega

/-- Once the flush of a delivery is over, what is in the ROB was dispatched after
    the delivery. -/
theorem young_since {t₁ : ℕ} (hd : Delivers r t₁) (t : ℕ) (ht : t₁ ≤ t)
    (hq : (r.state t).sys.Quiet) {a : RobIdx N W} (ha : (r.state t).sys.Val a) :
    (r.state t₁).sys.now < (r.state t).sys.born a.1 a.2 := by
  induction t, ht using Nat.le_induction generalizing a with
  | base => exact absurd hq (not_quiet_of_delivery (base t₁) hd)
  | succ t ht ih =>
    have hb := base (r := r) t
    have ok := r.ok t
    have hnext : (r.state (t + 1)).sys =
        (r.state t).sys.next ((r.state t).robIn (r.input t)) := by
      rw [r.next]
      rfl
    rw [hnext] at hq ha ⊢
    rcases quiet_next hb.xcpt hq with ⟨hs, -⟩ | ⟨hs, hroll, hempty⟩
    · rcases val_next_cases hb.sys ok.rob ha with ⟨hv, hborn⟩ | ⟨-, hborn, -⟩
      · rw [hborn]
        exact ih hs hv
      · -- the delivery itself was during a flush
        have hne : t₁ ≠ t := by
          rintro rfl
          exact not_quiet_of_delivery hb hd hs
        rw [hborn, now_run t, now_run t₁]
        omega
    · have henq := not_enq_of_rollback ok.rob hroll
      exact absurd (val_of_quiet henq ha) (not_val_of_rolled hb.sys hroll hempty a)

/-- **At most one sample per arming.**  Between two deliveries some instruction
    sets `maxEventNum` to a value that is not zero, and after it more events than
    this value are counted.  The cycle of a delivery empties rename2, and the uop
    that throws for a later delivery was dispatched after it: what is in flight
    at a delivery causes none. -/
theorem one_sample_per_arming {t₁ t₂ : ℕ} (h₁ : Delivers r t₁) (h₂ : Delivers r t₂)
    (hlt : t₁ < t₂) :
    (∃ t, t₁ < t ∧ t < t₂ ∧ ∃ p ∈ (r.input t).ucsr_writes, p.1 = setUCSR_MaxEventNum ∧ p.2 ≠ 0 ∧
      p.2.toNat + 1 ≤ ∑ k ∈ Finset.Ioo t t₂, (r.state k).counted (r.input k)) ∧
    (∀ w, (r.state (t₁ + 1)).ren2_valid w = false) ∧
    ∀ t w, t + 1 = t₂ →
      (r.state t).sys.rob.throws ((r.state t).robIn (r.input t)).toIn w = true →
      (r.state t₁).sys.now < (r.state t).sys.born (r.state t).sys.rob.rob_head w := by
  refine ⟨?_, fun w => ?_, fun t w ht hw => ?_⟩
  · have hover := h₂
    simp only [Delivers, Core.sample_redirect, Core.isOverFlowExcpt, Core.overflow_event,
      Core.sampleValid, Bool.and_eq_true, decide_eq_true_eq] at hover
    obtain ⟨-, -, ⟨⟨-, hmax⟩, -⟩, hgt⟩ := hover
    obtain ⟨t, ht, htlt, ⟨p, hp, htag, hval⟩, hle⟩ := armed_since h₁ t₂ hlt hmax
    refine ⟨t, ht, htlt, p, hp, htag, hval ▸ hmax, ?_⟩
    rw [← hval, BitVec.lt_def] at hgt
    exact hgt.trans_le hle
  · rw [r.next]
    exact ren2_of_delivery h₁ w
  · have hthrow : (r.state t).sys.rob.exception_thrown
        ((r.state t).robIn (r.input t)).toIn = true :=
      List.any_eq_true.2 ⟨w, List.mem_finRange w, hw⟩
    exact young_since h₁ t (by omega) (thrown_open hthrow).1 (throws_iff.1 hw).1.1

end Runs

/-! ## A run -/

section Twice

/-- Nothing is decoded, in user mode. -/
def idling : In 2 1 1 40 := cycle none [] [] 0

/-- After the first sample the limit is set again, and two more instructions
    follow. -/
def again : List (In 2 1 1 40) :=
  List.replicate 5 idling ++
    [cycle (some (userUop (some setUCSR_MaxEventNum))) [] [] 0, idling,
      cycle none [1] [(setUCSR_MaxEventNum, 1)] 0, idling, idling,
      cycle (some (userUop none)) [] [] 0, idling, cycle none [0] [] 0, idling, idling,
      cycle (some (userUop none)) [] [] 0, idling, idling]

/-- User code that waits for its instructions. -/
def Waits (s : Core 2 1 1 40) : Prop :=
  s.ren2_valid 0 = false ∧ s.prv = 0 ∧ s.sys.pending = none

theorem waits_step {s : Core 2 1 1 40} (h : Waits s) :
    core.ok s idling ∧ Waits (core.next s idling) := by
  obtain ⟨hv, hp, hpend⟩ := h
  have hdec : ∀ w, s.dec_fire idling w = false := fun w => by simp [Core.dec_fire, idling, cycle]
  refine ⟨ok_of_calm s idling ?_, ?_, rfl, rfl⟩
  · simp [calm, idling, cycle, userUop, hpend, hp, Core.dis_fire, hv]
  · show s.ren2_valid_next idling 0 = false
    simp [Core.ren2_valid_next, hdec, hv]

set_option maxRecDepth 20000 in

/-- The run of both, with nothing after it. -/
def sampledTwice : (core : Machine (Core 2 1 1 40) (In 2 1 1 40)).Run :=
  Machine.Run.of resetCore (Machine.pad (sampled ++ again) idling) resetCore_reset
    (Machine.ok_pad (fun _ => waits_step) _ _
      (Machine.accepts_of_passes ok_of_calm _ resetCore (by decide +kernel))
      ⟨by decide +kernel, by decide +kernel, by decide +kernel⟩)

set_option maxRecDepth 20000 in
theorem one_sample_per_arming_sampledTwice : ∃ t, 24 < t ∧ t < 42 ∧
    ∃ p ∈ (sampledTwice.input t).ucsr_writes, p.1 = setUCSR_MaxEventNum ∧ p.2 ≠ 0 ∧
      p.2.toNat + 1 ≤ ∑ k ∈ Finset.Ioo t 42,
        (sampledTwice.state k).counted (sampledTwice.input k) := by
  have h₁ : Delivers sampledTwice 24 := by
    unfold Delivers
    decide +kernel
  have h₂ : Delivers sampledTwice 42 := by
    unfold Delivers
    decide +kernel
  exact (one_sample_per_arming h₁ h₂ (by decide)).1

end Twice

end BoomStop.Sampling
