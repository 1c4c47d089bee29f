/-
  Runs of the load-store unit: how a report passes its stages, and what a fault
  does to a store.

  * `Inv.next`: the invariant of `StoreReady` is kept;
  * `clr_bsy_once`: a store that is neither killed nor faulting is reported
    once, two cycles after its entry is complete;
  * `faulted_not_sent`: a store whose translation faults is never sent to the
    cache.
-/
import BoomStop.StoreReady

namespace BoomStop.StoreReady

open Sync Relay
open Issue (getNewBrMask isKilledByBranch)
open LsuSched (Req)
open StoreDeps (Queues MicroOp)

variable {n m T W : ℕ}

namespace Lsu

variable [NeZero n] [NeZero m] {s : Lsu n m T W} {i : In n m T W} {v w : Fin W} {j : Fin n}

/-! ## The store that stays -/

section Stays

variable {k : ℕ}

theorem Stays.uop_eq (hs : s.Stays i j) : (s.next i).uop j = s.nextUop i j := hs.uop_next

theorem Stays.number (hs : s.Stays i j) : ((s.next i).uop j).number = (s.uop j).number := by
  rw [hs.uop_eq]
  rfl

theorem Stays.valid' (hs : s.Stays i j) : ((s.next i).q.stq j).valid = true := hs.valid_next

/-- A request of a pipe for a store, by its number. -/
theorem Inv.idx_of_number (h : s.Inv) (hok : s.Ok i) (hv : (s.q.stq j).valid = true) {a : Arm}
    (ha : a ≠ .sta_retry) (hf : s.fires i w a.req = true)
    (hn : (i.exe_req w).uop.number = (s.uop j).number) : s.Arrives i w j a := by
  have hj : i.armIdx w a = (i.exe_req w).stq_idx := by
    cases a <;> first | rfl | contradiction
  have harr : s.Arrives i w (i.exe_req w).stq_idx a := ⟨hf, hj⟩
  obtain ⟨hv', -, hu⟩ := h.valid_of_arrives hok harr
  have hjj := h.queues.number _ j hv' hv (by rw [(hu ha).number, hn])
  rw [hjj] at harr
  exact harr

theorem Inv.sta_in_next (h : s.Inv) (hok : s.Ok i) (hv : (s.q.stq j).valid = true) :
    (s.next i).sta_in (s.uop j).number = true ↔ s.sta_in (s.uop j).number = true ∨
      ∃ w, s.Arrives i w j .stad ∨ s.Arrives i w j .sta := by
  show (s.sta_in _ || _) = true ↔ _
  simp only [Bool.or_eq_true, List.any_eq_true, List.mem_finRange, true_and, Bool.and_eq_true,
    decide_eq_true_iff]
  refine or_congr_right (exists_congr fun w => ⟨?_, ?_⟩)
  · rintro ⟨hf | hf, hn⟩
    · exact .inl (h.idx_of_number hok hv (a := .stad) Arm.noConfusion hf hn)
    · exact .inr (h.idx_of_number hok hv (a := .sta) Arm.noConfusion hf hn)
  · rintro (ha | ha)
    · exact ⟨.inl ha.1, ((h.valid_of_arrives hok ha).2.2 Arm.noConfusion).number.symm⟩
    · exact ⟨.inr ha.1, ((h.valid_of_arrives hok ha).2.2 Arm.noConfusion).number.symm⟩

theorem Inv.std_in_next (h : s.Inv) (hok : s.Ok i) (hv : (s.q.stq j).valid = true) :
    (s.next i).std_in (s.uop j).number = true ↔ s.std_in (s.uop j).number = true ∨
      s.dataWrite i j = true := by
  show (s.std_in _ || _ || _) = true ↔ _
  rw [dataWrite_iff]
  simp only [Bool.or_eq_true, List.any_eq_true, List.mem_finRange, true_and, Bool.and_eq_true,
    decide_eq_true_iff, Option.any_eq_true, or_assoc]
  refine or_congr_right (or_congr (exists_congr fun w => ⟨?_, ?_⟩) (exists_congr fun x => ?_))
  · rintro ⟨hf | hf, hn⟩
    · exact .inr (h.idx_of_number hok hv (a := .stad) Arm.noConfusion hf hn)
    · exact .inl (h.idx_of_number hok hv (a := .std) Arm.noConfusion hf hn)
  · rintro (ha | ha)
    · exact ⟨.inr ha.1, ((h.valid_of_arrives hok ha).2.2 Arm.noConfusion).number.symm⟩
    · exact ⟨.inl ha.1, ((h.valid_of_arrives hok ha).2.2 Arm.noConfusion).number.symm⟩
  · refine and_congr_right fun hx => ?_
    obtain ⟨hvx, hux, -⟩ := fp_std_in hok hx
    constructor
    · intro hn
      exact h.queues.number _ j hvx hv (hux.number.trans hn)
    · rintro rfl
      exact hux.number.symm

theorem Inv.addr_next (h : s.Inv) (hok : s.Ok i) (hs : s.Stays i j)
    (ha : (s.nextSt i j).addr_valid = true) : (s.next i).sta_in (s.uop j).number = true := by
  rw [h.sta_in_next hok hs.valid]
  by_cases hw : ∃ w, s.addrIdx i w = some j
  · obtain ⟨w, hw⟩ := hw
    rcases Arrives.addrIdx_iff.1 hw with ha | ha | ha
    · exact .inr ⟨w, .inl ha⟩
    · exact .inr ⟨w, .inr ha⟩
    · exact .inl ((h.entry j hs.valid).addr ha.retry.2.1)
  · left
    rw [((nextSt_old hs.old hs.valid_next).2.1
      ((h.addrWrite_none hok).2 fun w h => hw ⟨w, h⟩)).1] at ha
    exact (h.entry j hs.valid).addr ha

theorem Inv.data_next (h : s.Inv) (hok : s.Ok i) (hs : s.Stays i j)
    (hd : (s.nextSt i j).data_valid = true) : (s.next i).std_in (s.uop j).number = true := by
  rw [h.std_in_next hok hs.valid]
  rw [(nextSt_old hs.old hs.valid_next).1, Bool.or_eq_true] at hd
  exact hd.symm.imp (h.entry j hs.valid).data id

theorem Inv.addr_in_next (h : s.Inv) (hok : s.Ok i) (hs : s.Stays i j)
    (hin : (s.next i).sta_in (s.uop j).number = true)
    (hf : (s.next i).faulted (s.uop j).number = false) : (s.nextSt i j).addr_valid = true := by
  obtain ⟨hold, hnow⟩ := Bool.or_eq_false_iff.1 hf
  obtain ⟨-, hkeep, hwrite⟩ := nextSt_old hs.old hs.valid_next
  cases hr : s.addrWrite i j with
  | some r =>
    obtain ⟨w, hw, rfl⟩ := (h.addrWrite_iff hok).1 hr
    rw [(hwrite _ hr).1, Bool.not_eq_true', Bool.eq_false_iff]
    intro hpf
    refine List.any_eq_false.1 hnow w (List.mem_finRange w) ?_
    rw [(h.tlbUop_same hok hw).number, faults, hw, hpf]
    simp
  | none =>
    rw [(hkeep hr).1]
    refine (h.entry j hs.valid).addr_in ?_ hold
    rcases (h.sta_in_next hok hs.valid).1 hin with hin | ⟨w, ha⟩
    · exact hin
    · refine absurd ?_ ((h.addrWrite_none hok).1 hr w)
      exact Arrives.addrIdx_iff.2 (ha.imp_right .inl)

theorem Inv.data_in_next (h : s.Inv) (hok : s.Ok i) (hs : s.Stays i j)
    (hin : (s.next i).std_in (s.uop j).number = true) : (s.nextSt i j).data_valid = true := by
  rw [(nextSt_old hs.old hs.valid_next).1, Bool.or_eq_true]
  exact ((h.std_in_next hok hs.valid).1 hin).symm.imp id (h.entry j hs.valid).data_in

/-- A store that needs nothing more stays as it is. -/
theorem Inv.settled_next (h : s.Inv) (hok : s.Ok i) (hs : s.Stays i j)
    (hp : s.Placed j ∧ s.std_in (s.uop j).number = true) :
    ((s.next i).Placed j ∧ (s.next i).std_in (s.uop j).number = true) ∧
      (s.nextSt i j).complete = (s.st j).complete := by
  obtain ⟨ha, hd⟩ := h.quiet hok hp
  obtain ⟨h1, h2, -⟩ := nextSt_old hs.old hs.valid_next
  obtain ⟨h3, h4⟩ := h2 ha
  rw [hd, Bool.false_or] at h1
  refine ⟨⟨⟨?_, ?_⟩, ?_⟩, ?_⟩
  · rw [hs.number, h.sta_in_next hok hs.valid]
    exact .inl hp.1.1
  · show ¬ ((s.nextSt i j).addr_valid = true ∧ (s.nextSt i j).addr_is_virtual = true)
    rw [h3, h4]
    exact hp.1.2
  · rw [h.std_in_next hok hs.valid]
    exact .inl hp.2
  · rw [Fields.complete, Fields.complete, h1, h3, h4]

/-- A report is made of a store that needs nothing more, even if it faults. -/
theorem Inv.placed_of_reports (h : s.Inv) (hok : s.Ok i) (hs : s.Stays i j)
    (hr : s.Reports i j) :
    (s.next i).Placed j ∧ (s.next i).std_in (s.uop j).number = true := by
  obtain ⟨-, hsame, haddr⟩ := nextSt_old hs.old hs.valid_next
  rw [Placed, hs.number]
  show (_ ∧ ¬ ((s.nextSt i j).addr_valid = true ∧ (s.nextSt i j).addr_is_virtual = true)) ∧ _
  rw [h.sta_in_next hok hs.valid, h.std_in_next hok hs.valid]
  rcases hr with ⟨w, a, ha, hr⟩ | ⟨hx, hav, hvirt⟩
  · have haw (hne : a ≠ .std) : s.addrIdx i w = some j := by
      rw [Arrives.addrIdx_iff]
      cases a with
      | stad => exact .inl ha
      | sta => exact .inr (.inl ha)
      | std => exact absurd rfl hne
      | sta_retry => exact .inr (.inr ha)
    have hvirt (hne : a ≠ .std) : (s.nextSt i j).addr_is_virtual = (i.tlb w).miss :=
      (haddr _ ((h.addrWrite_iff hok).2 ⟨w, haw hne, rfl⟩)).2
    cases a with
    | stad =>
      rw [ready_entry, Bool.not_eq_true'] at hr
      refine ⟨⟨.inr ⟨w, .inl ha⟩, ?_⟩, .inr (dataWrite_iff.2 (.inl ⟨w, .inr ha⟩))⟩
      rw [hvirt Arm.noConfusion, hr]
      simp
    | sta =>
      rw [ready_entry, Bool.and_eq_true, Bool.not_eq_true'] at hr
      refine ⟨⟨.inr ⟨w, .inr ha⟩, ?_⟩, .inl ((h.entry j hs.valid).data hr.1)⟩
      rw [hvirt Arm.noConfusion, hr.2]
      simp
    | sta_retry =>
      rw [ready_entry, Bool.and_eq_true, Bool.not_eq_true'] at hr
      refine ⟨⟨.inl ((h.entry j hs.valid).addr ha.retry.2.1), ?_⟩,
        .inl ((h.entry j hs.valid).data hr.1)⟩
      rw [hvirt Arm.noConfusion, hr.2]
      simp
    | std =>
      rw [ready_entry, Bool.and_eq_true, Bool.not_eq_true'] at hr
      refine ⟨⟨.inl ((h.entry j hs.valid).addr hr.1), ?_⟩,
        .inr (dataWrite_iff.2 (.inl ⟨w, .inl ha⟩))⟩
      have hnone : s.addrWrite i j = none := by
        rw [h.addrWrite_none hok]
        intro v hv
        rcases Arrives.addrIdx_iff.1 hv with hv | hv | hv <;>
          exact absurd (h.arrives_unique hok ha hv).2 Arm.noConfusion
      rw [(hsame hnone).2, hr.2]
      simp
  · refine ⟨⟨?_, ?_⟩, .inr (dataWrite_iff.2 (.inr hx))⟩
    · exact (h.sta_in_next hok hs.valid).1 (h.addr_next hok hs hav)
    · rw [hvirt]
      simp

/-- A store that has committed is in none of the stages. -/
theorem Inv.delivered (h : s.Inv) (hv : (s.q.stq j).valid = true)
    (hamo : (s.uop j).is_amo = false) (hr : s.reported (s.uop j).number ≠ []) :
    count (s.uop j).number s.reports = 0 ∧ count (s.uop j).number s.clrs = 0 := by
  obtain ⟨r, hphase, -⟩ := (h.entry j hv).phase hamo
  obtain ⟨c, -, -, h1, h2, -⟩ := hphase.of_delivered hr
  exact ⟨h1, h2⟩

/-- A fence is in none of the stages either. -/
theorem Inv.quiet_stages (h : s.Inv) (hv : (s.q.stq j).valid = true)
    (hamo : (s.uop j).is_amo = false) (hin : s.sta_in (s.uop j).number = false) :
    count (s.uop j).number s.reports = 0 ∧ count (s.uop j).number s.clrs = 0 := by
  obtain ⟨r, hphase, hr, -⟩ := (h.entry j hv).phase hamo
  have hnone : r = none := by
    cases r with
    | none => rfl
    | some c =>
      have hp := (hr rfl).1.1
      rw [hin] at hp
      contradiction
  subst hnone
  exact ⟨hphase.1, hphase.2.1⟩

theorem Inv.committed_stages (h : s.Inv) (hv : (s.q.stq j).valid = true)
    (hamo : (s.uop j).is_amo = false) (hc : (s.q.stq j).committed = true) :
    count (s.uop j).number s.reports = 0 ∧ count (s.uop j).number s.clrs = 0 := by
  cases hf : (s.uop j).is_fence with
  | true => exact h.quiet_stages hv hamo ((h.entry j hv).fence hf).1
  | false => exact h.delivered hv hamo (((h.entry j hv).committed hc hf).2 hamo)

theorem count_pos {u : MicroOp T} {l : List (MicroOp T)} (hu : u ∈ l) (hk : u.number = k) :
    count k l ≠ 0 := by
  rw [count, Ne, List.countP_eq_zero]
  exact fun h => h u hu (decide_eq_true hk)

/-- A store that stays in spite of a flush has committed. -/
theorem Stays.committed (hok : s.Ok i) (hs : s.Stays i j) (hx : i.q.exception = true) :
    (s.q.stq j).committed = true := by
  have hexc := hs.exc
  rw [Queues.st_exc_killed_mask, show (s.queueIn i).exception = i.q.exception from rfl, hx,
    Bool.true_and, Bool.and_eq_false_iff, Bool.not_eq_false', Bool.not_eq_false'] at hexc
  rcases hexc with hc | hsucc
  · exact hc
  · exact (hok.queues.exception hx).2.2.2 j hs.valid hsucc

theorem clrs_next : (s.next i).clrs = s.reports.filterMap (survive i) := by
  rw [clrs, Lsu.reports, List.filterMap_filterMap]
  rfl

/-- The first stage goes over into the second one. -/
theorem Inv.count_clrs (h : s.Inv) (hs : s.Stays i j) (hamo : (s.uop j).is_amo = false) :
    count (s.uop j).number (s.next i).clrs = count (s.uop j).number s.reports := by
  rw [clrs_next, count, List.countP_filterMap]
  refine List.countP_congr fun u hu => ?_
  by_cases hn : u.number = (s.uop j).number
  · have hheld : s.uop j = u := by
      rcases (h.reports u hu).2.2 with ⟨j', hv, rfl⟩ | hx
      · rw [h.queues.number j' j hv hs.valid hn]
      · have hzero := h.committed_stages hs.valid hamo ((h.entry j hs.valid).exception1 hx)
        exact absurd hzero.1 (count_pos hu hn)
    subst hheld
    have hsurv : survive i (s.uop j) = some (s.nextUop i j) := survive_eq.2 ⟨hs.live, rfl⟩
    simp [hsurv, nextUop]
  · have hno : ((survive i u).map fun u => decide (u.number = (s.uop j).number)).getD false =
        false := by
      cases hsurv : survive i u with
      | none => rfl
      | some u' =>
        obtain ⟨-, rfl⟩ := survive_eq.1 hsurv
        exact decide_eq_false hn
    simp [hno, hn]

/-- and the second one is delivered. -/
theorem Inv.count_clr_bsy (h : s.Inv) (hok : s.Ok i) (hs : s.Stays i j)
    (hamo : (s.uop j).is_amo = false) :
    count (s.uop j).number (s.clr_bsy i) = count (s.uop j).number s.clrs := by
  rw [clr_bsy]
  split
  case isTrue hx =>
    rw [Bool.or_eq_true, Bool.or_eq_true] at hx
    have hzero : count (s.uop j).number s.clrs = 0 := by
      rcases hx with (hx | hx) | hx
      · exact (h.committed_stages hs.valid hamo (hs.committed hok hx)).2
      · exact (h.committed_stages hs.valid hamo ((h.entry j hs.valid).exception1 hx)).2
      · rcases (h.entry j hs.valid).exception2 hx with hc | hin
        · exact (h.committed_stages hs.valid hamo hc).2
        · exact (h.quiet_stages hs.valid hamo hin.1).2
    rw [hzero]
    rfl
  case isFalse hx =>
    rw [Bool.or_eq_true, Bool.or_eq_true, not_or, not_or] at hx
    rw [count, List.countP_filter]
    refine List.countP_congr fun u hu => ?_
    rw [Bool.and_eq_true, Bool.not_eq_true', decide_eq_true_iff, and_iff_left_iff_imp]
    intro hn
    rcases (h.clrs u hu).2.2 with ⟨j', hv, rfl⟩ | h1 | h2
    · rw [h.queues.number j' j hv hs.valid hn]
      exact hs.live
    · exact absurd h1 hx.1.2
    · exact absurd h2 hx.2

theorem reported_next (k : ℕ) : (s.next i).reported k =
    s.reported k ++ List.replicate (count k (s.clr_bsy i)) s.cycle := by
  show s.reported k ++ _ = _
  rw [List.map_const', count, List.countP_eq_length_filter]

/-- The entry of the store is the only one of its number. -/
theorem Inv.done_next (h : s.Inv) (hok : s.Ok i) {e : MicroOp T}
    (hv : (s.q.nextStq (s.queueIn i) j).valid = true)
    (he : (s.q.nextStq (s.queueIn i) j).uop = e) :
    (s.next i).done e.number = (s.done e.number <|>
      if (s.nextSt i j).complete = true then some s.cycle else none) := by
  have hiff : s.completes i e.number = true ↔ (s.nextSt i j).complete = true := by
    simp only [completes, List.any_eq_true, List.mem_finRange, true_and, Bool.and_eq_true,
      decide_eq_true_iff]
    constructor
    · rintro ⟨j', ⟨hv', hn⟩, hc⟩
      rw [← he] at hn
      have hjj := h.queues.number_next hok.queues j' j hv' hv hn
      rw [← hjj]
      exact hc
    · exact fun hc => ⟨j, ⟨hv, by rw [he]⟩, hc⟩
  show (s.done e.number <|> if s.completes i e.number = true then some s.cycle else none) = _
  by_cases hc : (s.nextSt i j).complete = true
  · rw [if_pos hc, if_pos (hiff.2 hc)]
  · rw [if_neg hc, if_neg fun h => hc (hiff.1 h)]

theorem Inv.phase_next (h : s.Inv) (hok : s.Ok i) (hs : s.Stays i j)
    (hamo : (s.uop j).is_amo = false) : ∃ r, Phase (s.cycle + 1) r
      (count (s.uop j).number (s.next i).reports) (count (s.uop j).number (s.next i).clrs)
      ((s.next i).reported (s.uop j).number) ∧
      (r.isSome = true → (s.next i).Placed j ∧ (s.next i).std_in (s.uop j).number = true) ∧
      ((s.next i).faulted (s.uop j).number = false → r = (s.next i).done (s.uop j).number) := by
  obtain ⟨r, hphase, hr, hdone⟩ := (h.entry j hs.valid).phase hamo
  have hold : (s.next i).faulted (s.uop j).number = false →
      s.faulted (s.uop j).number = false := by
    intro hf
    exact (Bool.or_eq_false_iff.1 hf).1
  rw [h.count_reports hok hs hamo, h.count_clrs hs hamo, reported_next,
    h.count_clr_bsy hok hs hamo]
  have hdn : (s.next i).done (s.uop j).number = (s.done (s.uop j).number <|>
      if (s.nextSt i j).complete = true then some s.cycle else none) :=
    h.done_next hok (e := s.nextUop i j) hs.valid_next hs.uop_next
  cases r with
  | some c =>
    have hp := hr rfl
    have hno : ¬ s.Reports i j := by
      rintro (⟨w, a, ha, -⟩ | ⟨⟨x, hx, rfl⟩, -⟩)
      · exact h.not_arrives hok hp ha
      · have hin := (fp_std_in hok hx).2.2.2
        rw [hp.2] at hin
        contradiction
    rw [if_neg hno]
    refine ⟨some c, hphase.quiet, fun _ => (h.settled_next hok hs hp).1, fun hf => ?_⟩
    rw [hdn, ← hdone (hold hf)]
    rfl
  | none =>
    by_cases hrep : s.Reports i j
    · rw [if_pos hrep]
      refine ⟨some s.cycle, hphase.send, fun _ => h.placed_of_reports hok hs hrep, fun hf => ?_⟩
      have hd := hdone (hold hf)
      have hc : (s.st j).complete = false := by
        rw [← (h.entry j hs.valid).done, ← hd]
        rfl
      rw [hdn, ← hd, if_pos ((h.reports_iff hok hs hf hc).1 hrep)]
      rfl
    · rw [if_neg hrep]
      refine ⟨none, hphase.quiet, fun hno => by contradiction, fun hf => ?_⟩
      have hd := hdone (hold hf)
      have hc : (s.st j).complete = false := by
        rw [← (h.entry j hs.valid).done, ← hd]
        rfl
      rw [hdn, ← hd, if_neg fun hc' => hrep ((h.reports_iff hok hs hf hc).2 hc')]
      rfl

/-- Only a store that needs nothing more is sent to the cache. -/
theorem Inv.settled_of_sent (h : s.Inv) (hs : (s.q.stq j).valid = true)
    (hr : s.dmem_req i j = true) : (s.Placed j ∧ s.std_in (s.uop j).number = true) ∧
      s.faulted (s.uop j).number = false := by
  rw [dmem_req, Bool.and_eq_true, decide_eq_true_iff, List.any_eq_true] at hr
  obtain ⟨rfl, w, -, hf⟩ := hr
  have hc := can_of_fires hf
  simp only [can_fire, Bool.and_eq_true, Bool.not_eq_true', Bool.or_eq_true] at hc
  obtain ⟨⟨⟨⟨⟨-, hfence⟩, hxcpt⟩, hexc⟩, -⟩, hcom⟩ := hc
  constructor
  · rcases hcom with hcom | ⟨⟨⟨-, haddr⟩, hvirt⟩, hdata⟩
    · exact h.settled hs hcom hfence
    · refine ⟨⟨(h.entry _ hs).addr haddr, fun hv => ?_⟩, (h.entry _ hs).data hdata⟩
      rw [hvirt] at hv
      exact Bool.noConfusion hv.2
  · by_contra hno
    rw [Bool.not_eq_false] at hno
    rcases (h.entry _ hs).fault hno with he | ⟨v, hv⟩
    · rw [hexc] at he
      contradiction
    · rw [mem_xcpt_valid, List.any_eq_false] at hxcpt
      exact hxcpt v (List.mem_finRange v) (by rw [hv]; rfl)

omit [NeZero n] [NeZero m] in
theorem valid_of_dmem_req (hr : s.dmem_req i j = true) : (s.q.stq j).valid = true := by
  rw [dmem_req, Bool.and_eq_true, decide_eq_true_iff, List.any_eq_true] at hr
  obtain ⟨rfl, w, -, hf⟩ := hr
  have hc := can_of_fires hf
  simp only [can_fire, Bool.and_eq_true] at hc
  exact hc.1.1.1.1.1

theorem Inv.sent_next (h : s.Inv) (hv : (s.q.stq j).valid = true)
    (hs : (s.next i).sent (s.uop j).number = true) :
    s.sent (s.uop j).number = true ∨ s.dmem_req i j = true := by
  have hor : (s.sent _ || _) = true := hs
  rw [Bool.or_eq_true] at hor
  refine hor.imp id fun ha => ?_
  simp only [List.any_eq_true, List.mem_finRange, true_and, Bool.and_eq_true,
    decide_eq_true_iff] at ha
  obtain ⟨j', ⟨hr, -⟩, hn⟩ := ha
  rw [← h.queues.number j' j (valid_of_dmem_req hr) hv hn]
  exact hr

/-- A store that faults in the cycle is blocked from the next one on. -/
theorem Inv.fault_next (h : s.Inv) (hok : s.Ok i) (hs : s.Stays i j)
    (hf : (s.next i).faulted (s.uop j).number = true) :
    (s.nextSt i j).exception = true ∨ ∃ w, s.nextXcpt i w = some (.store j) := by
  have hor : (s.faulted _ || _) = true := hf
  rw [Bool.or_eq_true] at hor
  rcases hor with hf | hf
  · left
    simp only [nextSt, hs.old, Bool.or_eq_true, List.any_eq_true, List.mem_finRange, true_and,
      decide_eq_true_iff]
    rcases (h.entry j hs.valid).fault hf with he | hw
    · exact .inr (by rw [he]; rfl)
    · exact .inl hw
  · right
    simp only [List.any_eq_true, List.mem_finRange, true_and, Bool.and_eq_true,
      decide_eq_true_iff] at hf
    obtain ⟨w, hfw, hn⟩ := hf
    obtain ⟨j', hj'⟩ : ∃ j', s.addrIdx i w = some j' := by
      rw [faults, Bool.and_eq_true, Option.isSome_iff_exists] at hfw
      exact hfw.1
    have harr : ∃ a, s.Arrives i w j' a ∧ a ≠ .std := by
      rcases Arrives.addrIdx_iff.1 hj' with ha | ha | ha
      · exact ⟨_, ha, Arm.noConfusion⟩
      · exact ⟨_, ha, Arm.noConfusion⟩
      · exact ⟨_, ha, Arm.noConfusion⟩
    obtain ⟨a, ha, hne⟩ := harr
    rw [← (h.tlbUop_same hok hj').number] at hn
    have hjj := h.queues.number j' j (h.valid_of_arrives hok ha).1 hs.valid hn
    subst hjj
    refine ⟨w, ?_⟩
    have hx : i.q.exception = false := by
      by_contra hx
      rw [Bool.not_eq_false] at hx
      have hp := h.settled hs.valid (hs.committed hok hx) (h.valid_of_arrives hok ha).2.1
      exact h.not_placed hok ha hne hp.1
    rw [nextXcpt, if_pos, hj']
    · rfl
    · rw [hfw, hx, ← (h.tlbUop_same hok hj').killed, hs.live]
      rfl

theorem Stays.nextStq_eq (hs : s.Stays i j) :
    (s.q.nextStq (s.queueIn i) j).committed =
      (s.q.commitsStore (s.queueIn i) j || (s.q.stq j).committed) ∧
    ((s.q.nextStq (s.queueIn i) j).succeeded = true →
      i.q.dmem_resp j = true ∨ (s.q.stq j).succeeded = true) := by
  have hclear := (Queues.nextStq_of_old hs.old hs.valid_next).2.2.1
  constructor
  · simp [Queues.nextStq, hs.old, hclear]
  · intro h
    simp only [Queues.nextStq, hs.old, hclear, Option.getD_none, Bool.and_eq_true,
      Bool.or_eq_true] at h
    exact h.1.imp id fun h => h.1

/-- Nothing comes for a fence. -/
theorem Inv.fence_next (h : s.Inv) (hok : s.Ok i) (hs : s.Stays i j)
    (hf : (s.uop j).is_fence = true) : (s.next i).sta_in (s.uop j).number = false ∧
      (s.next i).std_in (s.uop j).number = false := by
  obtain ⟨h1, h2⟩ := (h.entry j hs.valid).fence hf
  constructor
  · by_contra hno
    rw [Bool.not_eq_false, h.sta_in_next hok hs.valid] at hno
    rcases hno with hno | ⟨w, hw | hw⟩
    · rw [h1] at hno
      contradiction
    · rw [(h.valid_of_arrives hok hw).2.1] at hf
      contradiction
    · rw [(h.valid_of_arrives hok hw).2.1] at hf
      contradiction
  · by_contra hno
    rw [Bool.not_eq_false, h.std_in_next hok hs.valid, dataWrite_iff] at hno
    rcases hno with hno | ⟨w, hw | hw⟩ | ⟨x, hx, rfl⟩
    · rw [h2] at hno
      contradiction
    · rw [(h.valid_of_arrives hok hw).2.1] at hf
      contradiction
    · rw [(h.valid_of_arrives hok hw).2.1] at hf
      contradiction
    · rw [(fp_std_in hok hx).2.2.1] at hf
      contradiction

theorem Inv.done_stays (h : s.Inv) (hok : s.Ok i) (hs : s.Stays i j) :
    ((s.next i).done (s.uop j).number).isSome = (s.nextSt i j).complete := by
  have he := h.entry j hs.valid
  have hdn : (s.next i).done (s.uop j).number = (s.done (s.uop j).number <|>
      if (s.nextSt i j).complete = true then some s.cycle else none) :=
    h.done_next hok (e := s.nextUop i j) hs.valid_next hs.uop_next
  rw [hdn]
  cases hd : s.done (s.uop j).number with
  | none => cases hc : (s.nextSt i j).complete <;> rfl
  | some c =>
    have hc : (s.st j).complete = true := by rw [← he.done, hd]; rfl
    have hp : s.Placed j ∧ s.std_in (s.uop j).number = true := by
      simp only [Fields.complete, Bool.and_eq_true, Bool.not_eq_true'] at hc
      refine ⟨⟨he.addr hc.1.1, fun hv => ?_⟩, he.data hc.2⟩
      rw [hc.1.2] at hv
      exact Bool.noConfusion hv.2
    rw [(h.settled_next hok hs hp).2, hc]
    rfl

/-- A store commits when it is reported, an atomic when it is sent. -/
theorem Inv.committed_stays (h : s.Inv) (hok : s.Ok i) (hs : s.Stays i j)
    (hc : (s.q.nextStq (s.queueIn i) j).committed = true) (hf : (s.uop j).is_fence = false) :
    ((s.uop j).is_amo = true → (s.next i).sent (s.uop j).number = true) ∧
      ((s.uop j).is_amo = false → (s.next i).reported (s.uop j).number ≠ []) := by
  have he := h.entry j hs.valid
  have hcom : (s.q.commitsStore (s.queueIn i) j || (s.q.stq j).committed) = true := by
    rw [← hs.nextStq_eq.1]
    exact hc
  rw [Bool.or_eq_true] at hcom
  constructor
  · intro ha
    show (s.sent _ || _) = true
    rw [Bool.or_eq_true]
    rcases hcom with hcom | hcom
    · exact .inl (he.succeeded ((hok.commit j hcom).1 ha))
    · exact .inl ((he.committed hcom hf).1 ha)
  · intro ha
    rw [reported_next]
    refine List.append_ne_nil_of_left_ne_nil ?_ _
    rcases hcom with hcom | hcom
    · exact (hok.commit j hcom).2 ha hf
    · exact (he.committed hcom hf).2 ha

theorem Inv.entry_stays (h : s.Inv) (hok : s.Ok i) (hs : s.Stays i j) : (s.next i).EntryInv j := by
  have he := h.entry j hs.valid
  have hnum := hs.number
  have hamo : ((s.next i).uop j).is_amo = (s.uop j).is_amo := by rw [hs.uop_eq]; rfl
  have hfence : ((s.next i).uop j).is_fence = (s.uop j).is_fence := by rw [hs.uop_eq]; rfl
  have hrob : ((s.next i).uop j).rob_idx = (s.uop j).rob_idx := by rw [hs.uop_eq]; rfl
  constructor
  · rw [hnum]
    exact h.addr_next hok hs
  · rw [hnum]
    exact h.data_next hok hs
  · rw [hnum]
    exact h.addr_in_next hok hs
  · rw [hnum]
    exact h.data_in_next hok hs
  · rw [hfence, hnum]
    exact h.fence_next hok hs
  · rw [hnum]
    exact h.done_stays hok hs
  · rw [hnum, hamo]
    exact h.phase_next hok hs
  · rw [hnum, hamo, hfence]
    exact h.committed_stays hok hs
  · intro hsucc
    rw [hnum]
    show (s.sent _ || _) = true
    rw [Bool.or_eq_true]
    rcases hs.nextStq_eq.2 hsucc with hr | hr
    · exact .inl (hok.resp j hr).2
    · exact .inl (he.succeeded hr)
  · rw [hnum]
    intro hsent
    refine (h.settled_next hok hs ?_).1
    rcases h.sent_next hs.valid hsent with hsent | hr
    · exact he.sent hsent
    · exact (h.settled_of_sent hs.valid hr).1
  · obtain ⟨v, hv, h1, h2, h3⟩ := he.store
    refine ⟨v, ?_, h1.trans hrob.symm, h2.trans hfence.symm, h3.trans hamo.symm⟩
    rw [hnum]
    show (s.stores _ <|> _) = some v
    rw [hv]
    rfl
  · intro hx
    show (s.q.nextStq (s.queueIn i) j).committed = true
    rw [hs.nextStq_eq.1, hs.committed hok hx, Bool.or_true]
  · intro hx
    left
    show (s.q.nextStq (s.queueIn i) j).committed = true
    rw [hs.nextStq_eq.1, he.exception1 hx, Bool.or_true]
  · rw [hnum]
    exact h.fault_next hok hs

end Stays

/-! ## A store that is dispatched -/

section New

variable {k : ℕ}

theorem Inv.arrives_lt (h : s.Inv) (hok : s.Ok i) {a : Arm} (ha : a ≠ .sta_retry)
    (hf : s.fires i w a.req = true) : (i.exe_req w).uop.number < s.q.count := by
  have harr : s.Arrives i w (i.armIdx w a) a := ⟨hf, rfl⟩
  obtain ⟨hv, -, hu⟩ := h.valid_of_arrives hok harr
  rw [← (hu ha).number]
  exact h.queues.store_lt _ hv

/-- Nothing has happened to a number that is not in use yet. -/
theorem Inv.fresh_next (h : s.Inv) (hok : s.Ok i) (hk : s.q.count ≤ k) :
    (s.next i).sta_in k = false ∧ (s.next i).std_in k = false ∧ (s.next i).faulted k = false ∧
      (s.next i).killed k = false ∧ (s.next i).reported k = [] ∧ (s.next i).sent k = false := by
  obtain ⟨h1, h2, h3, h4, -, h6, h7, -⟩ := h.fresh k hk
  have hlt {j : Fin n} (hv : (s.q.stq j).valid = true) : (s.uop j).number ≠ k :=
    ((h.queues.store_lt j hv).trans_le hk).ne
  have hexe {w : Fin W} {a : Arm} (ha : a ≠ .sta_retry) (hf : s.fires i w a.req = true) :
      (i.exe_req w).uop.number ≠ k :=
    ((h.arrives_lt hok ha hf).trans_le hk).ne
  refine ⟨?_, ?_, ?_, ?_, ?_, ?_⟩
  · show (s.sta_in k || _) = false
    rw [h1, Bool.false_or, List.any_eq_false]
    intro w _ hw
    rw [Bool.and_eq_true, Bool.or_eq_true, decide_eq_true_iff] at hw
    rcases hw.1 with hf | hf
    · exact hexe (a := .stad) Arm.noConfusion hf hw.2
    · exact hexe (a := .sta) Arm.noConfusion hf hw.2
  · show (s.std_in k || _ || _) = false
    rw [h2, Bool.false_or, Bool.or_eq_false_iff]
    constructor
    · rw [List.any_eq_false]
      intro w _ hw
      rw [Bool.and_eq_true, Bool.or_eq_true, decide_eq_true_iff] at hw
      rcases hw.1 with hf | hf
      · exact hexe (a := .stad) Arm.noConfusion hf hw.2
      · exact hexe (a := .std) Arm.noConfusion hf hw.2
    · rw [Bool.eq_false_iff, ne_eq, Option.any_eq_true]
      rintro ⟨x, hx, hn⟩
      obtain ⟨hv, hu, -⟩ := fp_std_in hok hx
      rw [decide_eq_true_iff, ← hu.number] at hn
      exact hlt hv hn
  · show (s.faulted k || _) = false
    rw [h3, Bool.false_or, List.any_eq_false]
    intro w _ hw
    rw [Bool.and_eq_true, decide_eq_true_iff] at hw
    obtain ⟨j, hj⟩ : ∃ j, s.addrIdx i w = some j := by
      have hf := hw.1
      rw [faults, Bool.and_eq_true, Option.isSome_iff_exists] at hf
      exact hf.1
    have hv : (s.q.stq j).valid = true := by
      rcases Arrives.addrIdx_iff.1 hj with ha | ha | ha <;> exact (h.valid_of_arrives hok ha).1
    rw [← (h.tlbUop_same hok hj).number] at hw
    exact hlt hv hw.2
  · show (s.killed k || _) = false
    rw [h4, Bool.false_or, List.any_eq_false]
    intro j _ hj
    rw [Bool.and_eq_true, Bool.and_eq_true, decide_eq_true_iff] at hj
    exact hlt hj.1.1 hj.1.2
  · rw [reported_next, h6]
    have hzero : count k (s.clr_bsy i) = 0 := by
      rw [count, List.countP_eq_zero]
      intro u hu
      rw [decide_eq_true_iff]
      have hmem : u ∈ s.clrs := by
        rw [clr_bsy] at hu
        split at hu
        case isTrue => contradiction
        case isFalse => exact List.mem_of_mem_filter hu
      exact ((h.clrs u hmem).2.1.trans_le hk).ne
    rw [hzero]
    rfl
  · show (s.sent k || _) = false
    rw [h7, Bool.false_or, List.any_eq_false]
    intro j _ hj
    rw [Bool.and_eq_true, Bool.and_eq_true, decide_eq_true_iff] at hj
    exact hlt (valid_of_dmem_req hj.1.1) hj.2

theorem Inv.reports_lt (h : s.Inv) (hok : s.Ok i) {u : MicroOp T} (hu : u ∈ (s.next i).reports) :
    u.is_amo = false ∧ u.number < s.q.count ∧ ∃ j, (s.q.stq j).valid = true ∧
      isKilledByBranch i.q.brupdate (s.uop j).br_mask = false ∧
      ¬ (s.Placed j ∧ s.std_in (s.uop j).number = true) ∧ (s.uop j).is_fence = false ∧
      s.nextUop i j = u := by
  obtain ⟨p, -, hp⟩ := List.mem_filterMap.1 hu
  cases p with
  | some w =>
    obtain ⟨a, j, ha, hk, -, hamo, rfl⟩ := (h.report_pipe hok).1 hp
    obtain ⟨hv, hf, -⟩ := h.valid_of_arrives hok ha
    exact ⟨hamo, h.queues.store_lt j hv, j, hv, hk, fun hp => h.not_arrives hok hp ha, hf, rfl⟩
  | none =>
    obtain ⟨x, hx, hk, hv', -, -, hamo, rfl⟩ := (report_fp hok).1 hp
    obtain ⟨hv, -, hf, hin⟩ := fp_std_in hok hx
    rw [Queues.nextStq_uop_of_old (h.old_of_valid hok hv) hv] at hamo
    refine ⟨hamo, h.queues.store_lt x.1 hv, x.1, hv, hk, fun hp => ?_, hf, rfl⟩
    rw [hp.2] at hin
    contradiction

/-- The store is recorded under its number. -/
theorem Inv.stores_new (h : s.Inv) (hok : s.Ok i) {e : StoreDeps.STQEntry T}
    (he : s.q.newStore (s.queueIn i) j = some e) :
    (s.next i).stores e.uop.number = some e.uop := by
  obtain ⟨_, _, _, _, _, hat⟩ := h.queues.placed
  have hb := (Queues.bundle hat hok.queues).1
  have hmem := Queues.mem_of_newStore he
  obtain ⟨-, -, -, hge, -⟩ := hb.store j e hmem
  show (s.stores e.uop.number <|> _) = some e.uop
  rw [(h.fresh _ hge).2.2.2.2.2.2.2]
  show (List.finRange n).findSome? _ = some e.uop
  obtain ⟨u, hfind⟩ : ∃ u, ((List.finRange n).findSome? fun j' =>
      (s.q.newStore (s.queueIn i) j').bind fun e' =>
        if e'.uop.number = e.uop.number then some e'.uop else none) = some u := by
    rw [← Option.isSome_iff_exists, List.findSome?_isSome_iff]
    exact ⟨j, List.mem_finRange j, by rw [he]; simp⟩
  rw [hfind]
  obtain ⟨j', -, hj'⟩ := List.exists_of_findSome?_eq_some hfind
  obtain ⟨e', he', hu'⟩ := Option.bind_eq_some_iff.1 hj'
  rw [Option.ite_none_right_eq_some, Option.some.injEq] at hu'
  have hjj := hb.number j' e' j e (Queues.mem_of_newStore he') hmem hu'.1
  subst hjj
  rw [he, Option.some.injEq] at he'
  rw [← hu'.2, he']

theorem Inv.entry_new (h : s.Inv) (hok : s.Ok i) {e : StoreDeps.STQEntry T}
    (he : s.q.newStore (s.queueIn i) j = some e) : (s.next i).EntryInv j := by
  obtain ⟨_, _, _, _, _, hat⟩ := h.queues.placed
  obtain ⟨hfree, hv, hu, hclear⟩ := Queues.nextStq_of_new hat hok.queues he
  obtain ⟨ha, hd⟩ := h.nextSt_new hok he
  have hb := (Queues.bundle hat hok.queues).1
  have hmem := Queues.mem_of_newStore he
  obtain ⟨-, -, ⟨hcom, hsucc⟩, hge, -⟩ := hb.store j e hmem
  obtain ⟨hx, -⟩ := Queues.quiet_of_mem hok.queues hmem
  have hnu : (s.next i).uop j = e.uop := hu
  obtain ⟨h1, h2, h3, h4, h5, h6⟩ := h.fresh_next hok hge
  have hc : (s.nextSt i j).complete = false := by rw [Fields.complete, ha]; rfl
  have hdone : (s.next i).done e.uop.number = none := by
    rw [h.done_next hok hv hu, (h.fresh _ hge).2.2.2.2.1, hc]
    rfl
  have hcommit : (s.q.nextStq (s.queueIn i) j).committed = false := by
    have hno : s.q.commitsStore (s.queueIn i) j = false := by
      by_contra hno
      rw [Bool.not_eq_false] at hno
      rw [Queues.valid_of_commitsStore hok.queues hno] at hfree
      contradiction
    simp [Queues.nextStq, he, hno, hcom]
  constructor
  · intro hav
    have hav' : (s.nextSt i j).addr_valid = true := hav
    rw [ha] at hav'
    contradiction
  · intro hdv
    have hdv' : (s.nextSt i j).data_valid = true := hdv
    rw [hd] at hdv'
    contradiction
  · rw [hnu, h1]
    exact fun hno => by contradiction
  · rw [hnu, h2]
    exact fun hno => by contradiction
  · rw [hnu]
    exact fun _ => ⟨h1, h2⟩
  · rw [hnu, hdone]
    exact hc.symm
  · rw [hnu]
    intro _
    refine ⟨none, ⟨?_, ?_, h5⟩, fun hno => by contradiction, fun _ => hdone.symm⟩
    · rw [count, List.countP_eq_zero]
      intro u hu'
      rw [decide_eq_true_iff]
      exact ((h.reports_lt hok hu').2.1.trans_le hge).ne
    · rw [clrs_next, count, List.countP_eq_zero]
      intro u hu'
      obtain ⟨u, hur, hus⟩ := List.mem_filterMap.1 hu'
      obtain ⟨-, rfl⟩ := survive_eq.1 hus
      rw [decide_eq_true_iff]
      exact ((h.reports u hur).2.1.trans_le hge).ne
  · intro hc'
    have hc'' : (s.q.nextStq (s.queueIn i) j).committed = true := hc'
    rw [hcommit] at hc''
    contradiction
  · intro hs
    have hs' : (s.q.nextStq (s.queueIn i) j).succeeded = true := hs
    have hresp : i.q.dmem_resp j = false := by
      by_contra hno
      rw [Bool.not_eq_false] at hno
      rw [(hok.resp j hno).1] at hfree
      contradiction
    have hresp' : (s.queueIn i).dmem_resp j = false := hresp
    simp [Queues.nextStq, he, hsucc, hresp'] at hs'
  · rw [hnu, h6]
    exact fun hno => by contradiction
  · refine ⟨e.uop, ?_, by rw [hnu], by rw [hnu], by rw [hnu]⟩
    rw [hnu]
    exact h.stores_new hok he
  · intro hx'
    have hx'' : i.q.exception = true := hx'
    rw [show (s.queueIn i).exception = i.q.exception from rfl, hx''] at hx
    contradiction
  · rw [hnu]
    exact fun _ => .inr ⟨h1, h2⟩
  · rw [hnu, h3]
    exact fun hno => by contradiction

end New

/-! ## A cycle -/

section Step

variable {k : ℕ}

theorem Inv.stays_of_quiet (h : s.Inv) (hok : s.Ok i) (hv : (s.q.stq j).valid = true)
    (hk : isKilledByBranch i.q.brupdate (s.uop j).br_mask = false)
    (hc : s.q.cleared (s.queueIn i) j = false) (hx : i.q.exception = false) : s.Stays i j := by
  have hnew := h.old_of_valid hok hv
  have hexc : s.q.st_exc_killed_mask (s.queueIn i) j = false := by
    rw [Queues.st_exc_killed_mask, show (s.queueIn i).exception = i.q.exception from rfl, hx]
    rfl
  refine stays_of_old hnew ?_
  rw [Queues.nextStq_valid_of_old hnew, hv, hc, hexc, Queues.st_brkilled_mask,
    show (s.queueIn i).brupdate = i.q.brupdate from rfl, hk]
  simp

omit [NeZero n] [NeZero m] in
/-- A store that is cleared has committed. -/
theorem committed_of_cleared (hc : s.q.cleared (s.queueIn i) j = true) :
    (s.q.stq j).committed = true := by
  rw [Queues.cleared, Bool.and_eq_true, decide_eq_true_iff, Queues.clear_store, Bool.and_eq_true,
    Bool.and_eq_true] at hc
  rw [hc.2]
  exact hc.1.1.2

theorem Inv.reports_next (h : s.Inv) (hok : s.Ok i) {u : MicroOp T}
    (hu : u ∈ (s.next i).reports) : u.is_amo = false ∧ u.number < (s.next i).q.count ∧
      ((s.next i).Held u ∨ (s.next i).exception1 = true) := by
  obtain ⟨hamo, hlt, j, hv, hk, hno, hf, rfl⟩ := h.reports_lt hok hu
  refine ⟨hamo, hlt.trans_le (Nat.le_add_right _ _), ?_⟩
  cases hx : i.q.exception with
  | true => exact .inr hx
  | false =>
    have hc : s.q.cleared (s.queueIn i) j = false := by
      by_contra hc
      rw [Bool.not_eq_false] at hc
      exact hno (h.settled hv (committed_of_cleared hc) hf)
    have hs := h.stays_of_quiet hok hv hk hc hx
    exact .inl ⟨j, hs.valid', hs.uop_eq⟩

theorem Inv.clrs_held_next (h : s.Inv) (hok : s.Ok i) {u : MicroOp T}
    (hu : u ∈ (s.next i).clrs) : u.is_amo = false ∧ u.number < (s.next i).q.count ∧
      ((s.next i).Held u ∨ (s.next i).exception1 = true ∨ (s.next i).exception2 = true) := by
  rw [clrs_next] at hu
  obtain ⟨u, hur, hus⟩ := List.mem_filterMap.1 hu
  obtain ⟨hk, rfl⟩ := survive_eq.1 hus
  obtain ⟨hamo, hlt, hheld⟩ := h.reports u hur
  refine ⟨hamo, hlt.trans_le (Nat.le_add_right _ _), ?_⟩
  rcases hheld with ⟨j, hv, rfl⟩ | hx
  · cases hx : i.q.exception with
    | true => exact .inr (.inl hx)
    | false =>
      have hc : s.q.cleared (s.queueIn i) j = false := by
        by_contra hc
        rw [Bool.not_eq_false] at hc
        exact count_pos hur rfl (h.committed_stages hv hamo (committed_of_cleared hc)).1
      have hs := h.stays_of_quiet hok hv hk hc hx
      exact .inl ⟨j, hs.valid', hs.uop_eq⟩
  · exact .inr (.inr hx)

theorem Inv.stdf_next (h : s.Inv) (hok : s.Ok i) (a : Fin n × MicroOp T)
    (ha : (s.next i).stdf = some a) : a.2.number < (s.next i).q.count ∧
      (((s.next i).q.stq a.1).valid = true → (s.next i).uop a.1 = a.2) := by
  obtain ⟨x, hx, hax⟩ := Option.bind_eq_some_iff.1 (show ((s.stdf_incoming i).bind fun a =>
    (survive i a.2).map fun u => (a.1, u)) = some a from ha)
  obtain ⟨u, hu, rfl⟩ := Option.map_eq_some_iff.1 hax
  obtain ⟨hk, rfl⟩ := survive_eq.1 hu
  obtain ⟨hv, hux, -⟩ := fp_std_in hok hx
  rw [← show s.nextUop i x.1 = _ from hux.updated]
  exact ⟨(h.queues.store_lt x.1 hv).trans_le (Nat.le_add_right _ _), fun hv' =>
    (stays_of_old (h.old_of_valid hok hv) hv').uop_eq⟩

/-- The store that dispatch numbers `k`. -/
theorem exists_of_stores (hk : s.stores k = none) {v : MicroOp T}
    (hv : (s.next i).stores k = some v) :
    ∃ j e, s.q.newStore (s.queueIn i) j = some e ∧ e.uop.number = k := by
  have hor : (s.stores k <|> _) = some v := hv
  rw [hk] at hor
  obtain ⟨j, -, hj⟩ := List.exists_of_findSome?_eq_some hor
  obtain ⟨e, he, hu⟩ := Option.bind_eq_some_iff.1 hj
  rw [Option.ite_none_right_eq_some] at hu
  exact ⟨j, e, he, hu.1⟩

theorem Inv.unused_next (h : s.Inv) (hok : s.Ok i) (hk : (s.next i).q.count ≤ k) :
    (s.next i).done k = none ∧ (s.next i).stores k = none := by
  obtain ⟨_, _, _, _, _, hat⟩ := h.queues.placed
  have hk' : s.q.count ≤ k := (Nat.le_add_right _ _).trans hk
  obtain ⟨-, -, -, -, h5, -, -, h8⟩ := h.fresh k hk'
  constructor
  · show (s.done k <|> if s.completes i k = true then some s.cycle else none) = none
    have hno : s.completes i k = false := by
      rw [completes, List.any_eq_false]
      intro j _ hj
      rw [Bool.and_eq_true, Bool.and_eq_true, decide_eq_true_iff] at hj
      have hlt := h.queues.store_lt_next hok.queues j hj.1.1
      rw [hj.1.2] at hlt
      exact absurd hlt (Nat.not_lt.2 hk)
    rw [h5, hno]
    rfl
  · by_contra hno
    obtain ⟨v, hv⟩ := Option.ne_none_iff_exists'.1 hno
    obtain ⟨j, e, he, hn⟩ := exists_of_stores h8 hv
    have hlt := ((Queues.bundle hat hok.queues).1.store j e (Queues.mem_of_newStore he)).2.2.2.2.1
    rw [hn] at hlt
    exact absurd hlt (Nat.not_lt.2 hk)

/-- What `clr_bsy` gives is the uop of a store in the queue. -/
theorem Inv.held_of_clr_bsy (h : s.Inv) {u : MicroOp T} (hu : u ∈ s.clr_bsy i) :
    u ∈ s.clrs ∧ s.Held u := by
  rw [clr_bsy] at hu
  split at hu
  case isTrue => contradiction
  case isFalse hx =>
    rw [Bool.or_eq_true, Bool.or_eq_true, not_or, not_or] at hx
    have hmem := List.mem_of_mem_filter hu
    rcases (h.clrs u hmem).2.2 with hheld | h1 | h2
    · exact ⟨hmem, hheld⟩
    · exact absurd h1 hx.1.2
    · exact absurd h2 hx.2

theorem Inv.gone_next (h : s.Inv) (hok : s.Ok i) {v : MicroOp T}
    (hst : (s.next i).stores k = some v) (hamo : v.is_amo = false) (hfence : v.is_fence = false)
    (hkill : (s.next i).killed k = false) (hf : (s.next i).faulted k = false)
    (hno : ∀ j, ((s.next i).q.stq j).valid = true → ((s.next i).uop j).number ≠ k) :
    ∃ c, (s.next i).done k = some c ∧ c + 2 < s.cycle + 1 ∧ (s.next i).reported k = [c + 2] := by
  obtain ⟨_, _, _, _, _, hat⟩ := h.queues.placed
  have hf0 : s.faulted k = false := (Bool.or_eq_false_iff.1 hf).1
  have hk0 : s.killed k = false := (Bool.or_eq_false_iff.1 hkill).1
  have hdone {c : ℕ} (hc : s.done k = some c) : (s.next i).done k = some c := by
    show (s.done k <|> _) = some c
    rw [hc]
    rfl
  cases hs0 : s.stores k with
  | none =>
    obtain ⟨j, e, he, hn⟩ := exists_of_stores hs0 hst
    obtain ⟨-, hv', hu', -⟩ := Queues.nextStq_of_new hat hok.queues he
    refine absurd hn (hu' ▸ hno j hv')
  | some v0 =>
    have hvv : v0 = v := by
      have hor : (s.stores k <|> _) = some v := hst
      rw [hs0] at hor
      exact Option.some.inj hor
    subst hvv
    by_cases hin : ∃ j, (s.q.stq j).valid = true ∧ (s.uop j).number = k
    · obtain ⟨j, hv, rfl⟩ := hin
      obtain ⟨v', hv', -, h2, h3⟩ := (h.entry j hv).store
      obtain rfl : v0 = v' := Option.some.inj (hs0.symm.trans hv')
      have hgone : (s.q.nextStq (s.queueIn i) j).valid = false := by
        by_contra hv'
        rw [Bool.not_eq_false] at hv'
        exact hno j hv' (stays_of_old (h.old_of_valid hok hv) hv').number
      have hnokill : s.q.st_brkilled_mask (s.queueIn i) j = false ∧
          s.q.st_exc_killed_mask (s.queueIn i) j = false := by
        have hany := List.any_eq_false.1 (Bool.or_eq_false_iff.1 hkill).2 j (List.mem_finRange j)
        rw [hv, decide_eq_true (rfl : (s.q.stq j).uop.number = _), Bool.and_true, Bool.true_and,
          Bool.or_eq_true, not_or, Bool.not_eq_true, Bool.not_eq_true] at hany
        exact hany
      have hc : s.q.cleared (s.queueIn i) j = true := by
        by_contra hc
        rw [Bool.not_eq_true] at hc
        rw [Queues.nextStq_valid_of_old (h.old_of_valid hok hv), hv, hnokill.1, hnokill.2, hc] at hgone
        contradiction
      have hcom := committed_of_cleared hc
      have hrep := ((h.entry j hv).committed hcom (h2.symm.trans hfence)).2 (h3.symm.trans hamo)
      obtain ⟨r, hphase, -, hrd⟩ := (h.entry j hv).phase (h3.symm.trans hamo)
      obtain ⟨c, rfl, hlt, -, hzero, hl⟩ := hphase.of_delivered hrep
      refine ⟨c, hdone (hrd hf0).symm, by omega, ?_⟩
      rw [reported_next, hl]
      have hz : count (s.uop j).number (s.clr_bsy i) = 0 := by
        rw [count, List.countP_eq_zero]
        intro u hu hn
        exact count_pos (h.held_of_clr_bsy hu).1 (of_decide_eq_true hn) hzero
      rw [hz]
      rfl
    · have hnone : ∀ j, (s.q.stq j).valid = true → (s.uop j).number ≠ k :=
        fun j hv hn => hin ⟨j, hv, hn⟩
      obtain ⟨c, hc, hlt, hl⟩ := h.gone k v0 hs0 hamo hfence hk0 hf0 hnone
      refine ⟨c, hdone hc, by omega, ?_⟩
      rw [reported_next, hl]
      have hz : count k (s.clr_bsy i) = 0 := by
        rw [count, List.countP_eq_zero]
        intro u hu hn
        obtain ⟨-, j, hv, rfl⟩ := h.held_of_clr_bsy hu
        exact hnone j hv (of_decide_eq_true hn)
      rw [hz]
      rfl

/-- Which store faults. -/
theorem Inv.exists_of_faults (h : s.Inv) (hok : s.Ok i) (hw : s.faults i w = true) :
    ∃ j a, s.addrIdx i w = some j ∧ s.Arrives i w j a ∧ a ≠ .std ∧ (s.q.stq j).valid = true ∧
      (s.tlbUop i w).number = (s.uop j).number := by
  obtain ⟨j, hj⟩ : ∃ j, s.addrIdx i w = some j := by
    rw [faults, Bool.and_eq_true, Option.isSome_iff_exists] at hw
    exact hw.1
  rcases Arrives.addrIdx_iff.1 hj with ha | ha | ha <;>
    exact ⟨j, _, hj, ha, Arm.noConfusion, (h.valid_of_arrives hok ha).1,
      (h.tlbUop_same hok hj).number.symm⟩

theorem Inv.sent_ok_next (h : s.Inv) (hok : s.Ok i) (hs : (s.next i).sent k = true) :
    (s.next i).faulted k = false := by
  have hold : s.faulted k = false ∧
      ∀ j, (s.q.stq j).valid = true → (s.uop j).number = k → s.Placed j := by
    have hor : (s.sent k || _) = true := hs
    rw [Bool.or_eq_true] at hor
    rcases hor with hs | hs
    · exact ⟨h.sent_ok k hs, fun j hv hn => ((h.entry j hv).sent (hn ▸ hs)).1⟩
    · simp only [List.any_eq_true, List.mem_finRange, true_and, Bool.and_eq_true,
        decide_eq_true_iff] at hs
      obtain ⟨j, ⟨hr, -⟩, rfl⟩ := hs
      have hv := valid_of_dmem_req hr
      obtain ⟨hp, hf⟩ := h.settled_of_sent hv hr
      refine ⟨hf, fun j' hv' hn => ?_⟩
      rw [h.queues.number j' j hv' hv hn]
      exact hp.1
  show (s.faulted k || _) = false
  rw [hold.1, Bool.false_or, List.any_eq_false]
  intro w _ hw
  rw [Bool.and_eq_true, decide_eq_true_iff] at hw
  obtain ⟨j, a, -, ha, hne, hv, hu⟩ := h.exists_of_faults hok hw.1
  rw [hu] at hw
  exact h.not_placed hok ha hne (hold.2 j hv hw.2)

theorem Inv.next (h : s.Inv) (hok : s.Ok i) : (s.next i).Inv where
  queues := h.queues.next hok.queues
  entry j hv := by
    cases he : s.q.newStore (s.queueIn i) j with
    | some e => exact h.entry_new hok he
    | none => exact h.entry_stays hok (stays_of_old he hv)
  reports _ hu := h.reports_next hok hu
  clrs _ hu := h.clrs_held_next hok hu
  stdf a ha := h.stdf_next hok a ha
  fresh k hk := by
    have hk' : s.q.count ≤ k := (Nat.le_add_right _ _).trans hk
    obtain ⟨h1, h2, h3, h4, h5, h6⟩ := h.fresh_next hok hk'
    obtain ⟨h7, h8⟩ := h.unused_next hok hk
    exact ⟨h1, h2, h3, h4, h7, h5, h6, h8⟩
  gone _ _ hs hamo hfence hk hf hno := h.gone_next hok hs hamo hfence hk hf hno
  sent_ok _ hs := h.sent_ok_next hok hs

theorem inv_of_start (h0 : (lsu n m T W).start s) : s.Inv := by
  obtain ⟨hq, hmem, hstdf, hclr, hxcpt, hst, hsta, hstd, hf, hk, hd, hr, hs⟩ := h0
  have hvalid (j : Fin n) : (s.q.stq j).valid = false := hq.2.1 j
  constructor
  · exact Queues.inv_of_start hq
  · intro j hv
    rw [hvalid] at hv
    contradiction
  · intro u hu
    obtain ⟨p, -, hp⟩ := List.mem_filterMap.1 hu
    cases p with
    | none =>
      rw [report, hstdf] at hp
      contradiction
    | some w =>
      rw [report, hmem] at hp
      contradiction
  · intro u hu
    obtain ⟨p, -, hp⟩ := List.mem_filterMap.1 hu
    rw [hclr] at hp
    contradiction
  · intro a ha
    rw [hstdf] at ha
    contradiction
  · exact fun k _ => ⟨hsta k, hstd k, hf k, hk k, hd k, hr k, hs k, hst k⟩
  · intro k v hv
    rw [hst] at hv
    contradiction
  · intro k hk
    rw [hs] at hk
    contradiction

end Step

end Lsu

theorem inv_of_reach [NeZero n] [NeZero m] {s : Lsu n m T W} (h : (lsu n m T W).Reach s) : s.Inv :=
  h.inv (fun _ h => Lsu.inv_of_start h) fun _ _ h hok => h.next hok

/-- **Each store is reported once**: two cycles after the one in which its entry
    comes to hold a translated address and data, and not before; what is
    reported is the uop of such an entry, and no AMO.  A store has come to hold
    both when its halves have come and its last translation was a hit. -/
theorem clr_bsy_once [NeZero n] [NeZero m] {s : Lsu n m T W} (h : (lsu n m T W).Reach s) :
    (∀ k u, s.stores k = some u → u.is_amo = false → u.is_fence = false → s.killed k = false →
      s.faulted k = false → s.reported k =
        match s.done k with
        | none => []
        | some c => if c + 2 < s.cycle then [c + 2] else []) ∧
    (∀ i, ∀ u ∈ s.clr_bsy i, u.is_amo = false ∧
      (∃ v, s.stores u.number = some v ∧ v.rob_idx = u.rob_idx) ∧
      ∃ j, (s.q.stq j).valid = true ∧ (s.q.stq j).uop = u ∧
        (s.faulted u.number = false → (s.st j).complete = true)) ∧
    ∀ j, (s.q.stq j).valid = true → s.sta_in (s.uop j).number = true →
      s.std_in (s.uop j).number = true → s.faulted (s.uop j).number = false →
      (s.st j).addr_is_virtual = false → (s.done (s.uop j).number).isSome = true := by
  have hi := inv_of_reach h
  refine ⟨?_, ?_, fun j hv hsta hstd hf hvirt => ?_⟩
  · intro k u hu hamo hfence hk hf
    by_cases hin : ∃ j, (s.q.stq j).valid = true ∧ (s.uop j).number = k
    · obtain ⟨j, hv, rfl⟩ := hin
      obtain ⟨v, hsv, -, -, h3⟩ := (hi.entry j hv).store
      obtain rfl : u = v := Option.some.inj (hu.symm.trans hsv)
      obtain ⟨r, hphase, -, hr⟩ := (hi.entry j hv).phase (h3.symm.trans hamo)
      rw [← hr hf]
      cases r with
      | none => exact hphase.2.2
      | some c => exact hphase.2.2.2
    · obtain ⟨c, hc, hlt, hl⟩ := hi.gone k u hu hamo hfence hk hf fun j hv hn => hin ⟨j, hv, hn⟩
      rw [hc, hl]
      exact (if_pos hlt).symm
  · intro i u hu
    obtain ⟨hmem, j, hv, rfl⟩ := hi.held_of_clr_bsy hu
    have hamo := (hi.clrs _ hmem).1
    obtain ⟨v, hsv, h1, -⟩ := (hi.entry j hv).store
    refine ⟨hamo, ⟨v, hsv, h1⟩, j, hv, rfl, fun hf => ?_⟩
    obtain ⟨r, hphase, -, hr⟩ := (hi.entry j hv).phase hamo
    have hpos := hphase.sent_of_pos (.inr (Nat.pos_of_ne_zero (Lsu.count_pos hmem rfl)))
    rw [← (hi.entry j hv).done, ← hr hf]
    exact hpos
  · have he := hi.entry j hv
    rw [he.done, Fields.complete, he.addr_in hsta hf, hvirt, he.data_in hstd]
    rfl

/-! A store whose address misses in the TLB; the second try is in the cycle in
which its data comes from the floating-point unit. -/

instance : DecidableEq (MicroOp T) := fun u v => decidable_of_iff
  (u.number = v.number ∧ u.rob_idx = v.rob_idx ∧ (∀ b, u.br_mask b = v.br_mask b) ∧
    u.is_fence = v.is_fence ∧ u.is_amo = v.is_amo) <| by
  rw [MicroOp.ext_iff, funext_iff]

/-- A pipe without a request. -/
def noReq : ExeReq 3 1 := ⟨false, false, false, 0, ⟨0, 0, fun _ => false, false, false⟩, false⟩

/-- The uop of the first store. -/
def firstUop (is_amo : Bool) : MicroOp 1 := ⟨0, 0, fun _ => false, false, is_amo⟩

/-- Nothing happens. -/
def idle : In 3 3 1 1 where
  q := StoreDeps.idle
  exe_req _ := noReq
  can_fire _ _ := false
  tlb _ := ⟨false, false, false⟩
  ld_xcpt _ := false
  miss_rdy := true
  stq_retry_idx := 0
  stq_execute_head := 0
  fp_stdata := none
  dmem_ready := true

/-- Dispatch of a store. -/
def dispatch (is_amo : Bool) : In 3 3 1 1 :=
  { idle with q := { StoreDeps.idle with
      dis_uops := [⟨false, true, false, 0, fun _ => false, false, is_amo⟩] } }

/-- The unit after reset. -/
def emptyLsu : Lsu 3 3 1 1 where
  q := StoreDeps.emptyQueues
  st _ := ⟨false, false, false, false⟩
  mem _ := none
  stdf := none
  clr _ := none
  mem_xcpt _ := none
  exception1 := false
  exception2 := false
  cycle := 0
  stores _ := none
  sta_in _ := false
  std_in _ := false
  faulted _ := false
  killed _ := false
  done _ := none
  reported _ := []
  sent _ := false

theorem emptyLsu_start : (lsu 3 3 1 1).start emptyLsu :=
  ⟨StoreDeps.emptyQueues_start, fun _ => rfl, rfl, fun _ => rfl, fun _ => rfl, fun _ => rfl,
    fun _ => rfl, fun _ => rfl, fun _ => rfl, fun _ => rfl, fun _ => rfl, fun _ => rfl,
    fun _ => rfl⟩

/-- What the core promises, as a test, for one pipe, and cycles in which
    nothing commits and the cache does not answer. -/
def okTest (s : Lsu n m T 1) (i : In n m T 1) [NeZero n] [NeZero m] : Bool :=
  let x := i.exe_req 0
  StoreDeps.okTest s.q (s.queueIn i) && decide (
    (x.valid = true → x.is_sta = true ∨ x.is_std = true → (s.q.stq x.stq_idx).valid = true ∧
      (s.q.stq x.stq_idx).uop = x.uop ∧ (s.q.stq x.stq_idx).uop.is_fence = false) ∧
    (∀ a ∈ i.fp_stdata, (s.q.stq a.1).valid = true ∧ (s.q.stq a.1).uop = a.2 ∧
      (s.q.stq a.1).uop.is_fence = false) ∧
    (x.valid = true → x.is_sta = true → s.sta_in x.uop.number = false) ∧
    (x.valid = true → x.is_std = true → s.std_in x.uop.number = false) ∧
    (∀ a ∈ i.fp_stdata, s.std_in a.2.number = false ∧
      (x.valid = true → x.is_std = true → x.stq_idx ≠ a.1)) ∧
    ∀ j, s.q.commitsStore (s.queueIn i) j = false ∧ i.q.dmem_resp j = false)

theorem ok_of_okTest [NeZero n] [NeZero m] {s : Lsu n m T 1} {i : In n m T 1}
    (h : okTest s i = true) : s.Ok i := by
  rw [okTest, Bool.and_eq_true, decide_eq_true_iff] at h
  obtain ⟨hq, h1, h2, h3, h4, h5, h6⟩ := h
  have hone (w : Fin 1) : w = 0 := Subsingleton.elim w 0
  constructor
  · exact StoreDeps.ok_of_okTest hq
  · intro w hv hst
    rw [hone w] at hv hst ⊢
    obtain ⟨h7, h8, h9⟩ := h1 hv hst
    exact ⟨h7, h8 ▸ Same.refl i _, h9⟩
  · intro a ha
    obtain ⟨h7, h8, h9⟩ := h2 a ha
    exact ⟨h7, h8 ▸ Same.refl i _, h9⟩
  · intro w
    rw [hone w]
    exact h3
  · intro w
    rw [hone w]
    exact h4
  · intro a ha
    refine ⟨(h5 a ha).1, fun w => ?_⟩
    rw [hone w]
    exact (h5 a ha).2
  · intro v w hvw
    exact absurd ((hone v).trans (hone w).symm) hvw
  · intro j hj
    rw [(h6 j).1] at hj
    contradiction
  · intro j hj
    rw [(h6 j).2] at hj
    contradiction

/-- The address of a store misses in the TLB; its data comes over the other port. -/
def retryRun : List (In 3 3 1 1) :=
  [dispatch false,
    { idle with
      exe_req := fun _ => ⟨true, true, false, 0, firstUop false, false⟩
      tlb := fun _ => ⟨true, false, false⟩ },
    { idle with fp_stdata := some (0, firstUop false) }, idle, idle]

/-- The unit after this run. -/
def afterRetry : Lsu 3 3 1 1 := (lsu 3 3 1 1).run emptyLsu retryRun

/-- It is one of the machine, and the store is complete in cycle 2. -/
theorem retryRun_spec : (lsu 3 3 1 1).Reach afterRetry ∧ afterRetry.done 0 = some 2 ∧
    afterRetry.stores 0 = some (firstUop false) ∧ afterRetry.killed 0 = false ∧
    afterRetry.faulted 0 = false :=
  ⟨Machine.reach_run _ (.start emptyLsu_start)
    (Machine.accepts_of_passes (fun _ _ => ok_of_okTest) _ _ (by decide +kernel)),
    by decide +kernel⟩

theorem clr_bsy_once_retry : afterRetry.done 0 = some 2 ∧ afterRetry.reported 0 = [4] := by
  obtain ⟨hreach, hdone, hstore, hkilled, hfaulted⟩ := retryRun_spec
  refine ⟨hdone, ?_⟩
  rw [(clr_bsy_once hreach).1 0 (firstUop false) hstore rfl rfl hkilled hfaulted, hdone]
  rfl

/-- **A store that faults is never sent to the cache.** -/
theorem faulted_not_sent [NeZero n] [NeZero m] {s : Lsu n m T W} (h : (lsu n m T W).Reach s) {k : ℕ}
    (hf : s.faulted k = true) : s.sent k = false := by
  by_contra hs
  rw [Bool.not_eq_false] at hs
  rw [(inv_of_reach h).sent_ok k hs] at hf
  contradiction

/-- An AMO with an access fault, at the head of the queue. -/
def faultRun : List (In 3 3 1 1) :=
  [dispatch true,
    { idle with
      exe_req := fun _ => ⟨true, true, true, 0, firstUop true, false⟩
      tlb := fun _ => ⟨false, false, true⟩ },
    idle, idle, idle]

/-- The unit after a run with a page fault. -/
def afterFault : Lsu 3 3 1 1 := (lsu 3 3 1 1).run emptyLsu faultRun

/-- It is one of the machine, and the store faults though its entry is complete. -/
theorem faultRun_spec : (lsu 3 3 1 1).Reach afterFault ∧ (afterFault.st 0).complete = true ∧
    afterFault.faulted 0 = true :=
  ⟨Machine.reach_run _ (.start emptyLsu_start)
    (Machine.accepts_of_passes (fun _ _ => ok_of_okTest) _ _ (by decide +kernel)),
    by decide +kernel⟩

theorem faulted_not_sent_amo :
    (afterFault.st 0).complete = true ∧ afterFault.sent 0 = false :=
  ⟨faultRun_spec.2.1, faulted_not_sent faultRun_spec.1 faultRun_spec.2.2⟩

end BoomStop.StoreReady
