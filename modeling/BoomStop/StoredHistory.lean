/-
  The history that the fetch target queue stores for a packet
  (`fetch-target-queue.scala`) is the one that the predictors were asked with:
  the queue takes it from the packet before, or after a misprediction from the
  entry of the branch, where the core takes it from as well (`core.scala`).

  * `Agrees`: the banks are looked up alike, and the next update will be alike;
  * `StoreFront.next`: a cycle of the frontend, the queue, and the core's
    redirects;
  * `StoreInv`: what the queue will store is what is expected;
  * `stored_history`: what is stored for a packet was asked for it.
-/
import BoomStop.BranchUnit
import BoomStop.FetchHistory

namespace BoomStop.Ifu

open Sync RingOrder

variable {p : Params} {n L R : ℕ}

/-! ## Histories that agree -/

/-- The histories are looked up alike, and updated alike. -/
structure Agrees (p : Params) (g h : GlobalHistory L R) : Prop where
  histories : ∀ b, g.histories p b = h.histories p b
  current : g.current_saw_branch_not_taken = h.current_saw_branch_not_taken

namespace Agrees

variable {g h k : GlobalHistory L R}

theorem refl (g : GlobalHistory L R) : Agrees p g g := ⟨fun _ => rfl, rfl⟩

theorem symm (a : Agrees p g h) : Agrees p h g := ⟨fun b => (a.histories b).symm, a.current.symm⟩

theorem trans (a : Agrees p g h) (b : Agrees p h k) : Agrees p g k :=
  ⟨fun c => (a.histories c).trans (b.histories c), a.current.trans b.current⟩

/-- Calls and returns play no part. -/
theorem update [NeZero R] (a : Agrees p g h) (dontCare : Bool × Bool) (u : HistoryUpdate p)
    (cfi_is_call cfi_is_ret : Bool) : Agrees p (g.update dontCare u)
      (h.update dontCare { u with cfi_is_call := cfi_is_call, cfi_is_ret := cfi_is_ret }) := by
  have hc := a.current
  rw [GlobalHistory.update, GlobalHistory.update]
  by_cases h1 : p.nBanks = 1
  · rw [if_pos h1, if_pos h1, a.histories false, hc]
    exact ⟨fun _ => rfl, rfl⟩
  · rw [if_neg h1, if_neg h1, a.histories true, hc]
    by_cases h2 : u.ignore_second_bank = true
    · have h2' : HistoryUpdate.ignore_second_bank
          { u with cfi_is_call := cfi_is_call, cfi_is_ret := cfi_is_ret } = true := h2
      rw [if_pos h2, if_pos h2']
      exact ⟨fun _ => rfl, rfl⟩
    · have h2' : ¬HistoryUpdate.ignore_second_bank
          { u with cfi_is_call := cfi_is_call, cfi_is_ret := cfi_is_ret } = true := h2
      rw [if_neg h2, if_neg h2']
      exact ⟨fun _ => rfl, rfl⟩

end Agrees

theorem GlobalHistory.current_update [NeZero R] {g : GlobalHistory L R} (dontCare : Bool × Bool)
    (u : HistoryUpdate p) : (g.update dontCare u).current_saw_branch_not_taken = false := by
  rw [update]
  split_ifs <;> rfl

/-- A packet without branches leaves no trace. -/
theorem agrees_zero [NeZero R] (dontCare : Bool × Bool) {u : HistoryUpdate p}
    (hb : ∀ i, u.branches i = false) (hv : u.cfi_valid = false) (r r' : Fin R) :
    Agrees p (GlobalHistory.update dontCare (⟨0, false, false, false, r⟩ : GlobalHistory L R) u)
      ⟨0, false, false, false, r'⟩ := by
  have hno : ∀ l : List ℕ, l.any u.not_taken_branches = false := fun l =>
    List.any_eq_false.2 fun i _ => by
      rw [HistoryUpdate.not_taken_branches, hb, Bool.false_and]
      exact Bool.false_ne_true
  have hno' : ∀ i, u.not_taken_branches i = false := fun i => by
    rw [HistoryUpdate.not_taken_branches, hb, Bool.false_and]
  refine ⟨fun b => ?_, GlobalHistory.current_update dontCare u⟩
  by_cases h1 : p.nBanks = 1
  · simp [GlobalHistory.update, GlobalHistory.histories, h1, hno, hv]
  · have hno2 : ((List.range (p.fetchWidth - p.bankWidth)).any fun _ => false) = false :=
      List.any_eq_false.2 fun _ _ => Bool.false_ne_true
    cases hl : isLastBankInBlock p u.addr <;>
      simp [GlobalHistory.update, GlobalHistory.histories, h1, hno, hno', hno2, hl, hv,
        HistoryUpdate.ignore_second_bank, HistoryUpdate.cfi_in_bank_0]

/-! ## The histories in the pipeline -/

namespace Front

variable {cfg : F3Cfg} {s : Front p} {i : FrontCycle p}

/-- What goes to f3 and is fetched again all the same has a fault. -/
theorem fault_of_replay {q : FrontendResp p} (he : s.f3_enq cfg i = some q)
    (hr : s.replay i = true) : q.xcpt.any = true := by
  obtain ⟨h2, -, h3, -, hx, -⟩ := f3_enq_eq_some he
  have hresp : s.icache_resp_valid i = false := by
    rw [replay, h2, h3, Bool.not_true, Bool.and_false, Bool.or_false, Bool.true_and,
      Bool.not_eq_true'] at hr
    exact hr
  rw [f3_enq, Option.ite_none_right_eq_some, hresp, Bool.false_or] at he
  obtain ⟨hin, -⟩ := he
  rw [hx]
  simp only [Bool.and_eq_true] at hin
  exact hin.1.2.1

theorem valid_of_replay (hr : s.replay i = true) : s.s2.valid = true := by
  cases h2 : s.s2.valid with
  | true => rfl
  | false =>
    rw [replay, h2] at hr
    cases hr

end Front

namespace HistFront

variable [NeZero R] {cfg : HistCfg} {s : HistFront p L R} {i : FrontCycle p}
  {redirect_ghist : GlobalHistory L R}

/-- What f2 mends is what it need not correct. -/
theorem s2_ghist_f2_cases (he : cfg.enableGHistStallRepair = true) :
    s.s2_ghist_f2 cfg i = s.s1_ghist ∨
      (s.s2_ghist_f2 cfg i).current_saw_branch_not_taken = false ∧
        s.s1_ghist.same (s.s2_ghist_f2 cfg i) = true := by
  rw [s2_ghist_f2]
  split_ifs with h
  · refine .inr ⟨GlobalHistory.current_update _ _, ?_⟩
    simp only [Bool.and_eq_true, Bool.not_eq_true'] at h
    have hc : (!s.s1_ghist.same (s.f2_predicted_ghist cfg i) && cfg.enableGHistStallRepair) =
        false := h.2
    rwa [he, Bool.and_true, Bool.not_eq_false'] at hc
  · exact .inl rfl

theorem s2_ghist_next_cases (he : cfg.enableGHistStallRepair = true) :
    s.s2_ghist_next cfg i = s.s1_ghist ∨
      (s.s2_ghist_next cfg i).current_saw_branch_not_taken = false ∧
        s.s1_ghist.same (s.s2_ghist_next cfg i) = true := by
  rw [s2_ghist_next]
  cases hl : s.leaving i with
  | none => exact s2_ghist_f2_cases he
  | some q =>
    change (if _ then _ else _) = _ ∨ (if _ then _ else _ : GlobalHistory L R).2 = _ ∧
      s.s1_ghist.same (if _ then _ else _) = _
    split_ifs with h
    · simp only [Bool.and_eq_true, Bool.not_eq_true'] at h
      exact .inr ⟨GlobalHistory.current_update _ _, (same_of_not_correct he hl).2 h.2⟩
    · exact s2_ghist_f2_cases he

theorem f3_enq_ghist_cases (he : cfg.enableGHistStallRepair = true) :
    s.f3_enq_ghist cfg i = s.s2_ghist ∨ s.s2_ghist.same (s.f3_enq_ghist cfg i) = true := by
  rw [f3_enq_ghist]
  cases hl : s.leaving i with
  | none => exact .inl rfl
  | some q =>
    change (if _ then _ else _) = _ ∨ s.s2_ghist.same (if _ then _ else _) = _
    split_ifs with h
    · simp only [Bool.and_eq_true, Bool.not_eq_true'] at h
      exact .inr ((same_of_not_correct he hl).1 h.2)
    · exact .inl rfl

variable (cfg redirect_ghist) in
/-- What s0 asks with comes from an update, or is what s2 has to ask again. -/
theorem s0_ghist_cases (hc : Front.cancel i = false) :
    (s.s0_ghist cfg i redirect_ghist).current_saw_branch_not_taken = false ∨
      s.s0_ghist cfg i redirect_ghist = s.s2_ghist ∧
        s.front.replay (s.cycle cfg i) = true ∧
        s.front.f3_redirect cfg.f3 (s.cycle cfg i) = false := by
  cases h3 : s.front.f3_redirect cfg.f3 (s.cycle cfg i) with
  | true =>
    cases hl : s.leaving i with
    | none =>
      rw [Front.f3_redirect_of_none (hold_of_leaving cfg hl)] at h3
      cases h3
    | some q =>
      rw [s0_ghist_of_redirect hc hl h3]
      exact .inl (GlobalHistory.current_update _ _)
  | false =>
    cases hr : s.front.replay (s.cycle cfg i) with
    | true => exact .inr ⟨s0_ghist_of_replay hc h3 hr, rfl, rfl⟩
    | false =>
      have h2 : s.s0_ghist cfg i redirect_ghist = s.s0_ghist_f2 cfg i := by
        rw [s0_ghist_of_not_cancel hc, s0_ghist_f3, h3]
        split <;> rfl
      have hr' : s.front.replay i = false := hr
      rw [h2, s0_ghist_f2, hr', if_neg Bool.false_ne_true]
      left
      split_ifs
      · exact GlobalHistory.current_update _ _
      · exact GlobalHistory.current_update _ _
      · rfl

/-- The histories behind f3: each is the one that its packet was asked with,
    only a packet right behind a redirect has seen a branch that was not taken,
    and what comes to f3 next is what follows the packet in f4. -/
structure HistInv (cfg : HistCfg) (s : HistFront p L R) : Prop where
  front : s.front.Inv
  carried : Carried (Agrees p) s
  s2_young : s.front.f3.isSome → s.front.s2.valid = true →
    s.s2_ghist.current_saw_branch_not_taken = false
  s1_young : s.front.s1.valid = true → s.front.f3.isSome ∨ s.front.s2.valid = true →
    s.s1_ghist.current_saw_branch_not_taken = false
  s2_asked : s.front.s2.valid = true → ∀ b, s.s2_ghist.histories p b = s.s2_asked.histories p b
  f3_asked : s.front.f3.isSome → ∀ b, s.f3_ghist.histories p b = s.f3_asked.histories p b
  f4_asked : s.front.f4.isSome → ∀ b, s.f4_ghist.histories p b = s.f4_asked.histories p b
  f4_masked : s.front.f4.isSome → s.f4_bundle.br_mask &&& s.f4_bundle.mask = s.f4_bundle.br_mask
  f4_expected : s.front.f4.isSome →
    s.expected = s.f4_ghist.update cfg.dontCare s.f4_bundle.historyUpdate

/-- What is in f3 after a cycle was there, or came from s2. -/
theorem f3_next_cases (hc : Front.cancel i = false)
    (h : (s.next cfg i redirect_ghist).front.f3.isSome) :
    (∃ q, s.front.f3_enq cfg.f3 (s.cycle cfg i) = some q ∧
        (s.next cfg i redirect_ghist).front.f3 = some q) ∨
      s.front.f3_enq cfg.f3 (s.cycle cfg i) = none ∧ s.front.f3.isSome := by
  have hc' : Front.cancel (s.cycle cfg i) = false := hc
  obtain ⟨q, hq⟩ := Option.isSome_iff_exists.1 h
  rcases Front.nextF3_eq_some hc' hq with he | ⟨he, -, hf⟩
  · exact .inl ⟨q, he, hq⟩
  · exact .inr ⟨he, Option.isSome_iff_exists.2 ⟨q, hf⟩⟩

namespace HistInv

theorem s2_young_next (h : HistInv cfg s) (he : cfg.enableGHistStallRepair = true)
    (h3 : (s.next cfg i redirect_ghist).front.f3.isSome)
    (h2 : (s.next cfg i redirect_ghist).front.s2.valid = true) :
    (s.next cfg i redirect_ghist).s2_ghist.current_saw_branch_not_taken = false := by
  obtain ⟨h1, hclear⟩ := Front.s2_valid_next h2
  obtain ⟨-, -, -, hc⟩ := Front.f1_clear_eq_false hclear
  change (s.s2_ghist_next cfg i).2 = false
  rcases s2_ghist_next_cases (s := s) (i := i) he with hs | hs
  · rw [hs]
    refine h.s1_young h1 ?_
    rcases f3_next_cases hc h3 with ⟨q, hq, -⟩ | ⟨-, hf⟩
    · exact .inr (Front.f3_enq_eq_some hq).1
    · exact .inl hf
  · exact hs.1

theorem s1_young_next (h : HistInv cfg s)
    (h1 : (s.next cfg i redirect_ghist).front.s1.valid = true)
    (h23 : (s.next cfg i redirect_ghist).front.f3.isSome ∨
      (s.next cfg i redirect_ghist).front.s2.valid = true) :
    (s.next cfg i redirect_ghist).s1_ghist.current_saw_branch_not_taken = false := by
  cases hc : Front.cancel i with
  | true =>
    obtain ⟨h3, -, h2⟩ := next_of_cancel (s := s) cfg redirect_ghist hc
    rw [h3, h2] at h23
    exact h23.elim nofun nofun
  | false =>
    change (s.s0_ghist cfg i redirect_ghist).2 = false
    rcases s0_ghist_cases (s := s) cfg redirect_ghist hc with h0 | ⟨h0, hr, -⟩
    · exact h0
    · rw [h0]
      refine h.s2_young ?_ (Front.valid_of_replay hr)
      have h2 : (s.next cfg i redirect_ghist).front.s2.valid ≠ true := fun h2 => by
        have := (Front.f1_clear_eq_false (Front.s2_valid_next h2).2).1
        rw [hr] at this
        cases this
      rcases f3_next_cases hc (h23.resolve_right h2) with ⟨q, hq, hq'⟩ | ⟨-, hf⟩
      · -- a fault is not fetched again
        have := (h.front.next.f3_fault q hq' (Front.fault_of_replay hq hr)).2
        rw [show (s.front.next cfg.f3 (s.cycle cfg i)).s1.valid = true from h1] at this
        cases this
      · exact hf

theorem s2_asked_next (he : cfg.enableGHistStallRepair = true) (b : Bool) :
    (s.next cfg i redirect_ghist).s2_ghist.histories p b =
      (s.next cfg i redirect_ghist).s2_asked.histories p b := by
  change (s.s2_ghist_next cfg i).histories p b = s.s1_ghist.histories p b
  rcases s2_ghist_next_cases (s := s) (i := i) he with hs | hs
  · rw [hs]
  · exact (GlobalHistory.histories_congr hs.2 b).symm

theorem f3_asked_next (h : HistInv cfg s) (he : cfg.enableGHistStallRepair = true)
    (h3 : (s.next cfg i redirect_ghist).front.f3.isSome) (b : Bool) :
    (s.next cfg i redirect_ghist).f3_ghist.histories p b =
      (s.next cfg i redirect_ghist).f3_asked.histories p b := by
  have hc : Front.cancel i = false := by
    rw [Bool.eq_false_iff]
    intro hc
    rw [(next_of_cancel (s := s) cfg redirect_ghist hc).1] at h3
    cases h3
  change GlobalHistory.histories p (if _ then _ else _) b =
    GlobalHistory.histories p (if _ then _ else _) b
  rcases f3_next_cases hc h3 with ⟨q, hq, -⟩ | ⟨hq, hf⟩
  · rw [hq, Option.isSome_some, if_pos rfl, if_pos rfl, ← h.s2_asked (Front.f3_enq_eq_some hq).1 b]
    rcases f3_enq_ghist_cases (s := s) (i := i) he with hs | hs
    · rw [hs]
    · exact (GlobalHistory.histories_congr hs b).symm
  · rw [hq, Option.isSome_none, if_neg Bool.false_ne_true, if_neg Bool.false_ne_true]
    exact h.f3_asked hf b

theorem carried_next (h : HistInv cfg s) (he : cfg.enableGHistStallRepair = true)
    (hok : i.redirect_val = true → i.redirect_flush = true) :
    Carried (Agrees p) (s.next cfg i redirect_ghist) := by
  refine h.carried.next Agrees.refl hok fun q hl => ?_
  have hc := (((redirect_of_leaving hl.leaving).1 hl.follows).1 hl.valid).2
  have h3 : s.front.f3.isSome := Option.isSome_iff_exists.2 ⟨q, (front_of_leaving hl.leaving).2⟩
  exact ⟨GlobalHistory.histories_congr ((same_of_not_correct he hl.leaving).1 hc),
    (h.s2_young h3 hl.valid).trans (GlobalHistory.current_update _ _).symm⟩

end HistInv

/-- What is in f4 after a cycle was there, or came from f3. -/
theorem f4_next_cases (h : (s.next cfg i redirect_ghist).front.f4.isSome) :
    Front.cancel i = false ∧ ((∃ q, s.leaving i = some q ∧ s.front.f3 = some q) ∨
      s.leaving i = none ∧ s.front.f4.isSome) := by
  have hc : Front.cancel i = false := by
    rw [Bool.eq_false_iff]
    intro hc
    rw [(next_of_cancel (s := s) cfg redirect_ghist hc).2.1] at h
    cases h
  refine ⟨hc, ?_⟩
  cases hl : s.leaving i with
  | some q => exact .inl ⟨q, rfl, (front_of_leaving hl).2⟩
  | none =>
    obtain ⟨b, hb⟩ := Option.isSome_iff_exists.1 h
    rcases Front.nextF4_eq_some (show Front.cancel (s.cycle cfg i) = false from hc) hb with
      hf | ⟨-, -, h4⟩
    · rw [hold_of_leaving cfg hl] at hf
      cases hf
    · exact .inr ⟨rfl, Option.isSome_iff_exists.2 ⟨b, h4⟩⟩

omit [NeZero R] in
/-- A bit for each slot of some kind. -/
theorem slotBits_and (slots : List (Slot p)) {f g : Slot p → Bool}
    (h : ∀ t, f t = true → g t = true) :
    slotBits slots f &&& slotBits slots g = slotBits slots f := by
  refine Nat.eq_of_testBit_eq fun k => ?_
  rw [Nat.testBit_and]
  by_cases hk : k < p.fetchWidth
  · rw [slotBits, slotBits, Nat.testBit_ofBits_lt _ _ hk, Nat.testBit_ofBits_lt _ _ hk]
    cases ht : slots[k]? with
    | none => rfl
    | some t =>
      rw [Option.any_some, Option.any_some]
      cases hf : f t with
      | false => rfl
      | true => rw [h t hf, Bool.and_self]
  · rw [slotBits, Nat.testBit_ofBits_ge _ _ (not_lt.1 hk), Bool.false_and]

omit [NeZero R] in
/-- The branches of a packet are among its instructions. -/
theorem bundle_masked (q : FrontendResp p) :
    (s.bundle cfg i q).br_mask &&& (s.bundle cfg i q).mask = (s.bundle cfg i q).br_mask :=
  slotBits_and _ fun _ h => (Bool.and_eq_true _ _ ▸ h).1

namespace HistInv

variable (redirect_ghist) in
/-- What came to f4 from f3. -/
theorem f4_next_of_leaving (h : HistInv cfg s) (hv : i.redirect_val = false) {q : FrontendResp p}
    (hl : s.leaving i = some q) (hq : s.front.f3 = some q) :
    (s.next cfg i redirect_ghist).f4_ghist = s.f3_ghist ∧
      (s.next cfg i redirect_ghist).f4_bundle = s.bundle cfg i q ∧
      (s.next cfg i redirect_ghist).expected =
        s.f3_ghist.update cfg.dontCare (s.bundle cfg i q).historyUpdate ∧
      ∀ b, s.f3_ghist.histories p b =
        (s.next cfg i redirect_ghist).f4_asked.histories p b := by
  refine ⟨?_, ?_, ?_, fun b => ?_⟩
  · change (if (s.leaving i).isSome then _ else _) = _
    rw [hl, Option.isSome_some, if_pos rfl]
  · change ((s.leaving i).map _).getD _ = _
    rw [hl]
    rfl
  · rw [expected_next hv, hl]
    rfl
  · change _ = GlobalHistory.histories p (if (s.leaving i).isSome then _ else _) b
    rw [hl, Option.isSome_some, if_pos rfl]
    exact h.f3_asked (by rw [hq]; rfl) b

variable (cfg redirect_ghist) in
/-- What stays in f4. -/
theorem f4_next_of_none (hv : i.redirect_val = false) (hl : s.leaving i = none) :
    (s.next cfg i redirect_ghist).f4_ghist = s.f4_ghist ∧
      (s.next cfg i redirect_ghist).f4_bundle = s.f4_bundle ∧
      (s.next cfg i redirect_ghist).expected = s.expected ∧
      (s.next cfg i redirect_ghist).f4_asked = s.f4_asked := by
  refine ⟨?_, ?_, ?_, ?_⟩
  · change (if (s.leaving i).isSome then _ else _) = _
    rw [hl, Option.isSome_none, if_neg Bool.false_ne_true]
  · change ((s.leaving i).map _).getD _ = _
    rw [hl]
    rfl
  · rw [expected_next hv, hl]
    rfl
  · change (if (s.leaving i).isSome then _ else _) = _
    rw [hl, Option.isSome_none, if_neg Bool.false_ne_true]

/-- A cycle keeps the histories together. -/
theorem next (h : HistInv cfg s) (he : cfg.enableGHistStallRepair = true)
    (hok : i.redirect_val = true → i.redirect_flush = true) :
    HistInv cfg (s.next cfg i redirect_ghist) := by
  have h4 (hf : (s.next cfg i redirect_ghist).front.f4.isSome) :
      (∀ b, (s.next cfg i redirect_ghist).f4_ghist.histories p b =
        (s.next cfg i redirect_ghist).f4_asked.histories p b) ∧
      (s.next cfg i redirect_ghist).f4_bundle.br_mask &&&
        (s.next cfg i redirect_ghist).f4_bundle.mask =
          (s.next cfg i redirect_ghist).f4_bundle.br_mask ∧
      (s.next cfg i redirect_ghist).expected =
        (s.next cfg i redirect_ghist).f4_ghist.update cfg.dontCare
          (s.next cfg i redirect_ghist).f4_bundle.historyUpdate := by
    obtain ⟨hc, ⟨q, hl, hq⟩ | ⟨hl, h4⟩⟩ := f4_next_cases hf
    · obtain ⟨hg, hb, hx, ha⟩ := h.f4_next_of_leaving redirect_ghist
        (redirect_val_of_not_cancel hok hc) hl hq
      rw [hg, hb, hx]
      exact ⟨ha, bundle_masked q, rfl⟩
    · obtain ⟨hg, hb, hx, ha⟩ := f4_next_of_none cfg redirect_ghist
        (redirect_val_of_not_cancel hok hc) hl
      rw [hg, hb, hx, ha]
      exact ⟨h.f4_asked h4, h.f4_masked h4, h.f4_expected h4⟩
  exact ⟨h.front.next, h.carried_next he hok, h.s2_young_next he, h.s1_young_next,
    fun _ => s2_asked_next he, h.f3_asked_next he, fun hf => (h4 hf).1, fun hf => (h4 hf).2.1,
    fun hf => (h4 hf).2.2⟩

end HistInv

/-- The histories after reset. -/
theorem histInv_of_start (h : (histFrontend cfg).start s) : HistInv cfg s := by
  have hcarried : Carried (Agrees p) s := carried_of_start Agrees.refl h
  obtain ⟨hfront, -⟩ := h
  obtain ⟨-, -, h2, -, h3, h4, -⟩ := id hfront
  have h3' : ¬s.front.f3.isSome := by
    rw [h3]
    exact Bool.false_ne_true
  have h2' : ¬s.front.s2.valid = true := by
    rw [h2]
    exact Bool.false_ne_true
  have h4' : ¬s.front.f4.isSome := by
    rw [h4]
    exact Bool.false_ne_true
  exact ⟨Front.inv_of_start hfront, hcarried, fun h => absurd h h3',
    fun _ h => (h.elim h3' h2').elim, fun h => absurd h h2', fun h => absurd h h3',
    fun h => absurd h h4', fun h => absurd h h4', fun h => absurd h h4'⟩

end HistFront

/-! ## The queue and the core -/

/-- What `update` is told of an entry. -/
def FTQBundle.historyUpdate (e : FTQBundle p) (pc : BitVec p.va) : HistoryUpdate p where
  branches := e.br_mask.testBit
  cfi_taken := e.cfi_taken
  cfi_is_br := e.br_mask.testBit e.cfi_idx
  cfi_idx := e.cfi_idx
  cfi_valid := e.cfi_idx_valid
  addr := pc
  cfi_is_call := e.cfi_is_call
  cfi_is_ret := e.cfi_is_ret

/-- `new_cfi_idx`, and `cfi_idx` in the core. -/
def FTQBundle.new_cfi_idx (e : FTQBundle p) (b2 : BrResolution n) : ℕ :=
  (b2.pc_lob ^^^ (if e.start_bank then 1 <<< Nat.clog 2 p.bankBytes else 0)) / 2 %
    2 ^ Nat.clog 2 p.fetchWidth

/-- What is stored for a packet. -/
structure Stored (p : Params) (L R : ℕ) where
  ghist : GlobalHistory L R
  entry : FTQBundle p
  pc : BitVec p.va

/-- The history after it. -/
def Stored.update [NeZero R] (dontCare : Bool × Bool) (q : Stored p L R) : GlobalHistory L R :=
  q.ghist.update dontCare (q.entry.historyUpdate q.pc)

/-- `oldest_mispredict`, as far as the redirect uses it. -/
structure Mispredict (n : ℕ) where
  b2 : BrResolution n
  cfi_is_br : Bool
  is_rvc : Bool
  edge_inst : Bool

/-- The frontend, the queue with its histories, and the registers of the core
    that a redirect is made of. -/
structure StoreFront (p : Params) (n L R : ℕ) where
  hist : HistFront p L R
  ftq : FetchTargetQueue p n
  ghist : Fin n → GlobalHistory L R
  /-- `prev_ghist`, `prev_entry` and `prev_pc` -/
  prev : Stored p L R
  bpd_ghist : GlobalHistory L R
  /-- `get_ftq_pc(1)` -/
  port : Stored p L R
  /-- `brupdate.b2` -/
  b2 : Mispredict n

/-- The inputs of a cycle; the handshake with the queue and the redirect are
    made from the state. -/
structure StoreCycle (p : Params) (n R : ℕ) where
  front : FrontCycle p
  deq : Option (Fin n)
  /-- `RegNext(rob.io.flush.valid)`, with the entry and its place in the stack -/
  flush : Bool
  flush_ftq_idx : Fin n
  flush_ras_idx : Fin R
  flush_frontend : Bool
  b1 : Mispredict n

namespace StoreFront

variable (cfg : HistCfg) (s : StoreFront p n L R) (i : StoreCycle p n R)

/-- `io.ifu.redirect_val` -/
def redirect_val : Bool := i.flush || s.b2.b2.mispredict

/-- `io.ifu.redirect_ftq_idx` -/
def redirect_ftq_idx : Fin n := if i.flush then i.flush_ftq_idx else s.b2.b2.ftq_idx

/-- `use_same_ghist`. -/
def use_same_ghist : Bool :=
  let block_pc := Exu.AlignPCToBoundary p s.port.pc
  let npc := (block_pc ||| BitVec.ofNat p.va s.b2.b2.pc_lob) +
    if s.b2.is_rvc || s.b2.edge_inst then 2 else 4
  s.b2.cfi_is_br && !s.b2.b2.taken && bankAlign p block_pc == bankAlign p npc

/-- What the frontend is given. -/
def frontCycle : FrontCycle p :=
  { i.front with
    ftq_ready := s.ftq.enq_ready
    redirect_val := s.redirect_val i
    redirect_flush := s.redirect_val i || i.flush_frontend || i.b1.b2.mispredict }

/-- What the queue is given. -/
def ftqIn : In p n where
  enq := if i.front.fb_ready && !i.front.f4_delay then
    s.hist.front.f4.map fun _ => s.hist.f4_bundle else none
  deq := i.deq
  redirect := if s.redirect_val i then some (s.redirect_ftq_idx i) else none
  b2 := s.b2.b2

/-- What is stored behind an index. -/
def stored (r : Fin n) : Stored p L R := ⟨s.ghist r, s.ftq.ram r, s.ftq.pcs r⟩

/-- What a redirect has read, and how it mends the entry. -/
def redirected : Stored p L R := ⟨s.bpd_ghist, s.ftq.redirect_new_entry_d, s.ftq.bpd_pc⟩

variable [NeZero R]

/-- `next_ghist`. -/
def next_ghist : GlobalHistory L R :=
  let cfi_idx := s.port.entry.new_cfi_idx s.b2.b2
  s.port.ghist.update cfg.dontCare
    { branches := s.port.entry.br_mask.testBit
      cfi_taken := s.b2.b2.taken
      cfi_is_br := s.b2.cfi_is_br
      cfi_idx := cfi_idx
      cfi_valid := true
      addr := s.port.pc
      cfi_is_call := s.port.entry.cfi_is_call && s.port.entry.cfi_idx = cfi_idx
      cfi_is_ret := s.port.entry.cfi_is_ret && s.port.entry.cfi_idx = cfi_idx }

/-- `io.ifu.redirect_ghist`. -/
def redirect_ghist : GlobalHistory L R :=
  if i.flush then ⟨0, true, false, false, i.flush_ras_idx⟩
  else { (if s.use_same_ghist then s.port.ghist else s.next_ghist cfg) with
    current_saw_branch_not_taken := s.use_same_ghist }

/-- `new_ghist`. -/
def new_ghist : GlobalHistory L R :=
  if s.hist.f4_ghist.current_saw_branch_not_taken then s.hist.f4_ghist
  else s.prev.update cfg.dontCare

variable [NeZero n]

/-- `prev_ghist`, `prev_entry` and `prev_pc`: a later statement wins. -/
def prev_next : Stored p L R :=
  match (s.ftqIn i).redirect, s.ftq.redirect_d with
  | none, some _ => s.redirected
  | _, _ =>
    match s.ftq.do_enq (s.ftqIn i) with
    | some b => ⟨s.new_ghist cfg, b.new_entry, b.pc⟩
    | none => s.prev

/-- A cycle. -/
def next : StoreFront p n L R where
  hist := s.hist.next cfg (s.frontCycle i) (s.redirect_ghist cfg i)
  ftq := s.ftq.next (s.ftqIn i)
  ghist := match s.ftq.do_enq (s.ftqIn i) with
    | some _ => Function.update s.ghist s.ftq.enq_ptr (s.new_ghist cfg)
    | none => s.ghist
  prev := s.prev_next cfg i
  bpd_ghist := s.ghist (s.ftq.bpd_idx (s.ftqIn i))
  port := s.stored i.b1.b2.ftq_idx
  b2 := i.b1

end StoreFront

/-- An entry of zeros. -/
def FTQBundle.zero (p : Params) : FTQBundle p :=
  ⟨false, 0, false, false, 0, 0, false, false, false, 0, 0, false⟩

/-- The frontend in the core: it returns to an entry that is in the queue, and
    resolves branches of their packets. -/
def storeFrontend (cfg : HistCfg) [NeZero n] [NeZero R] :
    Machine (StoreFront p n L R) (StoreCycle p n R) where
  start s := (histFrontend cfg).start s.hist ∧
    s.ftq.bpd_ptr = place n 0 ∧ s.ftq.deq_ptr = place n 0 ∧ s.ftq.enq_ptr = place n 1 ∧
    s.ftq.redirect_d = none ∧ s.b2.b2.mispredict = false ∧
    s.prev = ⟨⟨0, false, false, false, 0⟩, .zero p, 0⟩
  ok s i :=
    (s.redirect_val i = true → s.redirect_ftq_idx i ≠ s.ftq.enq_ptr) ∧
      (i.b1.b2.mispredict = true → i.b1.b2.ftq_idx ≠ s.ftq.enq_ptr ∧
        i.b1.cfi_is_br = (s.ftq.ram i.b1.b2.ftq_idx).br_mask.testBit
          ((s.ftq.ram i.b1.b2.ftq_idx).new_cfi_idx i.b1.b2))
  next s i := s.next cfg i

/-! ## What a cycle does to the queue -/

namespace FetchTargetQueue

variable [NeZero n] {f : FetchTargetQueue p n} {i : In p n}

/-- An entry is written by an enqueue, or mended after a redirect. -/
theorem next_ram_cases {r : Fin n} (hr : r ≠ f.enq_ptr) : (f.next i).ram r = f.ram r ∨
    f.redirect_d = some r ∧ (f.next i).ram r = f.redirect_new_entry_d := by
  have he := (enqWrite_of_ne (i := i) hr).2
  have hd : (f.enqWrite i).redirect_d = f.redirect_d ∧
      (f.enqWrite i).redirect_new_entry_d = f.redirect_new_entry_d := by
    rw [enqWrite]
    split <;> exact ⟨rfl, rfl⟩
  rw [next_ram, redirectWrite, hd.1, hd.2]
  split
  · rename_i r' _ hr'
    by_cases hrr : r' = r
    · exact .inr ⟨hrr ▸ hr', hrr ▸ Function.update_self _ _ _⟩
    · exact .inl ((Function.update_of_ne (Ne.symm hrr) _ _).trans he)
  · exact .inl he

end FetchTargetQueue

/-! ## The invariant -/

namespace StoreFront

variable [NeZero n] [NeZero R] {cfg : HistCfg} {s : StoreFront p n L R} {i : StoreCycle p n R}

/-- What a cycle does not change of what is stored, except with an enqueue. -/
structure Keeps (q r : Stored p L R) : Prop where
  ghist : q.ghist = r.ghist
  pc : q.pc = r.pc
  br_mask : q.entry.br_mask = r.entry.br_mask
  start_bank : q.entry.start_bank = r.entry.start_bank

/-- The packet whose history and entry the next one follows from. -/
def last (s : StoreFront p n L R) : Stored p L R :=
  if s.ftq.redirect_d.isSome then s.redirected else s.prev

/-- The history that is expected of the next packet that leaves f4. -/
def due (s : StoreFront p n L R) : GlobalHistory L R :=
  if s.hist.front.f4.isSome then s.hist.f4_ghist else s.hist.expected

/-- Nothing is fetched until the core redirects. -/
structure Idle (s : Front p) : Prop where
  s1 : s.s1.valid = false
  s2 : s.s2.valid = false
  f3 : s.f3 = none
  f4 : s.f4 = none

/-- **What the queue is about to store is what is expected**: it follows from
    the last packet, or is taken from the packet right behind a redirect. -/
structure StoreInv (cfg : HistCfg) (s : StoreFront p n L R) : Prop where
  hist : s.hist.HistInv cfg
  f4 : s.ftq.redirect_d.isSome → s.hist.front.f4 = none
  entry : ∀ r, s.ftq.redirect_d = some r → Keeps s.redirected (s.stored r)
  due : Idle s.hist.front ∨ s.due.current_saw_branch_not_taken = true ∨
    Agrees p (s.last.update cfg.dontCare) s.due
  port : s.b2.b2.mispredict = true → Keeps s.port (s.stored s.b2.b2.ftq_idx)
  branch : s.b2.b2.mispredict = true → s.b2.cfi_is_br =
    s.port.entry.br_mask.testBit (s.port.entry.new_cfi_idx s.b2.b2)

omit [NeZero n] [NeZero R] in
/-- An enqueue is a packet that leaves f4. -/
theorem do_enq_eq : s.ftq.do_enq (s.ftqIn i) =
    if Front.f4_deq_ready (s.frontCycle i) then s.hist.front.f4.map fun _ => s.hist.f4_bundle
    else none := by
  rw [FetchTargetQueue.do_enq]
  change (if s.ftq.enq_ready then (if i.front.fb_ready && !i.front.f4_delay then _ else none)
    else none) = if i.front.fb_ready && s.ftq.enq_ready && !i.front.f4_delay then _ else none
  cases s.ftq.enq_ready <;> cases i.front.fb_ready <;> cases i.front.f4_delay <;> rfl

omit [NeZero n] [NeZero R] in
theorem of_do_enq {b : FetchBundle p} (hb : s.ftq.do_enq (s.ftqIn i) = some b) :
    Front.f4_deq_ready (s.frontCycle i) = true ∧ s.hist.front.f4.isSome ∧ b = s.hist.f4_bundle := by
  rw [do_enq_eq, Option.ite_none_right_eq_some, Option.map_eq_some_iff] at hb
  obtain ⟨hr, q, hq, rfl⟩ := hb
  exact ⟨hr, Option.isSome_iff_exists.2 ⟨q, hq⟩, rfl⟩

/-- What is stored behind an index that is not written. -/
theorem stored_next {r : Fin n} (hr : r ≠ s.ftq.enq_ptr)
    (hd : ∀ r, s.ftq.redirect_d = some r → Keeps s.redirected (s.stored r)) :
    Keeps (s.stored r) ((s.next cfg i).stored r) := by
  have hg : (s.next cfg i).ghist r = s.ghist r := by
    change (match s.ftq.do_enq (s.ftqIn i) with
      | some _ => Function.update s.ghist s.ftq.enq_ptr (s.new_ghist cfg)
      | none => s.ghist) r = s.ghist r
    cases s.ftq.do_enq (s.ftqIn i) with
    | some b => exact Function.update_of_ne hr _ _
    | none => rfl
  have hp : (s.next cfg i).ftq.pcs r = s.ftq.pcs r := by
    change (s.ftq.next (s.ftqIn i)).pcs r = _
    rw [FetchTargetQueue.next_pcs]
    exact (FetchTargetQueue.enqWrite_of_ne hr).1
  rcases FetchTargetQueue.next_ram_cases (i := s.ftqIn i) hr with he | ⟨hd', he⟩
  · exact ⟨hg.symm, hp.symm, congrArg FTQBundle.br_mask he.symm,
      congrArg FTQBundle.start_bank he.symm⟩
  · have hk := hd r hd'
    exact ⟨hg.symm, hp.symm, hk.br_mask.symm.trans (congrArg FTQBundle.br_mask he.symm),
      hk.start_bank.symm.trans (congrArg FTQBundle.start_bank he.symm)⟩

/-! ### Without a redirect -/

/-- Nothing comes after the core has stopped the frontend. -/
theorem idle_of_cancel (hv : s.redirect_val i = false) (hc : Front.cancel (s.frontCycle i) = true) :
    Idle (s.next cfg i).hist.front := by
  obtain ⟨h3, h4, h2⟩ :=
    HistFront.next_of_cancel (s := s.hist) cfg (s.redirect_ghist cfg i) hc
  refine ⟨?_, h2, h3, h4⟩
  change (s.hist.front.s0 cfg.f3 (s.hist.cycle cfg (s.frontCycle i))).valid = false
  rw [Bool.eq_false_iff]
  intro h1
  have ho := (Front.s0_of_cancel (i := s.hist.cycle cfg (s.frontCycle i)) hc h1).1
  have hv' := (HistFront.of_orders_redirect ho).2.2
  exact absurd (hv.symm.trans hv') Bool.false_ne_true

/-- Nothing comes by itself. -/
theorem Idle.next (h : Idle s.hist.front) (hv : s.redirect_val i = false) :
    Idle (s.next cfg i).hist.front := by
  cases hc : Front.cancel (s.frontCycle i) with
  | true => exact idle_of_cancel hv hc
  | false =>
    have hc' : Front.cancel (s.hist.cycle cfg (s.frontCycle i)) = false := hc
    have hl : s.hist.leaving (s.frontCycle i) = none := by
      rw [HistFront.leaving, h.f3, ite_self]
    have hf := HistFront.hold_of_leaving cfg hl
    have hred := Front.f3_redirect_of_none hf
    have he : s.hist.front.f3_enq cfg.f3 (s.hist.cycle cfg (s.frontCycle i)) = none := by
      rw [Front.f3_enq, h.s2]
      rfl
    refine ⟨?_, ?_, ?_, ?_⟩
    · exact Front.s0_of_empty hc' hred h.s1 h.s2
    · change (s.hist.front.s1.valid && _) = false
      rw [h.s1, Bool.false_and]
    · change s.hist.front.nextF3 cfg.f3 (s.hist.cycle cfg (s.frontCycle i)) = none
      rw [Front.nextF3, hc', if_neg Bool.false_ne_true, he, h.f3]
      exact ite_self _
    · change s.hist.front.nextF4 cfg.f3 (s.hist.cycle cfg (s.frontCycle i)) = none
      rw [Front.nextF4, hc', if_neg Bool.false_ne_true, hf, h.f4]
      exact ite_self _

/-- The packet in f4 makes way for the one in f3. -/
theorem StoreInv.due_next_of_ready (h : StoreInv cfg s) (hv : s.redirect_val i = false)
    (hc : Front.cancel (s.frontCycle i) = false)
    (hr : s.hist.front.f4_ready (s.frontCycle i) = true) :
    Agrees p s.hist.expected (s.next cfg i).due := by
  have hl : s.hist.leaving (s.frontCycle i) = s.hist.front.f3 := if_pos hr
  have hn : (s.next cfg i).hist.front.f4 =
      s.hist.front.nextF4 cfg.f3 (s.hist.cycle cfg (s.frontCycle i)) := rfl
  rw [Front.nextF4, show Front.cancel (s.hist.cycle cfg (s.frontCycle i)) = false from hc,
    if_neg Bool.false_ne_true] at hn
  cases hq : s.hist.front.f3 with
  | some q =>
    rw [hq] at hl
    simp only [HistFront.fire_of_leaving cfg hl] at hn
    have hg := (h.hist.f4_next_of_leaving (s.redirect_ghist cfg i) hv hl hq).1
    rw [StoreFront.due, hn, Option.isSome_some, if_pos rfl]
    change Agrees p _ (s.hist.next cfg (s.frontCycle i) (s.redirect_ghist cfg i)).f4_ghist
    rw [hg]
    exact (h.hist.carried.f3 q hq).symm
  | none =>
    rw [hq] at hl
    simp only [HistFront.hold_of_leaving cfg hl] at hn
    have hx := (HistFront.HistInv.f4_next_of_none cfg (s.redirect_ghist cfg i) hv hl).2.2.1
    have h4 : (s.next cfg i).hist.front.f4 = none := by
      rw [Front.f4_ready, Bool.or_eq_true, Option.isNone_iff_eq_none] at hr
      rw [hn]
      rcases hr with hr | hr
      · rw [hr]
        exact ite_self _
      · exact if_pos hr
    rw [StoreFront.due, h4, Option.isSome_none, if_neg Bool.false_ne_true]
    change Agrees p _ (s.hist.next cfg (s.frontCycle i) (s.redirect_ghist cfg i)).expected
    rw [hx]
    exact .refl _

/-- The packet in f4 stays. -/
theorem due_next_of_hold (hv : s.redirect_val i = false)
    (hc : Front.cancel (s.frontCycle i) = false)
    (hr : s.hist.front.f4_ready (s.frontCycle i) = false) : (s.next cfg i).due = s.due := by
  have hl : s.hist.leaving (s.frontCycle i) = none := if_neg (Bool.eq_false_iff.1 hr)
  have hn : (s.next cfg i).hist.front.f4 =
      s.hist.front.nextF4 cfg.f3 (s.hist.cycle cfg (s.frontCycle i)) := rfl
  rw [Front.f4_ready, Bool.or_eq_false_iff] at hr
  rw [Front.nextF4, show Front.cancel (s.hist.cycle cfg (s.frontCycle i)) = false from hc,
    if_neg Bool.false_ne_true, HistFront.hold_of_leaving cfg hl] at hn
  have h4 : (s.next cfg i).hist.front.f4 = s.hist.front.f4 :=
    hn.trans (if_neg (Bool.eq_false_iff.1 hr.2))
  obtain ⟨hg, -, hx, -⟩ :=
    HistFront.HistInv.f4_next_of_none cfg (s.redirect_ghist cfg i) hv hl
  rw [due, due, h4]
  change (if _ then (s.hist.next cfg (s.frontCycle i) (s.redirect_ghist cfg i)).f4_ghist
    else (s.hist.next cfg (s.frontCycle i) (s.redirect_ghist cfg i)).expected) = _
  rw [hg, hx]

omit [NeZero n] [NeZero R] in
theorem redirect_of_not_val (hv : s.redirect_val i = false) :
    (s.ftqIn i).redirect = none := by
  change (if s.redirect_val i then some _ else none) = none
  rw [hv, if_neg Bool.false_ne_true]

theorem last_next_of_not_val (hv : s.redirect_val i = false) :
    (s.next cfg i).last = s.prev_next cfg i := by
  have hd : (s.next cfg i).ftq.redirect_d = none := redirect_of_not_val hv
  rw [last, hd]
  rfl

/-- What was stored last is what the next packet follows from. -/
theorem last_next_of_enq (hv : s.redirect_val i = false) (hd : s.ftq.redirect_d = none)
    {b : FetchBundle p} (hb : s.ftq.do_enq (s.ftqIn i) = some b) :
    (s.next cfg i).last = ⟨s.new_ghist cfg, b.new_entry, b.pc⟩ := by
  rw [last_next_of_not_val hv, prev_next, redirect_of_not_val hv, hd, hb]

theorem last_next_of_none (hv : s.redirect_val i = false)
    (hb : s.ftq.do_enq (s.ftqIn i) = none) : (s.next cfg i).last = s.last := by
  rw [last_next_of_not_val hv, prev_next, redirect_of_not_val hv, hb, last]
  cases s.ftq.redirect_d <;> rfl

omit [NeZero n] in
/-- What the queue stores for the packet in f4. -/
theorem StoreInv.agrees_new (h : StoreInv cfg s) (h4 : s.hist.front.f4.isSome) :
    Agrees p (s.new_ghist cfg) s.hist.f4_ghist := by
  have hdue : s.due = s.hist.f4_ghist := if_pos h4
  have hd : ¬s.ftq.redirect_d.isSome := fun hd => by
    rw [h.f4 hd] at h4
    cases h4
  have hlast : s.last = s.prev := if_neg hd
  rw [new_ghist]
  split_ifs with hcur
  · exact .refl _
  · rcases h.due with hi | hc | ha
    · rw [hi.f4] at h4
      cases h4
    · rw [hdue] at hc
      exact absurd hc hcur
    · rwa [hdue, hlast] at ha

omit [NeZero n] in
/-- The entry of a packet tells `update` what f3 has told it. -/
theorem historyUpdate_new_entry {b : FetchBundle p} (hm : b.br_mask &&& b.mask = b.br_mask) :
    b.new_entry.historyUpdate b.pc = b.historyUpdate := by
  rw [FTQBundle.historyUpdate, FetchBundle.historyUpdate]
  change (⟨(b.br_mask &&& b.mask).testBit, _, (b.br_mask &&& b.mask).testBit _, _, _, _, _, _⟩ :
    HistoryUpdate p) = _
  rw [hm]
  rfl

/-- Without a redirect, what is expected next follows from what is stored. -/
theorem StoreInv.due_next (h : StoreInv cfg s) (hv : s.redirect_val i = false) :
    Idle (s.next cfg i).hist.front ∨ (s.next cfg i).due.current_saw_branch_not_taken = true ∨
      Agrees p ((s.next cfg i).last.update cfg.dontCare) (s.next cfg i).due := by
  cases hc : Front.cancel (s.frontCycle i) with
  | true => exact .inl (idle_of_cancel hv hc)
  | false =>
    cases hb : s.ftq.do_enq (s.ftqIn i) with
    | some b =>
      obtain ⟨hr, h4, rfl⟩ := of_do_enq hb
      have hd : s.ftq.redirect_d = none := by
        cases hd : s.ftq.redirect_d with
        | none => rfl
        | some r =>
          rw [h.f4 (by rw [hd]; rfl)] at h4
          cases h4
      have hready : s.hist.front.f4_ready (s.frontCycle i) = true := by
        rw [Front.f4_ready, hr, Bool.or_true]
      right; right
      rw [last_next_of_enq hv hd hb]
      change Agrees p ((s.new_ghist cfg).update cfg.dontCare
        (s.hist.f4_bundle.new_entry.historyUpdate s.hist.f4_bundle.pc)) _
      rw [historyUpdate_new_entry (h.hist.f4_masked h4)]
      refine .trans ?_ (h.due_next_of_ready hv hc hready)
      rw [h.hist.f4_expected h4]
      exact (h.agrees_new h4).update _ _ _ _
    | none =>
      rw [last_next_of_none hv hb]
      rcases h.due with hi | hdue
      · exact .inl (hi.next hv)
      · right
        cases hr : s.hist.front.f4_ready (s.frontCycle i) with
        | false => rwa [due_next_of_hold hv hc hr]
        | true =>
          have h4 : s.hist.front.f4 = none := by
            rw [do_enq_eq] at hb
            rw [Front.f4_ready, Bool.or_eq_true, Option.isNone_iff_eq_none] at hr
            refine hr.elim id fun hr => ?_
            rw [if_pos hr] at hb
            exact Option.map_eq_none_iff.1 hb
          have hexp : s.due = s.hist.expected := if_neg (by rw [h4]; exact Bool.false_ne_true)
          have ha : Agrees p s.hist.expected (s.next cfg i).due := h.due_next_of_ready hv hc hr
          rw [← hexp] at ha
          exact hdue.imp (fun hcur => ha.current.symm.trans hcur) fun hag => hag.trans ha

/-! ### With a redirect -/

omit [NeZero R] in
theorem Keeps.trans {q r t : Stored p L R} (h : Keeps q r) (h' : Keeps r t) : Keeps q t :=
  ⟨h.ghist.trans h'.ghist, h.pc.trans h'.pc, h.br_mask.trans h'.br_mask,
    h.start_bank.trans h'.start_bank⟩

omit [NeZero R] [NeZero n] in
theorem new_cfi_idx_congr {e e' : FTQBundle p} (h : e.start_bank = e'.start_bank)
    (b2 : BrResolution n) : e.new_cfi_idx b2 = e'.new_cfi_idx b2 := by
  rw [FTQBundle.new_cfi_idx, FTQBundle.new_cfi_idx, h]

theorem redirected_next (hv : s.redirect_val i = true) : (s.next cfg i).redirected =
    ⟨s.ghist (s.redirect_ftq_idx i), (s.ftq.ram (s.redirect_ftq_idx i)).redirected s.b2.b2,
      s.ftq.pcs (s.redirect_ftq_idx i)⟩ := by
  have hr : (s.ftqIn i).redirect = some (s.redirect_ftq_idx i) := if_pos hv
  have hb : s.ftq.bpd_idx (s.ftqIn i) = s.redirect_ftq_idx i := by
    rw [FetchTargetQueue.bpd_idx, hr, Option.getD_some]
  have he : (s.ftq.next (s.ftqIn i)).redirect_new_entry_d =
      (s.ftq.ram (s.redirect_ftq_idx i)).redirected s.b2.b2 := by
    rw [FetchTargetQueue.next, hr]
    rfl
  change (⟨s.ghist (s.ftq.bpd_idx (s.ftqIn i)), (s.ftq.next (s.ftqIn i)).redirect_new_entry_d,
    s.ftq.pcs (s.ftq.bpd_idx (s.ftqIn i))⟩ : Stored p L R) = _
  rw [hb, he]

omit [NeZero n] [NeZero R] in
theorem keeps_redirected (r : Fin n) :
    Keeps ⟨s.ghist r, (s.ftq.ram r).redirected s.b2.b2, s.ftq.pcs r⟩ (s.stored r) := by
  refine ⟨rfl, rfl, ?_, ?_⟩
  · change ((s.ftq.ram r).redirected s.b2.b2).br_mask = (s.ftq.ram r).br_mask
    rw [FTQBundle.redirected]
    split_ifs <;> rfl
  · change ((s.ftq.ram r).redirected s.b2.b2).start_bank = (s.ftq.ram r).start_bank
    rw [FTQBundle.redirected]
    split_ifs <;> rfl

omit [NeZero n] in
/-- The core computes the history behind a misprediction as the queue will. -/
theorem StoreInv.agrees_next_ghist (h : StoreInv cfg s) (hm : s.b2.b2.mispredict = true) :
    Agrees p (Stored.update cfg.dontCare
      ⟨s.ghist s.b2.b2.ftq_idx, (s.ftq.ram s.b2.b2.ftq_idx).redirected s.b2.b2,
        s.ftq.pcs s.b2.b2.ftq_idx⟩) (s.next_ghist cfg) := by
  have hk := h.port hm
  have hidx := new_cfi_idx_congr hk.start_bank s.b2.b2
  have hbr := h.branch hm
  rw [Stored.update, FTQBundle.redirected, if_pos hm, next_ghist, hbr, hk.ghist, hk.pc, hk.br_mask,
    hidx]
  exact (Agrees.refl (s.ghist s.b2.b2.ftq_idx)).update cfg.dontCare _ _ _

/-- The packet behind a redirect. -/
theorem StoreInv.due_next_of_redirect (h : StoreInv cfg s) (hv : s.redirect_val i = true) :
    (s.next cfg i).due.current_saw_branch_not_taken = true ∨
      Agrees p ((s.next cfg i).last.update cfg.dontCare) (s.next cfg i).due := by
  have hc : Front.cancel (s.frontCycle i) = true := by
    change (_ || (s.redirect_val i || _ || _)) = true
    rw [hv, Bool.true_or, Bool.true_or, Bool.or_true]
  have h4 : (s.next cfg i).hist.front.f4 = none :=
    (HistFront.next_of_cancel (s := s.hist) cfg (s.redirect_ghist cfg i) hc).2.1
  have hdue : (s.next cfg i).due = s.redirect_ghist cfg i := by
    rw [StoreFront.due, h4]
    exact if_pos hv
  have hlast : (s.next cfg i).last = (s.next cfg i).redirected := by
    have hd : (s.next cfg i).ftq.redirect_d = some (s.redirect_ftq_idx i) := if_pos hv
    rw [last, hd]
    rfl
  rw [hdue, hlast, redirected_next hv]
  cases hf : i.flush with
  | true =>
    rw [redirect_ghist, hf]
    exact .inl rfl
  | false =>
    have hm : s.b2.b2.mispredict = true := by
      rw [redirect_val, hf, Bool.false_or] at hv
      exact hv
    have hr : s.redirect_ftq_idx i = s.b2.b2.ftq_idx := by
      rw [redirect_ftq_idx, hf, if_neg Bool.false_ne_true]
    rw [redirect_ghist, hf, if_neg Bool.false_ne_true, hr]
    cases s.use_same_ghist with
    | true => exact .inl rfl
    | false =>
      refine .inr ((h.agrees_next_ghist hm).trans ⟨fun _ => rfl, ?_⟩)
      exact GlobalHistory.current_update _ _

/-- A cycle keeps it. -/
theorem StoreInv.next (h : StoreInv cfg s) (he : cfg.enableGHistStallRepair = true)
    (hok : (storeFrontend cfg).ok s i) : StoreInv cfg (s.next cfg i) := by
  have hflush (hv : (s.frontCycle i).redirect_val = true) :
      (s.frontCycle i).redirect_flush = true := by
    have hv' : s.redirect_val i = true := hv
    change (s.redirect_val i || _ || _) = true
    rw [hv', Bool.true_or, Bool.true_or]
  have hval {r : Fin n} (hd : (s.next cfg i).ftq.redirect_d = some r) :
      s.redirect_val i = true ∧ s.redirect_ftq_idx i = r := by
    have hd' : (if s.redirect_val i then some (s.redirect_ftq_idx i) else none) = some r := hd
    rw [Option.ite_none_right_eq_some] at hd'
    exact ⟨hd'.1, Option.some.inj hd'.2⟩
  refine ⟨h.hist.next he hflush, fun hd => ?_, fun r hd => ?_, ?_, fun hm => ?_, fun hm => ?_⟩
  · obtain ⟨r, hr⟩ := Option.isSome_iff_exists.1 hd
    refine (HistFront.next_of_cancel (s := s.hist) cfg (s.redirect_ghist cfg i) ?_).2.1
    rw [Front.cancel, hflush (hval hr).1, Bool.or_true]
  · obtain ⟨hv, rfl⟩ := hval hd
    rw [redirected_next hv]
    exact (keeps_redirected _).trans (stored_next (hok.1 hv) h.entry)
  · cases hv : s.redirect_val i with
    | true => exact .inr (h.due_next_of_redirect hv)
    | false => exact h.due_next hv
  · exact stored_next (hok.2 hm).1 h.entry
  · exact (hok.2 hm).2

/-- The invariant after reset. -/
theorem storeInv_of_start (h : (storeFrontend cfg).start s) : StoreInv cfg s := by
  obtain ⟨hhist, -, -, -, hd, hm, hprev⟩ := h
  have hd' : ¬s.ftq.redirect_d.isSome := by
    rw [hd]
    exact Bool.false_ne_true
  have hm' : ¬s.b2.b2.mispredict = true := by
    rw [hm]
    exact Bool.false_ne_true
  refine ⟨HistFront.histInv_of_start hhist, fun h => absurd h hd', fun r hr => ?_, ?_,
    fun h => absurd h hm', fun h => absurd h hm'⟩
  · rw [hd] at hr
    cases hr
  · have h4 : s.hist.front.f4 = none := hhist.1.2.2.2.2.2.1
    have hdue : s.due = ⟨0, false, false, false, 0⟩ := by
      rw [due, h4, Option.isSome_none, if_neg Bool.false_ne_true, hhist.2.2.1, hhist.2.1]
    rw [last, if_neg hd', hprev, hdue]
    exact .inr (.inr (agrees_zero _ (fun k => Nat.zero_testBit k) rfl _ _))

/-- **What the queue stores for a packet is what the predictors were asked
    with.** -/
theorem stored_history (he : cfg.enableGHistStallRepair = true)
    (h : (storeFrontend cfg).Reach s) {b : FetchBundle p}
    (hb : s.ftq.do_enq (s.ftqIn i) = some b) (bank : Bool) :
    ((s.next cfg i).ghist s.ftq.enq_ptr).histories p bank =
      s.hist.f4_asked.histories p bank := by
  have hinv : StoreInv cfg s :=
    h.inv (fun _ => storeInv_of_start) fun _ _ hi hok => hi.next he hok
  have h4 : s.hist.front.f4.isSome := (of_do_enq hb).2.1
  have hg : (s.next cfg i).ghist s.ftq.enq_ptr = s.new_ghist cfg := by
    change (match s.ftq.do_enq (s.ftqIn i) with
      | some _ => Function.update s.ghist s.ftq.enq_ptr (s.new_ghist cfg)
      | none => s.ghist) s.ftq.enq_ptr = _
    rw [hb]
    exact Function.update_self _ _ _
  rw [hg, (hinv.agrees_new h4).histories, hinv.hist.f4_asked h4]

end StoreFront

/-! ## A misprediction -/

/-- No branch resolves. -/
def noBranch : Mispredict 8 := ⟨⟨false, false, 0, 0⟩, false, false, false⟩

/-- The frontend after reset. -/
def resetStore : StoreFront wideFetch 8 8 4 where
  hist := resetHist
  ftq :=
    { bpd_ptr := 0
      deq_ptr := 0
      enq_ptr := 1
      pcs := fun _ => 0
      ram := fun _ => .zero wideFetch
      bpd_update_mispredict := false
      bpd_update_repair := false
      bpd_repair_idx := 0
      bpd_end_idx := 0
      bpd_repair_pc := 0
      bpd_pc := 0
      enq_ready := true
      bpd_update_mispredict_d := false
      enq_ptr_d := 0
      redirect_d := none
      redirect_new_entry_d := .zero wideFetch
      b2_d := noBranch.b2 }
  ghist := fun _ => ⟨0, false, false, false, 0⟩
  prev := ⟨⟨0, false, false, false, 0⟩, .zero wideFetch, 0⟩
  bpd_ghist := ⟨0, false, false, false, 0⟩
  port := ⟨⟨0, false, false, false, 0⟩, .zero wideFetch, 0⟩
  b2 := noBranch

/-- A packet that hits. -/
def hitStore : StoreCycle wideFetch 8 4 := ⟨hitCycle, none, false, 0, 0, false, noBranch⟩

/-- `beq x0, x0, 16`. -/
def branchData (k : ℕ) : BitVec 16 := if k = 0 then 0x863 else if k = 1 then 0 else 1

/-- A branch that nothing predicts is taken, and the core goes on behind it. -/
def branchRun : List (StoreCycle wideFetch 8 4) :=
  [hitStore, { hitStore with front := { hitCycle with icache_data := branchData } }, hitStore,
    hitStore, { hitStore with b1 := ⟨⟨true, true, 1, 0⟩, true, false, false⟩ },
    { hitStore with front := { hitCycle with redirect_pc := 0x1010 } }, hitStore, hitStore,
    hitStore]

/-- Whether the core goes back to what is in the queue. -/
def returns (s : StoreFront wideFetch 8 8 4) (i : StoreCycle wideFetch 8 4) : Bool :=
  (!s.redirect_val i || s.redirect_ftq_idx i != s.ftq.enq_ptr) &&
    (!i.b1.b2.mispredict || i.b1.b2.ftq_idx != s.ftq.enq_ptr &&
      i.b1.cfi_is_br == (s.ftq.ram i.b1.b2.ftq_idx).br_mask.testBit
        ((s.ftq.ram i.b1.b2.ftq_idx).new_cfi_idx i.b1.b2))

theorem ok_of_returns (s : StoreFront wideFetch 8 8 4) (i : StoreCycle wideFetch 8 4)
    (h : returns s i = true) : (storeFrontend callCfg).ok s i := by
  rw [returns, Bool.and_eq_true, Bool.or_eq_true, Bool.or_eq_true, Bool.not_eq_true',
    Bool.not_eq_true', Bool.and_eq_true, bne_iff_ne, bne_iff_ne, beq_iff_eq] at h
  refine ⟨fun hv => h.1.resolve_left fun hv' => ?_, fun hm => h.2.resolve_left fun hm' => ?_⟩
  · exact absurd (hv'.symm.trans hv) Bool.false_ne_true
  · exact absurd (hm'.symm.trans hm) Bool.false_ne_true

/-- The state in which the packet behind the branch is in f4. -/
def branchTaken : StoreFront wideFetch 8 8 4 := (storeFrontend callCfg).run resetStore branchRun

/-- The second bank of the packet behind it was asked with a taken branch. -/
theorem stored_history_branch :
    ((branchTaken.next callCfg hitStore).ghist branchTaken.ftq.enq_ptr).histories wideFetch true =
      1 := by
  have hb : (branchTaken.ftq.do_enq (branchTaken.ftqIn hitStore)).isSome = true := by
    decide +kernel
  have hr : (storeFrontend callCfg).Reach branchTaken :=
    Machine.reach_run _ (.start ⟨resetHist_start, rfl, rfl, rfl, rfl, rfl, rfl⟩)
      (Machine.accepts_of_passes ok_of_returns _ _ (by decide +kernel))
  rw [StoreFront.stored_history rfl hr (Option.some_get hb).symm]
  decide +kernel

end BoomStop.Ifu
