/-
  Renaming never aliases and never leaks: in every reached state each physical
  register but `0` is in exactly one place (free, mapped, or the stale register
  of a uop in flight), and in one such place only.

  * `FreeList.next_isFree`: what one cycle of the free list does to the set of
    free registers, whatever its pipeline registers select;
  * `remap_table_eq`, `logOf_dispatched`: the parallel remapping of a bundle is
    a sequence of assignments, of which the dispatched uops are the log;
  * `survivors_mispredict`: the branch masks kill the uops younger than the
    branch;
  * `Stage.Inv`, `inv_step`: the invariant and its preservation;
  * `rename_exact`: the result.
-/
import BoomStop.Rename

namespace BoomStop.Rename

open Sync UndoLog

variable {W L N T : ℕ}

/-! ## The free list -/

theorem selMask_of_le {m : Fin N → Bool} {p : Fin N} {j k : ℕ} (hjk : j ≤ k)
    (h : selMask m k p = true) : selMask m j p = true := by
  induction k with
  | zero => rwa [Nat.le_zero.1 hjk]
  | succ k ih =>
    rcases Nat.le_succ_iff.1 hjk with hle | rfl
    · simp only [selMask, Bool.and_eq_true] at h
      exact ih hle h.1
    · exact h

theorem sels_mem {m : Fin N → Bool} {p : Fin N} {k : ℕ} (h : sels m k = some p) : m p = true :=
  selMask_of_le (Nat.zero_le k) (List.find?_some h)

/-- Two slots never select the same register. -/
theorem sels_inj {m : Fin N → Bool} {p : Fin N} {j k : ℕ} (hj : sels m j = some p)
    (hk : sels m k = some p) : j = k := by
  have lt : ∀ {j k : ℕ}, sels m j = some p → sels m k = some p → ¬ j < k := by
    intro j k hj hk hlt
    have hm : selMask m (j + 1) p = true := selMask_of_le hlt (List.find?_some hk)
    simp only [selMask, Bool.and_eq_true, decide_eq_true_eq] at hm
    exact hm.2 hj
  have h1 := lt hj hk
  have h2 := lt hk hj
  omega

namespace FreeList

variable {f : FreeList W N T} {i : In W N T}

/-- The parked registers differ, are not `0`, and are not in the list. -/
structure Wf [NeZero N] (f : FreeList W N T) : Prop where
  zero : f.free_list 0 = false
  parked : ∀ w, f.r_valid w = true → f.r_sel w ≠ 0 ∧ f.free_list (f.r_sel w) = false
  inj : ∀ w w', f.r_valid w = true → f.r_valid w' = true → f.r_sel w = f.r_sel w' → w = w'

theorem sel_mask_iff (p : Fin N) :
    f.sel_mask i p = true ↔ ∃ w, f.sel_fire i w = true ∧ sels f.free_list w = some p := by
  simp [sel_mask]

/-- What a slot parks after a cycle: its selection, if it takes one, else the
    register it had, unless that was allocated. -/
theorem next_parked [NeZero N] {w : Fin W}
    (h : (f.next i).r_valid w = true) :
    (f.sel_fire i w = true ∧ sels f.free_list w = some ((f.next i).r_sel w)) ∨
    (f.sel_fire i w = false ∧ f.r_valid w = true ∧ i.reqs w = false ∧
      (f.next i).r_sel w = f.r_sel w) := by
  by_cases hs : f.sel_fire i w = true
  · left
    have hs' := hs
    simp only [sel_fire, Bool.and_eq_true] at hs'
    obtain ⟨p, hp⟩ := Option.isSome_iff_exists.1 hs'.2
    refine ⟨hs, ?_⟩
    simp only [next, hs, if_true, hp, Option.getD_some]
  · right
    have hs := Bool.eq_false_of_not_eq_true hs
    have hs' := hs
    simp only [sel_fire, Bool.and_eq_false_iff, Bool.or_eq_false_iff, Bool.not_eq_false'] at hs'
    simp only [next, Bool.or_eq_true, Bool.and_eq_true, Bool.not_eq_true'] at h
    have hv : f.r_valid w = true ∧ i.reqs w = false := by
      rcases h with h | h
      · exact h
      · rcases hs' with h' | h'
        · exact h'
        · rw [h'] at h; exact absurd h Bool.false_ne_true
    exact ⟨hs, hv.1, hv.2, by simp only [next, hs, Bool.false_eq_true, if_false]⟩

/-- **The free registers after a cycle**: those that were free and not
    allocated, and the deallocated ones. -/
theorem next_isFree [NeZero N] (hf : f.Wf) (hreq : ∀ w, i.reqs w = true → f.r_valid w = true)
    {p : Fin N} (hp : p ≠ 0) :
    (f.next i).IsFree p ↔
      (f.IsFree p ∧ ∀ w, i.reqs w = true → f.r_sel w ≠ p) ∨ f.dealloc_mask i p = true := by
  have hfl : (f.next i).free_list p = true ↔
      (f.free_list p = true ∧ f.sel_mask i p = false) ∨ f.dealloc_mask i p = true := by
    simp only [next, Bool.and_eq_true, Bool.or_eq_true, Bool.not_eq_true', decide_eq_true_eq]
    exact and_iff_left hp
  have hlist : f.free_list p = true → ∀ w, i.reqs w = true → f.r_sel w ≠ p := by
    rintro hl w hw rfl
    rw [(hf.parked w (hreq w hw)).2] at hl
    exact Bool.false_ne_true hl
  constructor
  · rintro (h | ⟨w, hv, hw⟩)
    · rcases hfl.1 h with ⟨hl, -⟩ | hd
      · exact Or.inl ⟨Or.inl hl, hlist hl⟩
      · exact Or.inr hd
    · left
      rcases next_parked hv with ⟨-, hsel⟩ | ⟨-, hrv, hnreq, hsel⟩
      · rw [hw] at hsel
        exact ⟨Or.inl (sels_mem hsel), hlist (sels_mem hsel)⟩
      · rw [hw] at hsel
        refine ⟨Or.inr ⟨w, hrv, hsel.symm⟩, fun w' hw' he => ?_⟩
        rw [hf.inj w' w (hreq w' hw') hrv (he.trans hsel), hnreq] at hw'
        exact Bool.false_ne_true hw'
  · rintro (⟨hl | ⟨w, hv, rfl⟩, hna⟩ | hd)
    · by_cases hs : f.sel_mask i p = true
      · obtain ⟨w, hsf, hsel⟩ := (sel_mask_iff p).1 hs
        refine Or.inr ⟨w, ?_, ?_⟩
        · simp only [next, hsel, Option.isSome_some, Bool.or_true]
        · simp only [next, hsf, if_true, hsel, Option.getD_some]
      · exact Or.inl (hfl.2 (Or.inl ⟨hl, Bool.eq_false_of_not_eq_true hs⟩))
    · have hnreq : i.reqs w = false := Bool.eq_false_of_not_eq_true fun h => hna w h rfl
      refine Or.inr ⟨w, ?_, ?_⟩
      · simp only [next, hv, hnreq, Bool.not_false, Bool.and_true, Bool.true_or]
      · simp only [next, sel_fire, hv, hnreq, Bool.not_true, Bool.or_self, Bool.false_and,
          Bool.false_eq_true, if_false]
    · exact Or.inl (hfl.2 (Or.inr hd))

theorem not_isFree_zero [NeZero N] (hf : f.Wf) : ¬ f.IsFree 0 := by
  rintro (h | ⟨w, hv, hw⟩)
  · rw [hf.zero] at h
    exact Bool.false_ne_true h
  · exact (hf.parked w hv).1 hw

/-- The parked registers stay well formed when no free register is
    deallocated. -/
theorem next_wf [NeZero N] (hf : f.Wf)
    (hd : ∀ p, p ≠ 0 → f.dealloc_mask i p = true → ¬ f.IsFree p) : (f.next i).Wf := by
  have hnd : ∀ p, p ≠ 0 → f.IsFree p → f.dealloc_mask i p = false := fun p hp hfree =>
    Bool.eq_false_of_not_eq_true fun h => hd p hp h hfree
  refine ⟨by simp [next], fun w hv => ?_, fun w w' hv hv' he => ?_⟩
  · rcases next_parked hv with ⟨hsf, hsel⟩ | ⟨-, hrv, -, hsel⟩
    · have hl := sels_mem hsel
      have hne : (f.next i).r_sel w ≠ 0 := by
        intro h0
        rw [h0, hf.zero] at hl
        exact Bool.false_ne_true hl
      have hsm : f.sel_mask i ((f.next i).r_sel w) = true := (sel_mask_iff _).2 ⟨w, hsf, hsel⟩
      refine ⟨hne, ?_⟩
      simp only [next] at hsm hl hne ⊢
      rw [hsm, hnd _ hne (Or.inl hl)]
      simp
    · rw [hsel]
      obtain ⟨hne, hl⟩ := hf.parked w hrv
      refine ⟨hne, ?_⟩
      simp only [next]
      rw [hl, hnd _ hne (Or.inr ⟨w, hrv, rfl⟩)]
      simp
  · rcases next_parked hv with ⟨-, hsel⟩ | ⟨-, hrv, -, hsel⟩ <;>
      rcases next_parked hv' with ⟨-, hsel'⟩ | ⟨-, hrv', -, hsel'⟩
    · rw [← he] at hsel'
      exact Fin.ext (sels_inj hsel hsel')
    · have hl := sels_mem hsel
      rw [he, hsel', (hf.parked w' hrv').2] at hl
      exact absurd hl Bool.false_ne_true
    · have hl := sels_mem hsel'
      rw [← he, hsel, (hf.parked w hrv).2] at hl
      exact absurd hl Bool.false_ne_true
    · exact hf.inj w w' hrv hrv' (by rw [← hsel, ← hsel', he])

end FreeList

/-! ## Bundles as sequences of assignments -/

theorem logOf_append (a b : List (InFlight L N T)) : logOf (a ++ b) = logOf a ++ logOf b :=
  List.filterMap_append

/-- Branch resolution does not touch the assignments. -/
theorem logOf_resolve (r : Fin T → Bool) (us : List (InFlight L N T)) :
    logOf (us.map (InFlight.resolve r)) = logOf us := by
  rw [logOf, List.filterMap_map]
  rfl

theorem bypassStale_eq (m : Fin L → Fin N) (older : List (Fin L × Fin N)) (l : Fin L) :
    bypassStale older l (m l) = assign m older l := (assign_apply m older l).symm

/-! The slots, oldest first. -/

theorem take_succ_finRange {j : ℕ} (hj : j < W) :
    (List.finRange W).take (j + 1) = (List.finRange W).take j ++ [⟨j, hj⟩] := by
  rw [List.take_add_one, List.getElem?_eq_getElem (by simpa using hj)]
  simp

theorem mem_take_finRange {j : ℕ} {w : Fin W} : w ∈ (List.finRange W).take j ↔ w.val < j := by
  induction j with
  | zero => simp
  | succ j ih =>
    by_cases hj : j < W
    · rw [take_succ_finRange hj, List.mem_append, ih, List.mem_singleton, Fin.ext_iff]
      exact Nat.lt_succ_iff_lt_or_eq.symm
    · rw [List.take_of_length_le (by simp; omega)]
      simp only [List.mem_finRange, true_iff]
      omega

theorem mem_drop_finRange {j : ℕ} {w : Fin W} : w ∈ (List.finRange W).drop j ↔ j ≤ w.val := by
  have hnd : ((List.finRange W).take j ++ (List.finRange W).drop j).Nodup := by
    rw [List.take_append_drop]
    exact List.nodup_finRange W
  have hmem : w ∈ (List.finRange W).take j ++ (List.finRange W).drop j := by
    rw [List.take_append_drop]
    exact List.mem_finRange w
  constructor
  · intro h
    by_contra hlt
    exact List.disjoint_of_nodup_append hnd (mem_take_finRange.2 (Nat.lt_of_not_le hlt)) h
  · intro h
    rcases List.mem_append.1 hmem with ht | hd
    · exact absurd (mem_take_finRange.1 ht) (Nat.not_lt.2 h)
    · exact hd

section

variable [NeZero L] [NeZero N] {float : Bool}

/-- The parallel remapping is a sequence of assignments. -/
theorem remap_table_eq {m : Fin L → Fin N} {reqs : List (Fin L × Fin N)}
    (h0 : float = false → m 0 = 0) (hr : float = false → ∀ r ∈ reqs, r.1 ≠ 0) :
    remap_table float m reqs = assign m reqs := by
  funext l
  simp only [remap_table]
  split_ifs with h
  · rw [h.1, assign_of_ne (hr h.2), h0 h.2]
  · rw [assign_apply]

end

section

variable [NeZero L] [NeZero N] {float : Bool} {s : Stage W L N T} {i : In W L N T}

/-- The requests of the slots from `j` on. -/
def Stage.slotReqsFrom (float : Bool) (s : Stage W L N T) (i : In W L N T) (j : ℕ) :
    List (Fin L × Fin N) :=
  ((List.finRange W).drop j).filterMap (s.slotReq float i)

theorem slotReqs_append (j : ℕ) :
    s.slotReqs float i W = s.slotReqs float i j ++ s.slotReqsFrom float i j := by
  rw [Stage.slotReqs, Stage.slotReqs, Stage.slotReqsFrom, ← List.filterMap_append,
    List.take_append_drop, List.take_of_length_le (by simp)]

theorem slotReqs_succ {j : ℕ} (hj : j < W) :
    s.slotReqs float i (j + 1) =
      s.slotReqs float i j ++ (s.slotReq float i ⟨j, hj⟩).toList := by
  rw [Stage.slotReqs, take_succ_finRange hj, List.filterMap_append, Stage.slotReqs]
  cases h : s.slotReq float i ⟨j, hj⟩ <;> simp [h]

theorem dispatched_succ {j : ℕ} (hj : j < W) :
    s.dispatched float i (j + 1) =
      (s.dispatchSlot float i ⟨j, hj⟩).toList ++ s.dispatched float i j := by
  rw [Stage.dispatched, take_succ_finRange hj, List.filterMap_append, List.reverse_append,
    Stage.dispatched]
  cases h : s.dispatchSlot float i ⟨j, hj⟩ <;> simp [h]

/-- What holds of the uops that are dispatched with a destination. -/
structure SlotsOk (float : Bool) (s : Stage W L N T) (i : In W L N T) : Prop where
  stale : ∀ w, s.ren2_alloc_reqs float i w = true →
    (s.ren2_uop w).stale_pdst = s.maptable.map_table (s.ren2_uop w).ldst
  x0 : float = false → ∀ w, s.ren2_alloc_reqs float i w = true → (s.ren2_uop w).ldst ≠ 0

theorem SlotsOk.pdst (h : SlotsOk float s i) {w : Fin W}
    (hw : s.ren2_alloc_reqs float i w = true) : s.pdst float w = s.freelist.r_sel w := by
  have hc : (s.ren2_uop w).ldst ≠ 0 ∨ float = true := by
    cases hf : float with
    | true => exact Or.inr rfl
    | false => subst hf; exact Or.inl (h.x0 rfl w hw)
  exact if_pos hc

/-- The dispatched uops are the log of the remap requests. -/
theorem logOf_dispatched (h : SlotsOk float s i) {j : ℕ} (hj : j ≤ W) :
    logOf (s.dispatched float i j) = entries s.maptable.map_table (s.slotReqs float i j) := by
  induction j with
  | zero => rfl
  | succ j ih =>
    rw [dispatched_succ hj, slotReqs_succ hj, logOf_append, entries_append, ih (by omega)]
    congr 1
    by_cases hreq : s.ren2_alloc_reqs float i ⟨j, hj⟩ = true
    · have hs := h.stale _ hreq
      have hreq' := hreq
      simp only [Stage.ren2_alloc_reqs, Bool.and_eq_true] at hreq'
      simp only [Stage.slotReq, Stage.dispatchSlot, hreq, hreq'.1, hreq'.2, if_true,
        Option.toList_some, logOf, List.filterMap_cons, InFlight.entry, List.filterMap_nil,
        Bool.and_self, hs, bypassStale_eq, entries, List.nil_append]
    · simp only [Stage.slotReq, if_neg hreq, Option.toList_none, entries]
      by_cases hf : i.dis_fire ⟨j, hj⟩ = true
      · simp only [Stage.ren2_alloc_reqs, hf, Bool.and_true] at hreq
        simp only [Stage.dispatchSlot, hf, if_true, Option.toList_some, logOf,
          List.filterMap_cons, InFlight.entry, if_neg hreq, List.filterMap_nil]
      · simp only [Stage.dispatchSlot, if_neg hf, Option.toList_none, logOf, List.filterMap_nil]

/-- A dispatched uop comes from a slot, and the older ones from the slots
    before it. -/
theorem dispatched_split {j : ℕ} (hj : j ≤ W) {y o : List (InFlight L N T)} {b : InFlight L N T}
    (h : s.dispatched float i j = y ++ b :: o) :
    ∃ w : Fin W, w.val < j ∧ s.dispatchSlot float i w = some b ∧
      s.dispatched float i (w + 1) = b :: o := by
  induction j generalizing y with
  | zero =>
    have hlen := congrArg List.length h
    simp [Stage.dispatched] at hlen
  | succ j ih =>
    rw [dispatched_succ hj] at h
    cases hd : s.dispatchSlot float i ⟨j, hj⟩ with
    | none =>
      rw [hd, Option.toList_none, List.nil_append] at h
      obtain ⟨w, hw, hb⟩ := ih (by omega) h
      exact ⟨w, by omega, hb⟩
    | some u =>
      rw [hd, Option.toList_some, List.singleton_append] at h
      cases y with
      | nil =>
        obtain ⟨rfl, rfl⟩ := List.cons_eq_cons.1 h
        refine ⟨⟨j, hj⟩, Nat.lt_succ_self j, hd, ?_⟩
        rw [dispatched_succ hj, hd]
        rfl
      | cons v y =>
        obtain ⟨w, hw, hb⟩ := ih (by omega) (List.cons_eq_cons.1 h).2
        exact ⟨w, by omega, hb⟩

theorem dispatched_suffix {j k : ℕ} (hjk : j ≤ k) (hk : k ≤ W) :
    ∃ y, s.dispatched float i k = y ++ s.dispatched float i j := by
  induction k with
  | zero => exact ⟨[], by rw [Nat.le_zero.1 hjk]; rfl⟩
  | succ k ih =>
    rcases Nat.le_succ_iff.1 hjk with hle | rfl
    · obtain ⟨y, hy⟩ := ih hle (by omega)
      refine ⟨(s.dispatchSlot float i ⟨k, hk⟩).toList ++ y, ?_⟩
      rw [dispatched_succ hk, hy, List.append_assoc]
    · exact ⟨[], rfl⟩

/-- The requests name distinct parked registers. -/
theorem slotReqs_snd (h : SlotsOk float s i) (ws : List (Fin W)) :
    (ws.filterMap (s.slotReq float i)).map Prod.snd =
      ws.filterMap fun w =>
        if s.ren2_alloc_reqs float i w then some (s.freelist.r_sel w) else none := by
  rw [List.map_filterMap]
  congr 1
  funext w
  by_cases hw : s.ren2_alloc_reqs float i w = true
  · simp only [Stage.slotReq, if_pos hw, Option.map_some, h.pdst hw]
  · simp only [Stage.slotReq, if_neg hw, Option.map_none]

theorem mem_slotReqsFrom (h : SlotsOk float s i) {j : ℕ} {p : Fin N} :
    p ∈ (s.slotReqsFrom float i j).map Prod.snd ↔
      ∃ w : Fin W, j ≤ w.val ∧ s.ren2_alloc_reqs float i w = true ∧ s.freelist.r_sel w = p := by
  rw [Stage.slotReqsFrom, slotReqs_snd h, List.mem_filterMap]
  constructor
  · rintro ⟨w, hw, hp⟩
    by_cases hreq : s.ren2_alloc_reqs float i w = true
    · rw [if_pos hreq] at hp
      exact ⟨w, mem_drop_finRange.1 hw, hreq, Option.some.inj hp⟩
    · rw [if_neg hreq] at hp
      exact absurd hp (by simp)
  · rintro ⟨w, hw, hreq, rfl⟩
    exact ⟨w, mem_drop_finRange.2 hw, if_pos hreq⟩

theorem slotReqsFrom_zero : s.slotReqsFrom float i 0 = s.slotReqs float i W := by
  rw [slotReqs_append 0]
  rfl

end

/-! ## Branch masks -/

theorem pending_append (a b : List (InFlight L N T)) (t : Fin T) :
    pending (a ++ b) t = (pending a t || pending b t) := List.any_append

theorem pending_iff {us : List (InFlight L N T)} {t : Fin T} :
    pending us t = true ↔ ∃ u ∈ us, u.tag = some t := by
  simp [pending]

theorem masksExact_suffix {a b : List (InFlight L N T)} (h : MasksExact (a ++ b)) :
    MasksExact b := by
  induction a with
  | nil => exact h
  | cons u a ih => exact ih h.2.2

/-- Dropping the oldest uops keeps the masks exact when they are resolved. -/
theorem masksExact_prefix {a b : List (InFlight L N T)} (h : MasksExact (a ++ b))
    (hb : ∀ t, pending b t = false) : MasksExact a := by
  induction a with
  | nil => trivial
  | cons u a ih =>
    obtain ⟨hm, ht, ha⟩ := h
    have hp : ∀ t, pending (a ++ b) t = pending a t := fun t => by
      rw [pending_append, hb t, Bool.or_false]
    exact ⟨fun t => (hm t).trans (hp t), fun t hu => (hp t).symm.trans (ht t hu), ih ha⟩

theorem pending_resolve (r : Fin T → Bool) (us : List (InFlight L N T)) (t : Fin T) :
    pending (us.map (InFlight.resolve r)) t = (pending us t && !r t) := by
  rw [Bool.eq_iff_iff, Bool.and_eq_true, pending_iff, pending_iff]
  constructor
  · rintro ⟨u, hu, ht⟩
    obtain ⟨v, hv, rfl⟩ := List.mem_map.1 hu
    obtain ⟨hvt, hr⟩ := Option.filter_eq_some_iff.1 ht
    exact ⟨⟨v, hv, hvt⟩, hr⟩
  · rintro ⟨⟨u, hu, ht⟩, hr⟩
    exact ⟨_, List.mem_map_of_mem hu, Option.filter_eq_some_iff.2 ⟨ht, hr⟩⟩

theorem masksExact_resolve (r : Fin T → Bool) {us : List (InFlight L N T)} (h : MasksExact us) :
    MasksExact (us.map (InFlight.resolve r)) := by
  induction us with
  | nil => trivial
  | cons u us ih =>
    obtain ⟨hm, ht, hus⟩ := h
    refine ⟨fun t => ?_, fun t hu => ?_, ih hus⟩
    · rw [pending_resolve, ← hm t]
      rfl
    · rw [pending_resolve, ht t (Option.filter_eq_some_iff.1 hu).1, Bool.false_and]

/-- The uops masked by an unresolved branch are those younger than it. -/
theorem filter_mask {young old : List (InFlight L N T)} {b : InFlight L N T} {t : Fin T}
    (h : MasksExact (young ++ b :: old)) (hb : b.tag = some t) :
    (young ++ b :: old).filter (fun u => !u.br_mask t) = b :: old := by
  induction young with
  | nil =>
    obtain ⟨hm, ht, hold⟩ := h
    have hfresh := ht t hb
    have hrest : ∀ {us : List (InFlight L N T)}, MasksExact us → pending us t = false →
        us.filter (fun u => !u.br_mask t) = us := by
      intro us hus hp
      induction us with
      | nil => rfl
      | cons v us ih =>
        have hp' : pending us t = false := by
          have h := pending_append [v] us t
          rw [List.singleton_append, hp] at h
          exact (Bool.or_eq_false_iff.1 h.symm).2
        rw [List.filter_cons_of_pos (by simp [hus.1 t, hp']), ih hus.2.2 hp']
    rw [List.nil_append, List.filter_cons_of_pos (by simp [hm t, hfresh]), hrest hold hfresh]
  | cons u young ih =>
    have hp : u.br_mask t = true := by
      rw [h.1 t]
      exact pending_iff.2 ⟨b, by simp, hb⟩
    rw [List.cons_append, List.filter_cons_of_neg (by simp [hp])]
    exact ih h.2.2

/-- The tag of an unresolved branch belongs to one uop only. -/
theorem masksExact_tag {y o : List (InFlight L N T)} {b : InFlight L N T} {t : Fin T}
    (h : MasksExact (y ++ b :: o)) (hb : b.tag = some t) : ∀ u ∈ o, u.tag ≠ some t := by
  intro u hu ht
  have hfresh := (masksExact_suffix h).2.1 t hb
  rw [pending_iff.2 ⟨u, hu, ht⟩] at hfresh
  exact Bool.false_ne_true hfresh.symm

/-! ## The invariant -/

/-- The snapshots and the allocation lists of the unresolved branches are those
    of the uops younger than them. -/
def Snaps (f : FreeList W N T) (m : MapTable L N T) (us : List (InFlight L N T)) : Prop :=
  ∀ young b old t, us = young ++ b :: old → b.tag = some t →
    m.br_snapshots t = undo m.map_table (logOf young) ∧
      ∀ p, f.br_alloc_lists t p = true ↔ p ∈ (logOf young).map Entry.new

/-- The set of free registers. -/
def Stage.free (s : Stage W L N T) : Set (Fin N) := {p | s.freelist.IsFree p}

/-- The invariant of the rename stage.  During a rollback the branch
    structures are stale; they are not used until nothing is in flight. -/
structure Stage.Inv [NeZero L] [NeZero N] (float : Bool) (s : Stage W L N T) : Prop where
  wf : s.freelist.Wf
  exact_ : Exact 0 s.free s.maptable.map_table (logOf s.inflight)
  pinned : float = false → s.maptable.map_table 0 = 0
  dst : float = false → ∀ e ∈ logOf s.inflight, e.dst ≠ 0
  masks : MasksExact s.inflight
  snaps : (s.rolling = true → s.inflight = []) → Snaps s.freelist s.maptable s.inflight
  ren2 : ∀ w, s.ren2_valid w = true → (s.ren2_uop w).ldst_val = true →
    (s.ren2_uop w).dst_rtype = Stage.rtype float →
    (s.ren2_uop w).stale_pdst = s.maptable.map_table (s.ren2_uop w).ldst ∧
      (float = false → (s.ren2_uop w).ldst ≠ 0)

section

variable [NeZero L] [NeZero N] {float : Bool} {s : Stage W L N T} {i : In W L N T}

theorem inv_reset (h : s.Reset) : s.Inv float := by
  have hlog : logOf s.inflight = [] := by rw [h.inflight]; rfl
  have hfree : ∀ p, p ∈ s.free ↔ p ≠ 0 := by
    intro p
    have hp : p ∈ s.free ↔ s.freelist.IsFree p := Iff.rfl
    rw [hp, FreeList.IsFree, h.free]
    simp [h.parked]
  refine ⟨⟨by simp [h.free], fun w hw => ?_, fun w _ hw _ _ => ?_⟩, ⟨fun p hp => ?_, ?_, ?_, ?_, ?_⟩,
    fun _ => h.mapped 0, ?_, ?_, ?_, fun w hw => ?_⟩
  · rw [h.parked w] at hw; exact absurd hw Bool.false_ne_true
  · rw [h.parked w] at hw; exact absurd hw Bool.false_ne_true
  · have hmap : (Finset.univ.filter (s.maptable.map_table · = p)).card = 0 :=
      Finset.card_eq_zero.2 (Finset.filter_eq_empty_iff.2 fun l _ hl => hp ((h.mapped l) ▸ hl.symm))
    rw [hlog, owners, if_pos ((hfree p).2 hp), hmap]
    rfl
  · rw [hlog]; trivial
  · rw [hlog]; exact List.nodup_nil
  · rw [hlog]; exact fun e he => absurd he List.not_mem_nil
  · exact fun h0 => (hfree 0).1 h0 rfl
  · rw [hlog]; exact fun _ e he => absurd he List.not_mem_nil
  · rw [h.inflight]; trivial
  · intro _ young b old t he
    rw [h.inflight] at he
    exact absurd he (by simp)
  · rw [h.ren2 w] at hw; exact absurd hw Bool.false_ne_true

/-- The slots of a cycle that dispatches. -/
theorem slotsOk (h : s.Inv float) (ok : s.Ok float i) : SlotsOk float s i := by
  have hren2 : ∀ w, s.ren2_alloc_reqs float i w = true →
      (s.ren2_uop w).stale_pdst = s.maptable.map_table (s.ren2_uop w).ldst ∧
        (float = false → (s.ren2_uop w).ldst ≠ 0) := by
    intro w hw
    simp only [Stage.ren2_alloc_reqs, Bool.and_eq_true, decide_eq_true_eq] at hw
    exact h.ren2 w (ok.fire_valid w hw.2) hw.1.1 hw.1.2
  exact ⟨fun w hw => (hren2 w hw).1, fun hf w hw => (hren2 w hw).2 hf⟩

theorem slotReqs_x0 (h : SlotsOk float s i) (j : ℕ) (hf : float = false) :
    ∀ r ∈ s.slotReqs float i j, r.1 ≠ 0 := by
  intro r hr
  obtain ⟨w, -, hw⟩ := List.mem_filterMap.1 hr
  by_cases hreq : s.ren2_alloc_reqs float i w = true
  · rw [Stage.slotReq, if_pos hreq] at hw
    obtain rfl := Option.some.inj hw
    exact h.x0 hf w hreq
  · rw [Stage.slotReq, if_neg hreq] at hw
    exact absurd hw (by simp)

theorem slotReqs_nodup (h : SlotsOk float s i) (hwf : s.freelist.Wf) (ok : s.Ok float i) :
    ((s.slotReqs float i W).map Prod.snd).Nodup := by
  rw [Stage.slotReqs, slotReqs_snd h]
  refine List.Nodup.filterMap (fun w w' p hw hw' => ?_)
    ((List.nodup_finRange W).sublist (List.take_sublist _ _))
  by_cases hreq : s.ren2_alloc_reqs float i w = true
  · by_cases hreq' : s.ren2_alloc_reqs float i w' = true
    · rw [if_pos hreq, Option.mem_some_iff] at hw
      rw [if_pos hreq', Option.mem_some_iff] at hw'
      exact hwf.inj w w' (ok.fire_alloc w hreq) (ok.fire_alloc w' hreq') (hw.trans hw'.symm)
    · rw [if_neg hreq'] at hw'
      exact absurd hw' (by simp)
  · rw [if_neg hreq] at hw
    exact absurd hw (by simp)

/-- An idle cycle of dispatch. -/
theorem slotReqs_idle (h : ∀ w, i.dis_fire w = false) (j : ℕ) :
    s.slotReqs float i j = [] ∧ s.dispatched float i j = [] := by
  have hreq : ∀ w, s.slotReq float i w = none := by
    intro w
    simp [Stage.slotReq, Stage.ren2_alloc_reqs, h w]
  have hslot : ∀ w, s.dispatchSlot float i w = none := by
    intro w
    simp [Stage.dispatchSlot, h w]
  constructor
  · exact List.filterMap_eq_nil_iff.2 fun w _ => hreq w
  · rw [Stage.dispatched, List.filterMap_eq_nil_iff.2 fun w _ => hslot w]
    rfl

/-! ## One cycle -/

omit [NeZero L] [NeZero N] in
theorem survivors_append :
    (s.survivors i).take ((s.survivors i).length - i.commits) ++ s.committed i = s.survivors i :=
  List.take_append_drop _ _

/-- What a cycle undoes: nothing, the uops younger than a mispredicted branch,
    or the youngest row. -/
structure Undone (float : Bool) (s : Stage W L N T) (i : In W L N T)
    (young : List (InFlight L N T)) : Prop where
  split : s.inflight = young ++ s.survivors i
  idle : young = [] ∨ ∀ w, i.dis_fire w = false
  map : (s.next float i).maptable.map_table =
    assign (undo s.maptable.map_table (logOf young)) (s.slotReqs float i W)
  dealloc : ∀ p, (p ∈ (logOf (s.row i)).map Entry.new ∨
    s.freelist.br_deallocs (s.freelistIn float i) p = true) ↔ p ∈ (logOf young).map Entry.new

/-- Outside a rollback the branch structures are valid. -/
theorem snaps_valid (h : s.Inv float) (ok : s.Ok float i) (hr : i.rollback = none) :
    Snaps s.freelist s.maptable s.inflight := by
  refine h.snaps fun hroll => ?_
  by_contra hne
  have hsome := ok.rolling hroll hne
  rw [hr] at hsome
  exact absurd hsome (by simp)

theorem undone_normal (h : s.Inv float) (ok : s.Ok float i) (hm : i.mispredict = none)
    (hr : i.rollback = none) : Undone float s i [] := by
  have hslots := slotsOk h ok
  refine ⟨?_, Or.inl rfl, ?_, fun p => ?_⟩
  · simp only [Stage.survivors, hm, hr, List.nil_append]
  · simp only [Stage.next, MapTable.next, hm, Stage.remapReqs, hr, Option.isSome_none,
      Bool.false_eq_true, if_false]
    exact remap_table_eq h.pinned (slotReqs_x0 hslots W)
  · simp [Stage.row, hr, logOf, FreeList.br_deallocs, Stage.freelistIn, hm]

theorem undone_mispredict (h : s.Inv float) (ok : s.Ok float i) {t : Fin T}
    (hm : i.mispredict = some t) : ∃ young, Undone float s i young := by
  obtain ⟨hp, -, hr, hidle⟩ := ok.mispredict t hm
  obtain ⟨b, hb, hbt⟩ := pending_iff.1 hp
  obtain ⟨young, old, hsplit⟩ := List.append_of_mem hb
  obtain ⟨hsnap, hlist⟩ := snaps_valid h ok hr young b old t hsplit hbt
  have hmasks := h.masks
  rw [hsplit] at hmasks
  refine ⟨young, ?_, Or.inr hidle, ?_, fun p => ?_⟩
  · simp only [Stage.survivors, hm, hsplit, filter_mask hmasks hbt]
  · rw [(slotReqs_idle hidle W).1]
    simp only [Stage.next, MapTable.next, hm, assign]
    exact hsnap
  · simp only [Stage.row, hr, Option.getD_none, List.take_zero, FreeList.br_deallocs,
      Stage.freelistIn, hm, hlist]
    simp [logOf]

theorem undone_rollback (h : s.Inv float) (ok : s.Ok float i) (hr : i.rollback.isSome = true) :
    Undone float s i (s.row i) := by
  obtain ⟨hm, -, hidle⟩ := ok.rollback hr
  have hsplit : s.inflight = s.row i ++ s.survivors i := by
    obtain ⟨k, hk⟩ := Option.isSome_iff_exists.1 hr
    simp only [Stage.row, Stage.survivors, hm, hk, Option.getD_some, List.take_append_drop]
  refine ⟨hsplit, Or.inr fun w => (hidle w).1, ?_, fun p => ?_⟩
  · rw [(slotReqs_idle (fun w => (hidle w).1) W).1]
    simp only [Stage.next, MapTable.next, hm, Stage.remapReqs, hr, if_true, assign]
    rw [remap_table_eq h.pinned, assign_old]
    intro hf r hmem
    obtain ⟨e, he, rfl⟩ := List.mem_map.1 hmem
    refine h.dst hf e ?_
    rw [hsplit, logOf_append]
    exact List.mem_append_left _ he
  · simp [FreeList.br_deallocs, Stage.freelistIn, hm]

theorem exists_undone (h : s.Inv float) (ok : s.Ok float i) :
    ∃ young, Undone float s i young := by
  cases hm : i.mispredict with
  | some t => exact undone_mispredict h ok hm
  | none =>
    cases hr : i.rollback with
    | some k => exact ⟨_, undone_rollback h ok (by rw [hr]; rfl)⟩
    | none => exact ⟨_, undone_normal h ok hm hr⟩

section

variable {young : List (InFlight L N T)}

/-- The log of what is in flight, in its three parts. -/
theorem logOf_split (u : Undone float s i young) :
    logOf s.inflight = logOf young ++
      (logOf ((s.survivors i).take ((s.survivors i).length - i.commits)) ++
        logOf (s.committed i)) := by
  rw [← logOf_append, survivors_append, ← logOf_append, ← u.split]

/-- What the free list gets back. -/
theorem dealloc_mask_iff (u : Undone float s i young) (p : Fin N) :
    s.freelist.dealloc_mask (s.freelistIn float i) p = true ↔
      p ∈ (logOf young).map Entry.new ∨ p ∈ (logOf (s.committed i)).map Entry.old := by
  rw [← u.dealloc p]
  have hd : (s.freelistIn float i).dealloc_pregs =
      (logOf (s.row i)).map Entry.new ++ (logOf (s.committed i)).map Entry.old := rfl
  simp only [FreeList.dealloc_mask, hd, Bool.or_eq_true, decide_eq_true_eq, List.mem_append]
  tauto

theorem dealloc_not_free (h : s.Inv float) (u : Undone float s i young) {p : Fin N} (hp : p ≠ 0)
    (hd : s.freelist.dealloc_mask (s.freelistIn float i) p = true) : ¬ s.freelist.IsFree p := by
  have hex := h.exact_
  rw [logOf_split u] at hex
  rcases (dealloc_mask_iff u p).1 hd with hd | hd
  · obtain ⟨e, he, rfl⟩ := List.mem_map.1 hd
    exact hex.new_not_free (List.mem_append_left _ he)
  · obtain ⟨e, he, rfl⟩ := List.mem_map.1 hd
    exact hex.old_not_free (List.mem_append_right _ (List.mem_append_right _ he)) hp

theorem next_wf (h : s.Inv float) (u : Undone float s i young) :
    (s.next float i).freelist.Wf :=
  FreeList.next_wf h.wf fun _ hp hd => dealloc_not_free h u hp hd

/-- The free registers after a cycle. -/
theorem next_free (h : s.Inv float) (ok : s.Ok float i) (u : Undone float s i young) {p : Fin N}
    (hp : p ≠ 0) :
    p ∈ (s.next float i).free ↔ (p ∈ s.free ∧ p ∉ (s.slotReqs float i W).map Prod.snd) ∨
      p ∈ (logOf young).map Entry.new ∨ p ∈ (logOf (s.committed i)).map Entry.old := by
  have hreq : p ∈ (s.slotReqs float i W).map Prod.snd ↔
      ∃ w, s.ren2_alloc_reqs float i w = true ∧ s.freelist.r_sel w = p := by
    rw [← slotReqsFrom_zero, mem_slotReqsFrom (slotsOk h ok)]
    simp
  have hnext : p ∈ (s.next float i).free ↔
      (s.freelist.next (s.freelistIn float i)).IsFree p := Iff.rfl
  rw [hnext, FreeList.next_isFree h.wf ok.fire_alloc hp, dealloc_mask_iff u, hreq]
  apply or_congr_left
  apply and_congr Iff.rfl
  simp only [not_exists, not_and]
  rfl

/-- The log after a cycle. -/
theorem logOf_next (h : s.Inv float) (ok : s.Ok float i) (u : Undone float s i young) :
    logOf (s.next float i).inflight =
      entries (undo s.maptable.map_table (logOf young)) (s.slotReqs float i W) ++
        logOf ((s.survivors i).take ((s.survivors i).length - i.commits)) := by
  simp only [Stage.next, logOf_resolve, logOf_append]
  congr 1
  rcases u.idle with rfl | hidle
  · exact logOf_dispatched (slotsOk h ok) le_rfl
  · obtain ⟨hreq, hdis⟩ : s.slotReqs float i W = [] ∧ s.dispatched float i W = [] :=
      slotReqs_idle hidle W
    rw [hreq, hdis]
    rfl

theorem slotReqs_free (h : s.Inv float) (ok : s.Ok float i) :
    ∀ r ∈ s.slotReqs float i W, r.2 ∈ s.free := by
  intro r hr
  have hmem := List.mem_map_of_mem (f := Prod.snd) hr
  rw [← slotReqsFrom_zero, mem_slotReqsFrom (slotsOk h ok)] at hmem
  obtain ⟨w, -, hreq, hw⟩ := hmem
  exact Or.inr ⟨w, ok.fire_alloc w hreq, hw⟩

theorem exact_next (h : s.Inv float) (ok : s.Ok float i) (u : Undone float s i young) :
    Exact 0 (s.next float i).free (s.next float i).maptable.map_table
      (logOf (s.next float i).inflight) := by
  have hex := h.exact_
  rw [logOf_split u] at hex
  have hundo := hex.undo
  have hassign := hundo.assign (slotReqs_nodup (slotsOk h ok) h.wf ok)
    fun r hr => Or.inl (slotReqs_free h ok r hr)
  rw [← List.append_assoc] at hassign
  rw [u.map, logOf_next h ok u]
  refine hassign.retire.congr fun p => ?_
  by_cases hp : p = 0
  · subst hp
    exact ⟨fun h0 => absurd h0 (FreeList.not_isFree_zero (next_wf h u)), fun h0 => absurd rfl h0.2⟩
  · rw [next_free h ok u hp]
    have hdisj : p ∈ (logOf young).map Entry.new → p ∉ (s.slotReqs float i W).map Prod.snd := by
      intro hy hr
      obtain ⟨e, he, rfl⟩ := List.mem_map.1 hy
      obtain ⟨r, hr, hre⟩ := List.mem_map.1 hr
      exact hex.new_not_free (List.mem_append_left _ he) (hre ▸ slotReqs_free h ok r hr)
    simp only [Set.mem_sdiff, Set.mem_union, Set.mem_ofPred_eq, Set.mem_singleton_iff, hp,
      not_false_eq_true, and_true]
    tauto

theorem masks_next (h : s.Inv float) (ok : s.Ok float i) (u : Undone float s i young) :
    MasksExact (s.next float i).inflight := by
  have hall : MasksExact (s.dispatched float i W ++ s.survivors i) := by
    rcases u.idle with rfl | hidle
    · have hm := ok.masks h.masks
      rwa [u.split, List.nil_append] at hm
    · rw [(slotReqs_idle hidle W).2]
      have hm := h.masks
      rw [u.split] at hm
      exact masksExact_suffix hm
  rw [← survivors_append, ← List.append_assoc] at hall
  have hres := masksExact_resolve (Stage.cleared i) hall
  rw [List.map_append] at hres
  refine masksExact_prefix hres fun t => Bool.eq_false_of_not_eq_true fun hp => ?_
  obtain ⟨v', hv', ht⟩ := pending_iff.1 hp
  obtain ⟨v, hv, rfl⟩ := List.mem_map.1 hv'
  have hnone : (v.resolve (Stage.cleared i)).tag = none := ok.commit.2 v hv
  rw [hnone] at ht
  exact absurd ht (by simp)

/-! Snapshots and allocation lists. -/

/-- A tag given out in this cycle belongs to one slot and to no uop in flight. -/
theorem tag_fresh (h : s.Inv float) (ok : s.Ok float i) {w : Fin W} {t : Fin T}
    (hw : s.ren2_br_tags i w = some t) :
    (∀ v ∈ s.inflight, v.tag ≠ some t) ∧ ∀ w', s.ren2_br_tags i w' = some t → w' = w := by
  have hmasks := ok.masks h.masks
  have hslot : ∀ {w}, s.ren2_br_tags i w = some t →
      ∃ b, s.dispatchSlot float i w = some b ∧ b.tag = some t := by
    intro w hw
    by_cases hf : i.dis_fire w = true
    · exact ⟨_, if_pos hf, hw⟩
    · simp [Stage.ren2_br_tags, hf] at hw
  -- everything older than the uop of a slot with the tag has another tag
  have holder : ∀ {w}, s.ren2_br_tags i w = some t →
      ∀ v ∈ s.dispatched float i w ++ s.inflight, v.tag ≠ some t := by
    intro w hw
    obtain ⟨b, hb, hbt⟩ := hslot hw
    obtain ⟨y, hy⟩ : ∃ y, s.dispatched float i W = y ++ s.dispatched float i (w + 1) :=
      dispatched_suffix (Nat.succ_le_of_lt w.isLt) le_rfl
    rw [hy, dispatched_succ w.isLt, hb, Option.toList_some, List.singleton_append,
      List.append_assoc, List.cons_append] at hmasks
    exact masksExact_tag hmasks hbt
  have hlt : ∀ {w w' : Fin W}, s.ren2_br_tags i w = some t → s.ren2_br_tags i w' = some t →
      ¬ w < w' := by
    intro w w' hw hw' hlt
    obtain ⟨b, hb, hbt⟩ := hslot hw
    obtain ⟨y, hy⟩ : ∃ y, s.dispatched float i w' = y ++ s.dispatched float i (w + 1) :=
      dispatched_suffix (Nat.succ_le_of_lt hlt) w'.isLt.le
    refine holder hw' b (List.mem_append_left _ ?_) hbt
    rw [hy, dispatched_succ w.isLt, hb]
    simp
  refine ⟨fun v hv => holder hw v (List.mem_append_right _ hv), fun w' hw' => ?_⟩
  exact le_antisymm (not_lt.1 (hlt hw hw')) (not_lt.1 (hlt hw' hw))

theorem alloc_masks_iff (h : SlotsOk float s i) (j : ℕ) (p : Fin N) :
    s.freelist.alloc_masks (s.freelistIn float i) j p = true ↔
      p ∈ (s.slotReqsFrom float i j).map Prod.snd := by
  rw [mem_slotReqsFrom h]
  simp only [FreeList.alloc_masks, List.any_eq_true, List.mem_finRange, true_and,
    Bool.and_eq_true, decide_eq_true_eq, and_assoc]
  rfl

/-- The branch structures of a branch dispatched in this cycle. -/
theorem snaps_dispatched (h : s.Inv float) (ok : s.Ok float i) (hr : i.rollback = none)
    {w : Fin W} {t : Fin T} (hw : s.ren2_br_tags i w = some t) :
    (s.next float i).maptable.br_snapshots t =
        assign s.maptable.map_table (s.slotReqs float i (w + 1)) ∧
      ∀ p, (s.next float i).freelist.br_alloc_lists t p = true ↔
        p ∈ (s.slotReqsFrom float i (w + 1)).map Prod.snd := by
  have hslots := slotsOk h ok
  have huniq := (tag_fresh h ok hw).2
  have hfind : (List.finRange W).reverse.find? (fun w => decide (s.ren2_br_tags i w = some t)) =
      some w := by
    cases hf : (List.finRange W).reverse.find?
        (fun w => decide (s.ren2_br_tags i w = some t)) with
    | some w' =>
      have hw' := List.find?_some (p := fun w => decide (s.ren2_br_tags i w = some t)) hf
      rw [huniq w' (of_decide_eq_true hw')]
    | none => exact absurd (decide_eq_true hw) (List.find?_eq_none.1 hf w (by simp))
  have hany : ((List.finRange W).any fun w => decide (s.ren2_br_tags i w = some t)) = true :=
    List.any_eq_true.2 ⟨w, List.mem_finRange w, decide_eq_true hw⟩
  constructor
  · simp only [Stage.next, MapTable.next, hfind, Stage.remapReqs, hr, Option.isSome_none,
      Bool.false_eq_true, if_false]
    exact remap_table_eq h.pinned (slotReqs_x0 hslots (w + 1))
  · intro p
    have htags : (s.freelistIn float i).ren_br_tags = s.ren2_br_tags i := rfl
    simp only [Stage.next, FreeList.next, htags, hany, if_true]
    simp only [List.any_eq_true, List.mem_finRange, true_and, Bool.and_eq_true,
      decide_eq_true_eq]
    constructor
    · rintro ⟨w', hw', hp⟩
      rw [huniq w' hw'] at hp
      exact (alloc_masks_iff hslots _ _).1 hp
    · exact fun hp => ⟨w, hw, (alloc_masks_iff hslots _ _).2 hp⟩

/-- The branch structures of a branch that was in flight before. -/
theorem snaps_old (h : s.Inv float) (ok : s.Ok float i) {t : Fin T}
    (hfresh : ∀ w, s.ren2_br_tags i w ≠ some t) :
    (s.next float i).maptable.br_snapshots t = s.maptable.br_snapshots t ∧
      ∀ p, (s.next float i).freelist.br_alloc_lists t p = true ↔
        (s.freelist.br_alloc_lists t p = true ∧
          s.freelist.br_deallocs (s.freelistIn float i) p = false) ∨
        p ∈ (s.slotReqs float i W).map Prod.snd := by
  have hfind : (List.finRange W).reverse.find? (fun w => decide (s.ren2_br_tags i w = some t)) =
      none := List.find?_eq_none.2 fun w _ => by simp [hfresh w]
  have hany : ((List.finRange W).any fun w => decide (s.ren2_br_tags i w = some t)) = false :=
    List.any_eq_false.2 fun w _ => by simp [hfresh w]
  constructor
  · simp only [Stage.next, MapTable.next, hfind]
  · intro p
    have htags : (s.freelistIn float i).ren_br_tags = s.ren2_br_tags i := rfl
    simp only [Stage.next, FreeList.next, htags, hany, Bool.false_eq_true, if_false,
      Bool.or_eq_true, Bool.and_eq_true, Bool.not_eq_true']
    rw [alloc_masks_iff (slotsOk h ok), slotReqsFrom_zero]

theorem snaps_next (h : s.Inv float) (ok : s.Ok float i) (u : Undone float s i young)
    (hr : i.rollback = none) :
    Snaps (s.next float i).freelist (s.next float i).maptable (s.next float i).inflight := by
  intro young' b' old' t he hbt
  -- the branch, before resolution took tags away
  obtain ⟨y, us, hsplit, rfl, hus⟩ := List.map_eq_append_iff.1 he
  obtain ⟨b, o, rfl, rfl, rfl⟩ := List.map_eq_cons_iff.1 hus
  have hbt : b.tag = some t := (Option.filter_eq_some_iff.1 hbt).1
  rw [logOf_resolve, u.map]
  have hfromRest : ∀ a, y = s.dispatched float i W ++ a →
      (s.survivors i).take ((s.survivors i).length - i.commits) = a ++ b :: o →
      (s.next float i).maptable.br_snapshots t =
          undo (assign (undo s.maptable.map_table (logOf young)) (s.slotReqs float i W)) (logOf y) ∧
        ∀ p, (s.next float i).freelist.br_alloc_lists t p = true ↔
          p ∈ (logOf y).map Entry.new := by
    rintro a rfl hrest
    have hin : s.inflight = (young ++ a) ++ b :: (o ++ s.committed i) := by
      rw [u.split, ← survivors_append, hrest]
      simp
    obtain ⟨hsnap, hlist⟩ := snaps_valid h ok hr _ b _ t hin hbt
    have hfresh : ∀ w, s.ren2_br_tags i w ≠ some t := fun w hw =>
      (tag_fresh h ok hw).1 b (by rw [hin]; simp) hbt
    obtain ⟨hsnap', hlist'⟩ := snaps_old h ok hfresh
    have hdis : logOf (s.dispatched float i W) =
        entries (undo s.maptable.map_table (logOf young)) (s.slotReqs float i W) := by
      rcases u.idle with rfl | hidle
      · exact logOf_dispatched (slotsOk h ok) le_rfl
      · obtain ⟨hreq, hdis⟩ : s.slotReqs float i W = [] ∧ s.dispatched float i W = [] :=
          slotReqs_idle hidle W
        rw [hreq, hdis]
        rfl
    have hrow : s.row i = [] := by rw [Stage.row, hr]; rfl
    constructor
    · rw [hsnap', hsnap, logOf_append, undo_append, logOf_append, undo_append, hdis, undo_assign]
    · intro p
      have hdealloc := u.dealloc p
      rw [hrow] at hdealloc
      have hnil : p ∉ (logOf ([] : List (InFlight L N T))).map Entry.new := List.not_mem_nil
      have hbr : s.freelist.br_deallocs (s.freelistIn float i) p = false ↔
          p ∉ (logOf young).map Entry.new := by
        rw [← hdealloc, ← Bool.not_eq_true]
        tauto
      have hdisj : p ∈ (logOf young).map Entry.new → p ∉ (logOf a).map Entry.new := by
        have hnd := h.exact_.fresh
        rw [hin, logOf_append, logOf_append, List.append_assoc, List.map_append] at hnd
        intro hy ha
        refine List.disjoint_of_nodup_append hnd hy ?_
        rw [List.map_append]
        exact List.mem_append_left _ ha
      rw [hlist', hlist, hbr, logOf_append, logOf_append, hdis, List.map_append, List.map_append,
        entries_new, List.mem_append, List.mem_append, List.mem_reverse]
      tauto
  rcases List.append_eq_append_iff.1 hsplit with ⟨a, ha, hrest⟩ | ⟨c, hc, hrest⟩
  · exact hfromRest a ha hrest
  · cases c with
    | nil =>
      rw [List.append_nil] at hc
      exact hfromRest [] (by rw [hc, List.append_nil]) hrest.symm
    | cons b₁ c =>
      obtain ⟨rfl, rfl⟩ := List.cons_eq_cons.1 hrest
      obtain ⟨w, hw, hslot, hsuf⟩ := dispatched_split le_rfl hc
      have hfire : ∃ w, i.dis_fire w = true := by
        by_contra hn
        have hidle : ∀ w, i.dis_fire w = false := fun w =>
          Bool.eq_false_of_not_eq_true fun hf => hn ⟨w, hf⟩
        rw [(slotReqs_idle hidle W).2] at hc
        exact absurd hc (by simp)
      have hyoung : young = [] := by
        refine u.idle.resolve_right fun hidle => ?_
        obtain ⟨w, hw⟩ := hfire
        rw [hidle w] at hw
        exact Bool.false_ne_true hw
      have htag : s.ren2_br_tags i w = some t := by
        by_cases hf : i.dis_fire w = true
        · rw [Stage.dispatchSlot, if_pos hf] at hslot
          rw [← Option.some.inj hslot] at hbt
          exact hbt
        · rw [Stage.dispatchSlot, if_neg hf] at hslot
          exact absurd hslot (by simp)
      obtain ⟨hsnap, hlist⟩ := snaps_dispatched h ok hr htag
      -- the log of the younger slots
      have hlog : logOf y = entries (assign s.maptable.map_table (s.slotReqs float i (w + 1)))
          (s.slotReqsFrom float i (w + 1)) := by
        have hall := logOf_dispatched (slotsOk h ok) (le_refl W)
        rw [hc, ← hsuf, logOf_append, logOf_dispatched (slotsOk h ok) w.isLt,
          slotReqs_append (w + 1), entries_append] at hall
        exact List.append_cancel_right hall
      subst hyoung
      constructor
      · rw [hsnap, hlog, slotReqs_append (w + 1), assign_append]
        exact (undo_assign _ _).symm
      · intro p
        rw [hlist, hlog, entries_new, List.mem_reverse]

theorem ren2_next (h : s.Inv float) (ok : s.Ok float i) (u : Undone float s i young) (w : Fin W)
    (hv : (s.next float i).ren2_valid w = true)
    (hval : ((s.next float i).ren2_uop w).ldst_val = true)
    (hty : ((s.next float i).ren2_uop w).dst_rtype = Stage.rtype float) :
    ((s.next float i).ren2_uop w).stale_pdst =
        (s.next float i).maptable.map_table ((s.next float i).ren2_uop w).ldst ∧
      (float = false → ((s.next float i).ren2_uop w).ldst ≠ 0) := by
  cases hk : i.kill with
  | true => simp [Stage.next, hk] at hv
  | false =>
    -- neither a mispredict nor a rollback
    have hm : i.mispredict = none := by
      cases hm : i.mispredict with
      | none => rfl
      | some t =>
        rw [(ok.mispredict t hm).2.1] at hk
        exact absurd hk (by simp)
    have hr : i.rollback = none := by
      cases hr : i.rollback with
      | none => rfl
      | some k =>
        obtain ⟨-, -, hidle⟩ := ok.rollback (by rw [hr]; rfl)
        simp [Stage.next, hk, (hidle w).2.1, (hidle w).2.2] at hv
    rw [(undone_normal h ok hm hr).map]
    simp only [Stage.next, hk, Bool.not_false, Bool.true_and, Bool.false_eq_true, if_false]
      at hv hval hty ⊢
    cases hrdy : i.dis_ready with
    | true =>
      simp only [hrdy, if_true] at hv hval hty ⊢
      refine ⟨bypassStale_eq _ _ _, fun hf => ?_⟩
      subst hf
      exact ok.dec_x0 w hv hval hty
    | false =>
      simp only [hrdy, Bool.false_eq_true, if_false, Bool.and_eq_true] at hv hval hty ⊢
      obtain ⟨hstale, hx0⟩ := h.ren2 w hv.1 hval hty
      rw [hstale]
      exact ⟨bypassStale_eq _ _ _, hx0⟩

/-- **One cycle keeps the invariant.** -/
theorem inv_step (h : s.Inv float) (ok : s.Ok float i) : (s.next float i).Inv float := by
  obtain ⟨young, u⟩ := exists_undone h ok
  have hex := exact_next h ok u
  have hx0 := fun hf => slotReqs_x0 (slotsOk h ok) W hf
  have hdst : float = false → ∀ e ∈ logOf young, e.dst ≠ 0 := fun hf e he =>
    h.dst hf e (by rw [logOf_split u]; exact List.mem_append_left _ he)
  refine ⟨next_wf h u, hex, fun hf => ?_, fun hf e he => ?_, masks_next h ok u, fun hroll => ?_,
    fun w => ren2_next h ok u w⟩
  · rw [u.map, assign_of_ne (hx0 hf), undo_of_ne (hdst hf), h.pinned hf]
  · rw [logOf_next h ok u] at he
    rcases List.mem_append.1 he with he | he
    · exact hx0 hf _ (mem_entries he)
    · refine h.dst hf e ?_
      rw [logOf_split u]
      exact List.mem_append_right _ (List.mem_append_left _ he)
  · cases hr : i.rollback with
    | none => exact snaps_next h ok u hr
    | some k =>
      have hempty := hroll (by simp [Stage.next, hr])
      intro y b o t he
      rw [hempty] at he
      exact absurd he (by simp)

end

theorem inv_reach (h : (stage float).Reach s) : s.Inv float :=
  h.inv (fun _ h0 => inv_reset h0) (fun _ _ hi ok => inv_step hi ok)

/-- **Renaming never aliases and never leaks.**  In every reached state every
    physical register but `0` is free, mapped, or the stale register of a uop
    in flight, and only one of the three; no two logical registers share it,
    and `0` is not free. -/
theorem rename_exact (h : (stage float).Reach s) :
    (∀ p : Fin N, p ≠ 0 →
      (s.freelist.IsFree p ∨ (∃ l, s.maptable.map_table l = p) ∨
        ∃ u ∈ s.inflight, u.writes = true ∧ u.stale_pdst = p) ∧
      ¬ (s.freelist.IsFree p ∧ ∃ l, s.maptable.map_table l = p) ∧
      ¬ (s.freelist.IsFree p ∧ ∃ u ∈ s.inflight, u.writes = true ∧ u.stale_pdst = p) ∧
      ¬ ((∃ l, s.maptable.map_table l = p) ∧
        ∃ u ∈ s.inflight, u.writes = true ∧ u.stale_pdst = p)) ∧
    (∀ l l', s.maptable.map_table l = s.maptable.map_table l' →
      s.maptable.map_table l ≠ 0 → l = l') ∧
    ¬ s.freelist.IsFree 0 := by
  have hinv := inv_reach h
  have hstale : ∀ p, (∃ u ∈ s.inflight, u.writes = true ∧ u.stale_pdst = p) ↔
      ∃ e ∈ logOf s.inflight, e.old = p := by
    intro p
    constructor
    · rintro ⟨u, hu, hw, rfl⟩
      exact ⟨_, List.mem_filterMap.2 ⟨u, hu, if_pos hw⟩, rfl⟩
    · rintro ⟨e, he, rfl⟩
      obtain ⟨u, hu, hue⟩ := List.mem_filterMap.1 he
      by_cases hw : u.writes = true
      · rw [InFlight.entry, if_pos hw] at hue
        obtain rfl := Option.some.inj hue
        exact ⟨u, hu, hw, rfl⟩
      · rw [InFlight.entry, if_neg hw] at hue
        exact absurd hue (by simp)
  refine ⟨fun p hp => ?_, fun l l' hl hne => ?_, FreeList.not_isFree_zero hinv.wf⟩
  · have hone := hinv.exact_.owned p hp
    rw [hstale]
    refine ⟨owners_placed hone, ?_, ?_, ?_⟩
    · rintro ⟨hf, l, hl⟩
      exact not_free_of_loc hone hl hf
    · rintro ⟨hf, e, he, ho⟩
      exact not_free_of_old hone he ho hf
    · rintro ⟨⟨l, hl⟩, e, he, ho⟩
      exact old_ne_loc hone hl he ho
  · exact loc_unique (hinv.exact_.owned _ hne) rfl hl.symm

end

/-- One slot, two logical and four physical registers, after reset. -/
def resetStage : Stage 1 2 4 1 where
  freelist := ⟨fun p => decide (p ≠ 0), fun _ _ => false, fun _ => false, fun _ => 0⟩
  maptable := ⟨fun _ => 0, fun _ _ => 0⟩
  ren2_valid _ := false
  ren2_uop _ := ⟨0, false, .RT_X, 0, false, 0, fun _ => false⟩
  inflight := []
  rolling := false

/-- A uop that writes `x1` is decoded, and the one in rename2 dispatched if
    `fire` says so. -/
def flow (fire : Bool) : In 1 2 4 1 where
  dec_fire _ := true
  dec_uops _ := ⟨1, true, .RT_FIX, 0, false, 0, fun _ => false⟩
  kill := false
  dis_fire _ := fire
  dis_ready := true
  commits := 0
  rollback := none
  resolve _ := false
  mispredict := none

theorem rename_exact_flow :
    let s := (stage false).run resetStage [flow false, flow true, flow true]
    s.inflight.length = 2 ∧ ∀ p : Fin 4, p ≠ 0 → s.freelist.IsFree p ∨
      (∃ l, s.maptable.map_table l = p) ∨ ∃ u ∈ s.inflight, u.writes = true ∧ u.stale_pdst = p := by
  refine ⟨by decide, fun p hp => ((rename_exact (Machine.reach_run _ (.start ?_) ?_)).1 p hp).1⟩
  · constructor <;> intros <;> rfl
  · have masks : ∀ us : List (InFlight 2 4 1), (∀ u ∈ us, u.tag = none ∧ u.br_mask 0 = false) →
        MasksExact us := by
      intro us h
      induction us with
      | nil => trivial
      | cons u us ih =>
        have hp : ∀ t, pending us t = false := fun t => List.any_eq_false.2 fun v hv => by
          simp [(h v (List.mem_cons_of_mem _ hv)).1]
        refine ⟨fun t => ?_, fun t _ => hp t, ih fun v hv => h v (List.mem_cons_of_mem _ hv)⟩
        rw [hp t, Subsingleton.elim t 0, (h u List.mem_cons_self).2]
    refine ⟨⟨?_, ?_, ?_, fun _ => masks _ ?_, ?_, ?_, ?_, ?_⟩,
      ⟨?_, ?_, ?_, fun _ => masks _ ?_, ?_, ?_, ?_, ?_⟩,
      ⟨?_, ?_, ?_, fun _ => masks _ ?_, ?_, ?_, ?_, ?_⟩, trivial⟩ <;> decide

end BoomStop.Rename
