/-
  A ring that is filled on a guess.  What was allocated on a wrong guess is
  dropped at once; the tail goes back over it one step later.

  * `Window`: the numbers of the first place in use, of the first one that may
    still be dropped and of the tail, and where the tail is about to go back to;
  * `Rewinds`: a place the tail may go back to;
  * `Window.step`, `Window.reset`: a step keeps a window.
-/
import BoomStop.Lib.RingOrder

namespace RingOrder

variable {N : ℕ} [NeZero N] {valid valid' : Fin N → Bool} {base tail : Fin N}
  {pending pending' : Option (Fin N)} {h h' b b' t w : ℕ}

/-- The places from `b` up to the tail may be dropped; those beyond it, up to a
    full round from `h`, are free. -/
structure Window (valid : Fin N → Bool) (tail : Fin N) (pending : Option (Fin N)) (h b t : ℕ) :
    Prop where
  tail : tail = place N t
  order : h ≤ b ∧ b ≤ t ∧ t < h + N
  free : ∀ k, t ≤ k → k < h + N → valid (place N k) = false
  pending : ∀ r, pending = some r → ∃ k, r = place N k ∧ b ≤ k ∧ k ≤ t ∧
    ∀ k', k ≤ k' → k' < t → valid (place N k') = false

/-- The tail may go back to `r`, which is past the `moved` places that are
    settled: what was allocated from there on is dropped. -/
def Rewinds (valid dropped : Fin N → Bool) (base tail : Fin N) (pending : Option (Fin N))
    (moved : ℕ) (r : Fin N) : Prop :=
  moved ≤ dist base r ∧ dist base r ≤ dist base (pending.getD tail) ∧
    ∀ j, valid j = true → dist base r ≤ dist base j → dist base j < dist base tail →
      dropped j = true

instance (valid dropped : Fin N → Bool) (base tail : Fin N) (pending : Option (Fin N))
    (moved : ℕ) (r : Fin N) : Decidable (Rewinds valid dropped base tail pending moved r) :=
  inferInstanceAs (Decidable (_ ∧ _ ∧ _))

namespace Window

/-- A place that is in use, by its number. -/
theorem number_of_valid (hw : Window valid tail pending h b t) {j : Fin N} (hj : valid j = true) :
    ∃ k, j = place N k ∧ h ≤ k ∧ k < t := by
  have hlt : dist (place N h) j < N := dist_lt
  have hj' := place_add_dist (N := N) (k := h) j
  refine ⟨h + dist (place N h) j, hj'.symm, Nat.le_add_right _ _, ?_⟩
  by_contra hge
  have hfree := hw.free _ (Nat.le_of_not_lt hge) (by omega)
  rw [hj', hj] at hfree
  contradiction

/-- The tail, or where it is about to go back to. -/
theorem limit (hw : Window valid tail pending h b t) :
    ∃ k, pending.getD tail = place N k ∧ b ≤ k ∧ k ≤ t ∧
      ∀ k', k ≤ k' → k' < t → valid (place N k') = false := by
  cases hp : pending with
  | none => exact ⟨t, hw.tail, hw.order.2.1, le_rfl, fun k' h1 h2 => absurd h1 (Nat.not_le.2 h2)⟩
  | some r => exact hw.pending r hp

/-- In a step `w` places are allocated, none while the tail is about to go back;
    others are freed, the first ones for good, and `moved` more are settled. -/
theorem step {dropped : Fin N → Bool} {moved : ℕ} (hw : Window valid tail pending h b t)
    (hbase : base = place N b) (hh : h ≤ h') (hhb : h' ≤ b + moved) (hfit : t + w < h + N)
    (hquiet : pending.isSome ∨ pending'.isSome → w = 0)
    (hvalid : ∀ j, valid' j = true → valid j = true ∨ ∃ k, j = place N k ∧ t ≤ k ∧ k < t + w)
    (hfreed : ∀ k, h ≤ k → k < h' → valid' (place N k) = false)
    (hdropped : ∀ j, valid j = true → dropped j = true → valid' j = false)
    (hsettled : ∀ k, b ≤ k → k < b + moved → k < t ∧ valid (place N k) = true)
    (hrewinds : ∀ r, pending' = some r → Rewinds valid dropped base tail pending moved r) :
    ∃ t', Window valid' (pending.getD (wrapInc^[w] tail)) pending' h' (b + moved) t' := by
  obtain ⟨l, hl, hbl, hlt, hlfree⟩ := hw.limit
  obtain ⟨hhb0, hbt, htn⟩ := hw.order
  -- what was in use lies below the limit, what is allocated from the tail on
  have hbelow {k : ℕ} (h1 : h' ≤ k) (h2 : k < h' + N) (hv : valid' (place N k) = true) :
      k < l ∨ (t ≤ k ∧ k < t + w) := by
    have hk : k < h + N := by
      by_contra hge
      have hsub : k - N + N = k := by omega
      have hfree := hfreed (k - N) (by omega) (by omega)
      rw [← place_add_self, hsub, hv] at hfree
      contradiction
    rcases hvalid _ hv with hv | ⟨k1, he, h3, h4⟩
    · left
      obtain ⟨k1, he, h3, h4⟩ := hw.number_of_valid hv
      have hkk := place_inj (hh.trans h1) h3 hk (by omega) he
      subst hkk
      by_contra hge
      rw [hlfree k (Nat.le_of_not_lt hge) h4] at hv
      contradiction
    · right
      have hkk := place_inj (hh.trans h1) (by omega) hk (by omega) he
      subst hkk
      exact ⟨h3, h4⟩
  have hbl' : b + moved ≤ l := by
    by_contra hgt
    obtain ⟨hlt', hv⟩ := hsettled l hbl (Nat.lt_of_not_le hgt)
    rw [hlfree l le_rfl hlt'] at hv
    contradiction
  have hgo {r : Fin N} (hr : pending' = some r) : ∃ k, r = place N k ∧ b + moved ≤ k ∧ k ≤ l ∧
      ∀ k', k ≤ k' → k' < l → valid' (place N k') = false := by
    obtain ⟨hm, hle, hdrop⟩ := hrewinds r hr
    subst hbase
    rw [hl, dist_place hbl (by omega)] at hle
    refine ⟨b + dist (place N b) r, (place_add_dist r).symm, by omega, by omega, fun k h1 h2 => ?_⟩
    have hw0 := hquiet (.inr (by rw [hr]; rfl))
    by_contra hv
    rw [Bool.not_eq_false] at hv
    have hold : valid (place N k) = true := by
      rcases hvalid _ hv with hv | ⟨k1, -, h3, h4⟩
      · exact hv
      · omega
    rw [hdropped _ hold (hdrop _ hold ?_ ?_)] at hv
    · contradiction
    · rw [dist_place (by omega) (by omega)]
      omega
    · rw [hw.tail, dist_place (by omega) (by omega), dist_place (by omega) (by omega)]
      omega
  cases hp : pending with
  | some r =>
    have hw0 := hquiet (.inl (by rw [hp]; rfl))
    rw [hp] at hl
    refine ⟨l, hl, ⟨hhb, hbl', by omega⟩, fun k h1 h2 => ?_, fun r hr => hgo hr⟩
    by_contra hv
    rw [Bool.not_eq_false] at hv
    rcases hbelow (by omega) h2 hv with h3 | h3 <;> omega
  | none =>
    rw [hp] at hl
    have hlt' : l = t := place_inj (k := h) (by omega) (by omega) (by omega) htn
      (hl.symm.trans hw.tail)
    subst hlt'
    refine ⟨l + w, ?_, ⟨hhb, by omega, by omega⟩, fun k h1 h2 => ?_, fun r hr => ?_⟩
    · rw [Option.getD_none, hw.tail, iterate_wrapInc_place]
    · by_contra hv
      rw [Bool.not_eq_false] at hv
      rcases hbelow (by omega) h2 hv with h3 | h3 <;> omega
    · have hw0 := hquiet (.inr (by rw [hr]; rfl))
      subst hw0
      exact hgo hr

/-- Everything from `b` on is dropped, and the tail goes back there. -/
theorem reset (hhb : h ≤ b) (hb : b < h + N)
    (hfree : ∀ k, b ≤ k → k < h + N → valid (place N k) = false) :
    Window valid (place N b) none h b b :=
  ⟨rfl, ⟨hhb, le_rfl, hb⟩, hfree, fun r hr => by contradiction⟩

end Window

end RingOrder
