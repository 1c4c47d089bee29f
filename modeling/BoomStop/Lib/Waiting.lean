/-
  Waiting: what happens later, and what happens again and again, for properties
  of the cycles of a run.

  * `Later t Q`: from `t` on, `Q` at some time; `Often E`: after every time;
  * `Later.holds`: what stays as long as nothing happens is still there when it
    does;
  * `climbs`: a number that never falls, and grows again and again, gets above
    every bound;
  * `always`: what holds now and is kept from now on.
-/
import Mathlib.Data.Nat.Find

namespace Waiting

variable {P Q E : ℕ → Prop} {t : ℕ}

/-- At some time from `t` on. -/
def Later (t : ℕ) (Q : ℕ → Prop) : Prop := ∃ u, t ≤ u ∧ Q u

/-- Again and again. -/
def Often (E : ℕ → Prop) : Prop := ∀ t, Later t E

theorem Later.mono (h : Later t Q) (hQ : ∀ u, t ≤ u → Q u → E u) : Later t E := by
  obtain ⟨u, hu, hq⟩ := h
  exact ⟨u, hu, hQ u hu hq⟩

theorem Later.of_le {v : ℕ} (htv : t ≤ v) (h : Later v Q) : Later t Q := by
  obtain ⟨u, hu, hq⟩ := h
  exact ⟨u, Nat.le_trans htv hu, hq⟩

theorem Later.trans (h : Later t P) (hP : ∀ u, t ≤ u → P u → Later u Q) : Later t Q := by
  obtain ⟨u, hu, hp⟩ := h
  obtain ⟨v, hv, hq⟩ := hP u hu hp
  exact ⟨v, Nat.le_trans hu hv, hq⟩

/-- **What is kept** from now on. -/
theorem always (h : P t) (hkeep : ∀ u, t ≤ u → P u → P (u + 1)) : ∀ u, t ≤ u → P u := by
  intro u hu
  induction u, hu using Nat.le_induction with
  | base => exact h
  | succ u hu ih => exact hkeep u hu ih

/-- **Waiting**: what stays as long as nothing happens is still there when it does. -/
theorem Later.holds (he : Later t E) (hp : P t)
    (hstay : ∀ u, t ≤ u → P u → ¬ E u → P (u + 1)) : Later t fun u => P u ∧ E u := by
  classical
  -- the first time it happens
  have hex : ∃ d, E (t + d) := by
    obtain ⟨u, hu, he⟩ := he
    exact ⟨u - t, by rwa [Nat.add_sub_cancel' hu]⟩
  have hbefore : ∀ d, d ≤ Nat.find hex → P (t + d) := by
    intro d hd
    induction d with
    | zero => exact hp
    | succ d ih =>
      exact hstay (t + d) (Nat.le_add_right t d) (ih (Nat.le_of_succ_le hd)) (Nat.find_min hex hd)
  exact ⟨t + Nat.find hex, Nat.le_add_right _ _, hbefore _ le_rfl, Nat.find_spec hex⟩

/-- **Climbing**: a number that never falls, and grows again and again. -/
theorem climbs {m : ℕ → ℕ} (hle : ∀ u, t ≤ u → m u ≤ m (u + 1))
    (hlt : ∀ u, t ≤ u → Later u fun v => m v < m (v + 1)) (k : ℕ) : Later t fun u => k ≤ m u := by
  induction k with
  | zero => exact ⟨t, le_rfl, Nat.zero_le _⟩
  | succ k ih =>
    obtain ⟨u, hu, hk⟩ := ih
    obtain ⟨v, hv, hgrow⟩ := hlt u hu
    have hmono : k ≤ m v := always (P := fun w => k ≤ m w) hk
      (fun w hw hkw => Nat.le_trans hkw (hle w (Nat.le_trans hu hw))) v hv
    exact ⟨v + 1, by omega, by omega⟩

end Waiting
