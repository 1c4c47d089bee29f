/-
  A message that is sent at most once, by one of several senders, and passes
  two stages before it is delivered.

  * `countP_filterMap_unique`: what is counted comes from one sender;
  * `Phase`: the number of copies in the two stages, and the times of delivery,
    as they follow from the time of sending;
  * `Phase.quiet`, `Phase.send`: a step.
-/
import Mathlib.Data.List.Nodup
import Mathlib.Tactic.SplitIfs

namespace Relay

/-- At most one of the sources gives what is counted. -/
theorem countP_filterMap_unique {ι α : Type*} {f : ι → Option α} {p : α → Bool} :
    ∀ {l : List ι}, l.Nodup → (∀ a ∈ l, ∀ b ∈ l, (f a).any p = true → (f b).any p = true → a = b) →
      (l.filterMap f).countP p = if l.any fun a => (f a).any p then 1 else 0
  | [], _, _ => rfl
  | a :: l, hl, h => by
    obtain ⟨hal, hl⟩ := List.nodup_cons.1 hl
    have ih := countP_filterMap_unique hl fun b hb c hc =>
      h b (List.mem_cons_of_mem a hb) c (List.mem_cons_of_mem a hc)
    rw [List.any_cons, List.filterMap_cons]
    cases ha : f a with
    | none => simpa using ih
    | some x =>
      simp only [List.countP_cons, Option.any_some, ih]
      by_cases hx : p x = true
      · have hno : (l.any fun b => (f b).any p) = false := by
          rw [List.any_eq_false]
          intro b hb hbp
          have hab := h a List.mem_cons_self b (List.mem_cons_of_mem a hb)
            (by rw [ha]; exact hx) hbp
          exact hal (hab ▸ hb)
        simp [hno, hx]
      · simp [hx]

/-- At time `t` a message that was sent at `r`, if it was, has so many copies in
    the first and in the second stage, and was delivered at the times of the
    list. -/
def Phase (t : ℕ) (r : Option ℕ) (first second : ℕ) (log : List ℕ) : Prop :=
  match r with
  | none => first = 0 ∧ second = 0 ∧ log = []
  | some c => c < t ∧ first = (if c + 1 = t then 1 else 0) ∧
      second = (if c + 2 = t then 1 else 0) ∧ log = if c + 2 < t then [c + 2] else []

namespace Phase

variable {t first second : ℕ} {r : Option ℕ} {log : List ℕ}

/-- A step in which nothing is sent. -/
theorem quiet (h : Phase t r first second log) :
    Phase (t + 1) r 0 first (log ++ List.replicate second t) := by
  cases r with
  | none =>
    obtain ⟨rfl, rfl, rfl⟩ := h
    exact ⟨rfl, rfl, rfl⟩
  | some c =>
    obtain ⟨hlt, rfl, rfl, rfl⟩ := h
    refine ⟨by omega, ?_, ?_, ?_⟩
    · rw [if_neg (by omega)]
    · by_cases hc : c + 1 = t
      · rw [if_pos hc, if_pos (by omega)]
      · rw [if_neg hc, if_neg (by omega)]
    · rcases Nat.lt_trichotomy (c + 2) t with h | h | h
      · rw [if_pos h, if_neg (by omega), if_pos (by omega)]
        rfl
      · rw [if_neg (by omega), if_pos h, if_pos (by omega), h]
        rfl
      · rw [if_neg (by omega), if_neg (by omega), if_neg (by omega)]
        rfl

/-- The step in which the message is sent. -/
theorem send (h : Phase t none first second log) :
    Phase (t + 1) (some t) 1 first (log ++ List.replicate second t) := by
  obtain ⟨rfl, rfl, rfl⟩ := h
  refine ⟨Nat.lt_succ_self t, ?_, ?_, ?_⟩
  · rw [if_pos rfl]
  · rw [if_neg (by omega)]
  · rw [if_neg (by omega)]
    rfl

/-- What was delivered has left the stages. -/
theorem of_delivered (h : Phase t r first second log) (hlog : log ≠ []) :
    ∃ c, r = some c ∧ c + 2 < t ∧ first = 0 ∧ second = 0 ∧ log = [c + 2] := by
  cases r with
  | none => exact absurd h.2.2 hlog
  | some c =>
    obtain ⟨hlt, rfl, rfl, rfl⟩ := h
    have hc : c + 2 < t := by
      by_contra hge
      rw [if_neg hge] at hlog
      exact hlog rfl
    refine ⟨c, rfl, hc, ?_, ?_, if_pos hc⟩
    · rw [if_neg (by omega)]
    · rw [if_neg (by omega)]

/-- What is in a stage was sent. -/
theorem sent_of_pos (h : Phase t r first second log) (hpos : 0 < first ∨ 0 < second) :
    r.isSome = true := by
  cases r with
  | none =>
    obtain ⟨rfl, rfl, -⟩ := h
    omega
  | some c => rfl

end Phase

end Relay
