/-
  Fixed-priority arbitration: requesters ask one after the other, each for a
  list of resources, and one is granted what it asks for unless a part of it is
  taken already.

  * `granted`: the requesters that get what they ask for;
  * `unique_granted`: no resource goes to two of them;
  * `granted_or_taken`: who is refused is refused for a reason.
-/
import Mathlib.Data.List.Basic

namespace Arbiter

variable {α ρ : Type*} [DecidableEq ρ] (uses : α → List ρ) (can : α → Bool)

/-- The requesters that are granted, of those of the list that ask. -/
def granted : List α → List ρ → List α
  | [], _ => []
  | a :: as, taken =>
    if can a = true ∧ ∀ r ∈ uses a, r ∉ taken then a :: granted as (taken ++ uses a)
    else granted as taken

variable {uses can} {as : List α} {taken : List ρ} {a b : α} {r : ρ}

theorem sublist_granted : ∀ (as : List α) (taken : List ρ),
    (granted uses can as taken).Sublist as
  | [], _ => .slnil
  | a :: as, taken => by
    rw [granted]
    split_ifs
    · exact (sublist_granted as _).cons_cons a
    · exact (sublist_granted as _).cons a

/-- Only who asks is granted, and only what is free. -/
theorem granted_asks : ∀ (as : List α) (taken : List ρ), a ∈ granted uses can as taken →
    can a = true ∧ ∀ r ∈ uses a, r ∉ taken
  | [], _, h => absurd h List.not_mem_nil
  | b :: as, taken, h => by
    rw [granted] at h
    split_ifs at h with hb
    · rcases List.mem_cons.1 h with rfl | h
      · exact hb
      · obtain ⟨hc, hf⟩ := granted_asks as _ h
        exact ⟨hc, fun r hr ht => hf r hr (List.mem_append_left _ ht)⟩
    · exact granted_asks as _ h

/-- **No resource goes to two.** -/
theorem unique_granted : ∀ (as : List α) (taken : List ρ), a ∈ granted uses can as taken →
    b ∈ granted uses can as taken → r ∈ uses a → r ∈ uses b → a = b
  | [], _, h, _, _, _ => absurd h List.not_mem_nil
  | c :: as, taken, ha, hb, hra, hrb => by
    rw [granted] at ha hb
    split_ifs at ha hb with hc
    · rcases List.mem_cons.1 ha with rfl | ha <;> rcases List.mem_cons.1 hb with rfl | hb
      · rfl
      · exact absurd (List.mem_append_right _ hra) ((granted_asks as _ hb).2 r hrb)
      · exact absurd (List.mem_append_right _ hrb) ((granted_asks as _ ha).2 r hra)
      · exact unique_granted as _ ha hb hra hrb
    · exact unique_granted as _ ha hb hra hrb

/-- Who asks is granted, or lacks a resource that another has. -/
theorem granted_or_taken : ∀ (as : List α) (taken : List ρ), a ∈ as → can a = true →
    a ∈ granted uses can as taken ∨
      ∃ r ∈ uses a, r ∈ taken ∨ ∃ b ∈ granted uses can as taken, r ∈ uses b
  | [], _, h, _ => absurd h List.not_mem_nil
  | c :: as, taken, h, hca => by
    rw [granted]
    split_ifs with hc
    · rcases List.mem_cons.1 h with rfl | h
      · exact .inl List.mem_cons_self
      · rcases granted_or_taken as (taken ++ uses c) h hca with h | ⟨r, hr, h⟩
        · exact .inl (List.mem_cons_of_mem _ h)
        · refine .inr ⟨r, hr, ?_⟩
          rcases h with h | ⟨b, hb, hrb⟩
          · rcases List.mem_append.1 h with h | h
            · exact .inl h
            · exact .inr ⟨c, List.mem_cons_self, h⟩
          · exact .inr ⟨b, List.mem_cons_of_mem _ hb, hrb⟩
    · rcases List.mem_cons.1 h with rfl | h
      · refine .inr ?_
        by_contra hno
        refine hc ⟨hca, fun r hr ht => hno ⟨r, hr, .inl ht⟩⟩
      · exact granted_or_taken as taken h hca

end Arbiter
