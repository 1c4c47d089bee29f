/-
  Speculation tags.  A list of operations, youngest first; some hold a tag, and
  each has a mask of tags.

  * `Exact`: no two hold the same tag, and each is masked by the tags that
    older ones hold;
  * `exact_map`: giving tags back keeps that;
  * `exact_suffix`, `exact_prefix`: what is younger or older may go.
-/
import Mathlib.Data.List.Basic

namespace SpecTags

variable {α τ : Type*} (tag : α → Option τ) (mask : α → τ → Bool)

/-- Some operation of the list holds the tag. -/
def Held (l : List α) (t : τ) : Prop := ∃ u ∈ l, tag u = some t

/-- Every mask has the tags of the older ones, and no tag is held twice. -/
def Exact : List α → Prop
  | [] => True
  | u :: older => (∀ t, mask u t = true ↔ Held tag older t) ∧
      (∀ t, tag u = some t → ¬ Held tag older t) ∧ Exact older

variable {tag mask} {l l' : List α} {t : τ}

theorem held_cons {u : α} : Held tag (u :: l) t ↔ tag u = some t ∨ Held tag l t := by
  simp [Held]

theorem held_append : Held tag (l ++ l') t ↔ Held tag l t ∨ Held tag l' t := by
  simp [Held, or_and_right, exists_or]

theorem exact_suffix (h : Exact tag mask (l ++ l')) : Exact tag mask l' := by
  induction l with
  | nil => exact h
  | cons u l ih => exact ih h.2.2

/-- The oldest may go when they hold no tags. -/
theorem exact_prefix (h : Exact tag mask (l ++ l')) (hl' : ∀ t, ¬ Held tag l' t) :
    Exact tag mask l := by
  induction l with
  | nil => trivial
  | cons u l ih =>
    obtain ⟨hm, ht, h⟩ := h
    have hiff : ∀ t, Held tag (l ++ l') t ↔ Held tag l t := fun t => by
      rw [held_append, or_iff_left (hl' t)]
    exact ⟨fun t => (hm t).trans (hiff t), fun t hu hh => ht t hu ((hiff t).2 hh), ih h⟩

section Map

variable {β : Type*} {tag' : β → Option τ} {mask' : β → τ → Bool} {r : τ → Bool} {f : α → β}

theorem held_map (htag : ∀ u, tag' (f u) = (tag u).filter fun t => !r t) :
    Held tag' (l.map f) t ↔ Held tag l t ∧ r t = false := by
  constructor
  · rintro ⟨v, hv, ht⟩
    obtain ⟨u, hu, rfl⟩ := List.mem_map.1 hv
    rw [htag, Option.filter_eq_some_iff] at ht
    exact ⟨⟨u, hu, ht.1⟩, by simpa using ht.2⟩
  · rintro ⟨⟨u, hu, ht⟩, hr⟩
    exact ⟨f u, List.mem_map_of_mem hu, by rw [htag, ht]; simp [hr]⟩

/-- Tags are given back everywhere at once. -/
theorem exact_map (htag : ∀ u, tag' (f u) = (tag u).filter fun t => !r t)
    (hmask : ∀ u t, mask' (f u) t = (mask u t && !r t)) (h : Exact tag mask l) :
    Exact tag' mask' (l.map f) := by
  induction l with
  | nil => trivial
  | cons u l ih =>
    obtain ⟨hm, ht, h⟩ := h
    refine ⟨fun t => ?_, fun t hu hh => ?_, ih h⟩
    · rw [hmask, held_map htag, ← hm t]
      simp
    · rw [htag, Option.filter_eq_some_iff] at hu
      exact ht t hu.1 ((held_map htag).1 hh).1

end Map

end SpecTags
