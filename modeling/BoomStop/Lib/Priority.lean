/-
  Fixed priority: of those that offer something, the first one gives it, if it is
  taken.

  * `free`: nobody before offers anything; `ready`: what is offered would be taken;
  * `given`, `taken`: what each gives, and what is taken;
  * `given_unique`, `sum_given`: one gives, and it gives what is taken.
-/
import Mathlib.Algebra.BigOperators.Fin
import Mathlib.Data.Fintype.BigOperators

namespace Priority

variable {n : ℕ} {α : Type*} (v : Fin n → Option α) (out : Bool)

/-- Nobody before offers anything. -/
def free (j : Fin n) : Bool := !(List.finRange n).any fun l => l < j && (v l).isSome

/-- The output is free for this one. -/
def ready (j : Fin n) : Bool := out && free v j

/-- The first offer. -/
def chosen : Option α := (List.finRange n).findSome? v

/-- What this one gives, when it is served. -/
def given (j : Fin n) : Option α := if ready v out j then v j else none

/-- What the output gives, when it is free. -/
def taken : Option α := if out then chosen v else none

variable {v out} {j l : Fin n} {a : α}

theorem free_iff : free v j = true ↔ ∀ l < j, v l = none := by
  simp only [free, Bool.not_eq_true', List.any_eq_false, List.mem_finRange, true_implies,
    Bool.and_eq_true, decide_eq_true_eq, not_and, Option.not_isSome_iff_eq_none]

theorem given_eq_some : given v out j = some a ↔ out = true ∧ (∀ l < j, v l = none) ∧ v j = some a := by
  rw [given, Option.ite_none_right_eq_some, ready, Bool.and_eq_true, free_iff, and_assoc]

/-- **One gives.** -/
theorem given_unique (hj : (given v out j).isSome = true) (hl : (given v out l).isSome = true) :
    j = l := by
  obtain ⟨a, ha⟩ := Option.isSome_iff_exists.1 hj
  obtain ⟨b, hb⟩ := Option.isSome_iff_exists.1 hl
  obtain ⟨-, hbefore, ha⟩ := given_eq_some.1 ha
  obtain ⟨-, hbefore', hb⟩ := given_eq_some.1 hb
  rcases lt_trichotomy j l with hlt | rfl | hlt
  · rw [hbefore' j hlt] at ha
    cases ha
  · rfl
  · rw [hbefore l hlt] at hb
    cases hb

theorem chosen_eq (hbefore : ∀ l < j, v l = none) (h : v j = some a) : chosen v = some a := by
  unfold chosen
  have hsplit : List.finRange n = (List.finRange n).take j ++ j :: (List.finRange n).drop (j + 1) := by
    conv_lhs => rw [← List.take_append_drop j (List.finRange n)]
    rw [List.drop_eq_getElem_cons (by simp), List.getElem_finRange]
    rfl
  rw [hsplit, List.findSome?_append, List.findSome?_cons, h]
  have hnone : ((List.finRange n).take j).findSome? v = none := by
    refine List.findSome?_eq_none_iff.2 fun l hl => hbefore l ?_
    obtain ⟨k, hk, rfl⟩ := List.mem_take_iff_getElem.1 hl
    simp only [List.getElem_finRange, Fin.lt_def]
    simp only [List.length_finRange] at hk
    simp only [Fin.val_cast]
    omega
  rw [hnone]
  rfl

/-- Whoever gives, gives what is taken. -/
theorem taken_of_given (h : given v out j = some a) : taken v out = some a := by
  obtain ⟨rfl, hbefore, hj⟩ := given_eq_some.1 h
  exact chosen_eq hbefore hj

/-- What is taken is given. -/
theorem exists_given (h : taken v out = some a) : ∃ j, given v out j = some a := by
  rw [taken, Option.ite_none_right_eq_some] at h
  obtain ⟨rfl, h⟩ := h
  obtain ⟨l, -, hl⟩ := List.exists_of_findSome?_eq_some h
  have hex : ∃ l, (v l).isSome = true := ⟨l, by rw [hl]; rfl⟩
  -- the first of those that offer
  obtain ⟨j, hj⟩ := Option.isSome_iff_exists.1 (Fin.isSome_find?_iff.2 hex)
  obtain ⟨hv, hbefore⟩ := Fin.find?_eq_some_iff.1 hj
  obtain ⟨b, hb⟩ := Option.isSome_iff_exists.1 hv
  have hnone : ∀ l < j, v l = none := fun l hl => by simpa using hbefore l hl
  have hba : b = a := Option.some.inj ((chosen_eq hnone hb).symm.trans h)
  exact ⟨j, given_eq_some.2 ⟨rfl, hnone, hba ▸ hb⟩⟩

/-- **What all give is what is taken.** -/
theorem sum_given {f : Option α → ℕ} (hf : f none = 0) : ∑ j, f (given v out j) = f (taken v out) := by
  cases ht : taken v out with
  | none =>
    rw [hf]
    refine Finset.sum_eq_zero fun j _ => ?_
    cases hg : given v out j with
    | none => exact hf
    | some a =>
      rw [taken_of_given hg] at ht
      cases ht
  | some a =>
    obtain ⟨j, hj⟩ := exists_given ht
    rw [← hj]
    refine Fintype.sum_eq_single j fun l hl => ?_
    cases hg : given v out l with
    | none => exact hf
    | some b => exact absurd (given_unique (by rw [hg]; rfl) (by rw [hj]; rfl)) hl

end Priority
