/-
  A table after some writes, one after the other.

  * `writes`: the table after a list of writes;
  * `writes_eq`: a place that all writes to it agree on.
-/
import Mathlib.Logic.Function.Basic

namespace Writes

variable {α β : Type*} [DecidableEq α] {l : List (α × β)} {f : α → β} {x : α} {v : β}

/-- The last write to a place counts. -/
def writes (l : List (α × β)) (f : α → β) : α → β :=
  l.foldl (fun f w => Function.update f w.1 w.2) f

/-- A place after some writes that agree on it. -/
theorem writes_eq (hall : ∀ w ∈ l, w.1 = x → w.2 = v) (hsome : (∃ w ∈ l, w.1 = x) ∨ f x = v) :
    writes l f x = v := by
  induction l generalizing f with
  | nil =>
    rcases hsome with ⟨w, hw, -⟩ | hv
    · exact absurd hw List.not_mem_nil
    · exact hv
  | cons w l ih =>
    rw [writes, List.foldl_cons]
    refine ih (fun w' hw' => hall w' (List.mem_cons_of_mem _ hw')) ?_
    by_cases hx : w.1 = x
    · right
      rw [← hx, Function.update_self]
      exact hall w List.mem_cons_self hx
    · rcases hsome with ⟨w', hw', hx'⟩ | hv
      · rcases List.mem_cons.1 hw' with rfl | hw'
        · exact absurd hx' hx
        · exact .inl ⟨w', hw', hx'⟩
      · right
        rw [Function.update_of_ne (Ne.symm hx)]
        exact hv

end Writes
