/-
  Positions in a ring of `N` places, seen from its head, and the order of
  entries that have a major and a minor number.

  * `wrapInc`, `wrapDec`: the neighbours of a place;
  * `dist h r`: how far `r` is ahead of `h`; moving either of the two by one
    changes it by one, up to the wrap;
  * `place`: a pointer as the place of a running number;
  * `LexLt`: the lexicographic order on pairs of numbers, used for ages;
  * `sublist_of_ages`: a list that is sorted by age is a sublist of another one
    if it is a subset.
-/
import Mathlib.Data.List.Sort
import Mathlib.Tactic.SplitIfs
import BoomStop.Lib.Sizes

namespace RingOrder

/-! ## Places -/

section Places

variable {N : ℕ}

/-- The next place. -/
def wrapInc [NeZero N] (r : Fin N) : Fin N := if h : r.val + 1 < N then ⟨r.val + 1, h⟩ else 0

/-- The place before. -/
def wrapDec [NeZero N] (r : Fin N) : Fin N := if r.val = 0 then Fin.ofNat N (N - 1) else ⟨r.val - 1, by omega⟩

/-- How far `r` is ahead of `h`. -/
def dist (h r : Fin N) : ℕ := if h.val ≤ r.val then r.val - h.val else r.val + N - h.val

variable {h r r' : Fin N}

theorem val_wrapInc [NeZero N] : (wrapInc r).val = if r.val + 1 < N then r.val + 1 else 0 := by
  unfold wrapInc
  split_ifs <;> simp

theorem val_wrapDec [NeZero N] : (wrapDec r).val = if r.val = 0 then N - 1 else r.val - 1 := by
  unfold wrapDec
  have := Nat.pos_of_neZero N
  split_ifs
  · simp [Fin.ofNat, Nat.mod_eq_of_lt (show N - 1 < N by omega)]
  · rfl

theorem dist_lt : dist h r < N := by
  unfold dist
  have := r.isLt
  have := h.isLt
  split_ifs <;> omega

@[simp] theorem dist_self : dist h h = 0 := by
  simp [dist]

theorem dist_inj (e : dist h r = dist h r') : r = r' := by
  unfold dist at e
  have := r.isLt
  have := r'.isLt
  have := h.isLt
  apply Fin.ext
  split_ifs at e <;> omega

theorem dist_eq_zero : dist h r = 0 ↔ r = h :=
  ⟨fun e => dist_inj (e.trans dist_self.symm), fun e => e ▸ dist_self⟩

/-- Moving the head brings every other place one nearer. -/
theorem dist_wrapInc_head [NeZero N] (hne : r ≠ h) : dist (wrapInc h) r + 1 = dist h r := by
  have hv : r.val ≠ h.val := fun e => hne (Fin.ext e)
  have hi := val_wrapInc (r := h)
  unfold dist
  have := r.isLt
  have := h.isLt
  split_ifs at hi ⊢ <;> omega

/-- and takes the place it leaves to the far end. -/
theorem dist_wrapInc_self [NeZero N] : dist (wrapInc h) h + 1 = N := by
  have hi := val_wrapInc (r := h)
  unfold dist
  have := h.isLt
  split_ifs at hi ⊢ <;> omega

theorem dist_wrapInc [NeZero N] (hlt : dist h r + 1 < N) : dist h (wrapInc r) = dist h r + 1 := by
  have hi := val_wrapInc (r := r)
  unfold dist at hlt ⊢
  have := r.isLt
  have := h.isLt
  split_ifs at hi hlt ⊢ <;> omega

theorem wrapInc_eq_head [NeZero N] : wrapInc r = h ↔ dist h r + 1 = N := by
  have hi := val_wrapInc (r := r)
  rw [Fin.ext_iff]
  unfold dist
  have := r.isLt
  have := h.isLt
  split_ifs at hi ⊢ <;> omega

theorem dist_wrapDec [NeZero N] (hne : r ≠ h) : dist h (wrapDec r) + 1 = dist h r := by
  have hv : r.val ≠ h.val := fun e => hne (Fin.ext e)
  have hi := val_wrapDec (r := r)
  unfold dist
  have := r.isLt
  have := h.isLt
  split_ifs at hi ⊢ <;> omega

theorem dist_wrapDec_self [NeZero N] : dist h (wrapDec h) + 1 = N := by
  have hi := val_wrapDec (r := h)
  unfold dist
  have := h.isLt
  split_ifs at hi ⊢ <;> omega

/-! ### Running numbers

A pointer that goes round the ring is the place of a number that only counts
up. -/

/-- The place of a running number. -/
def place (N : ℕ) [NeZero N] (k : ℕ) : Fin N := Fin.ofNat N k

variable [NeZero N] {a b k : ℕ}

theorem val_place : (place N k).val = k % N := rfl

theorem wrapInc_place : wrapInc (place N k) = place N (k + 1) := by
  have hlt := Nat.mod_lt k (Nat.pos_of_neZero N)
  rw [Fin.ext_iff, val_wrapInc, val_place, val_place, ← Nat.mod_add_mod]
  split_ifs with h
  · exact (Nat.mod_eq_of_lt h).symm
  · have he : k % N + 1 = N := by omega
    rw [he, Nat.mod_self]

theorem iterate_wrapInc_place : (wrapInc^[b]) (place N a) = place N (a + b) := by
  induction b with
  | zero => rfl
  | succ b ih => rw [Function.iterate_succ_apply', ih, wrapInc_place, Nat.add_assoc]

/-- Steps from the head are counted by the distance. -/
theorem dist_iterate_wrapInc {h : Fin N} (hk : k < N) : dist h (wrapInc^[k] h) = k := by
  induction k with
  | zero => exact dist_self
  | succ k ih =>
    have hd := ih (by omega)
    rw [Function.iterate_succ_apply', dist_wrapInc (by omega), hd]

theorem iterate_wrapInc_eq_iff {h r : Fin N} (hk : k < N) : wrapInc^[k] h = r ↔ k = dist h r := by
  constructor
  · rintro rfl
    exact (dist_iterate_wrapInc hk).symm
  · intro hd
    exact dist_inj ((dist_iterate_wrapInc hk).trans hd)

theorem place_add_self : place N (k + N) = place N k := Fin.ext (Nat.add_mod_right k N)

theorem dist_place (hle : a ≤ b) (hlt : b < a + N) : dist (place N a) (place N b) = b - a := by
  induction b, hle using Nat.le_induction with
  | base => simp
  | succ b hle ih =>
    rw [← wrapInc_place, dist_wrapInc, ih (by omega)]
    · omega
    · rw [ih (by omega)]
      omega

/-- Within one round, different numbers have different places. -/
theorem place_inj (ha : k ≤ a) (hb : k ≤ b) (ha' : a < k + N) (hb' : b < k + N)
    (h : place N a = place N b) : a = b := by
  have hd := congrArg (dist (place N k)) h
  rw [dist_place ha ha', dist_place hb hb'] at hd
  omega

/-- Every place has a number in the round from `k` on. -/
theorem place_add_dist (r : Fin N) : place N (k + dist (place N k) r) = r := by
  refine dist_inj (h := place N k) ?_
  have hlt : dist (place N k) r < N := dist_lt
  rw [dist_place (Nat.le_add_right _ _) (by omega), Nat.add_sub_cancel_left]

end Places

/-! ## Ages -/

/-- The lexicographic order. -/
def LexLt (a b a' b' : ℕ) : Prop := a < a' ∨ a = a' ∧ b < b'

instance (a b a' b' : ℕ) : Decidable (LexLt a b a' b') := inferInstanceAs (Decidable (_ ∨ _))

section Ages

variable {α : Type*} {major minor : α → ℕ}

/-- Lists that are sorted by age are sublists as soon as they are subsets. -/
theorem sublist_of_ages {xs ys : List α} (hsub : xs ⊆ ys)
    (hx : xs.Pairwise fun a b => LexLt (major a) (minor a) (major b) (minor b))
    (hy : ys.Pairwise fun a b => LexLt (major a) (minor a) (major b) (minor b)) :
    xs.Sublist ys := by
  have : Std.Antisymm fun a b : α => LexLt (major a) (minor a) (major b) (minor b) :=
    ⟨fun a b hab hba => by unfold LexLt at hab hba; omega⟩
  have hnd : xs.Nodup := hx.imp fun {a b} hab e => by
    subst e
    unfold LexLt at hab
    omega
  exact List.sublist_of_subperm_of_pairwise (List.subperm_of_subset hnd hsub) hx hy

end Ages

end RingOrder
