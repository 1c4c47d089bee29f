/-
  Which store a load is forwarded from (`lsu.scala`, `ForwardingAgeLogic`), and
  what the search of a store then decides about the load (`forwarded_is_older`).

  The stores of the queue have running numbers, as in `StoreDeps`: `h` is the
  number at the head, and `y` is the number that the next store after the load
  gets, so that the load comes after the stores from `h` to `y`.

  * `ForwardingAgeLogic.foldl_matches`: of the matches the last one sticks;
  * `position_add`: in the vector of double length, the stores before `y` stand
    in program order;
  * `forwards_youngest`: the load is forwarded from the youngest older match,
    and `IsOlder` seen from the load is program order.
-/
import BoomStop.Rob

namespace BoomStop.Forwarding

open RingOrder
open Reorder (isOlder isOlder_iff_dist)

variable {n : ℕ} [NeZero n]

/-! ## The age logic -/

/-- The outputs of `ForwardingAgeLogic`. -/
structure Choice (n : ℕ) where
  forwarding_val : Bool
  forwarding_idx : Fin n
  deriving DecidableEq

/-- `age_mask`: the places before that of the next store. -/
def age_mask (youngest_st_idx i : Fin n) : Bool := !decide (youngest_st_idx ≤ i)

/-- `matches`: all of the matches, and above them those that `age_mask` keeps. -/
def doubled (addr_matches : Fin n → Bool) (youngest_st_idx : Fin n) (i : ℕ) : Bool :=
  if i < n then addr_matches (place n i)
  else addr_matches (place n i) && age_mask youngest_st_idx (place n i)

/-- `ForwardingAgeLogic`: the last match that is found sticks. -/
def forwardingAgeLogic (addr_matches : Fin n → Bool) (youngest_st_idx : Fin n) : Choice n :=
  (List.range (2 * n)).foldl
    (fun c i => if doubled addr_matches youngest_st_idx i then ⟨true, place n i⟩ else c)
    ⟨false, 0⟩

/-- `forwarded_is_older`, in the search of the store `lcam_stq_idx`. -/
def forwarded_is_older (l_forward_stq_idx lcam_stq_idx youngest_stq_idx : Fin n) : Bool :=
  isOlder l_forward_stq_idx lcam_stq_idx youngest_stq_idx

/-- Whether the search of an overlapping store fails the load. -/
def failsLoad (forward_std_val : Bool) (l_forward_stq_idx lcam_stq_idx youngest_stq_idx : Fin n) :
    Bool :=
  !forward_std_val || (decide (l_forward_stq_idx ≠ lcam_stq_idx) &&
    forwarded_is_older l_forward_stq_idx lcam_stq_idx youngest_stq_idx)

/-! ## The last match -/

section Last

variable {p : ℕ → Bool} {k : ℕ}

/-- What the loop has found in the first `k` bits. -/
structure Last (p : ℕ → Bool) (k : ℕ) (c : Choice n) : Prop where
  val : c.forwarding_val = true ↔ ∃ i < k, p i = true
  idx : c.forwarding_val = true →
    ∃ i < k, p i = true ∧ c.forwarding_idx = place n i ∧ ∀ j < k, p j = true → j ≤ i

theorem Last.zero : Last p 0 (⟨false, 0⟩ : Choice n) := by
  constructor
  · simp
  · intro h
    cases h

theorem Last.succ {c : Choice n} (h : Last p k c) :
    Last p (k + 1) (if p k then ⟨true, place n k⟩ else c) := by
  cases hk : p k with
  | true =>
    constructor
    · exact iff_of_true rfl ⟨k, Nat.lt_succ_self k, hk⟩
    · intro _
      exact ⟨k, Nat.lt_succ_self k, hk, rfl, fun j hj _ => Nat.le_of_lt_succ hj⟩
  | false =>
    have hlt : ∀ i < k + 1, p i = true → i < k := by
      intro i hi hp
      refine lt_of_le_of_ne (Nat.le_of_lt_succ hi) ?_
      rintro rfl
      rw [hk] at hp
      cases hp
    constructor
    · rw [if_neg Bool.false_ne_true, h.val]
      constructor
      · rintro ⟨i, hi, hp⟩
        exact ⟨i, Nat.lt_succ_of_lt hi, hp⟩
      · rintro ⟨i, hi, hp⟩
        exact ⟨i, hlt i hi hp, hp⟩
    · rw [if_neg Bool.false_ne_true]
      intro hc
      obtain ⟨i, hi, hp, hidx, hmax⟩ := h.idx hc
      exact ⟨i, Nat.lt_succ_of_lt hi, hp, hidx, fun j hj hpj => hmax j (hlt j hj hpj) hpj⟩

theorem foldl_last :
    Last p k ((List.range k).foldl (fun c i => if p i then ⟨true, place n i⟩ else c)
      (⟨false, 0⟩ : Choice n)) := by
  induction k with
  | zero => exact Last.zero
  | succ k ih =>
    rw [List.range_succ, List.foldl_append]
    exact ih.succ

end Last

/-! ## Program order in the doubled vector -/

section Position

variable {y a b : ℕ}

/-- Where the doubled vector has the store `a` for the last time. -/
def position (n y a : ℕ) : ℕ := if a % n < y % n then n + a % n else a % n

/-- The stores of one round before `y` stand in the order of their numbers. -/
theorem position_add (hy : y ≤ a + n) (ha : a < y) : position n y a + n * (y / n) = a + n := by
  have hn := Nat.pos_of_neZero n
  have hdy := Nat.div_add_mod y n
  have hda := Nat.div_add_mod a n
  have hmy := Nat.mod_lt y hn
  have hma := Nat.mod_lt a hn
  unfold position
  by_cases hlt : a % n < y % n
  · -- no wrap between `a` and `y`
    have hq : a / n = y / n := by
      refine le_antisymm (Nat.div_le_div_right ha.le) ?_
      by_contra hc
      have := Nat.mul_le_mul_left n (Nat.succ_le_of_lt (Nat.lt_of_not_le hc))
      rw [Nat.mul_succ] at this
      omega
    rw [if_pos hlt, ← hq]
    omega
  · have hq : a / n + 1 = y / n := by
      have h1 : a / n < y / n := by
        by_contra hc
        have := Nat.mul_le_mul_left n (Nat.le_of_not_lt hc)
        omega
      refine le_antisymm h1 ?_
      by_contra hc
      have := Nat.mul_le_mul_left n (Nat.succ_le_of_lt (Nat.lt_of_not_le hc))
      rw [Nat.mul_succ, Nat.mul_succ] at this
      omega
    rw [if_neg hlt, ← hq, Nat.mul_succ]
    omega

theorem position_lt : position n y a < 2 * n := by
  have := Nat.mod_lt a (Nat.pos_of_neZero n)
  unfold position
  split_ifs <;> omega

omit [NeZero n] in
theorem position_mod : position n y a % n = a % n := by
  unfold position
  split_ifs
  · rw [Nat.add_mod_left, Nat.mod_mod]
  · rw [Nat.mod_mod]

theorem position_congr (h : place n a = place n b) : position n y a = position n y b := by
  have hmod : a % n = b % n := congrArg Fin.val h
  unfold position
  rw [hmod]

theorem place_position : place n (position n y a) = place n a := Fin.ext position_mod

variable {addr_matches : Fin n → Bool}

/-- A match is set at the position of its store, -/
theorem doubled_position (h : addr_matches (place n a) = true) :
    doubled addr_matches (place n y) (position n y a) = true := by
  have := Nat.mod_lt a (Nat.pos_of_neZero n)
  rw [doubled, place_position]
  unfold position
  by_cases hlt : a % n < y % n
  · rw [if_pos hlt, if_neg (by omega), h, Bool.true_and, age_mask, Bool.not_eq_true',
      decide_eq_false_iff_not, Fin.le_def, val_place, val_place]
    exact Nat.not_le_of_lt hlt
  · rw [if_neg hlt, if_pos this, h]

/-- and nowhere behind it. -/
theorem le_position {i : ℕ} (hi : i < 2 * n)
    (h : doubled addr_matches (place n y) i = true) :
    i ≤ position n y i ∧ addr_matches (place n i) = true := by
  unfold doubled at h
  by_cases hlt : i < n
  · rw [if_pos hlt] at h
    refine ⟨?_, h⟩
    unfold position
    rw [Nat.mod_eq_of_lt hlt]
    split_ifs <;> omega
  · rw [if_neg hlt, Bool.and_eq_true] at h
    refine ⟨?_, h.1⟩
    have hmask := h.2
    rw [age_mask, Bool.not_eq_true', decide_eq_false_iff_not, Fin.le_def, val_place, val_place] at hmask
    have hmod : i % n = i - n := by
      rw [Nat.mod_eq_sub_mod (Nat.le_of_not_lt hlt)]
      exact Nat.mod_eq_of_lt (by omega)
    unfold position
    rw [if_pos (Nat.lt_of_not_le hmask)]
    omega

end Position

/-! ## The youngest older store -/

section Youngest

variable {h y a b : ℕ} {addr_matches : Fin n → Bool}

/-- The set bits of the doubled vector are the matches. -/
theorem exists_doubled
    (hdep : ∀ j, addr_matches j = true → ∃ a, h ≤ a ∧ a < y ∧ place n a = j) :
    (∃ i < 2 * n, doubled addr_matches (place n y) i = true) ↔ ∃ j, addr_matches j = true := by
  constructor
  · rintro ⟨i, hi, hset⟩
    exact ⟨place n i, (le_position hi hset).2⟩
  · rintro ⟨j, hj⟩
    obtain ⟨a, _, _, rfl⟩ := hdep j hj
    exact ⟨position n y a, position_lt, doubled_position hj⟩

/-- The last set bit is the youngest of the older stores that match. -/
theorem youngest_of_last (hroom : y < h + n)
    (hdep : ∀ j, addr_matches j = true → ∃ a, h ≤ a ∧ a < y ∧ place n a = j) {i : ℕ}
    (hi : i < 2 * n) (hset : doubled addr_matches (place n y) i = true)
    (hlast : ∀ k < 2 * n, doubled addr_matches (place n y) k = true → k ≤ i) :
    ∃ a, h ≤ a ∧ a < y ∧ place n a = place n i ∧
      ∀ b, h ≤ b → b < y → addr_matches (place n b) = true → b ≤ a := by
  obtain ⟨hle, hmatch⟩ := le_position hi hset
  obtain ⟨a, hha, hay, hai⟩ := hdep _ hmatch
  have hia : i ≤ position n y a := position_congr (y := y) hai ▸ hle
  refine ⟨a, hha, hay, hai, fun b hhb hby hb => ?_⟩
  have hbi := hlast _ position_lt (doubled_position (y := y) hb)
  have hpa := position_add (n := n) (y := y) (a := a) (by omega) hay
  have hpb := position_add (n := n) (y := y) (a := b) (by omega) hby
  omega

/-- Seen from the load, `IsOlder` is program order on the older stores. -/
theorem forwarded_is_older_iff (ha : y ≤ a + n) (hay : a < y) (hb : y ≤ b + n) (hby : b < y) :
    forwarded_is_older (place n a) (place n b) (place n y) = true ↔ a < b := by
  have hda : RingOrder.dist (place n y) (place n a) = a + n - y := by
    rw [← place_add_self (k := a)]
    exact dist_place ha (by omega)
  have hdb : RingOrder.dist (place n y) (place n b) = b + n - y := by
    rw [← place_add_self (k := b)]
    exact dist_place hb (by omega)
  rw [forwarded_is_older, isOlder_iff_dist, hda, hdb]
  omega

/-- The search of an older store fails the load unless the load has its data
from this store or from a younger one. -/
theorem failsLoad_iff {forward_std_val : Bool} (ha : y ≤ a + n) (hay : a < y) (hb : y ≤ b + n)
    (hby : b < y) :
    failsLoad forward_std_val (place n a) (place n b) (place n y) = true ↔
      forward_std_val = false ∨ a < b := by
  have hne : a < b → place n a ≠ place n b := by
    intro hab he
    have hk := place_inj (k := y - n) (by omega) (by omega) (by omega) (by omega) he
    omega
  rw [failsLoad, Bool.or_eq_true, Bool.not_eq_true', Bool.and_eq_true,
    forwarded_is_older_iff ha hay hb hby, decide_eq_true_eq]
  exact or_congr_right ⟨And.right, fun hab => ⟨hne hab, hab⟩⟩

end Youngest

/-- **The youngest older store is forwarded.** The head of the store queue has
the number `h`, the first store after the load has the number `y`, and fewer
than `n` stores are between the two. If the matches are older stores, the load
is forwarded iff there is one, and from the youngest one; and in the search of
a store `b` that the load depends on, `forwarded_is_older` tells whether the
store `a` that was forwarded is older. -/
theorem forwards_youngest {h y : ℕ} (hroom : y < h + n) {addr_matches : Fin n → Bool}
    (hdep : ∀ j, addr_matches j = true → ∃ a, h ≤ a ∧ a < y ∧ place n a = j) :
    ((forwardingAgeLogic addr_matches (place n y)).forwarding_val = true ↔
      ∃ j, addr_matches j = true) ∧
    ((∃ j, addr_matches j = true) → ∃ a, h ≤ a ∧ a < y ∧ addr_matches (place n a) = true ∧
      (forwardingAgeLogic addr_matches (place n y)).forwarding_idx = place n a ∧
      (∀ b, h ≤ b → b < y → addr_matches (place n b) = true → b ≤ a) ∧
      ∀ b, h ≤ b → b < y →
        (forwarded_is_older (forwardingAgeLogic addr_matches (place n y)).forwarding_idx
          (place n b) (place n y) = true ↔ a < b)) := by
  have hlast : Last (doubled addr_matches (place n y)) (2 * n)
      (forwardingAgeLogic addr_matches (place n y)) := foldl_last
  have hval : (forwardingAgeLogic addr_matches (place n y)).forwarding_val = true ↔
      ∃ j, addr_matches j = true := hlast.val.trans (exists_doubled hdep)
  refine ⟨hval, fun hex => ?_⟩
  obtain ⟨i, hi, hset, hidx, hmax⟩ := hlast.idx (hval.2 hex)
  obtain ⟨a, hha, hay, hai, hyoungest⟩ := youngest_of_last hroom hdep hi hset hmax
  refine ⟨a, hha, hay, ?_, hidx.trans hai.symm, hyoungest, fun b hhb hby => ?_⟩
  · rw [hai]
    exact (le_position hi hset).2
  · rw [hidx, ← hai]
    exact forwarded_is_older_iff (by omega) hay (by omega) hby

/-- A ring of three places with the stores 2 and 3 before the load, the second
one round the corner. -/
theorem forwards_youngest_wrapped :
    forwardingAgeLogic (fun j : Fin 3 => j = 2 || j = 0) (place 3 4) = ⟨true, 0⟩ ∧
      ((forwardingAgeLogic (fun j : Fin 3 => j = 2 || j = 0) (place 3 4)).forwarding_val = true ↔
        ∃ j : Fin 3, (j = 2 || j = 0 : Bool) = true) := by
  refine ⟨by decide, ?_⟩
  have hdep : ∀ j : Fin 3, (j = 2 || j = 0 : Bool) = true →
      ∃ a, 2 ≤ a ∧ a < 4 ∧ place 3 a = j := by
    intro j hj
    rw [Bool.or_eq_true, decide_eq_true_eq, decide_eq_true_eq] at hj
    rcases hj with rfl | rfl
    · exact ⟨2, by decide, by decide, rfl⟩
    · exact ⟨3, by decide, by decide, rfl⟩
  exact (forwards_youngest (h := 2) (y := 4) (by decide) hdep).1

end BoomStop.Forwarding
