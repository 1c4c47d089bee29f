/-
  Compacting a row of cells: each occupied cell moves down over the vacant
  cells before it, but by no more than `d` places at a time.

  * `shift`, `dest`: how far a cell moves, and where to;
  * `dest_lt`: occupied cells never meet and never overtake each other;
  * `pulled_of_dest`: looked at from the destination, the cell that moves in is the
    last one behind it whose destination it is;
  * `filterMap_place`: cells that keep their order under a strictly increasing
    map list the same contents.
-/
import Mathlib.Data.List.Basic
import Mathlib.Data.List.Count
import Mathlib.Data.List.ReduceOption
import Mathlib.Order.Lattice

namespace Collapse

variable {vacant : ℕ → Bool} {d m m' k : ℕ}

/-- The vacant cells before a cell. -/
def holes (vacant : ℕ → Bool) (m : ℕ) : ℕ := (List.range m).countP vacant

/-- How far a cell moves down. -/
def shift (vacant : ℕ → Bool) (d m : ℕ) : ℕ := min (holes vacant m) d

/-- Where it moves to. -/
def dest (vacant : ℕ → Bool) (d m : ℕ) : ℕ := m - shift vacant d m

@[simp] theorem holes_zero : holes vacant 0 = 0 := rfl

theorem holes_succ : holes vacant (m + 1) = holes vacant m + if vacant m then 1 else 0 := by
  simp [holes, List.range_succ, List.countP_append, List.countP_singleton]

theorem holes_le (vacant : ℕ → Bool) (m : ℕ) : holes vacant m ≤ m := by
  induction m with
  | zero => exact le_rfl
  | succ m ih => rw [holes_succ]; split_ifs <;> omega

theorem holes_mono (h : m ≤ m') : holes vacant m ≤ holes vacant m' := by
  induction m', h using Nat.le_induction with
  | base => exact le_rfl
  | succ m' _ ih => rw [holes_succ]; omega

variable (vacant) in
/-- From one cell to a later one, at most the cells between are vacant. -/
theorem holes_add_le (h : m ≤ m') : holes vacant m' ≤ holes vacant m + (m' - m) := by
  induction m', h using Nat.le_induction with
  | base => omega
  | succ m' h ih => rw [holes_succ]; split_ifs <;> omega

theorem shift_le (vacant : ℕ → Bool) (d m : ℕ) : shift vacant d m ≤ m :=
  (min_le_left _ _).trans (holes_le _ _)

theorem shift_le_width (vacant : ℕ → Bool) (d m : ℕ) : shift vacant d m ≤ d := min_le_right _ _

theorem dest_add_shift (vacant : ℕ → Bool) (d m : ℕ) :
    dest vacant d m + shift vacant d m = m := Nat.sub_add_cancel (shift_le _ _ _)

theorem dest_le (vacant : ℕ → Bool) (d m : ℕ) : dest vacant d m ≤ m := Nat.sub_le _ _

theorem dest_eq_iff : dest vacant d m = m ↔ shift vacant d m = 0 := by
  have h := dest_add_shift vacant d m
  omega

theorem shift_succ : shift vacant d (m + 1) =
    if vacant m ∧ shift vacant d m < d then shift vacant d m + 1 else shift vacant d m := by
  unfold shift
  rw [holes_succ]
  split_ifs <;> simp_all <;> omega

/-- **Occupied cells keep their order.** -/
theorem dest_lt (h : vacant m = false) (hlt : m < m') :
    dest vacant d m < dest vacant d m' := by
  have hstep : holes vacant (m + 1) = holes vacant m := by rw [holes_succ, h]; simp
  have hadd := holes_add_le vacant (Nat.add_one_le_iff.2 hlt)
  have h1 := shift_le vacant d m
  have h2 := shift_le vacant d m'
  unfold dest shift at *
  omega

theorem dest_inj (h : vacant m = false) (h' : vacant m' = false)
    (he : dest vacant d m = dest vacant d m') : m = m' := by
  rcases Nat.lt_trichotomy m m' with hlt | heq | hlt
  · exact absurd he (dest_lt h hlt).ne
  · exact heq
  · exact absurd he (dest_lt h' hlt).ne'

/-- The last number below `d` that passes a test. -/
theorem find?_reverse_range {p : ℕ → Bool} {j : ℕ} :
    (List.range d).reverse.find? p = some j ↔
      j < d ∧ p j = true ∧ ∀ j', j < j' → j' < d → p j' = false := by
  induction d with
  | zero => simp
  | succ d ih =>
    rw [List.range_succ, List.reverse_append, List.reverse_singleton, List.singleton_append,
      List.find?_cons]
    cases hp : p d with
    | true =>
      constructor
      · rintro ⟨⟩
        exact ⟨by omega, hp, fun j' h h' => by omega⟩
      · rintro ⟨hj, hpj, hlast⟩
        rcases Nat.lt_succ_iff_lt_or_eq.1 hj with hlt | rfl
        · rw [hlast d hlt (Nat.lt_succ_self d)] at hp
          contradiction
        · rfl
    | false =>
      rw [ih]
      constructor
      · rintro ⟨hj, hpj, hlast⟩
        refine ⟨by omega, hpj, fun j' h h' => ?_⟩
        rcases Nat.lt_succ_iff_lt_or_eq.1 h' with hlt | rfl
        · exact hlast j' h hlt
        · exact hp
      · rintro ⟨hj, hpj, hlast⟩
        rcases Nat.lt_succ_iff_lt_or_eq.1 hj with hlt | rfl
        · exact ⟨hlt, hpj, fun j' h h' => hlast j' h (by omega)⟩
        · rw [hp] at hpj
          contradiction

/-- The last cell behind `k` that moves to it, found from how far each moves. -/
def pulled (vacant : ℕ → Bool) (d k : ℕ) : Option ℕ :=
  ((List.range d).reverse.find? fun j => shift vacant d (k + j + 1) = j + 1).map (k + · + 1)

theorem pulled_eq_some (h : pulled vacant d k = some m) : k < m ∧ dest vacant d m = k := by
  rw [pulled, Option.map_eq_some_iff] at h
  obtain ⟨j, hj, rfl⟩ := h
  have hs := (find?_reverse_range.1 hj).2.1
  rw [decide_eq_true_iff] at hs
  unfold dest
  omega

/-- An occupied cell that moves is pulled in at its destination. -/
theorem pulled_of_dest (h : vacant m = false) (hk : dest vacant d m = k) (hne : k ≠ m) :
    pulled vacant d k = some m := by
  have hadd := dest_add_shift vacant d m
  have hw := shift_le_width vacant d m
  obtain ⟨j, hj⟩ : ∃ j, shift vacant d m = j + 1 := ⟨shift vacant d m - 1, by omega⟩
  obtain rfl : m = k + j + 1 := by omega
  refine Option.map_eq_some_iff.2 ⟨j, find?_reverse_range.2 ⟨by omega, by simp [hj], ?_⟩, rfl⟩
  -- a later cell with this destination would have met `m`
  intro j' hlt hd
  rw [decide_eq_false_iff_not]
  intro hs
  have hmeet := dest_lt (d := d) h (show k + j + 1 < k + j' + 1 by omega)
  rw [hk, dest, hs] at hmeet
  omega

/-- Nothing that is occupied is pulled onto an occupied cell that stays. -/
theorem pulled_of_stays (h : vacant k = false) (hk : shift vacant d k = 0) :
    pulled vacant d k = none := by
  rw [Option.eq_none_iff_forall_ne_some]
  intro m hm
  obtain ⟨hlt, hd⟩ := pulled_eq_some hm
  have hmeet := dest_lt (d := d) h hlt
  rw [hd, dest, hk] at hmeet
  omega

/-! ## Contents -/

/-- A strictly increasing map of the filled cells of `f` into the cells of `g`,
    which are empty elsewhere, keeps the list of the contents. -/
theorem filterMap_place {α : Type*} {f g : ℕ → Option α} (tgt : ℕ → ℕ) {N n : ℕ}
    (hlt : ∀ m < N, (f m).isSome → tgt m < n)
    (hmono : ∀ m m', m < m' → m' < N → (f m).isSome → (f m').isSome → tgt m < tgt m')
    (hput : ∀ m < N, (f m).isSome → g (tgt m) = f m)
    (hnone : ∀ k < n, (∀ m < N, (f m).isSome → tgt m ≠ k) → g k = none) :
    (List.range n).filterMap g = (List.range N).filterMap f := by
  induction N generalizing n with
  | zero =>
    rw [List.range_zero, List.filterMap_nil, List.filterMap_eq_nil_iff]
    exact fun k hk => hnone k (List.mem_range.1 hk) fun m hm => absurd hm (Nat.not_lt_zero m)
  | succ N ih =>
    rw [List.range_succ, List.filterMap_append]
    cases hf : f N with
    | none =>
      rw [ih (fun m hm => hlt m (by omega)) (fun m m' h hm => hmono m m' h (by omega))
        (fun m hm => hput m (by omega)) fun k hk h => hnone k hk fun m hm hs => ?_]
      · simp [hf]
      · rcases Nat.lt_succ_iff_lt_or_eq.1 hm with hm | rfl
        · exact h m hm hs
        · rw [hf] at hs
          contradiction
    | some a =>
      have hs : (f N).isSome := by rw [hf]; rfl
      have hn := hlt N (Nat.lt_succ_self N) hs
      -- the cells up to the place of the last one, that place, and the empty ones behind it
      obtain ⟨e, rfl⟩ : ∃ e, n = (tgt N + 1) + e := ⟨n - (tgt N + 1), by omega⟩
      have hrest : ((List.range e).map (tgt N + 1 + ·)).filterMap g = [] := by
        rw [List.filterMap_eq_nil_iff]
        intro k hk
        obtain ⟨j, hj, rfl⟩ := List.mem_map.1 hk
        refine hnone _ (by have := List.mem_range.1 hj; omega) fun m hm hs' => ?_
        rcases Nat.lt_succ_iff_lt_or_eq.1 hm with hm | rfl
        · have := hmono m N hm (Nat.lt_succ_self N) hs' hs
          omega
        · omega
      rw [List.range_add, List.range_succ, List.filterMap_append, List.filterMap_append, hrest,
        List.append_nil]
      congr 1
      · refine ih (fun m hm hs' => hmono m N hm (Nat.lt_succ_self N) hs' hs)
          (fun m m' h hm => hmono m m' h (by omega)) (fun m hm => hput m (by omega))
          fun k hk h => hnone k (by omega) fun m hm hs' => ?_
        rcases Nat.lt_succ_iff_lt_or_eq.1 hm with hm | rfl
        · exact h m hm hs'
        · omega
      · simp [hput N (Nat.lt_succ_self N) hs, hf]

/-- Two lists taken from the same cells of a row, combined cell by cell. -/
theorem zipWith_filterMap {ι α β γ : Type*} {a : ι → Option α} {b : ι → Option β}
    (f : α → β → Option γ) {l : List ι} (h : ∀ k ∈ l, (a k).isSome = (b k).isSome) :
    (List.zipWith f (l.filterMap a) (l.filterMap b)).reduceOption =
      l.filterMap fun k => (a k).bind fun x => (b k).bind (f x) := by
  induction l with
  | nil => rfl
  | cons k l ih =>
    have hk := h k List.mem_cons_self
    specialize ih fun j hj => h j (List.mem_cons_of_mem _ hj)
    cases ha : a k with
    | none =>
      have hb : b k = none := by simpa [ha] using hk.symm
      simpa [ha, hb] using ih
    | some x =>
      obtain ⟨y, hb⟩ : ∃ y, b k = some y := Option.isSome_iff_exists.1 (by rw [← hk, ha]; rfl)
      simp only [List.filterMap_cons, ha, hb, List.zipWith_cons_cons, Option.bind_some]
      cases hf : f x y <;> simp [ih]

end Collapse
