/-
  Ring buffers with one-hot pointers.

  * `oneHot`, `inc`, `rotateLeft`: a pointer as a vector of bits, one of them
    set; `mux1H`: what it selects; `ohToUInt`: its place again;
  * `priorityEncoderOH`: the pointer to the lowest bit of a vector;
  * `push`: what is there goes to the place of the pointer, which moves on;
  * `Holds`: the ring holds the end of a list, from a number on; `Holds.push`
    keeps it as long as there is room.
-/
import BoomStop.Lib.RingOrder
import Mathlib.Data.List.ReduceOption

namespace OneHot

open RingOrder

variable {N : ℕ} {α : Type*}

/-- The pointer to a place. -/
def oneHot (j : Fin N) : Fin N → Bool := fun r => decide (r = j)

@[simp] theorem oneHot_eq_true {j r : Fin N} : oneHot j r = true ↔ r = j := decide_eq_true_iff

theorem find?_oneHot (j : Fin N) : (List.finRange N).find? (oneHot j) = some j := by
  have hsome : ((List.finRange N).find? (oneHot j)).isSome :=
    List.find?_isSome.2 ⟨j, List.mem_finRange j, oneHot_eq_true.2 rfl⟩
  obtain ⟨r, hr⟩ := Option.isSome_iff_exists.1 hsome
  rw [hr, oneHot_eq_true.1 (List.find?_some hr)]

theorem any_oneHot (j : Fin N) (q : Fin N → Bool) :
    ((List.finRange N).any fun r => oneHot j r && q r) = q j := by
  rw [Bool.eq_iff_iff, List.any_eq_true]
  simp

/-- A fold over what is selected, if that is one place. -/
theorem foldl_select {β γ : Type*} {op : γ → β → γ} (hop : ∀ a b, op (op a b) b = op a b)
    {f : Fin N → Bool} {i : Fin N} (hi : f i = true) (hf : ∀ j, f j = true → j = i)
    (x : Fin N → β) : ∀ (l : List (Fin N)) (a : γ),
    l.foldl (fun a j => if f j = true then op a (x j) else a) a = if i ∈ l then op a (x i) else a
  | [], a => rfl
  | j :: l, a => by
    rw [List.foldl_cons, foldl_select hop hi hf x l]
    by_cases hj : j = i
    · subst hj
      rw [if_pos hi, if_pos List.mem_cons_self]
      split_ifs
      · exact hop a (x j)
      · rfl
    · have hne : ¬ f j = true := fun h => hj (hf j h)
      rw [if_neg hne]
      refine if_congr ?_ rfl rfl
      rw [List.mem_cons]
      exact ⟨.inr, fun h => h.resolve_left fun he => hj he.symm⟩

/-- The value that a pointer selects. -/
def mux1H (sel : Fin N → Bool) (x : Fin N → ℕ) : ℕ :=
  (List.finRange N).foldl (fun a j => if sel j = true then a ||| x j else a) 0

theorem mux1H_eq {f : Fin N → Bool} {i : Fin N} (x : Fin N → ℕ) (hi : f i = true)
    (hf : ∀ j, f j = true → j = i) : mux1H f x = x i := by
  have hop : ∀ a b : ℕ, (a ||| b) ||| b = a ||| b := fun a b => by rw [Nat.or_assoc, Nat.or_self]
  rw [mux1H, foldl_select hop hi hf, if_pos (List.mem_finRange i), Nat.zero_or]

theorem mux1H_oneHot (i : Fin N) (x : Fin N → ℕ) : mux1H (oneHot i) x = x i :=
  mux1H_eq x (oneHot_eq_true.2 rfl) fun _ h => oneHot_eq_true.1 h

/-- The place of the bit that is set. -/
def ohToUInt (f : Fin N → Bool) : ℕ :=
  (List.finRange N).foldl (fun a j => if f j = true then a ||| j.val else a) 0

theorem ohToUInt_eq {f : Fin N → Bool} {i : Fin N} (hi : f i = true)
    (hf : ∀ j, f j = true → j = i) : ohToUInt f = i.val := mux1H_eq _ hi hf

/-- The lowest bit that is set. -/
def priorityEncoderOH (v : Fin N → Bool) : Fin N → Bool := fun j =>
  v j && !(List.finRange N).any fun k => k < j && v k

theorem priorityEncoderOH_eq {v : Fin N → Bool} {i : Fin N} (hi : v i = true)
    (hmin : ∀ j < i, v j = false) : priorityEncoderOH v = oneHot i := by
  ext j
  rw [Bool.eq_iff_iff, oneHot_eq_true]
  simp only [priorityEncoderOH, Bool.and_eq_true, Bool.not_eq_true', List.any_eq_false,
    List.mem_finRange, true_implies, decide_eq_true_eq, not_and, Bool.not_eq_true]
  constructor
  · rintro ⟨hj, hlow⟩
    rcases lt_trichotomy j i with hlt | rfl | hlt
    · exact absurd hj (by simp [hmin j hlt])
    · rfl
    · exact absurd hi (by simp [hlow i hlt])
  · rintro rfl
    exact ⟨hi, hmin⟩

variable [NeZero N]

/-- The next place, as a shift of the bits. -/
def inc (ptr : Fin N → Bool) : Fin N → Bool := fun r => ptr (wrapDec r)

/-- `k` places on. -/
def rotateLeft (ptr : Fin N → Bool) (k : ℕ) : Fin N → Bool :=
  fun r => ptr (Fin.ofNat N (r.val + N - k))

theorem wrapDec_eq_iff {r j : Fin N} : wrapDec r = j ↔ r = wrapInc j := by
  have hd := val_wrapDec (r := r)
  have hi := val_wrapInc (r := j)
  have hr := r.isLt
  have hj := j.isLt
  rw [Fin.ext_iff, Fin.ext_iff, hd, hi]
  split_ifs <;> omega

theorem inc_oneHot (j : Fin N) : inc (oneHot j) = oneHot (wrapInc j) := by
  funext r
  exact decide_eq_decide.2 wrapDec_eq_iff

theorem rotateLeft_oneHot {k : ℕ} (hk : k < N) (t : ℕ) :
    rotateLeft (oneHot (place N t)) k = oneHot (place N (t + k)) := by
  funext r
  refine decide_eq_decide.2 ?_
  have hr := r.isLt
  have ht := Nat.mod_lt t (Nat.pos_of_neZero N)
  have hback : (r.val + N - k) % N = if k ≤ r.val then r.val - k else r.val + N - k := by
    split_ifs with h
    · rw [Nat.sub_add_comm h, Nat.add_mod_right, Nat.mod_eq_of_lt (by omega)]
    · exact Nat.mod_eq_of_lt (by omega)
  rw [Fin.ext_iff, Fin.ext_iff, val_place, val_place, Fin.val_ofNat, hback, Nat.add_mod_eq_ite,
    Nat.mod_eq_of_lt hk]
  split_ifs <;> omega

/-! ## The ring -/

/-- Write what is there at the pointer and move it on. -/
def push (st : (Fin N → α) × (Fin N → Bool)) (u : Option α) : (Fin N → α) × (Fin N → Bool) :=
  match u with
  | some u => (fun j => if st.2 j then u else st.1 j, inc st.2)
  | none => st

/-- The pointer is behind the list, and the ring holds the list from `base`
    on. -/
def Holds (base : ℕ) (acc : List α) (st : (Fin N → α) × (Fin N → Bool)) : Prop :=
  st.2 = oneHot (place N acc.length) ∧
    ∀ k, base ≤ k → k < acc.length → acc[k]? = some (st.1 (place N k))

variable {base : ℕ} {acc : List α} {st : (Fin N → α) × (Fin N → Bool)}

theorem Holds.push (h : Holds base acc st) (hroom : acc.length < base + N) (u : α) :
    Holds base (acc ++ [u]) (push st (some u)) := by
  obtain ⟨hptr, hcontent⟩ := h
  constructor
  · show inc st.2 = _
    rw [hptr, inc_oneHot, wrapInc_place, List.length_append, List.length_singleton]
  · intro k hk hlt
    rw [List.length_append, List.length_singleton, Nat.lt_succ_iff_lt_or_eq] at hlt
    show _ = some (if st.2 (place N k) then u else st.1 (place N k))
    rw [hptr]
    rcases hlt with hlt | rfl
    · have hne : place N k ≠ place N acc.length := fun he => by
        have := place_inj hk (hk.trans hlt.le) (by omega) hroom he
        omega
      rw [List.getElem?_append_left hlt, if_neg (by simpa using hne), hcontent k hk hlt]
    · simp

theorem Holds.mono {base' : ℕ} (h : Holds base acc st) (hle : base ≤ base') :
    Holds base' acc st :=
  ⟨h.1, fun k hk => h.2 k (hle.trans hk)⟩

/-- All of a packet is written, in order. -/
theorem Holds.pushAll {us : List (Option α)} (h : Holds base acc st)
    (hroom : acc.length + us.reduceOption.length ≤ base + N) :
    Holds base (acc ++ us.reduceOption) (us.foldl OneHot.push st) := by
  induction us generalizing acc st with
  | nil => simpa using h
  | cons u us ih =>
    cases u with
    | none => exact ih h hroom
    | some u =>
      rw [List.reduceOption_cons_of_some] at hroom ⊢
      rw [List.length_cons] at hroom
      rw [List.append_cons, List.foldl_cons]
      exact ih (h.push (by omega) u) (by rw [List.length_append, List.length_singleton]; omega)

end OneHot
