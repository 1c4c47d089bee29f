/-
  The helpers of the ring buffers (`util.scala`: `WrapAdd`, `WrapSub`,
  `WrapInc`, `WrapDec`, `AgePriorityEncoder`), with the widths that their
  operators have; `IsOlder` is in the reorder buffer.

  * `UInt.add`, `UInt.sub`, `UInt.lit`: the operators and the constants of the
    hardware, as wide as the wider operand;
  * `wrapAdd_eq`, `wrapSub_eq`, `wrapInc_eq`, `wrapDec_eq`: they count modulo
    the size of the ring, be it a power of two or not;
  * `agePriorityEncoder_spec`: the entry that is the first from the head on;
  * `ring_helpers_exact`: all of them.
-/
import BoomStop.Rob
import Mathlib.Data.List.GetD
import Mathlib.Data.Nat.Size

namespace BoomStop.Util

open Reorder (isOlder isOlder_iff_dist)

variable {w v n : ℕ}

/-! ## Operators -/

namespace UInt

/-- `+`, as wide as the wider operand. -/
def add (x : BitVec w) (y : BitVec v) : BitVec (max w v) := x.setWidth _ + y.setWidth _

/-- `-`. -/
def sub (x : BitVec w) (y : BitVec v) : BitVec (max w v) := x.setWidth _ - y.setWidth _

/-- A constant, as wide as it needs. -/
def lit (k : ℕ) : BitVec (max 1 k.size) := BitVec.ofNat _ k

variable {x : BitVec w} {y : BitVec v} {k : ℕ}

theorem toNat_setWidth_max_left : (x.setWidth (max w v)).toNat = x.toNat := by
  rw [BitVec.toNat_setWidth]
  exact Nat.mod_eq_of_lt (Nat.lt_of_lt_of_le x.isLt (Nat.pow_le_pow_right Nat.two_pos (le_max_left w v)))

theorem toNat_setWidth_max_right : (y.setWidth (max w v)).toNat = y.toNat := by
  rw [BitVec.toNat_setWidth]
  exact Nat.mod_eq_of_lt
    (Nat.lt_of_lt_of_le y.isLt (Nat.pow_le_pow_right Nat.two_pos (le_max_right w v)))

theorem toNat_add : (add x y).toNat = (x.toNat + y.toNat) % 2 ^ max w v := by
  rw [add, BitVec.toNat_add, toNat_setWidth_max_left, toNat_setWidth_max_right]

theorem toNat_sub : (sub x y).toNat = (2 ^ max w v - y.toNat + x.toNat) % 2 ^ max w v := by
  rw [sub, BitVec.toNat_sub, toNat_setWidth_max_left, toNat_setWidth_max_right]

theorem toNat_sub_of_le (h : y.toNat ≤ x.toNat) : (sub x y).toNat = x.toNat - y.toNat := by
  have hx : x.toNat < 2 ^ max w v :=
    Nat.lt_of_lt_of_le x.isLt (Nat.pow_le_pow_right Nat.two_pos (le_max_left w v))
  have he : 2 ^ max w v - y.toNat + x.toNat = x.toNat - y.toNat + 2 ^ max w v := by omega
  rw [toNat_sub, he, Nat.add_mod_right]
  exact Nat.mod_eq_of_lt (by omega)

@[simp] theorem toNat_lit : (lit k).toNat = k := by
  rw [lit, BitVec.toNat_ofNat]
  exact Nat.mod_eq_of_lt
    (Nat.lt_of_lt_of_le (Nat.lt_size_self k) (Nat.pow_le_pow_right Nat.two_pos (le_max_right 1 _)))

end UInt

/-- `isPow2`. -/
def isPow2 (n : ℕ) : Bool := 2 ^ Nat.clog 2 n == n

/-! ## Counting in a ring -/

/-- `WrapAdd`. -/
def wrapAdd (value : BitVec w) (amt : BitVec v) (n : ℕ) : ℕ :=
  if isPow2 n then ((UInt.add value amt).extractLsb' 0 (Nat.clog 2 n)).toNat
  else
    let sum := UInt.add (0#1 ++ value) (0#1 ++ amt)
    if (UInt.lit n).toNat ≤ sum.toNat then (UInt.sub sum (UInt.lit n)).toNat else sum.toNat

/-- `WrapSub`. -/
def wrapSub (value : BitVec w) (amt n : ℕ) : ℕ :=
  if isPow2 n then ((UInt.sub value (UInt.lit amt)).extractLsb' 0 (Nat.clog 2 n)).toNat
  else if (UInt.lit amt).toNat ≤ value.toNat then (UInt.sub value (UInt.lit amt)).toNat
  else (UInt.add (UInt.sub (UInt.lit n) (UInt.lit amt)) value).toNat

/-- `WrapInc`. -/
def wrapInc (value : BitVec w) (n : ℕ) : ℕ :=
  if isPow2 n then ((UInt.add value (UInt.lit 1)).extractLsb' 0 (Nat.clog 2 n)).toNat
  else if value.toNat = (UInt.lit (n - 1)).toNat then 0
  else (UInt.add value (UInt.lit 1)).toNat

/-- `WrapDec`. -/
def wrapDec (value : BitVec w) (n : ℕ) : ℕ :=
  if isPow2 n then ((UInt.sub value (UInt.lit 1)).extractLsb' 0 (Nat.clog 2 n)).toNat
  else if value.toNat = 0 then (UInt.lit (n - 1)).toNat
  else (UInt.sub value (UInt.lit 1)).toNat

section Counting

variable {value : BitVec w} {amt : BitVec v} {k : ℕ}

/-- The lower bits of a sum. -/
theorem extract_add (hn : isPow2 n = true) (hw : Nat.clog 2 n ≤ max w v) :
    ((UInt.add value amt).extractLsb' 0 (Nat.clog 2 n)).toNat =
      (value.toNat + amt.toNat) % n := by
  rw [BitVec.extractLsb'_toNat, Nat.shiftRight_zero, UInt.toNat_add,
    Nat.mod_mod_of_dvd _ (Nat.pow_dvd_pow 2 hw), beq_iff_eq.1 hn]

/-- and of a difference. -/
theorem extract_sub (hn : isPow2 n = true) (hw : Nat.clog 2 n ≤ max w v) (ha : amt.toNat ≤ n) :
    ((UInt.sub value amt).extractLsb' 0 (Nat.clog 2 n)).toNat =
      (value.toNat + (n - amt.toNat)) % n := by
  have hpow : 2 ^ Nat.clog 2 n = n := beq_iff_eq.1 hn
  obtain ⟨c, hc⟩ : n ∣ 2 ^ max w v := hpow ▸ Nat.pow_dvd_pow 2 hw
  have hpos : 0 < c := by
    rw [Nat.pos_iff_ne_zero]
    rintro rfl
    exact absurd hc (Nat.two_pow_pos _).ne'
  obtain ⟨d, rfl⟩ : ∃ d, c = d + 1 := ⟨c - 1, by omega⟩
  rw [BitVec.extractLsb'_toNat, Nat.shiftRight_zero, UInt.toNat_sub,
    Nat.mod_mod_of_dvd _ (Nat.pow_dvd_pow 2 hw), hpow, hc, Nat.mul_succ]
  have he : n * d + n - amt.toNat + value.toNat = value.toNat + (n - amt.toNat) + n * d := by omega
  rw [he, Nat.add_mul_mod_self_left]

/-- A number below `n` has room for itself and for `n`. -/
theorem lt_two_pow (hw : Nat.clog 2 n ≤ w) {k : ℕ} (hk : k < n) : k < 2 ^ w := by
  have hn : n ≤ 2 ^ Nat.clog 2 n := Nat.le_pow_clog Nat.one_lt_two n
  exact lt_of_lt_of_le hk (hn.trans (Nat.pow_le_pow_right Nat.two_pos hw))

/-- A sum that fits the first operand keeps its carry. -/
theorem toNat_add_of_lt (h : value.toNat + amt.toNat < 2 ^ max w v) :
    (UInt.add value amt).toNat = value.toNat + amt.toNat := by
  rw [UInt.toNat_add, Nat.mod_eq_of_lt h]

/-- One more bit in front takes the carry of any sum. -/
theorem toNat_carry : (UInt.add (0#1 ++ value) (0#1 ++ amt)).toNat = value.toNat + amt.toNat := by
  have hv : value.toNat < 2 ^ max w v :=
    lt_of_lt_of_le value.isLt (Nat.pow_le_pow_right Nat.two_pos (le_max_left w v))
  have ha : amt.toNat < 2 ^ max w v :=
    lt_of_lt_of_le amt.isLt (Nat.pow_le_pow_right Nat.two_pos (le_max_right w v))
  have hp : 2 ^ max (1 + w) (1 + v) = 2 * 2 ^ max w v := by
    rw [Nat.add_max_add_left, Nat.pow_add, Nat.pow_one]
  have hv0 : ((0#1 ++ value).toNat) = value.toNat := by simp [BitVec.toNat_append]
  have ha0 : ((0#1 ++ amt).toNat) = amt.toNat := by simp [BitVec.toNat_append]
  rw [UInt.toNat_add, hv0, ha0, hp]
  exact Nat.mod_eq_of_lt (by omega)

theorem mod_of_ge {k : ℕ} (hge : n ≤ k) (hlt : k < 2 * n) : k % n = k - n := by
  rw [Nat.mod_eq_sub_mod hge]
  exact Nat.mod_eq_of_lt (by omega)

theorem wrapAdd_eq (hw : Nat.clog 2 n ≤ w) (hv : value.toNat < n) (ha : amt.toNat ≤ n) :
    wrapAdd value amt n = (value.toNat + amt.toNat) % n := by
  unfold wrapAdd
  by_cases hn : isPow2 n = true
  · rw [if_pos hn]
    exact extract_add hn (hw.trans (le_max_left w v))
  · rw [if_neg hn]
    simp only [UInt.toNat_lit, toNat_carry]
    by_cases hge : n ≤ value.toNat + amt.toNat
    · have hle : (UInt.lit n).toNat ≤ (UInt.add (0#1 ++ value) (0#1 ++ amt)).toNat := by
        rwa [UInt.toNat_lit, toNat_carry]
      rw [if_pos hge, UInt.toNat_sub_of_le hle, UInt.toNat_lit, toNat_carry]
      exact (mod_of_ge hge (by omega)).symm
    · rw [if_neg hge]
      exact (Nat.mod_eq_of_lt (by omega)).symm

theorem wrapSub_eq (hw : Nat.clog 2 n ≤ w) (hv : value.toNat < n) (ha : k ≤ n) :
    wrapSub value k n = (value.toNat + (n - k)) % n := by
  unfold wrapSub
  by_cases hn : isPow2 n = true
  · rw [if_pos hn, extract_sub hn (hw.trans (le_max_left w _)) (by rwa [UInt.toNat_lit]),
      UInt.toNat_lit]
  · rw [if_neg hn, UInt.toNat_lit]
    by_cases hge : k ≤ value.toNat
    · have hle : (UInt.lit k).toNat ≤ value.toNat := by rwa [UInt.toNat_lit]
      rw [if_pos hge, UInt.toNat_sub_of_le hle, UInt.toNat_lit, mod_of_ge (by omega) (by omega)]
      omega
    · have hle : (UInt.lit k).toNat ≤ (UInt.lit n).toNat := by rwa [UInt.toNat_lit, UInt.toNat_lit]
      have hd : (UInt.sub (UInt.lit n) (UInt.lit k)).toNat = n - k := by
        rw [UInt.toNat_sub_of_le hle, UInt.toNat_lit, UInt.toNat_lit]
      have hfit : n - k + value.toNat < 2 ^ max (max (max 1 n.size) (max 1 k.size)) w :=
        lt_of_lt_of_le (lt_two_pow hw (by omega)) (Nat.pow_le_pow_right Nat.two_pos (le_max_right _ w))
      rw [if_neg hge, toNat_add_of_lt (by rwa [hd]), hd, Nat.mod_eq_of_lt (by omega)]
      exact Nat.add_comm _ _

theorem wrapInc_eq (hn2 : 2 ≤ n) (hw : Nat.clog 2 n ≤ w) (hv : value.toNat < n) :
    wrapInc value n = (value.toNat + 1) % n := by
  unfold wrapInc
  by_cases hn : isPow2 n = true
  · rw [if_pos hn, extract_add hn (hw.trans (le_max_left w _)), UInt.toNat_lit]
  · rw [if_neg hn, UInt.toNat_lit]
    by_cases hlast : value.toNat = n - 1
    · have he : value.toNat + 1 = n := by omega
      rw [if_pos hlast, he, Nat.mod_self]
    · have hfit : value.toNat + (UInt.lit 1).toNat < 2 ^ max w (max 1 (Nat.size 1)) := by
        rw [UInt.toNat_lit]
        exact lt_of_lt_of_le (lt_two_pow hw (by omega))
          (Nat.pow_le_pow_right Nat.two_pos (le_max_left w _))
      rw [if_neg hlast, toNat_add_of_lt hfit, UInt.toNat_lit]
      exact (Nat.mod_eq_of_lt (by omega)).symm

theorem wrapDec_eq (hn2 : 2 ≤ n) (hw : Nat.clog 2 n ≤ w) (hv : value.toNat < n) :
    wrapDec value n = (value.toNat + (n - 1)) % n := by
  unfold wrapDec
  by_cases hn : isPow2 n = true
  · rw [if_pos hn, extract_sub hn (hw.trans (le_max_left w _)) (by rw [UInt.toNat_lit]; omega),
      UInt.toNat_lit]
  · rw [if_neg hn]
    by_cases hzero : value.toNat = 0
    · rw [if_pos hzero, UInt.toNat_lit, hzero, Nat.zero_add]
      exact (Nat.mod_eq_of_lt (by omega)).symm
    · have hle : (UInt.lit 1).toNat ≤ value.toNat := by
        rw [UInt.toNat_lit]
        omega
      rw [if_neg hzero, UInt.toNat_sub_of_le hle, UInt.toNat_lit, mod_of_ge (by omega) (by omega)]
      omega

end Counting

/-! ## Ages -/

/-- `PriorityEncoder`: the first set bit, or the last place. -/
def priorityEncoder (l : List Bool) : ℕ := (l.findIdx? id).getD (l.length - 1)

/-- `temp_vec`: the bits from the head on, filled up to a power of two, and
then all of them. -/
def tempVec (l : List Bool) (head : ℕ) : List Bool :=
  ((List.range (2 ^ Nat.clog 2 l.length)).map fun i =>
    if i < l.length then l.getD i false && decide (head ≤ i) else false) ++ l

/-- `AgePriorityEncoder`. -/
def agePriorityEncoder (l : List Bool) (head : ℕ) : ℕ :=
  priorityEncoder (tempVec l head) % 2 ^ Nat.clog 2 l.length

/-- How far `i` is from the head, modulo `n`. -/
def fromHead (n head i : ℕ) : ℕ := (i + (n - head)) % n

section Ages

variable {l : List Bool} {head i j : ℕ}

theorem getD_eq_true : l.getD i false = true ↔ ∃ h : i < l.length, l[i] = true := by
  constructor
  · intro hi
    by_cases h : i < l.length
    · exact ⟨h, by rwa [List.getD_eq_getElem l false h] at hi⟩
    · rw [List.getD_eq_default l false (Nat.le_of_not_lt h)] at hi
      cases hi
  · rintro ⟨h, hi⟩
    rwa [List.getD_eq_getElem l false h]

/-- The encoder finds a set bit, with none before it. -/
theorem priorityEncoder_spec (hi : l.getD i false = true) :
    l.getD (priorityEncoder l) false = true ∧
      ∀ j, l.getD j false = true → priorityEncoder l ≤ j := by
  obtain ⟨hlt, hbit⟩ := getD_eq_true.1 hi
  have hsome : (l.findIdx? id).isSome := by
    rw [List.findIdx?_isSome, List.any_eq_true]
    exact ⟨l[i], List.getElem_mem hlt, hbit⟩
  obtain ⟨k, hk⟩ := Option.isSome_iff_exists.1 hsome
  obtain ⟨hkl, hset, hbefore⟩ := List.findIdx?_eq_some_iff_getElem.1 hk
  rw [priorityEncoder, hk, Option.getD_some]
  refine ⟨getD_eq_true.2 ⟨hkl, hset⟩, fun j hj => Nat.le_of_not_lt fun hjk => ?_⟩
  obtain ⟨_, hb⟩ := getD_eq_true.1 hj
  exact hbefore j hjk hb

theorem le_two_pow_clog : l.length ≤ 2 ^ Nat.clog 2 l.length := Nat.le_pow_clog Nat.one_lt_two _

/-- The lower part has the bits from the head on, -/
theorem tempVec_low (hi : i < 2 ^ Nat.clog 2 l.length) :
    (tempVec l head).getD i false = true ↔ l.getD i false = true ∧ head ≤ i := by
  rw [tempVec, List.getD_append _ _ _ _ (by simpa using hi)]
  by_cases hl : i < l.length
  · simp [hi, hl]
  · simp [hi, hl]

/-- and the upper part all of them. -/
theorem tempVec_high :
    (tempVec l head).getD (2 ^ Nat.clog 2 l.length + i) false = l.getD i false := by
  rw [tempVec, List.getD_append_right _ _ _ _ (by simp)]
  simp

theorem fromHead_of_le (hi : i < l.length) (hle : head ≤ i) : fromHead l.length head i = i - head := by
  rw [fromHead, mod_of_ge (by omega) (by omega)]
  omega

theorem fromHead_of_lt (hh : head < l.length) (hlt : i < head) :
    fromHead l.length head i = i + (l.length - head) :=
  Nat.mod_eq_of_lt (by omega)

/-- The encoder returns the set bit that is the first from the head on. -/
theorem agePriorityEncoder_spec (hh : head < l.length) (hi : l.getD i false = true) :
    l.getD (agePriorityEncoder l head) false = true ∧
      ∀ j, l.getD j false = true →
        fromHead l.length head (agePriorityEncoder l head) ≤ fromHead l.length head j := by
  have hany : (tempVec l head).getD (2 ^ Nat.clog 2 l.length + i) false = true := by
    rwa [tempVec_high]
  obtain ⟨hset, hfirst⟩ := priorityEncoder_spec hany
  have hle : l.length ≤ 2 ^ Nat.clog 2 l.length := le_two_pow_clog
  have hlow : ∀ j, l.getD j false = true → head ≤ j → priorityEncoder (tempVec l head) ≤ j := by
    intro j hj hhj
    obtain ⟨hjl, _⟩ := getD_eq_true.1 hj
    exact hfirst j ((tempVec_low (by omega)).2 ⟨hj, hhj⟩)
  unfold agePriorityEncoder
  by_cases hk : priorityEncoder (tempVec l head) < 2 ^ Nat.clog 2 l.length
  · -- the first set bit is at the head or behind it
    rw [Nat.mod_eq_of_lt hk]
    obtain ⟨hbit, hhead⟩ := (tempVec_low hk).1 hset
    obtain ⟨hkl, _⟩ := getD_eq_true.1 hbit
    refine ⟨hbit, fun j hj => ?_⟩
    obtain ⟨hjl, _⟩ := getD_eq_true.1 hj
    rw [fromHead_of_le hkl hhead]
    by_cases hhj : head ≤ j
    · rw [fromHead_of_le hjl hhj]
      have := hlow j hj hhj
      omega
    · rw [fromHead_of_lt hh (by omega)]
      omega
  · -- no bit is set from the head to the end
    obtain ⟨m, hm⟩ := Nat.exists_eq_add_of_le (Nat.le_of_not_lt hk)
    rw [hm, tempVec_high] at hset
    obtain ⟨hml, _⟩ := getD_eq_true.1 hset
    rw [hm, Nat.add_mod_left, Nat.mod_eq_of_lt (by omega)]
    refine ⟨hset, fun j hj => ?_⟩
    have hbehind : ∀ j, l.getD j false = true → j < head := by
      intro j hj
      by_contra hhj
      obtain ⟨hjl, _⟩ := getD_eq_true.1 hj
      have := hlow j hj (by omega)
      omega
    have hmj : 2 ^ Nat.clog 2 l.length + m ≤ 2 ^ Nat.clog 2 l.length + j :=
      hm ▸ hfirst _ (by rwa [tempVec_high])
    rw [fromHead_of_lt hh (hbehind m hset), fromHead_of_lt hh (hbehind j hj)]
    omega

end Ages

/-- The distance on the places of a ring is the distance of the numbers. -/
theorem dist_eq_fromHead {h r : Fin n} : RingOrder.dist h r = fromHead n h r := by
  have := h.isLt
  have := r.isLt
  unfold RingOrder.dist fromHead
  by_cases hle : h.val ≤ r.val
  · rw [if_pos hle, mod_of_ge (by omega) (by omega)]
    omega
  · rw [if_neg hle, Nat.mod_eq_of_lt (by omega)]
    omega

theorem isOlder_iff {head i j : ℕ} (hh : head < n) (hi : i < n) (hj : j < n) :
    isOlder i j head = true ↔ fromHead n head i < fromHead n head j := by
  have h := isOlder_iff_dist (a := ⟨i, hi⟩) (b := ⟨j, hj⟩) (h := ⟨head, hh⟩)
  rwa [dist_eq_fromHead, dist_eq_fromHead] at h

theorem isOlder_self {i head : ℕ} : isOlder i i head = false := by
  unfold isOlder
  by_cases h : i < head <;> simp [h]

/-- On a ring the two counters are the neighbours of a place. -/
theorem wrapInc_eq_place [NeZero n] {value : BitVec w} {r : Fin n} (hn2 : 2 ≤ n)
    (hw : Nat.clog 2 n ≤ w) (hr : value.toNat = r) : wrapInc value n = RingOrder.wrapInc r := by
  have hlt := r.isLt
  rw [wrapInc_eq hn2 hw (hr ▸ hlt), hr, RingOrder.val_wrapInc]
  by_cases h : r.val + 1 < n
  · rw [if_pos h, Nat.mod_eq_of_lt h]
  · have he : r.val + 1 = n := by omega
    rw [if_neg h, he, Nat.mod_self]

theorem wrapDec_eq_place [NeZero n] {value : BitVec w} {r : Fin n} (hn2 : 2 ≤ n)
    (hw : Nat.clog 2 n ≤ w) (hr : value.toNat = r) : wrapDec value n = RingOrder.wrapDec r := by
  have hlt := r.isLt
  rw [wrapDec_eq hn2 hw (hr ▸ hlt), hr, RingOrder.val_wrapDec]
  by_cases h : r.val = 0
  · rw [if_pos h, h, Nat.zero_add, Nat.mod_eq_of_lt (by omega)]
  · rw [if_neg h, mod_of_ge (by omega) (by omega)]
    omega

/-- Subtraction modulo `n`, on integers. -/
theorem cast_sub_mod {k m : ℕ} (hm : m ≤ n) :
    (((k + (n - m)) % n : ℕ) : ℤ) = ((k : ℤ) - m) % n := by
  have he : ((k + (n - m) : ℕ) : ℤ) = (k : ℤ) - m + n := by
    push_cast [hm]
    omega
  rw [Int.natCast_mod, he, Int.add_emod_right]

/-- The helpers agree with the ring of `n` places, `n` being a power of two or
not: `IsOlder` is the order from the head on, `AgePriorityEncoder` the first
set bit in this order, and the four counters count modulo `n`. An index is as
wide as an index below `n` has to be. -/
theorem ring_helpers_exact (hn2 : 2 ≤ n) (hw : Nat.clog 2 n ≤ w) :
    (∀ head i j, head < n → i < n → j < n →
      (isOlder i j head = true ↔ fromHead n head i < fromHead n head j)) ∧
    (∀ head i, isOlder i i head = false) ∧
    (∀ (l : List Bool) head, l.length = n → head < n → (∃ i, l.getD i false = true) →
      l.getD (agePriorityEncoder l head) false = true ∧
        ∀ j, l.getD j false = true →
          fromHead n head (agePriorityEncoder l head) ≤ fromHead n head j) ∧
    ∀ value : BitVec w, value.toNat < n →
      wrapInc value n = (value.toNat + 1) % n ∧
      (wrapDec value n : ℤ) = ((value.toNat : ℤ) - 1) % n ∧
      (∀ (v : ℕ) (amt : BitVec v), amt.toNat ≤ n →
        wrapAdd value amt n = (value.toNat + amt.toNat) % n) ∧
      ∀ amt : ℕ, amt ≤ n → (wrapSub value amt n : ℤ) = ((value.toNat : ℤ) - amt) % n := by
  refine ⟨fun head i j => isOlder_iff, fun head i => isOlder_self, ?_, ?_⟩
  · rintro l head rfl hh ⟨i, hi⟩
    exact agePriorityEncoder_spec hh hi
  · intro value hv
    refine ⟨wrapInc_eq hn2 hw hv, ?_, fun v amt ha => wrapAdd_eq hw hv ha, fun amt ha => ?_⟩
    · rw [wrapDec_eq hn2 hw hv, cast_sub_mod (by omega)]
      rfl
    · rw [wrapSub_eq hw hv ha, cast_sub_mod ha]

/-- A ring of five places. -/
theorem ring_helpers_exact_five :
    wrapDec (0#3) 5 = 4 ∧ agePriorityEncoder [true, false, false, true, true] 3 = 3 ∧
      isOlder 4 0 3 = true ∧
      (isOlder 4 0 3 = true ↔ fromHead 5 3 4 < fromHead 5 3 0) := by
  refine ⟨by decide, by decide, by decide, ?_⟩
  exact (ring_helpers_exact (n := 5) (w := 3) (by decide) (by decide)).1 3 4 0 (by decide)
    (by decide) (by decide)

end BoomStop.Util
