/-
  A shift register whose cells may be changed as they move on, and how many of
  them there are.

  * `shift`, `out`: a step, and what leaves in it;
  * `countP_shift_le`, `countP_shift`: what enters stays or leaves, or loses
    the property by which it is counted;
  * `forall_shift`: what holds of all cells;
  * `getElem?_shift`, `getElem?_out`: where a cell moves to;
  * `forall₂_shift`, `forall₂_out`: two registers of one length.
-/
import Mathlib.Data.List.Forall2

namespace ShiftReg

variable {α : Type*}

/-- What leaves: the oldest cell, or what enters if there is no cell. -/
def out (x : α) (l : List α) : α := (x :: l).getLast (List.cons_ne_nil x l)

/-- The others move on; the newest is the first. -/
def shift (f : α → α) (x : α) (l : List α) : List α := (x :: l).dropLast.map f

variable {f : α → α} {p : α → Bool} {x : α} {l : List α}

@[simp] theorem length_shift : (shift f x l).length = l.length := by
  simp [shift]

theorem cons_eq : x :: l = (x :: l).dropLast ++ [out x l] :=
  (List.dropLast_append_getLast (List.cons_ne_nil x l)).symm

theorem out_mem : out x l ∈ x :: l := List.getLast_mem _

theorem mem_of_mem_shift {y : α} (h : y ∈ shift f x l) : ∃ z ∈ x :: l, f z = y := by
  obtain ⟨z, hz, rfl⟩ := List.mem_map.1 h
  exact ⟨z, (List.dropLast_sublist _).subset hz, rfl⟩

theorem forall_shift {P : α → Prop} (h : ∀ y ∈ x :: l, P y) (hf : ∀ y, P y → P (f y)) :
    ∀ y ∈ shift f x l, P y := by
  intro y hy
  obtain ⟨z, hz, rfl⟩ := mem_of_mem_shift hy
  exact hf z (h z hz)

theorem countP_map_le (hf : ∀ a, p (f a) = true → p a = true) (l : List α) :
    (l.map f).countP p ≤ l.countP p := by
  rw [List.countP_map]
  exact List.countP_mono_left fun a _ ha => hf a ha

theorem countP_dropLast : (x :: l).dropLast.countP p + (p (out x l)).toNat =
    l.countP p + (p x).toNat := by
  have hcons : (x :: l).countP p = (x :: l).dropLast.countP p + [out x l].countP p := by
    rw [← List.countP_append, ← cons_eq]
  have hone : ∀ (y : α) (ys : List α), (y :: ys).countP p = ys.countP p + (p y).toNat := by
    intro y ys
    rw [List.countP_cons]
    cases p y <;> rfl
  rw [hone, hone, List.countP_nil] at hcons
  omega

/-- Nothing comes from nowhere. -/
theorem countP_shift_le (hf : ∀ a, p (f a) = true → p a = true) :
    (shift f x l).countP p + (p (out x l)).toNat ≤ l.countP p + (p x).toNat := by
  have h := countP_map_le hf (x :: l).dropLast
  have hsplit := countP_dropLast (p := p) (x := x) (l := l)
  rw [shift]
  omega

/-- Nothing is lost that keeps its property. -/
theorem countP_shift (hf : ∀ a, p (f a) = true → p a = true)
    (hkeep : ∀ a ∈ x :: l, p a = true → p (f a) = true) :
    (shift f x l).countP p + (p (out x l)).toNat = l.countP p + (p x).toNat := by
  have hmap : ((x :: l).dropLast.map f).countP p = (x :: l).dropLast.countP p := by
    rw [List.countP_map]
    exact List.countP_congr fun a ha =>
      ⟨hf a, hkeep a ((List.dropLast_sublist _).subset ha)⟩
  rw [shift, hmap]
  exact countP_dropLast

/-- What a cell holds comes from the one before it. -/
theorem getElem?_shift {k : ℕ} (hk : k < l.length) : (shift f x l)[k]? = ((x :: l)[k]?).map f := by
  rw [shift, List.getElem?_map, List.getElem?_dropLast, if_pos]
  simpa using hk

theorem getElem?_out : (x :: l)[l.length]? = some (out x l) := by
  rw [out, List.getLast_eq_getElem]
  simp

/-! ## Two registers side by side -/

section Two

variable {β : Type*} {R : α → β → Prop} {g : β → β} {y : β} {m : List β}

theorem forall₂_dropLast (h : List.Forall₂ R l m) : List.Forall₂ R l.dropLast m.dropLast := by
  induction h with
  | nil => exact .nil
  | @cons a b l m hab hlm ih =>
    cases hlm with
    | nil => exact .nil
    | cons _ _ => exact .cons hab ih

theorem forall₂_shift (h : List.Forall₂ R l m) (hx : R x y) (hf : ∀ a b, R a b → R (f a) (g b)) :
    List.Forall₂ R (shift f x l) (shift g y m) := by
  have hd := forall₂_dropLast (List.Forall₂.cons hx h)
  rw [shift, shift, List.forall₂_map_left_iff, List.forall₂_map_right_iff]
  exact hd.imp hf

theorem forall₂_out (h : List.Forall₂ R l m) (hx : R x y) : R (out x l) (out y m) := by
  induction h generalizing x y with
  | nil => exact hx
  | @cons a b l m hab hlm ih =>
    have hl : out x (a :: l) = out a l := List.getLast_cons (List.cons_ne_nil a l)
    have hm : out y (b :: m) = out b m := List.getLast_cons (List.cons_ne_nil b m)
    rw [hl, hm]
    exact ih hab

end Two

end ShiftReg
