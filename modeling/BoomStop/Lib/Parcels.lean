/-
  Streams of parcels, where the first parcel of an item tells whether the item
  is one parcel or two: instruction sets with a compressed extension, escape
  codes, surrogate pairs.

  * `Parse`: a list of items with a possible first half behind it, whose
    parcels are a given list;
  * `Cut.feed`: the parser that takes one parcel at a time and remembers at
    most one;
  * `parse_iff`: the parser finds the parse, and there is no other;
  * `cut_mono`: what is parsed stays parsed when more parcels follow.
-/
import Mathlib.Data.List.Induction

namespace Parcels

variable {α β : Type*} {long : α → Bool}

/-- An item of one or two parcels. -/
inductive Item (α : Type*)
  | single (a : α)
  | pair (a b : α)

namespace Item

/-- The parcels of an item. -/
def parcels : Item α → List α
  | single a => [a]
  | pair a b => [a, b]

/-- The first parcel says how long the item is. -/
def Wf (long : α → Bool) : Item α → Prop
  | single a => long a = false
  | pair a _ => long a = true

end Item

/-- `items` and then the first half `rest` are a reading of `xs`. -/
structure Parse (long : α → Bool) (xs : List α) (items : List (Item α)) (rest : Option α) :
    Prop where
  parcels : items.flatMap Item.parcels ++ rest.toList = xs
  wf : ∀ it ∈ items, it.Wf long
  half : ∀ a ∈ rest, long a = true

/-- What has been read so far. -/
structure Cut (α : Type*) where
  items : List (Item α)
  rest : Option α

/-- One more parcel. -/
def Cut.feed (long : α → Bool) (c : Cut α) (x : α) : Cut α :=
  match c.rest with
  | some a => ⟨c.items ++ [.pair a x], none⟩
  | none => if long x then ⟨c.items, some x⟩ else ⟨c.items ++ [.single x], none⟩

/-- A list of parcels, read from its start. -/
def cut (long : α → Bool) (xs : List α) : Cut α := xs.foldl (Cut.feed long) ⟨[], none⟩

@[simp] theorem cut_nil : cut long [] = ⟨[], none⟩ := rfl

theorem cut_append (xs ys : List α) :
    cut long (xs ++ ys) = ys.foldl (Cut.feed long) (cut long xs) := by
  simp only [cut, List.foldl_append]

theorem cut_snoc (xs : List α) (x : α) : cut long (xs ++ [x]) = (cut long xs).feed long x := by
  simp only [cut_append, List.foldl_cons, List.foldl_nil]

theorem feed_second {c : Cut α} {a : α} (h : c.rest = some a) (x : α) :
    c.feed long x = ⟨c.items ++ [.pair a x], none⟩ := by
  simp only [Cut.feed, h]

theorem feed_first {c : Cut α} {x : α} (h : c.rest = none) (hx : long x = true) :
    c.feed long x = ⟨c.items, some x⟩ := by
  simp only [Cut.feed, h, hx, if_true]

theorem feed_single {c : Cut α} {x : α} (h : c.rest = none) (hx : long x = false) :
    c.feed long x = ⟨c.items ++ [.single x], none⟩ := by
  simp only [Cut.feed, h, hx, Bool.false_eq_true, if_false]

/-- A parcel adds at most one item at the end. -/
theorem feed_mono (c : Cut α) (x : α) : c.items <+: (c.feed long x).items := by
  cases h : c.rest with
  | some a =>
    rw [feed_second h]
    exact List.prefix_append _ _
  | none =>
    cases hx : long x with
    | true =>
      exact (feed_first h hx).symm ▸ List.prefix_refl _
    | false =>
      rw [feed_single h hx]
      exact List.prefix_append _ _

theorem foldl_feed_mono (ys : List α) :
    ∀ c : Cut α, c.items <+: (ys.foldl (Cut.feed long) c).items := by
  induction ys with
  | nil => intro c; exact List.prefix_refl _
  | cons y ys ih => intro c; exact (feed_mono c y).trans (ih _)

/-- **Prefix**: what is parsed stays parsed when more parcels follow. -/
theorem cut_mono (xs ys : List α) : (cut long xs).items <+: (cut long (xs ++ ys)).items := by
  rw [cut_append]
  exact foldl_feed_mono ys _

/-! ## The parser and the parse -/

theorem parse_feed {xs : List α} {c : Cut α} (h : Parse long xs c.items c.rest) (x : α) :
    Parse long (xs ++ [x]) (c.feed long x).items (c.feed long x).rest := by
  obtain ⟨hp, hw, hh⟩ := h
  cases hr : c.rest with
  | some a =>
    rw [feed_second hr]
    rw [hr] at hp hh
    refine ⟨?_, ?_, ?_⟩
    · simp only [List.flatMap_append, List.flatMap_singleton, Item.parcels, Option.toList_none,
        List.append_nil, ← hp, Option.toList_some, List.append_assoc, List.singleton_append]
    · intro it hit
      rcases List.mem_append.1 hit with hit | hit
      · exact hw it hit
      · rw [List.mem_singleton.1 hit]
        exact hh a rfl
    · intro b hb
      cases hb
  | none =>
    rw [hr, Option.toList_none, List.append_nil] at hp
    cases hx : long x with
    | true =>
      rw [feed_first hr hx]
      refine ⟨?_, hw, ?_⟩
      · rw [Option.toList_some, hp]
      · intro b hb
        cases hb
        exact hx
    | false =>
      rw [feed_single hr hx]
      refine ⟨?_, ?_, ?_⟩
      · simp only [List.flatMap_append, List.flatMap_singleton, Item.parcels, Option.toList_none,
          List.append_nil, hp]
      · intro it hit
        rcases List.mem_append.1 hit with hit | hit
        · exact hw it hit
        · rw [List.mem_singleton.1 hit]
          exact hx
      · intro b hb
        cases hb

/-- The parser finds a parse. -/
theorem parse_cut (xs : List α) : Parse long xs (cut long xs).items (cut long xs).rest := by
  induction xs using List.reverseRecOn with
  | nil => exact ⟨rfl, by simp, by simp⟩
  | append_singleton xs x ih =>
    rw [cut_snoc]
    exact parse_feed ih x

theorem foldl_feed_item {it : Item α} (h : it.Wf long) (items : List (Item α)) :
    it.parcels.foldl (Cut.feed long) ⟨items, none⟩ = ⟨items ++ [it], none⟩ := by
  cases it with
  | single a =>
    rw [Item.parcels, List.foldl_cons, List.foldl_nil]
    exact feed_single (c := ⟨items, none⟩) rfl h
  | pair a b =>
    rw [Item.parcels, List.foldl_cons, List.foldl_cons, List.foldl_nil,
      feed_first (c := ⟨items, none⟩) rfl h]
    exact feed_second (c := ⟨items, some a⟩) rfl b

theorem foldl_feed_items (its : List (Item α)) :
    ∀ items : List (Item α), (∀ it ∈ its, it.Wf long) →
      (its.flatMap Item.parcels).foldl (Cut.feed long) ⟨items, none⟩ = ⟨items ++ its, none⟩ := by
  induction its with
  | nil => intro items _; simp
  | cons it its ih =>
    intro items hw
    rw [List.flatMap_cons, List.foldl_append, foldl_feed_item (hw it (List.mem_cons_self ..)),
      ih _ fun it' h => hw it' (List.mem_cons_of_mem _ h), List.append_assoc, List.singleton_append]

/-- **The parse is unique**, and the parser finds it. -/
theorem parse_iff {xs : List α} {items : List (Item α)} {rest : Option α} :
    Parse long xs items rest ↔ cut long xs = ⟨items, rest⟩ := by
  constructor
  · rintro ⟨hp, hw, hh⟩
    rw [← hp, cut_append, cut, foldl_feed_items items [] hw, List.nil_append]
    cases rest with
    | none => rfl
    | some a =>
      rw [Option.toList_some, List.foldl_cons, List.foldl_nil]
      exact feed_first rfl (hh a rfl)
  · intro h
    have hp : Parse long xs (cut long xs).items (cut long xs).rest := parse_cut xs
    rwa [h] at hp

end Parcels
