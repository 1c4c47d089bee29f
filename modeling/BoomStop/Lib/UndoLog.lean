/-
  A map with an undo log: locations are assigned fresh values taken from a set
  of free ones, the log remembers what each assignment replaced, the youngest
  assignments can be undone and the oldest retired.

  * `undo m log` takes the assignments of `log`, youngest first, back;
    `Chain m log` says that they are what led to `m`;
  * `assign m rs` performs the assignments `rs`, oldest first, and `entries m rs`
    logs them; `undo_assign` takes them back;
  * `owners F m log p` counts the places that hold `p`: the free set, the
    locations, and the replaced values in the log;
  * `owners_assign`, `owners_undo`, `owners_retire`: the three operations keep
    the count of a value that has exactly one place.
-/
import Mathlib.Algebra.BigOperators.Group.Finset.Piecewise
import Mathlib.Data.Fintype.Basic
import Mathlib.Data.List.Nodup

namespace UndoLog

/-- The location `dst` went from `old` to `new`. -/
@[ext]
structure Entry (L P : Type*) where
  dst : L
  new : P
  old : P

variable {L P : Type*} [DecidableEq L]

/-! ## Undoing -/

/-- The map before the assignments of `log`, given youngest first. -/
def undo : (L → P) → List (Entry L P) → L → P
  | m, [] => m
  | m, e :: log => undo (Function.update m e.dst e.old) log

/-- The assignments of `log` led to `m`. -/
def Chain : (L → P) → List (Entry L P) → Prop
  | _, [] => True
  | m, e :: log => m e.dst = e.new ∧ Chain (Function.update m e.dst e.old) log

@[simp] theorem undo_nil (m : L → P) : undo m [] = m := rfl

@[simp] theorem undo_cons (m : L → P) (e : Entry L P) (log : List (Entry L P)) :
    undo m (e :: log) = undo (Function.update m e.dst e.old) log := rfl

theorem undo_append (m : L → P) (a b : List (Entry L P)) :
    undo m (a ++ b) = undo (undo m a) b := by
  induction a generalizing m with
  | nil => rfl
  | cons e a ih => exact ih _

theorem undo_of_ne {m : L → P} {log : List (Entry L P)} {l : L} (h : ∀ e ∈ log, e.dst ≠ l) :
    undo m log l = m l := by
  induction log generalizing m with
  | nil => rfl
  | cons e log ih =>
    rw [undo_cons, ih fun e' he' => h e' (List.mem_cons_of_mem _ he'),
      Function.update_of_ne (h e List.mem_cons_self).symm]

theorem chain_append {m : L → P} {a b : List (Entry L P)} :
    Chain m (a ++ b) ↔ Chain m a ∧ Chain (undo m a) b := by
  induction a generalizing m with
  | nil => simp [Chain]
  | cons e a ih => simp only [List.cons_append, Chain, ih, undo_cons, and_assoc]

/-- The value that an assignment brought is still in a location, or a younger
    assignment has replaced it. -/
theorem Chain.new_placed {m : L → P} {log : List (Entry L P)} (h : Chain m log) {e : Entry L P}
    (he : e ∈ log) : (∃ l, m l = e.new) ∨ ∃ e' ∈ log, e'.old = e.new := by
  induction log generalizing m with
  | nil => exact absurd he List.not_mem_nil
  | cons e₀ log ih =>
    obtain ⟨h0, hc⟩ := h
    rcases List.mem_cons.1 he with rfl | he
    · exact Or.inl ⟨_, h0⟩
    · rcases ih hc he with ⟨l, hl⟩ | ⟨e', he', ho⟩
      · by_cases hd : l = e₀.dst
        · rw [hd, Function.update_self] at hl
          exact Or.inr ⟨e₀, List.mem_cons_self, hl⟩
        · rw [Function.update_of_ne hd] at hl
          exact Or.inl ⟨l, hl⟩
      · exact Or.inr ⟨e', List.mem_cons_of_mem _ he', ho⟩

/-! ## Assigning -/

/-- The assignments `rs`, oldest first. -/
def assign : (L → P) → List (L × P) → L → P
  | m, [] => m
  | m, r :: rs => assign (Function.update m r.1 r.2) rs

/-- Their log, youngest first. -/
def entries : (L → P) → List (L × P) → List (Entry L P)
  | _, [] => []
  | m, r :: rs => entries (Function.update m r.1 r.2) rs ++ [⟨r.1, r.2, m r.1⟩]

/-- Each location ends with the last value assigned to it. -/
theorem assign_apply (m : L → P) (rs : List (L × P)) (l : L) :
    assign m rs l = rs.foldl (fun p r => if r.1 = l then r.2 else p) (m l) := by
  induction rs generalizing m with
  | nil => rfl
  | cons r rs ih =>
    rw [assign, ih, List.foldl_cons, Function.update_apply]
    simp only [eq_comm]

theorem assign_of_ne {m : L → P} {rs : List (L × P)} {l : L} (h : ∀ r ∈ rs, r.1 ≠ l) :
    assign m rs l = m l := by
  induction rs generalizing m with
  | nil => rfl
  | cons r rs ih =>
    rw [assign, ih fun r' hr' => h r' (List.mem_cons_of_mem _ hr'),
      Function.update_of_ne (h r List.mem_cons_self).symm]

theorem assign_append (m : L → P) (rs rs' : List (L × P)) :
    assign m (rs ++ rs') = assign (assign m rs) rs' := by
  induction rs generalizing m with
  | nil => rfl
  | cons r rs ih => exact ih _

theorem entries_append (m : L → P) (rs rs' : List (L × P)) :
    entries m (rs ++ rs') = entries (assign m rs) rs' ++ entries m rs := by
  induction rs generalizing m with
  | nil => simp [entries, assign]
  | cons r rs ih => simp only [List.cons_append, entries, assign, ih, List.append_assoc]

theorem mem_entries {m : L → P} {rs : List (L × P)} {e : Entry L P} (h : e ∈ entries m rs) :
    (e.dst, e.new) ∈ rs := by
  induction rs generalizing m with
  | nil => exact absurd h List.not_mem_nil
  | cons r rs ih =>
    rcases List.mem_append.1 h with h | h
    · exact List.mem_cons_of_mem _ (ih h)
    · rw [List.mem_singleton.1 h]
      exact List.mem_cons_self

/-- Undoing is assigning the replaced values, youngest first. -/
theorem assign_old (m : L → P) (log : List (Entry L P)) :
    assign m (log.map fun e => (e.dst, e.old)) = undo m log := by
  induction log generalizing m with
  | nil => rfl
  | cons e log ih => exact ih _

theorem undo_assign (m : L → P) (rs : List (L × P)) : undo (assign m rs) (entries m rs) = m := by
  induction rs generalizing m with
  | nil => rfl
  | cons r rs ih =>
    rw [assign, entries, undo_append, ih]
    simp only [undo_cons, undo_nil, Function.update_idem, Function.update_eq_self]

theorem chain_assign (m : L → P) (rs : List (L × P)) : Chain (assign m rs) (entries m rs) := by
  induction rs generalizing m with
  | nil => trivial
  | cons r rs ih =>
    rw [assign, entries, chain_append, undo_assign]
    exact ⟨ih _, Function.update_self .., trivial⟩

theorem entries_new (m : L → P) (rs : List (L × P)) :
    (entries m rs).map Entry.new = (rs.map Prod.snd).reverse := by
  induction rs generalizing m with
  | nil => rfl
  | cons r rs ih => simp [entries, ih]

/-! ## Counting owners -/

section

variable {L P : Type*} [Fintype L] [DecidableEq P]

open Classical in
/-- The number of places that hold `p`. -/
noncomputable def owners (F : Set P) (m : L → P) (log : List (Entry L P)) (p : P) : ℕ :=
  (if p ∈ F then 1 else 0) + (Finset.univ.filter (m · = p)).card + log.countP (·.old = p)

theorem owners_congr {F F' : Set P} {p : P} (h : p ∈ F ↔ p ∈ F') (m : L → P)
    (log : List (Entry L P)) : owners F m log p = owners F' m log p := by
  unfold owners
  by_cases hp : p ∈ F
  · rw [if_pos hp, if_pos (h.1 hp)]
  · rw [if_neg hp, if_neg (mt h.2 hp)]

theorem card_pos_of_eq {m : L → P} {l : L} {p : P} (h : m l = p) :
    0 < (Finset.univ.filter (m · = p)).card :=
  Finset.card_pos.2 ⟨l, Finset.mem_filter.2 ⟨Finset.mem_univ _, h⟩⟩

omit [Fintype L] in
theorem countP_pos_of_mem {log : List (Entry L P)} {e : Entry L P} {p : P} (he : e ∈ log)
    (h : e.old = p) : 0 < log.countP (·.old = p) :=
  List.countP_pos_iff.2 ⟨e, he, decide_eq_true h⟩

/-! A value with exactly one owner. -/

variable {F : Set P} {m : L → P} {log : List (Entry L P)} {p : P}

theorem owners_placed (h : owners F m log p = 1) :
    p ∈ F ∨ (∃ l, m l = p) ∨ ∃ e ∈ log, e.old = p := by
  by_contra hn
  obtain ⟨hF, hn⟩ := not_or.1 hn
  obtain ⟨hm, hl⟩ := not_or.1 hn
  have hcard : (Finset.univ.filter (m · = p)).card = 0 :=
    Finset.card_eq_zero.2 (Finset.filter_eq_empty_iff.2 fun l _ hl => hm ⟨l, hl⟩)
  have hcount : log.countP (·.old = p) = 0 :=
    List.countP_eq_zero.2 fun e he ho => hl ⟨e, he, of_decide_eq_true ho⟩
  rw [owners, if_neg hF, hcard, hcount] at h
  omega

theorem not_free_of_loc (h : owners F m log p = 1) {l : L} (hl : m l = p) : p ∉ F := by
  intro hF
  have hpos := card_pos_of_eq hl
  rw [owners, if_pos hF] at h
  omega

theorem not_free_of_old (h : owners F m log p = 1) {e : Entry L P} (he : e ∈ log)
    (ho : e.old = p) : p ∉ F := by
  intro hF
  have hpos := countP_pos_of_mem he ho
  rw [owners, if_pos hF] at h
  omega

theorem old_ne_loc (h : owners F m log p = 1) {l : L} (hl : m l = p) {e : Entry L P}
    (he : e ∈ log) : e.old ≠ p := by
  intro ho
  have h1 := card_pos_of_eq hl
  have h2 := countP_pos_of_mem he ho
  rw [owners] at h
  omega

theorem loc_unique (h : owners F m log p = 1) {l l' : L} (hl : m l = p) (hl' : m l' = p) :
    l = l' := by
  rw [owners] at h
  have hcard : (Finset.univ.filter (m · = p)).card ≤ 1 := by omega
  exact Finset.card_le_one.1 hcard l (Finset.mem_filter.2 ⟨Finset.mem_univ _, hl⟩) l'
    (Finset.mem_filter.2 ⟨Finset.mem_univ _, hl'⟩)

end

section

variable [Fintype L] [DecidableEq P]

/-- A value brought by a logged assignment is not free. -/
theorem Chain.new_not_free {F : Set P} {m : L → P} {log : List (Entry L P)} (hc : Chain m log)
    {e : Entry L P} (he : e ∈ log) (h : owners F m log e.new = 1) : e.new ∉ F := by
  rcases hc.new_placed he with ⟨l, hl⟩ | ⟨e', he', ho⟩
  · exact not_free_of_loc h hl
  · exact not_free_of_old h he' ho

/-- An assignment moves one location from the fibre of its old value to that of
    its new one. -/
theorem card_update (m : L → P) (l : L) (q p : P) :
    (Finset.univ.filter (Function.update m l q · = p)).card + (if m l = p then 1 else 0) =
      (Finset.univ.filter (m · = p)).card + (if q = p then 1 else 0) := by
  simp only [Finset.card_filter]
  rw [← Finset.add_sum_erase _ _ (Finset.mem_univ l), ← Finset.add_sum_erase _ _ (Finset.mem_univ l)]
  have hrest : ∑ x ∈ Finset.univ.erase l, (if Function.update m l q x = p then 1 else 0) =
      ∑ x ∈ Finset.univ.erase l, (if m x = p then 1 else 0) :=
    Finset.sum_congr rfl fun x hx => by
      rw [Function.update_of_ne (Finset.ne_of_mem_erase hx)]
  rw [hrest, Function.update_self]
  omega

/-! ## What the operations do to the owners -/

/-- Assigning a free value. -/
theorem owners_assign_one {F : Set P} {q : P} (hq : q ∈ F) (m : L → P) (l : L)
    (log : List (Entry L P)) (p : P) :
    owners (F \ {q}) (Function.update m l q) (⟨l, q, m l⟩ :: log) p = owners F m log p := by
  have hcard := card_update m l q p
  by_cases hp : q = p
  · subst hp
    have hF : q ∉ F \ {q} := fun h => h.2 rfl
    rw [if_pos rfl] at hcard
    simp only [owners, List.countP_cons, decide_eq_true_eq, if_neg hF, if_pos hq]
    omega
  · have hF : p ∈ F \ {q} ↔ p ∈ F := and_iff_left (Ne.symm hp)
    rw [if_neg hp] at hcard
    rw [owners_congr hF]
    simp only [owners, List.countP_cons, decide_eq_true_eq]
    omega

/-- Assigning several free values. -/
theorem owners_assign {F : Set P} {rs : List (L × P)} (hnd : (rs.map Prod.snd).Nodup)
    (hF : ∀ r ∈ rs, r.2 ∈ F) (m : L → P) (log : List (Entry L P)) (p : P) :
    owners (F \ {q | q ∈ rs.map Prod.snd}) (assign m rs) (entries m rs ++ log) p =
      owners F m log p := by
  induction rs generalizing F m log with
  | nil => simp [assign, entries]
  | cons r rs ih =>
    rw [List.map_cons, List.nodup_cons] at hnd
    have hrest : ∀ r' ∈ rs, r'.2 ∈ F \ {r.2} := by
      intro r' hr'
      refine ⟨hF r' (List.mem_cons_of_mem _ hr'), fun he => hnd.1 ?_⟩
      rw [← Set.mem_singleton_iff.1 he]
      exact List.mem_map_of_mem hr'
    have hset : p ∈ F \ {q | q ∈ (r :: rs).map Prod.snd} ↔
        p ∈ (F \ {r.2}) \ {q | q ∈ rs.map Prod.snd} := by
      simp only [Set.mem_sdiff, Set.mem_ofPred_eq, List.map_cons, List.mem_cons,
        Set.mem_singleton_iff, not_or, and_assoc]
    rw [← owners_assign_one (hF r List.mem_cons_self) m r.1 log p, ← ih hnd.2 hrest,
      owners_congr hset, assign, entries, List.append_assoc, List.singleton_append]

/-- Undoing the youngest assignments frees the values they had brought. -/
theorem owners_undo {F : Set P} {m : L → P} {young log : List (Entry L P)} {p : P}
    (hc : Chain m (young ++ log)) (h : owners F m (young ++ log) p = 1) :
    owners (F ∪ {q | q ∈ young.map Entry.new}) (undo m young) log p = 1 := by
  induction young generalizing F m with
  | nil => simpa using h
  | cons e young ih =>
    obtain ⟨hnew, hc⟩ := hc
    have hone : owners (F ∪ {e.new}) (Function.update m e.dst e.old) (young ++ log) p = 1 := by
      have hcard := card_update m e.dst e.old p
      rw [hnew] at hcard
      have hfree : e.new = p → p ∉ F := fun hp => not_free_of_loc h (hnew.trans hp)
      simp only [owners, List.cons_append, List.countP_cons, decide_eq_true_eq] at h ⊢
      by_cases hp : e.new = p
      · have hF : p ∈ F ∪ {e.new} := Set.mem_union_right _ (Set.mem_singleton_iff.2 hp.symm)
        rw [if_pos hF]
        rw [if_neg (hfree hp)] at h
        rw [if_pos hp] at hcard
        omega
      · have hF : p ∈ F ∪ {e.new} ↔ p ∈ F := or_iff_left (Ne.symm hp)
        rw [if_neg hp] at hcard
        by_cases hpF : p ∈ F
        · rw [if_pos hpF] at h
          rw [if_pos (hF.2 hpF)]
          omega
        · rw [if_neg hpF] at h
          rw [if_neg (mt hF.1 hpF)]
          omega
    have hset : p ∈ F ∪ {q | q ∈ (e :: young).map Entry.new} ↔
        p ∈ (F ∪ {e.new}) ∪ {q | q ∈ young.map Entry.new} := by
      simp only [Set.mem_union, Set.mem_ofPred_eq, List.map_cons, List.mem_cons,
        Set.mem_singleton_iff, or_assoc]
    rw [undo_cons, owners_congr hset]
    exact ih hc hone

omit [DecidableEq L] in
/-- Retiring the oldest assignments frees the values they had replaced. -/
theorem owners_retire {F : Set P} {m : L → P} {log old : List (Entry L P)} {p : P}
    (h : owners F m (log ++ old) p = 1) :
    owners (F ∪ {q | q ∈ old.map Entry.old}) m log p = 1 := by
  by_cases hp : p ∈ old.map Entry.old
  · obtain ⟨e, he, ho⟩ := List.mem_map.1 hp
    have hF := not_free_of_old h (List.mem_append_right log he) ho
    have hpos := countP_pos_of_mem he ho
    simp only [owners, List.countP_append, if_neg hF] at h
    have hfree : p ∈ F ∪ {q | q ∈ old.map Entry.old} := Set.mem_union_right _ hp
    simp only [owners, if_pos hfree]
    omega
  · have hcount : old.countP (·.old = p) = 0 :=
      List.countP_eq_zero.2 fun e he ho => hp (List.mem_map.2 ⟨e, he, of_decide_eq_true ho⟩)
    have hsame : p ∈ F ∪ {q | q ∈ old.map Entry.old} ↔ p ∈ F := or_iff_left hp
    rw [owners_congr hsame]
    simp only [owners, List.countP_append, hcount] at h ⊢
    omega

/-! ## One place for every value -/

/-- Every value but the null value `z` has exactly one place, and the log is
    that of assignments of distinct free values. -/
structure Exact (z : P) (F : Set P) (m : L → P) (log : List (Entry L P)) : Prop where
  owned : ∀ p, p ≠ z → owners F m log p = 1
  chain : Chain m log
  fresh : (log.map Entry.new).Nodup
  ne : ∀ e ∈ log, e.new ≠ z
  null : z ∉ F

namespace Exact

variable {z : P} {F F' : Set P} {m : L → P} {log old young : List (Entry L P)}

theorem congr (h : Exact z F m log) (hF : ∀ p, p ∈ F' ↔ p ∈ F) : Exact z F' m log where
  owned p hp := (owners_congr (hF p) m log).trans (h.owned p hp)
  chain := h.chain
  fresh := h.fresh
  ne := h.ne
  null := mt (hF z).1 h.null

theorem undo (h : Exact z F m (young ++ log)) :
    Exact z (F ∪ {q | q ∈ young.map Entry.new}) (undo m young) log where
  owned p hp := owners_undo h.chain (h.owned p hp)
  chain := (chain_append.1 h.chain).2
  fresh := by
    have hf := h.fresh
    rw [List.map_append] at hf
    exact hf.of_append_right
  ne e he := h.ne e (List.mem_append_right _ he)
  null := by
    rintro (hz | hz)
    · exact h.null hz
    · obtain ⟨e, he, hez⟩ := List.mem_map.1 hz
      exact h.ne e (List.mem_append_left _ he) hez

theorem assign (h : Exact z F m log) {rs : List (L × P)} (hnd : (rs.map Prod.snd).Nodup)
    (hF : ∀ r ∈ rs, r.2 ∈ F) :
    Exact z (F \ {q | q ∈ rs.map Prod.snd}) (assign m rs) (entries m rs ++ log) where
  owned p hp := (owners_assign hnd hF m log p).trans (h.owned p hp)
  chain := by
    rw [chain_append, undo_assign]
    exact ⟨chain_assign m rs, h.chain⟩
  fresh := by
    rw [List.map_append, entries_new, List.nodup_append]
    refine ⟨List.nodup_reverse.2 hnd, h.fresh, fun q hq q' hq' he => ?_⟩
    subst he
    obtain ⟨r, hr, rfl⟩ := List.mem_map.1 (List.mem_reverse.1 hq)
    obtain ⟨e, he, heq⟩ := List.mem_map.1 hq'
    have hnot := h.chain.new_not_free he (h.owned _ (h.ne e he))
    rw [heq] at hnot
    exact hnot (hF r hr)
  ne e he hz := by
    rcases List.mem_append.1 he with he | he
    · have hmem := List.mem_map_of_mem (f := Entry.new) he
      rw [entries_new, List.mem_reverse, hz] at hmem
      obtain ⟨r, hr, hrz⟩ := List.mem_map.1 hmem
      exact h.null (hrz ▸ hF r hr)
    · exact h.ne e he hz
  null hz := h.null hz.1

theorem retire (h : Exact z F m (log ++ old)) :
    Exact z ((F ∪ {q | q ∈ old.map Entry.old}) \ {z}) m log where
  owned p hp := by
    have hset : p ∈ (F ∪ {q | q ∈ old.map Entry.old}) \ {z} ↔
        p ∈ F ∪ {q | q ∈ old.map Entry.old} := and_iff_left hp
    rw [owners_congr hset]
    exact owners_retire (h.owned p hp)
  chain := (chain_append.1 h.chain).1
  fresh := by
    have hf := h.fresh
    rw [List.map_append] at hf
    exact hf.of_append_left
  ne e he := h.ne e (List.mem_append_left _ he)
  null hz := hz.2 rfl

/-- What an undo frees was not free. -/
theorem new_not_free (h : Exact z F m log) {e : Entry L P} (he : e ∈ log) : e.new ∉ F :=
  h.chain.new_not_free he (h.owned _ (h.ne e he))

/-- What retiring frees was not free. -/
theorem old_not_free (h : Exact z F m log) {e : Entry L P} (he : e ∈ log) (hz : e.old ≠ z) :
    e.old ∉ F :=
  not_free_of_old (h.owned _ hz) he rfl

end Exact

end

end UndoLog
