/-
  A queue whose entries may be changed, or taken away, while they wait: in each
  step an entry may come in, all that wait are looked at, and the first of those
  that are left may be delivered.

  * `Fifo`: what waits, and the history; `step`: one step;
  * `Fifo.Law`: what was accepted, less what was dropped, is what was delivered
    followed by what waits, each once and in order;
  * `law_step`: a step keeps it, if new entries have new numbers.
-/
import Mathlib.Data.List.Nodup

namespace Survivors

variable {α : Type*} (number : α → ℕ)

/-- The entries that wait, oldest first; the entries as they came in, and as they
    were delivered; the numbers of those that were dropped. -/
structure Fifo (α : Type*) where
  waiting : List α
  accepted : List α
  delivered : List α
  dropped : List ℕ

namespace Fifo

/-- An empty queue. -/
def empty : Fifo α := ⟨[], [], [], []⟩

/-- What is looked at in a step. -/
def offered (s : Fifo α) (new : Option α) : List α := s.waiting ++ new.toList

/-- What is left of it. -/
def left (s : Fifo α) (upd : α → Option α) (new : Option α) : List α :=
  (s.offered new).filterMap upd

/-- One step: `upd` drops an entry or changes it. -/
def step (s : Fifo α) (upd : α → Option α) (new : Option α) (deliver : Bool) : Fifo α where
  waiting := if deliver then (s.left upd new).tail else s.left upd new
  accepted := s.accepted ++ new.toList
  delivered := s.delivered ++ if deliver then (s.left upd new).head?.toList else []
  dropped := s.dropped ++ ((s.offered new).filter fun x => (upd x).isNone).map number

/-- The law of the queue. -/
structure Law (s : Fifo α) : Prop where
  order : (s.accepted.map number).filter (· ∉ s.dropped) = (s.delivered ++ s.waiting).map number
  nodup : (s.accepted.map number).Nodup
  known : s.dropped ⊆ s.accepted.map number

end Fifo

variable {number}

theorem law_empty : (Fifo.empty : Fifo α).Law number :=
  ⟨rfl, List.nodup_nil, List.nil_subset _⟩

/-- What is left keeps its numbers. -/
theorem map_filterMap {upd : α → Option α} (hupd : ∀ x y, upd x = some y → number y = number x)
    (xs : List α) :
    (xs.filterMap upd).map number = (xs.filter fun x => (upd x).isSome).map number := by
  induction xs with
  | nil => rfl
  | cons x xs ih =>
    cases hx : upd x with
    | none => rw [List.filterMap_cons_none hx, List.filter_cons_of_neg (by simp [hx]), ih]
    | some y =>
      rw [List.filterMap_cons_some hx, List.filter_cons_of_pos (by simp [hx]), List.map_cons,
        List.map_cons, ih, hupd x y hx]

/-- Of entries with different numbers, those that are left have the numbers that are
    not dropped. -/
theorem filter_not_dropped {upd : α → Option α} {xs : List α} (hnd : (xs.map number).Nodup) :
    (xs.map number).filter (· ∉ (xs.filter fun x => (upd x).isNone).map number) =
      (xs.filter fun x => (upd x).isSome).map number := by
  have hmem : ∀ x ∈ xs, number x ∈ (xs.filter fun x => (upd x).isNone).map number ↔
      (upd x).isNone = true := by
    intro x hx
    constructor
    · intro hin
      obtain ⟨y, hy, he⟩ := List.mem_map.1 hin
      obtain ⟨hy, hnone⟩ := List.mem_filter.1 hy
      rwa [List.inj_on_of_nodup_map hnd hy hx he] at hnone
    · exact fun hnone => List.mem_map.2 ⟨x, List.mem_filter.2 ⟨hx, hnone⟩, rfl⟩
  rw [List.filter_map]
  congr 1
  refine List.filter_congr fun x hx => ?_
  rw [Function.comp_apply, Bool.eq_iff_iff, decide_eq_true_eq, hmem x hx]
  cases upd x <;> simp

theorem law_step {s : Fifo α} (h : s.Law number) {upd : α → Option α}
    (hupd : ∀ x y, upd x = some y → number y = number x) {new : Option α}
    (hnew : ∀ x, new = some x → number x ∉ s.accepted.map number) (deliver : Bool) :
    (s.step number upd new deliver).Law number := by
  have hadd : ∀ n ∈ new.toList.map number, n ∉ s.accepted.map number := by
    intro n hn
    obtain ⟨x, hx, rfl⟩ := List.mem_map.1 hn
    exact hnew x (Option.mem_toList.1 hx)
  have hnodup : ((s.step number upd new deliver).accepted.map number).Nodup := by
    rw [Fifo.step, List.map_append]
    refine List.Nodup.append h.nodup ?_ fun n hn hn' => hadd n hn' hn
    cases new <;> simp
  -- what waits or comes in, before anything is dropped
  have hbefore : ((s.step number upd new deliver).accepted.map number).filter (· ∉ s.dropped) =
      s.delivered.map number ++ (s.offered new).map number := by
    have hkeep : (new.toList.map number).filter (· ∉ s.dropped) = new.toList.map number :=
      List.filter_eq_self.2 fun n hn => by
        simpa using fun hd => hadd n hn (h.known hd)
    rw [Fifo.step, List.map_append, List.filter_append, h.order, hkeep, Fifo.offered,
      List.map_append, List.map_append, List.append_assoc]
  have hnd : (s.delivered.map number ++ (s.offered new).map number).Nodup :=
    hbefore ▸ hnodup.filter _
  obtain ⟨-, hoffered, hdisj⟩ := List.nodup_append'.1 hnd
  refine ⟨?_, hnodup, ?_⟩
  · have hdropped : (s.step number upd new deliver).dropped =
      s.dropped ++ ((s.offered new).filter fun x => (upd x).isNone).map number := rfl
    have hsplit : ∀ ns : List ℕ, ns.filter (· ∉ (s.step number upd new deliver).dropped) =
        (ns.filter (· ∉ s.dropped)).filter
          (· ∉ ((s.offered new).filter fun x => (upd x).isNone).map number) := by
      intro ns
      rw [List.filter_filter]
      refine List.filter_congr fun n _ => ?_
      rw [hdropped, ← Bool.decide_and, decide_eq_decide, List.mem_append, not_or, and_comm]
    have hpast : (s.delivered.map number).filter
        (· ∉ ((s.offered new).filter fun x => (upd x).isNone).map number) =
          s.delivered.map number :=
      List.filter_eq_self.2 fun n hn => by
        refine decide_eq_true fun hk => hdisj hn ?_
        obtain ⟨x, hx, rfl⟩ := List.mem_map.1 hk
        exact List.mem_map_of_mem (List.mem_filter.1 hx).1
    have hleft : ((s.step number upd new deliver).delivered ++
        (s.step number upd new deliver).waiting) = s.delivered ++ s.left upd new := by
      rw [Fifo.step]
      cases deliver with
      | false => simp
      | true => cases hl : s.left upd new <;> simp
    rw [hsplit, hbefore, List.filter_append, hpast, filter_not_dropped hoffered, hleft,
      List.map_append, Fifo.left, map_filterMap hupd]
  · refine List.append_subset.2 ⟨fun n hn => ?_, fun n hn => ?_⟩
    · rw [Fifo.step, List.map_append]
      exact List.mem_append_left _ (h.known hn)
    · obtain ⟨x, hx, rfl⟩ := List.mem_map.1 hn
      have hin : number x ∈ ((s.step number upd new deliver).accepted.map number).filter
          (· ∉ s.dropped) := by
        rw [hbefore]
        exact List.mem_append_right _ (List.mem_map_of_mem (List.mem_filter.1 hx).1)
      exact (List.mem_filter.1 hin).1

end Survivors
