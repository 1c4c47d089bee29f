/-
  Jobs that are issued one after the other, are on their way, and are delivered
  with a result or killed.

  * `Book`: the jobs, in lists; `Book.total`: how many of some kind are on their
    way or delivered;
  * `Book.Counted`: every job is there at most once, and once if it was not
    killed; `Counted.step`: a step keeps it that moves jobs without losing or
    copying one;
  * `Book.Exact`: what follows for a single job.
-/
import Mathlib.Data.List.Nodup

namespace Ledger

variable {α β : Type*}

/-- The jobs that were issued, oldest first; those on their way; the numbers of
    those that were killed; the results. -/
structure Book (α β : Type*) where
  issued : List α
  flight : List α
  killed : List ℕ
  results : List (α × β)

namespace Book

/-- How many jobs of some kind are delivered or on their way. -/
def total (b : Book α β) (p : α → Bool) : ℕ :=
  (b.results.countP fun r => p r.1) + b.flight.countP p

variable (number : α → ℕ)

/-- The job has this number. -/
def numbered (n : ℕ) (x : α) : Bool := number x = n

/-- Every job that was issued is there, once, unless it was killed. -/
structure Counted (b : Book α β) : Prop where
  order : b.issued.map number = List.range b.issued.length
  most : ∀ n, b.total (numbered number n) ≤ b.issued.countP (numbered number n)
  least : ∀ x ∈ b.issued, number x ∉ b.killed → 1 ≤ b.total (numbered number (number x))
  /-- and no other one -/
  only : ∀ p, (∀ x ∈ b.issued, p x = false) → b.total p = 0

/-- Every job that was issued and was not killed is on its way or has been
    delivered, once, and every result is that of a job that was issued. -/
structure Exact (value : α → β) (b : Book α β) : Prop where
  once : ∀ x ∈ b.issued, number x ∉ b.killed →
    b.results.countP (fun r => number r.1 = number x) +
      b.flight.countP (fun y => number y = number x) = 1
  most : ∀ n, b.results.countP (fun r => number r.1 = n) +
    b.flight.countP (fun y => number y = n) ≤ 1
  own : ∀ r ∈ b.results, r.1 ∈ b.issued ∧ r.2 = value r.1

variable {number} {b b' : Book α β}

theorem counted_empty (hi : b.issued = []) (h : ∀ p, b.total p = 0) : b.Counted number := by
  refine ⟨?_, fun n => ?_, fun x hx => ?_, fun p _ => h p⟩
  · rw [hi]
    rfl
  · rw [h]
    exact Nat.zero_le _
  · rw [hi] at hx
    cases hx

/-- What a step does: it may issue one job, makes no job up, and loses none that
    it does not kill. -/
structure Step (number : α → ℕ) (new : Option α) (b b' : Book α β) : Prop where
  issued : b'.issued = b.issued ++ new.toList
  fresh : ∀ x ∈ new, number x = b.issued.length
  killed : b.killed ⊆ b'.killed
  le : ∀ p, b'.total p ≤ b.total p + (new.any p).toNat
  eq : ∀ n ∉ b'.killed, b'.total (numbered number n) =
    b.total (numbered number n) + (new.any (numbered number n)).toNat

theorem countP_issued {new : Option α} (hs : b.Step number new b') (p : α → Bool) :
    b'.issued.countP p = b.issued.countP p + (new.any p).toNat := by
  rw [hs.issued, List.countP_append]
  cases new with
  | none => rfl
  | some x => cases hx : p x <;> simp [hx]

theorem Counted.step {new : Option α} (h : b.Counted number) (hs : b.Step number new b') :
    b'.Counted number := by
  refine ⟨?_, fun n => ?_, fun x hx hk => ?_, fun p hp => ?_⟩
  · rw [hs.issued, List.map_append, h.order]
    cases hn : new with
    | none => simp
    | some x =>
      rw [Option.toList_some, List.map_singleton, List.length_append, List.length_singleton,
        List.range_succ, hs.fresh x hn]
  · have hle := hs.le (numbered number n)
    have hmost := h.most n
    rw [countP_issued hs]
    omega
  · rw [hs.eq _ hk]
    rw [hs.issued] at hx
    rcases List.mem_append.1 hx with hx | hx
    · exact Nat.le_add_right_of_le (h.least x hx fun hin => hk (hs.killed hin))
    · have hone : new.any (numbered number (number x)) = true :=
        (Option.any_eq_true _ _).2 ⟨x, Option.mem_toList.1 hx, decide_eq_true rfl⟩
      rw [hone]
      exact Nat.le_add_left 1 _
  · have hold := h.only p fun x hx => hp x (hs.issued ▸ List.mem_append_left _ hx)
    have hnew : new.any p = false := by
      rw [Bool.eq_false_iff]
      intro hany
      obtain ⟨x, hx, hpx⟩ := (Option.any_eq_true _ _).1 hany
      rw [hp x (hs.issued ▸ List.mem_append_right _ (Option.mem_toList.2 hx))] at hpx
      cases hpx
    have hle := hs.le p
    rw [hold, hnew] at hle
    exact Nat.le_zero.1 hle

theorem countP_issued_le (h : b.Counted number) (n : ℕ) :
    b.issued.countP (numbered number n) ≤ 1 := by
  have hcount : b.issued.countP (numbered number n) = (b.issued.map number).count n := by
    rw [List.count, List.countP_map]
    refine List.countP_congr fun x _ => ?_
    simp [numbered]
  rw [hcount, h.order]
  exact List.nodup_iff_count_le_one.1 List.nodup_range n

/-- **Each job once.** -/
theorem Counted.exact (h : b.Counted number) {value : α → β}
    (hown : ∀ r ∈ b.results, r.2 = value r.1) : b.Exact number value := by
  have hmost : ∀ n, b.total (numbered number n) ≤ 1 := fun n =>
    Nat.le_trans (h.most n) (countP_issued_le h n)
  refine ⟨fun x hx hk => Nat.le_antisymm (hmost _) (h.least x hx hk), hmost,
    fun r hr => ⟨?_, hown r hr⟩⟩
  classical
  by_contra hno
  have hzero := h.only (fun x => decide (x ∉ b.issued)) fun x hx =>
    decide_eq_false (not_not_intro hx)
  have hpos : 0 < b.results.countP fun r => decide (r.1 ∉ b.issued) :=
    List.countP_pos_iff.2 ⟨r, hr, decide_eq_true hno⟩
  rw [total] at hzero
  omega

end Book

end Ledger
