/-
  The reorder buffer commits in program order: no entry is overwritten, the
  uops that commit are a sublist of those that were enqueued, each commits only
  when it is done and nothing older stays behind, and each uop leaves by
  exactly one of commit, kill and rollback.

  * `Sys.Inv`: where the valid entries lie in the ring, also in the cycle
    between a mispredict and the reset of the tail, and that their order in the
    ring is program order;
  * `inv_step`: one cycle keeps it;
  * `commit_in_order`: the result.
-/
import Mathlib.Order.WellFounded
import BoomStop.Rob

namespace BoomStop.Reorder

open Sync RingOrder

variable {N W T : ℕ}

namespace Sys

/-- How far a row is from the head. -/
def pos (s : Sys N W T) (r : Fin N) : ℕ := dist s.rob.rob_head r

/-- The number of rows between head and tail. -/
def len (s : Sys N W T) : ℕ :=
  if s.rob.rob_tail = s.rob.rob_head then if s.rob.maybe_full then N else 0
  else s.pos s.rob.rob_tail

/-- The slots of the tail row that may be valid. -/
def tailSlots (s : Sys N W T) : ℕ := if s.rob.rob_state = .s_rollback then W else s.disp_lsb

/-- The entry is valid. -/
def Val (s : Sys N W T) (a : RobIdx N W) : Prop := (s.rob.bank a.1 a.2).val = true

/-- The order of the entries in the ring. -/
def Before (s : Sys N W T) (a b : RobIdx N W) : Prop := LexLt (s.pos a.1) a.2 (s.pos b.1) b.2

/-- The item of an entry. -/
def item (s : Sys N W T) (a : RobIdx N W) : Item W :=
  ⟨s.born a.1 a.2, a.2, (s.rob.bank a.1 a.2).uop.toMicroOp⟩

/-- The invariant. -/
structure Inv (s : Sys N W T) : Prop where
  /-- valid entries lie between head and tail -/
  place : s.pending = none → ∀ a, s.Val a →
    s.pos a.1 < s.len ∨ a.1 = s.rob.rob_tail ∧ a.2.val < s.tailSlots
  /-- or, before `b2`, up to the mispredicted branch -/
  window : ∀ b, s.pending = some b → s.Val b ∧ (∀ a, s.Val a → a = b ∨ s.Before a b) ∧
    s.rob.maybe_full = true ∧ s.rob.rob_state ≠ .s_rollback
  fresh : s.rob.r_partial_row = false → s.disp_lsb = 0
  /-- an exception keeps the head row in place until it is rolled back -/
  thrown : s.rob.exc_d1 = true ∨ s.rob.exc_d2 = true ∨ s.rob.rob_state = .s_rollback →
    (∃ w, s.Val (s.rob.rob_head, w)) ∨ s.rob.rob_state = .s_rollback ∧
      s.rob.rob_tail = s.rob.rob_head ∧ s.rob.maybe_full = false
  rolling : s.rob.rob_state = .s_rollback → s.rob.exc_d1 = false
  /-- the ring is in program order -/
  order : ∀ a b, s.Val a → s.Val b → s.Before a b → s.Older a b
  born : ∀ a, s.Val a → s.born a.1 a.2 < s.now
  stored : ∀ a, s.Val a → s.item a ∈ s.enqueued
  enqueued : s.enqueued.Pairwise fun x y => LexLt x.cycle x.slot y.cycle y.slot
  past : ∀ x ∈ s.enqueued, x.cycle < s.now
  committed : s.committed.Pairwise fun x y => LexLt x.cycle x.slot y.cycle y.slot
  known : s.committed ⊆ s.enqueued
  /-- what has committed is older than what is left -/
  left : ∀ x ∈ s.committed, ∀ a, s.Val a → LexLt x.cycle x.slot (s.born a.1 a.2) a.2

end Sys

section

variable {s : Sys N W T} {i : SysIn N W T}

theorem inv_reset (h : Sys.Reset s) : s.Inv := by
  have hval : ∀ a, ¬ s.Val a := fun a ha => absurd (ha.symm.trans (h.val a.1 a.2)) (by simp)
  refine ⟨fun _ a ha => absurd ha (hval a), fun b hb => ?_, fun _ => h.disp_lsb, fun ht => ?_,
    fun _ => h.exc_d1, fun a _ ha => absurd ha (hval a), fun a ha => absurd ha (hval a),
    fun a ha => absurd ha (hval a), ?_, ?_, ?_, ?_, fun _ _ a ha => absurd ha (hval a)⟩
  · rw [h.pending] at hb
    exact absurd hb (by simp)
  · rw [h.exc_d1, h.exc_d2, h.state] at ht
    simp at ht
  · simp [h.enqueued]
  · simp [h.enqueued]
  · simp [h.committed]
  · simp [h.committed]

/-! ## Order -/

theorem before_asymm {a b : RobIdx N W} (hab : s.Before a b) : ¬ s.Before b a := by
  unfold Sys.Before LexLt at *
  omega

/-- Two entries are at different places. -/
theorem before_total {a b : RobIdx N W} (hne : a ≠ b) : s.Before a b ∨ s.Before b a := by
  by_contra h
  refine hne (Prod.ext (dist_inj (h := s.rob.rob_head) ?_) (Fin.ext ?_))
  · unfold Sys.Before LexLt Sys.pos at h
    omega
  · unfold Sys.Before LexLt at h
    omega

/-- Program order on valid entries is the order of the ring. -/
theorem before_of_older (h : s.Inv) {a b : RobIdx N W} (ha : s.Val a) (hb : s.Val b)
    (hab : s.Older a b) : s.Before a b := by
  have hne : a ≠ b := by
    rintro rfl
    unfold Sys.Older LexLt at hab
    omega
  rcases before_total (s := s) hne with hlt | hgt
  · exact hlt
  · have hba := h.order b a hb ha hgt
    unfold Sys.Older LexLt at hab hba
    omega

/-! ## Commit -/

theorem will_commit_iff {w : Fin W} : s.rob.will_commit i.toIn w = true ↔
    s.rob.can_commit i.toIn w = true ∧ s.rob.can_throw_exception w = false ∧
      s.rob.commit_blocked = false ∧ ∀ v < w, s.rob.holds_back i.toIn v = false := by
  simp [Rob.will_commit, Rob.block_commit]
  tauto

theorem val_of_commit {w : Fin W} (hc : s.rob.will_commit i.toIn w = true) :
    s.Val (s.rob.rob_head, w) ∧ (s.rob.bank s.rob.rob_head w).bsy = false ∧
      (s.rob.bank s.rob.rob_head w).exception = false := by
  obtain ⟨hcan, hthrow, -, -⟩ := will_commit_iff.1 hc
  simp only [Rob.can_commit, Bool.and_eq_true, Bool.not_eq_true'] at hcan
  simp only [Rob.can_throw_exception, hcan.1.1, Bool.true_and] at hthrow
  exact ⟨hcan.1.1, hcan.1.2, hthrow⟩

theorem not_rollback_of_commit {w : Fin W} (hc : s.rob.will_commit i.toIn w = true) :
    s.rob.rob_state ≠ .s_rollback ∧ s.rob.exc_d1 = false ∧ s.rob.exc_d2 = false := by
  obtain ⟨-, -, hb, -⟩ := will_commit_iff.1 hc
  simp only [Rob.commit_blocked, Bool.or_eq_false_iff] at hb
  refine ⟨fun hs => ?_, hb.1.2, hb.2⟩
  rw [hs] at hb
  exact absurd hb.1.1 (by simp)

/-- Whatever is valid before a slot that commits, commits with it. -/
theorem commit_of_lt {v w : Fin W} (hc : s.rob.will_commit i.toIn w = true)
    (hv : s.Val (s.rob.rob_head, v)) (hlt : v < w) : s.rob.will_commit i.toIn v = true := by
  obtain ⟨-, -, hb, hall⟩ := will_commit_iff.1 hc
  have hhead : s.rob.head_vals v = true := hv
  have hpass := hall v hlt
  simp only [Rob.holds_back, hhead, Bool.true_and, Bool.or_eq_false_iff, Bool.not_eq_false'] at hpass
  exact will_commit_iff.2 ⟨hpass.1, hpass.2, hb, fun u hu => hall u (hu.trans hlt)⟩

/-- Nothing older than an entry that commits is left behind. -/
theorem commit_of_older (h : s.Inv) {w : Fin W} {a : RobIdx N W}
    (hc : s.rob.will_commit i.toIn w = true) (ha : s.Val a) (hlt : s.Older a (s.rob.rob_head, w)) :
    a.1 = s.rob.rob_head ∧ s.rob.will_commit i.toIn a.2 = true := by
  have hb := before_of_older h ha (val_of_commit hc).1 hlt
  simp only [Sys.Before, Sys.pos, dist_self, LexLt] at hb
  have hzero : dist s.rob.rob_head a.1 = 0 ∧ a.2 < w := by omega
  have hrow := dist_eq_zero.1 hzero.1
  refine ⟨hrow, commit_of_lt hc ?_ hzero.2⟩
  rw [← hrow]
  exact ha

theorem exists_thrown (ht : s.rob.exception_thrown i.toIn = true) :
    ∃ w, s.Val (s.rob.rob_head, w) ∧ (s.rob.bank s.rob.rob_head w).exception = true ∧
      s.rob.commit_blocked = false ∧ s.rob.will_commit i.toIn w = false := by
  obtain ⟨w, -, hw⟩ := List.any_eq_true.1 ht
  simp only [Rob.throws, Bool.and_eq_true, Bool.not_eq_true', Rob.block_commit,
    Bool.or_eq_false_iff] at hw
  have hcan := hw.1.1
  simp only [Rob.can_throw_exception, Bool.and_eq_true] at hcan
  refine ⟨w, hcan.1, hcan.2, hw.1.2.2, ?_⟩
  simp [Rob.will_commit, hw.1.1]

theorem state_of_open (hb : s.rob.commit_blocked = false) : s.rob.rob_state ≠ .s_rollback ∧
    s.rob.exc_d1 = false ∧ s.rob.exc_d2 = false := by
  simp only [Rob.commit_blocked, Bool.or_eq_false_iff] at hb
  refine ⟨fun hs => ?_, hb.1.2, hb.2⟩
  rw [hs] at hb
  exact absurd hb.1.1 (by simp)

/-! ## What a cycle does to an entry -/

section Next

variable [NeZero N] [NeZero W]

theorem val_next {a : RobIdx N W} : (s.next i).Val a ↔
    (s.rob.enq_at i.toIn a.1 a.2 = true ∨ s.Val a) ∧ s.rob.rbk_at a.1 = false ∧
      s.rob.kill_at i.toIn a.1 a.2 = false ∧ s.rob.commit_at i.toIn a.1 a.2 = false := by
  simp [Sys.Val, Sys.next, Rob.next, Rob.bank_next]
  tauto

theorem born_next (r : Fin N) (w : Fin W) :
    (s.next i).born r w = if s.rob.enq_at i.toIn r w then s.now else s.born r w := rfl

end Next

theorem enq_of_at {r : Fin N} {w : Fin W} (he : s.rob.enq_at i.toIn r w = true) :
    i.enq_valids w = true ∧ r = s.rob.rob_tail ∧ Rob.enq i.toIn = true := by
  simp only [Rob.enq_at, Bool.and_eq_true, decide_eq_true_eq] at he
  exact ⟨he.1, he.2, List.any_eq_true.2 ⟨w, List.mem_finRange w, he.1⟩⟩

theorem ready_iff : s.rob.ready = true ↔
    s.rob.rob_state = .s_normal ∧ s.rob.full = false ∧ s.rob.r_xcpt_val = false := by
  simp [Rob.ready, and_assoc]

theorem pending_of_b2 (ok : s.Ok i) (h : i.b2 = none) : s.pending = none := by
  rw [← ok.b2, h]
  rfl

/-- The tail is as far from the head as the ring is long, unless it is full. -/
theorem pos_tail (h : s.rob.full = false) : s.pos s.rob.rob_tail = s.len := by
  unfold Sys.len
  by_cases ht : s.rob.rob_tail = s.rob.rob_head
  · simp only [Rob.full, ht, decide_true, Bool.true_and] at h
    simp [ht, h, Sys.pos]
  · rw [if_neg ht]

/-- **No entry is overwritten.** -/
theorem enq_free (h : s.Inv) (ok : s.Ok i) {a : RobIdx N W}
    (he : s.rob.enq_at i.toIn a.1 a.2 = true) : ¬ s.Val a := by
  obtain ⟨hw, hrow, henq⟩ := enq_of_at he
  obtain ⟨hready, hb2, -⟩ := ok.enq_ready henq
  obtain ⟨hstate, hfull, -⟩ := ready_iff.1 hready
  intro hv
  rcases h.place (pending_of_b2 ok hb2) a hv with hlt | ⟨-, hlt⟩
  · rw [hrow, pos_tail hfull] at hlt
    omega
  · have hslot := ok.enq_slot a.2 hw
    simp only [Sys.tailSlots, hstate, reduceCtorEq, if_false] at hlt
    omega

/-- Nothing is killed without a mispredict. -/
theorem kill_quiet (ok : s.Ok i) (h : i.oldest = none) (r : Fin N) (w : Fin W) :
    s.rob.kill_at i.toIn r w = false := by
  simp [Rob.kill_at, Issue.isKilledByBranch, ok.quiet h]

theorem mispredict_quiet (ok : s.Ok i) (h : i.oldest = none) : Rob.mispredict i.toIn = false := by
  simp [Rob.mispredict, ok.quiet h]

/-! ## The head -/

theorem finished_iff : s.rob.finished_committing_row i.toIn = true ↔
    (∃ w, s.rob.will_commit i.toIn w = true) ∧
    (∀ w, s.rob.will_commit i.toIn w = s.rob.head_vals w) ∧
    ¬ (s.rob.r_partial_row = true ∧ s.rob.rob_head = s.rob.rob_tail ∧ s.rob.maybe_full = false) := by
  simp only [Rob.finished_committing_row, Rob.commits, Bool.and_eq_true, List.any_eq_true,
    List.mem_finRange, true_and, List.all_eq_true, beq_iff_eq, forall_const, Bool.not_eq_true',
    Bool.and_eq_false_iff, decide_eq_false_iff_not, Bool.not_eq_false', and_assoc]
  refine and_congr_right fun _ => and_congr_right fun _ => ?_
  cases s.rob.r_partial_row <;> cases s.rob.maybe_full <;> simp

/-- The head leaves its row only behind if the tail is not in the same row, or
    the ring is full. -/
theorem not_alone_of_finished (h : s.Inv) (hp : s.pending = none)
    (hf : s.rob.finished_committing_row i.toIn = true) :
    s.rob.rob_tail ≠ s.rob.rob_head ∨ s.rob.maybe_full = true := by
  obtain ⟨⟨w, hc⟩, -, hpart⟩ := finished_iff.1 hf
  by_contra hno
  rw [not_or, not_not, Bool.not_eq_true] at hno
  obtain ⟨ht, hm⟩ := hno
  have hpr : s.rob.r_partial_row = false := by
    by_contra hpr
    exact hpart ⟨by simpa using hpr, ht.symm, hm⟩
  have hplace := h.place hp _ (val_of_commit hc).1
  simp only [Sys.len, ht, hm, if_true, Bool.false_eq_true, if_false, Nat.not_lt_zero, false_or,
    Sys.tailSlots, (not_rollback_of_commit hc).1, h.fresh hpr, and_false] at hplace

section Head

variable [NeZero N] [NeZero W]

theorem rob_head_next : (s.next i).rob.rob_head =
    if s.rob.finished_committing_row i.toIn then wrapInc s.rob.rob_head else s.rob.rob_head := rfl

/-- What is valid after a row is finished is not in that row. -/
theorem row_left (h : s.Inv) (ok : s.Ok i) (hf : s.rob.finished_committing_row i.toIn = true)
    {a : RobIdx N W} (ha : (s.next i).Val a) : a.1 ≠ s.rob.rob_head := by
  obtain ⟨hold, -, -, hnc⟩ := val_next.1 ha
  intro hrow
  rcases hold with he | hv
  · obtain ⟨-, ht, henq⟩ := enq_of_at he
    obtain ⟨hready, hb2, -⟩ := ok.enq_ready henq
    obtain ⟨-, hfull, -⟩ := ready_iff.1 hready
    rcases not_alone_of_finished h (pending_of_b2 ok hb2) hf with hne | hm
    · exact hne (ht.symm.trans hrow)
    · simp [Rob.full, ht.symm.trans hrow, hm] at hfull
  · have hc : s.rob.will_commit i.toIn a.2 = true := by
      rw [(finished_iff.1 hf).2.1]
      rw [Sys.Val, hrow] at hv
      exact hv
    simp [Rob.commit_at, hrow, hc] at hnc

/-- A valid entry comes nearer to the head by one if a row is finished. -/
theorem pos_next (h : s.Inv) (ok : s.Ok i) {a : RobIdx N W} (ha : (s.next i).Val a) :
    (s.next i).pos a.1 + (if s.rob.finished_committing_row i.toIn then 1 else 0) = s.pos a.1 := by
  unfold Sys.pos
  rw [rob_head_next]
  split_ifs with hf
  · exact dist_wrapInc_head (row_left h ok hf ha)
  · rfl

theorem before_next (h : s.Inv) (ok : s.Ok i) {a b : RobIdx N W} (ha : (s.next i).Val a)
    (hb : (s.next i).Val b) : (s.next i).Before a b ↔ s.Before a b := by
  have hpa := pos_next h ok ha
  have hpb := pos_next h ok hb
  unfold Sys.Before LexLt
  constructor <;> intro hlt <;> omega

end Head

/-! ## The tail -/

/-- The ring is as long as the tail is ahead of the head, if it is not full. -/
theorem len_of_not_full (hm : s.rob.rob_tail = s.rob.rob_head → s.rob.maybe_full = false) :
    s.len = s.pos s.rob.rob_tail := by
  unfold Sys.len Sys.pos
  split_ifs with ht hf
  · exact absurd ((hm ht).symm.trans hf) (by simp)
  · rw [ht, dist_self]
  · rfl

theorem not_enq_of_rollback (ok : s.Ok i) (hs : s.rob.rob_state = .s_rollback) :
    Rob.enq i.toIn = false := by
  by_contra henq
  have hready := (ready_iff.1 (ok.enq_ready (by simpa using henq)).1).1
  exact absurd (hs.symm.trans hready) (by simp)

theorem oldest_of_rollback (ok : s.Ok i) (hs : s.rob.rob_state = .s_rollback) : i.oldest = none := by
  by_contra hne
  exact (ok.drained (Option.isSome_iff_ne_none.2 hne)).1 hs

theorem not_finished_of_rollback (hs : s.rob.rob_state = .s_rollback) :
    s.rob.finished_committing_row i.toIn = false := by
  by_contra hf
  obtain ⟨⟨w, hc⟩, -⟩ := finished_iff.1 (by simpa using hf)
  exact (not_rollback_of_commit hc).1 hs

/-- A rollback goes on until the head row has been rolled back. -/
theorem not_empty_of_rollback (h : s.Inv) (hs : s.rob.rob_state = .s_rollback)
    (hr : s.rob.rollback_row = true) : s.rob.empty = false := by
  rcases h.thrown (.inr (.inr hs)) with ⟨w, hw⟩ | ⟨-, ht, hm⟩
  · simp only [Rob.empty, Bool.and_eq_false_iff, Bool.not_eq_false']
    exact .inr (List.any_eq_true.2 ⟨w, List.mem_finRange w, hw⟩)
  · simp [Rob.rollback_row, ht, hm] at hr

theorem b2_of_pending (ok : s.Ok i) {b : RobIdx N W} (hb : s.pending = some b) :
    ∃ taken, i.b2 = some (b, taken) := by
  have hmap := ok.b2
  rw [hb] at hmap
  obtain ⟨x, hx, rfl⟩ := Option.map_eq_some_iff.1 hmap
  exact ⟨x.2, hx⟩

theorem not_enq_of_pending (ok : s.Ok i) {b : RobIdx N W} (hb : s.pending = some b) :
    Rob.enq i.toIn = false := by
  by_contra henq
  have hnone := pending_of_b2 ok (ok.enq_ready (by simpa using henq)).2.1
  exact absurd (hb.symm.trans hnone) (by simp)

theorem rollback_row_eq_false (hs : s.rob.rob_state ≠ .s_rollback) : s.rob.rollback_row = false := by
  simp [Rob.rollback_row, hs]

theorem lt_usedSlots {w : Fin W} (hw : i.enq_valids w = true) : w.val < Sys.usedSlots i := by
  have hmem : ∀ ws : List (Fin W), w ∈ ws →
      w.val < ws.foldr (fun w n => if i.enq_valids w then max (w.val + 1) n else n) 0 := by
    intro ws hin
    induction ws with
    | nil => exact absurd hin List.not_mem_nil
    | cons v ws ih =>
      rw [List.foldr_cons]
      rcases List.mem_cons.1 hin with rfl | hin
      · rw [if_pos hw]
        omega
      · have := ih hin
        split_ifs <;> omega
  exact hmem _ (List.mem_finRange w)

section Tail

variable [NeZero N] [NeZero W]

theorem rob_tail_next : (s.next i).rob.rob_tail = s.rob.tail_next i.toIn := rfl

theorem maybe_full_next : (s.next i).rob.maybe_full =
    (!s.rob.rob_deq i.toIn && (s.rob.rob_enq i.toIn || s.rob.maybe_full) ||
      Rob.mispredict i.toIn) := rfl

theorem rob_state_next : (s.next i).rob.rob_state = s.rob.state_next i.toIn := rfl

theorem disp_lsb_next : (s.next i).disp_lsb =
    if Rob.enq i.toIn then if i.enq_partial_stall then Sys.usedSlots i else 0
    else if i.b2.isSome || s.rob.empty then 0
    else s.disp_lsb := rfl

/-- Old entries, when nothing is enqueued. -/
theorem val_of_quiet (henq : Rob.enq i.toIn = false) {a : RobIdx N W} (ha : (s.next i).Val a) :
    s.Val a := by
  rcases (val_next.1 ha).1 with he | hv
  · exact absurd ((enq_of_at he).2.2.symm.trans henq) (by simp)
  · exact hv

/-- A rollback takes the row of the tail away. -/
theorem place_rollback (h : s.Inv) (ok : s.Ok i) (hs : s.rob.rob_state = .s_rollback)
    {a : RobIdx N W} (ha : (s.next i).Val a) : (s.next i).pos a.1 < (s.next i).len ∨
      a.1 = (s.next i).rob.rob_tail ∧ a.2.val < (s.next i).tailSlots := by
  have hv := val_of_quiet (not_enq_of_rollback ok hs) ha
  have hpend : s.pending = none := by
    by_contra hne
    obtain ⟨b, hb⟩ := Option.ne_none_iff_exists'.1 hne
    exact (h.window b hb).2.2.2 hs
  have hplace := h.place hpend a hv
  have hfin := not_finished_of_rollback (i := i) hs
  have hhead : (s.next i).rob.rob_head = s.rob.rob_head := by
    rw [rob_head_next, hfin]
    rfl
  -- the row of the tail goes, unless the ring is full
  have hkeep : s.rob.full = false → a.1 ≠ s.rob.rob_tail := by
    intro hfull hrow
    have hrbk := (val_next.1 ha).2.1
    simp [Rob.rbk_at, Rob.rbk_row, Rob.com_idx, hs, hfull, hrow] at hrbk
  cases hr : s.rob.rollback_row with
  | false =>
    -- the last row: nothing is left
    have hlast : s.rob.rob_tail = s.rob.rob_head ∧ s.rob.maybe_full = false := by
      simpa [Rob.rollback_row, hs] using hr
    have hfull : s.rob.full = false := by simp [Rob.full, hlast.2]
    rcases hplace with hlt | ⟨hrow, -⟩
    · simp [Sys.len, hlast.1, hlast.2] at hlt
    · exact absurd hrow (hkeep hfull)
  | true =>
    have htail : (s.next i).rob.rob_tail = wrapDec s.rob.rob_tail := by
      rw [rob_tail_next, Rob.tail_next, if_pos hs, if_pos hr]
    have hstate : (s.next i).rob.rob_state = .s_rollback := by
      rw [rob_state_next, Rob.state_next, hs]
      simp [not_empty_of_rollback h hs hr]
    have hmf : (s.next i).rob.maybe_full = false := by
      rw [maybe_full_next, mispredict_quiet ok (oldest_of_rollback ok hs), Rob.rob_deq, hr]
      simp
    have hlen := len_of_not_full (s := s.next i) fun _ => hmf
    have hpos : (s.next i).pos a.1 < (s.next i).len + 1 := by
      rw [hlen]
      unfold Sys.pos
      rw [hhead, htail]
      by_cases ht : s.rob.rob_tail = s.rob.rob_head
      · rw [ht, dist_wrapDec_self]
        exact dist_lt
      · rw [dist_wrapDec ht]
        have hfull : s.rob.full = false := by simp [Rob.full, ht]
        rcases hplace with hlt | ⟨hrow, -⟩
        · rw [Sys.len, if_neg ht] at hlt
          exact hlt
        · exact absurd hrow (hkeep hfull)
    rcases Nat.lt_succ_iff_lt_or_eq.1 hpos with hlt | heq
    · exact .inl hlt
    · rw [hlen] at heq
      refine .inr ⟨dist_inj heq, ?_⟩
      rw [Sys.tailSlots, if_pos hstate]
      exact a.2.isLt

/-- When the tail goes behind a row, whatever is not behind that row lies in the
    ring. -/
theorem lt_len_of_advance (h : s.Inv) (ok : s.Ok i) {r : Fin N}
    (htail : (s.next i).rob.rob_tail = wrapInc r)
    (hm : s.rob.finished_committing_row i.toIn = false → (s.next i).rob.maybe_full = true)
    (hr : s.rob.finished_committing_row i.toIn = true → r ≠ s.rob.rob_head)
    {a : RobIdx N W} (ha : (s.next i).Val a) (hle : s.pos a.1 ≤ s.pos r) :
    (s.next i).pos a.1 < (s.next i).len := by
  have hp := pos_next h ok ha
  have hlt := dist_lt (h := s.rob.rob_head) (r := r)
  cases hf : s.rob.finished_committing_row i.toIn with
  | false =>
    have hhead : (s.next i).rob.rob_head = s.rob.rob_head := by
      rw [rob_head_next, hf]
      rfl
    rw [hf] at hp
    simp only [Bool.false_eq_true, if_false, Nat.add_zero] at hp
    rw [Sys.len, htail, hhead, hm hf, if_pos rfl]
    split_ifs with hwrap
    · exact dist_lt
    · have hne := mt wrapInc_eq_head.2 hwrap
      rw [hp]
      unfold Sys.pos at hle ⊢
      rw [hhead, dist_wrapInc (by omega)]
      omega
  | true =>
    have hhead : (s.next i).rob.rob_head = wrapInc s.rob.rob_head := by
      rw [rob_head_next, hf]
      rfl
    have hpos := dist_wrapInc_head (hr hf)
    have htpos : (s.next i).pos (s.next i).rob.rob_tail = s.pos r := by
      unfold Sys.pos
      rw [htail, hhead, dist_wrapInc (by omega), hpos]
    have hlen : (s.next i).len = s.pos r := by
      rw [Sys.len, if_neg, htpos]
      intro heq
      rw [heq] at htpos
      unfold Sys.pos at htpos
      rw [dist_self] at htpos
      exact hr hf (dist_eq_zero.1 htpos.symm)
    rw [hf] at hp
    simp only [if_true] at hp
    omega

/-- `b2` moves the tail behind the mispredicted branch. -/
theorem place_b2 (h : s.Inv) (ok : s.Ok i) {b : RobIdx N W} (hb : s.pending = some b)
    {a : RobIdx N W} (ha : (s.next i).Val a) : (s.next i).pos a.1 < (s.next i).len := by
  obtain ⟨-, hlast, hm, hs⟩ := h.window b hb
  obtain ⟨taken, hb2⟩ := b2_of_pending ok hb
  have hv := val_of_quiet (not_enq_of_pending ok hb) ha
  have hle : s.pos a.1 ≤ s.pos b.1 := by
    rcases hlast a hv with rfl | hlt
    · exact le_rfl
    · unfold Sys.Before LexLt at hlt
      omega
  refine lt_len_of_advance h ok (r := b.1) ?_ (fun hf => ?_) (fun hf hrow => ?_) ha hle
  · rw [rob_tail_next, Rob.tail_next, if_neg hs, hb2]
  · rw [maybe_full_next, Rob.rob_deq, hf, rollback_row_eq_false hs, hm]
    simp
  · have hz : s.pos b.1 = 0 := dist_eq_zero.2 hrow
    have ha0 : s.pos a.1 = 0 := by omega
    exact row_left h ok hf ha (dist_eq_zero.1 ha0)

/-- The slots of the tail row that may be valid after the cycle. -/
theorem lt_tailSlots_next {a : RobIdx N W} (hlt : a.2.val < (s.next i).disp_lsb) :
    a.2.val < (s.next i).tailSlots := by
  unfold Sys.tailSlots
  split_ifs
  · exact a.2.isLt
  · exact hlt

/-- Dispatch fills the row of the tail, and moves the tail on when it is done. -/
theorem place_enq (h : s.Inv) (ok : s.Ok i) (henq : Rob.enq i.toIn = true)
    {a : RobIdx N W} (ha : (s.next i).Val a) : (s.next i).pos a.1 < (s.next i).len ∨
      a.1 = (s.next i).rob.rob_tail ∧ a.2.val < (s.next i).tailSlots := by
  obtain ⟨hready, hb2, hold⟩ := ok.enq_ready henq
  obtain ⟨hs, hfull, -⟩ := ready_iff.1 hready
  have hpend := pending_of_b2 ok hb2
  have hs' : s.rob.rob_state ≠ .s_rollback := by
    rw [hs]
    simp
  have hD := pos_tail hfull
  have hold' : s.rob.enq_at i.toIn a.1 a.2 = true ∨ s.pos a.1 < s.pos s.rob.rob_tail ∨
      a.1 = s.rob.rob_tail ∧ a.2.val < s.disp_lsb := by
    rcases (val_next.1 ha).1 with he | hv
    · exact .inl he
    · rcases h.place hpend a hv with hlt | hrow
      · exact .inr (.inl (hD ▸ hlt))
      · rw [Sys.tailSlots, if_neg hs'] at hrow
        exact .inr (.inr hrow)
  have halone : s.rob.finished_committing_row i.toIn = true → s.rob.rob_tail ≠ s.rob.rob_head := by
    intro hf ht
    rcases not_alone_of_finished h hpend hf with hne | hm
    · exact hne ht
    · simp [Rob.full, ht, hm] at hfull
  have hmis := mispredict_quiet ok hold
  cases hpart : i.enq_partial_stall with
  | false =>
    have hre : s.rob.rob_enq i.toIn = true := by simp [Rob.rob_enq, hs, hb2, henq, hpart]
    refine .inl (lt_len_of_advance h ok ?_ (fun hf => ?_) halone ha ?_)
    · rw [rob_tail_next, Rob.tail_next, if_neg hs', hb2]
      exact if_pos hre
    · rw [maybe_full_next, Rob.rob_deq, hf, rollback_row_eq_false hs', hre]
      simp
    · rcases hold' with he | hlt | ⟨hrow, -⟩
      · rw [(enq_of_at he).2.1]
      · exact hlt.le
      · rw [hrow]
  | true =>
    have hre : s.rob.rob_enq i.toIn = false := by simp [Rob.rob_enq, hpart]
    have htail : (s.next i).rob.rob_tail = s.rob.rob_tail := by
      rw [rob_tail_next, Rob.tail_next, if_neg hs', hb2]
      simp only [hre, Bool.false_eq_true, if_false]
    have hdisp : (s.next i).disp_lsb = Sys.usedSlots i := by
      rw [disp_lsb_next, henq, hpart]
      rfl
    rcases hold' with he | hlt | ⟨hrow, hlsb⟩
    · refine .inr ⟨htail ▸ (enq_of_at he).2.1, lt_tailSlots_next ?_⟩
      rw [hdisp]
      exact lt_usedSlots (enq_of_at he).1
    · left
      have hp := pos_next h ok ha
      rw [len_of_not_full, htail]
      · unfold Sys.pos at hp hlt ⊢
        rw [rob_head_next] at hp ⊢
        split_ifs at hp ⊢ with hf
        · have := dist_wrapInc_head (halone hf)
          omega
        · omega
      · intro heq
        rw [maybe_full_next, hmis, hre, Rob.rob_deq, rollback_row_eq_false hs']
        cases hf : s.rob.finished_committing_row i.toIn with
        | true => simp
        | false =>
          rw [htail, rob_head_next, hf] at heq
          simpa [Rob.full, show s.rob.rob_tail = s.rob.rob_head from heq] using hfull
    · obtain ⟨v, -, hv⟩ := List.any_eq_true.1 henq
      refine .inr ⟨htail ▸ hrow, lt_tailSlots_next ?_⟩
      have h1 := ok.enq_slot v hv
      have h2 := lt_usedSlots hv
      omega

/-- Without dispatch, mispredict and rollback the tail stays. -/
theorem place_idle (h : s.Inv) (ok : s.Ok i) (hs : s.rob.rob_state ≠ .s_rollback)
    (hpend : s.pending = none) (hold : i.oldest = none) (henq : Rob.enq i.toIn = false)
    {a : RobIdx N W} (ha : (s.next i).Val a) : (s.next i).pos a.1 < (s.next i).len ∨
      a.1 = (s.next i).rob.rob_tail ∧ a.2.val < (s.next i).tailSlots := by
  have hv := val_of_quiet henq ha
  have hb2 : i.b2 = none := Option.map_eq_none_iff.1 (ok.b2.trans hpend)
  have hre : s.rob.rob_enq i.toIn = false := by simp [Rob.rob_enq, henq]
  have htail : (s.next i).rob.rob_tail = s.rob.rob_tail := by
    rw [rob_tail_next, Rob.tail_next, if_neg hs, hb2]
    simp only [hre, Bool.false_eq_true, if_false]
  have hm : (s.next i).rob.maybe_full =
      (!s.rob.finished_committing_row i.toIn && s.rob.maybe_full) := by
    rw [maybe_full_next, mispredict_quiet ok hold, hre, Rob.rob_deq, rollback_row_eq_false hs]
    simp
  have hplace := h.place hpend a hv
  rw [Sys.tailSlots, if_neg hs] at hplace
  have hp := pos_next h ok ha
  cases hf : s.rob.finished_committing_row i.toIn with
  | false =>
    have hhead : (s.next i).rob.rob_head = s.rob.rob_head := by
      rw [rob_head_next, hf]
      rfl
    have hlen : (s.next i).len = s.len := by
      unfold Sys.len Sys.pos
      rw [htail, hhead, hm, hf, Bool.not_false, Bool.true_and]
    rw [hf] at hp
    simp only [Bool.false_eq_true, if_false, Nat.add_zero] at hp
    rcases hplace with hlt | ⟨hrow, hlsb⟩
    · left
      omega
    · refine .inr ⟨htail ▸ hrow, lt_tailSlots_next ?_⟩
      have hne : s.rob.empty = false := by
        by_contra hne
        simp only [Rob.empty, Bool.not_eq_false, Bool.and_eq_true, decide_eq_true_eq,
          Bool.not_eq_true'] at hne
        have hval : s.rob.head_vals a.2 = true := by
          rw [Rob.head_vals, hne.1, ← hrow]
          exact hv
        exact absurd (List.any_eq_false.1 hne.2 a.2 (List.mem_finRange _)) (not_not.2 hval)
      rw [disp_lsb_next, henq, hb2, hne]
      exact hlsb
  | true =>
    have hhead : (s.next i).rob.rob_head = wrapInc s.rob.rob_head := by
      rw [rob_head_next, hf]
      rfl
    have hlen : (s.next i).len = (s.next i).pos s.rob.rob_tail := by
      rw [len_of_not_full, htail]
      intro _
      rw [hm, hf]
      rfl
    rw [hf] at hp
    simp only [if_true] at hp
    rw [hlen]
    by_cases ht : s.rob.rob_tail = s.rob.rob_head
    · -- the ring was full, and the tail is now at its far end
      left
      have hfar := dist_wrapInc_self (h := s.rob.rob_head)
      have hlt := dist_lt (h := s.rob.rob_head) (r := a.1)
      unfold Sys.pos at hp ⊢
      rw [ht]
      rw [hhead] at hp ⊢
      omega
    · have hpt := dist_wrapInc_head ht
      rw [Sys.len, if_neg ht] at hplace
      rcases hplace with hlt | ⟨hrow, hlsb⟩
      · left
        unfold Sys.pos at hp hlt ⊢
        rw [hhead] at hp ⊢
        omega
      · refine .inr ⟨htail ▸ hrow, lt_tailSlots_next ?_⟩
        have hne : s.rob.empty = false := by simp [Rob.empty, Ne.symm ht]
        rw [disp_lsb_next, henq, hb2, hne]
        exact hlsb

theorem place_next (h : s.Inv) (ok : s.Ok i) (hold : i.oldest = none) {a : RobIdx N W}
    (ha : (s.next i).Val a) : (s.next i).pos a.1 < (s.next i).len ∨
      a.1 = (s.next i).rob.rob_tail ∧ a.2.val < (s.next i).tailSlots := by
  by_cases hs : s.rob.rob_state = .s_rollback
  · exact place_rollback h ok hs ha
  · cases hpend : s.pending with
    | some b => exact .inl (place_b2 h ok hpend ha)
    | none =>
      cases henq : Rob.enq i.toIn with
      | true => exact place_enq h ok henq ha
      | false => exact place_idle h ok hs hpend hold henq ha

/-! ## One cycle -/

/-- The mispredicted branch stays, and it is the youngest uop left. -/
theorem window_next (h : s.Inv) (ok : s.Ok i) {b : RobIdx N W} (hb : i.oldest = some b) :
    (s.next i).Val b ∧ (∀ a, (s.next i).Val a → a = b ∨ (s.next i).Before a b) ∧
      (s.next i).rob.maybe_full = true ∧ (s.next i).rob.rob_state ≠ .s_rollback := by
  obtain ⟨hv, hbsy, hmis, hkill⟩ := ok.kill b hb
  obtain ⟨hs, hs'⟩ := ok.drained (by rw [hb]; rfl)
  have henq : Rob.enq i.toIn = false := by
    by_contra henq
    have hnone := (ok.enq_ready (by simpa using henq)).2.2
    exact absurd (hb.symm.trans hnone) (by simp)
  have hvb : (s.next i).Val b := by
    refine val_next.2 ⟨.inr hv, ?_, ?_, ?_⟩
    · simp [Rob.rbk_at, Rob.rbk_row, hs]
    · by_contra hk
      have hself : s.Older b b := (hkill b.1 b.2 hv).1 (by simpa using hk)
      unfold Sys.Older LexLt at hself
      omega
    · by_contra hc
      simp only [Rob.commit_at, Bool.and_eq_false_iff, not_or, Bool.not_eq_false,
        decide_eq_true_eq] at hc
      have hdone := (val_of_commit hc.2).2.1
      rw [← hc.1] at hdone
      exact absurd (hbsy.symm.trans hdone) (by simp)
  refine ⟨hvb, fun a ha => ?_, ?_, hs'⟩
  · have hva := val_of_quiet henq ha
    by_cases hab : a = b
    · exact .inl hab
    · refine .inr ((before_next h ok ha hvb).2 ?_)
      rcases before_total (s := s) hab with hlt | hgt
      · exact hlt
      · have hk := (hkill a.1 a.2 hva).2 (h.order b a hv hva hgt)
        exact absurd ((val_next.1 ha).2.2.1.symm.trans hk) (by simp)
  · rw [maybe_full_next, hmis, Bool.or_true]

theorem fresh_next (h : s.Inv) (hp : (s.next i).rob.r_partial_row = false) :
    (s.next i).disp_lsb = 0 := by
  have hpart : (s.next i).rob.r_partial_row =
      if Rob.enq i.toIn then i.enq_partial_stall else s.rob.r_partial_row := rfl
  rw [hpart] at hp
  rw [disp_lsb_next]
  split_ifs at hp ⊢ with henq h1 h2
  · exact absurd (hp.symm.trans h1) (by simp)
  · rfl
  · rfl
  · exact h.fresh hp

/-- The oldest entry, if it does not commit, is not killed either. -/
theorem head_stays (h : s.Inv) (ok : s.Ok i) (hs : s.rob.rob_state ≠ .s_rollback) {w : Fin W}
    (hv : s.Val (s.rob.rob_head, w)) (hc : s.rob.will_commit i.toIn w = false) :
    ∃ v, (s.next i).Val ((s.next i).rob.rob_head, v) := by
  -- the first valid slot that stays behind
  have hstay : ∃ v, s.Val (s.rob.rob_head, v) ∧ s.rob.will_commit i.toIn v = false ∧
      ∀ u, s.Val (s.rob.rob_head, u) → s.rob.will_commit i.toIn u = false → v ≤ u := by
    obtain ⟨v, ⟨hv, hc⟩, hmin⟩ := wellFounded_lt.has_min
      {u | s.Val (s.rob.rob_head, u) ∧ s.rob.will_commit i.toIn u = false} ⟨w, hv, hc⟩
    exact ⟨v, hv, hc, fun u hu huc => not_lt.1 (hmin u ⟨hu, huc⟩)⟩
  obtain ⟨v, hvv, hvc, hmin⟩ := hstay
  have hfin : s.rob.finished_committing_row i.toIn = false := by
    by_contra hf
    have hall := (finished_iff.1 (by simpa using hf)).2.1 v
    exact absurd (hall.symm.trans hvc) (by rw [show s.rob.head_vals v = true from hvv]; simp)
  refine ⟨v, ?_⟩
  rw [rob_head_next, hfin]
  refine val_next.2 ⟨.inr hvv, ?_, ?_, ?_⟩
  · simp [Rob.rbk_at, Rob.rbk_row, hs]
  · by_contra hk
    rw [Bool.not_eq_false] at hk
    cases hold : i.oldest with
    | none => exact absurd ((kill_quiet ok hold _ _).symm.trans hk) (by simp)
    | some b =>
      -- the killer would be an older busy entry of the same row
      obtain ⟨hbv, hbsy, -, hkill⟩ := ok.kill b hold
      have hbefore := before_of_older h hbv hvv ((hkill _ _ hvv).1 hk)
      simp only [Sys.Before, Sys.pos, dist_self, LexLt] at hbefore
      have hzero : dist s.rob.rob_head b.1 = 0 ∧ b.2 < v := by omega
      have hrow := dist_eq_zero.1 hzero.1
      have hbc : s.rob.will_commit i.toIn b.2 = false := by
        by_contra hc'
        have hdone := (val_of_commit (by simpa using hc')).2.1
        rw [← hrow] at hdone
        exact absurd (hbsy.symm.trans hdone) (by simp)
      have hle := hmin b.2 (by rw [← hrow]; exact hbv) hbc
      exact absurd hzero.2 (not_lt.2 hle)
  · simp [Rob.commit_at, hvc]

/-- A rollback begins only after an exception. -/
theorem exc_of_rollback_next (hs : s.rob.rob_state ≠ .s_rollback)
    (hs' : (s.next i).rob.rob_state = .s_rollback) : s.rob.exc_d1 = true ∨ s.rob.exc_d2 = true := by
  rw [rob_state_next, Rob.state_next] at hs'
  split at hs'
  · exact absurd hs' (by simp)
  · split_ifs at hs' with h2
    exact .inr h2
  · contradiction
  · split_ifs at hs' with h1
    exact .inl h1

theorem not_rollback_next (h1 : s.rob.exc_d1 = false) (h2 : s.rob.exc_d2 = false)
    (hs : s.rob.rob_state ≠ .s_rollback) : (s.next i).rob.rob_state ≠ .s_rollback := by
  intro hs'
  rcases exc_of_rollback_next hs hs' with he | he
  · exact absurd (he.symm.trans h1) (by simp)
  · exact absurd (he.symm.trans h2) (by simp)

theorem thrown_next (h : s.Inv) (ok : s.Ok i)
    (ht : (s.next i).rob.exc_d1 = true ∨ (s.next i).rob.exc_d2 = true ∨
      (s.next i).rob.rob_state = .s_rollback) :
    (∃ w, (s.next i).Val ((s.next i).rob.rob_head, w)) ∨ (s.next i).rob.rob_state = .s_rollback ∧
      (s.next i).rob.rob_tail = (s.next i).rob.rob_head ∧ (s.next i).rob.maybe_full = false := by
  have hd1 : (s.next i).rob.exc_d1 = s.rob.exception_thrown i.toIn := rfl
  have hd2 : (s.next i).rob.exc_d2 = s.rob.exc_d1 := rfl
  rw [hd1, hd2] at ht
  by_cases hs : s.rob.rob_state = .s_rollback
  · have hs' : (s.next i).rob.rob_state = .s_rollback := by
      rcases ht with h1 | h2 | hs'
      · obtain ⟨-, -, -, hb, -⟩ := exists_thrown h1
        exact absurd hs (state_of_open hb).1
      · exact absurd (h2.symm.trans (h.rolling hs)) (by simp)
      · exact hs'
    have hhead : (s.next i).rob.rob_head = s.rob.rob_head := by
      rw [rob_head_next, not_finished_of_rollback hs]
      rfl
    cases hr : s.rob.rollback_row with
    | false =>
      have hlast : s.rob.rob_tail = s.rob.rob_head ∧ s.rob.maybe_full = false := by
        simpa [Rob.rollback_row, hs] using hr
      refine .inr ⟨hs', ?_, ?_⟩
      · rw [rob_tail_next, Rob.tail_next, if_pos hs, hr, hhead]
        exact hlast.1
      · rw [maybe_full_next, mispredict_quiet ok (oldest_of_rollback ok hs), hlast.2]
        simp [Rob.rob_enq, hs]
    | true =>
      rcases h.thrown (.inr (.inr hs)) with ⟨w, hw⟩ | ⟨-, htail, hm⟩
      · refine .inl ⟨w, ?_⟩
        rw [hhead]
        refine val_next.2 ⟨.inr hw, ?_, kill_quiet ok (oldest_of_rollback ok hs) _ _, ?_⟩
        · -- the row of the head goes last
          by_cases htail : s.rob.rob_tail = s.rob.rob_head
          · simp only [Rob.rollback_row, hs, htail, decide_true, ne_eq, not_true_eq_false,
              decide_false, Bool.false_or, Bool.true_and] at hr
            simp [Rob.rbk_at, Rob.rbk_row, Rob.full, htail, hr]
          · simp [Rob.rbk_at, Rob.com_idx, hs, Ne.symm htail]
        · cases hc : s.rob.will_commit i.toIn w with
          | false => simp [Rob.commit_at, hc]
          | true => exact absurd hs (not_rollback_of_commit hc).1
      · simp [Rob.rollback_row, htail, hm] at hr
  · left
    have hlate : s.rob.exc_d1 = true ∨ s.rob.exc_d2 = true →
        ∃ v, (s.next i).Val ((s.next i).rob.rob_head, v) := by
      intro hlate
      rcases h.thrown (by tauto) with ⟨w, hw⟩ | ⟨hroll, -⟩
      · refine head_stays h ok hs hw ?_
        by_contra hc
        obtain ⟨-, h1, h2⟩ := not_rollback_of_commit (i := i) (w := w) (by simpa using hc)
        rw [h1, h2] at hlate
        exact absurd hlate (by simp)
      · exact absurd hroll hs
    rcases ht with h1 | h2 | hs'
    · obtain ⟨w, hv, -, -, hc⟩ := exists_thrown h1
      exact head_stays h ok hs hv hc
    · exact hlate (.inl h2)
    · exact hlate (exc_of_rollback_next hs hs')

theorem rolling_next (hs' : (s.next i).rob.rob_state = .s_rollback) :
    (s.next i).rob.exc_d1 = false := by
  by_contra ht
  have hd1 : (s.next i).rob.exc_d1 = s.rob.exception_thrown i.toIn := rfl
  rw [hd1] at ht
  obtain ⟨-, -, -, hb, -⟩ := exists_thrown (i := i) (by simpa using ht)
  obtain ⟨hs, h1, h2⟩ := state_of_open hb
  exact not_rollback_next h1 h2 hs hs'

end Tail

/-! ## History -/

theorem markMispredict_base (r : Fin N) (w : Fin W) (u : RobUop N W T) :
    (Rob.markMispredict i.toIn r w u).toMicroOp = u.toMicroOp := by
  unfold Rob.markMispredict
  split
  · split <;> rfl
  · rfl

theorem uop_next_base (r : Fin N) (w : Fin W) : (s.rob.uop_next i.toIn r w).toMicroOp =
    (if s.rob.enq_at i.toIn r w then i.enq_uops w else (s.rob.bank r w).uop).toMicroOp := by
  unfold Rob.uop_next
  rw [markMispredict_base]

/-- An entry that is valid is not written by dispatch. -/
theorem enq_at_of_val (h : s.Inv) (ok : s.Ok i) {a : RobIdx N W} (hv : s.Val a) :
    s.rob.enq_at i.toIn a.1 a.2 = false := by
  by_contra he
  exact enq_free h ok (by simpa using he) hv

section History

variable [NeZero N] [NeZero W]

theorem item_next_of_val (h : s.Inv) (ok : s.Ok i) {a : RobIdx N W} (hv : s.Val a) :
    (s.next i).item a = s.item a := by
  have he := enq_at_of_val h ok hv
  have hu : (s.rob.uop_next i.toIn a.1 a.2).toMicroOp = (s.rob.bank a.1 a.2).uop.toMicroOp := by
    rw [uop_next_base, he]
    rfl
  unfold Sys.item
  rw [born_next, he, ← hu]
  rfl

theorem item_next_of_enq {a : RobIdx N W} (he : s.rob.enq_at i.toIn a.1 a.2 = true) :
    (s.next i).item a = ⟨s.now, a.2, (i.enq_uops a.2).toMicroOp⟩ := by
  have hu : (s.rob.uop_next i.toIn a.1 a.2).toMicroOp = (i.enq_uops a.2).toMicroOp := by
    rw [uop_next_base, he]
    rfl
  unfold Sys.item
  rw [born_next, he, ← hu]
  rfl

end History

theorem mem_enqNow {x : Item W} : x ∈ s.enqNow i ↔
    ∃ w, i.enq_valids w = true ∧ x = ⟨s.now, w, (i.enq_uops w).toMicroOp⟩ := by
  simp only [Sys.enqNow, List.mem_filterMap, List.mem_finRange, true_and,
    Option.ite_none_right_eq_some, Option.some.injEq]
  exact exists_congr fun w => and_congr_right fun _ => eq_comm

theorem item_of_commit {w : Fin W} (hc : s.rob.will_commit i.toIn w = true) :
    s.item (s.rob.rob_head, w) =
      ⟨s.born s.rob.rob_head w, w, (s.rob.commit_uops i.toIn w).toMicroOp⟩ := by
  rw [Rob.commit_uops, markMispredict_base, Rob.com_idx, if_neg (not_rollback_of_commit hc).1]
  rfl

theorem mem_commitNow {x : Item W} : x ∈ s.commitNow i ↔
    ∃ w, s.rob.will_commit i.toIn w = true ∧ x = s.item (s.rob.rob_head, w) := by
  simp only [Sys.commitNow, List.mem_filterMap, List.mem_finRange, true_and,
    Option.ite_none_right_eq_some, Option.some.injEq]
  constructor
  · rintro ⟨w, hc, rfl⟩
    exact ⟨w, hc, (item_of_commit hc).symm⟩
  · rintro ⟨w, hc, rfl⟩
    exact ⟨w, hc, (item_of_commit hc).symm⟩

/-- Slots are listed in order. -/
theorem pairwise_slots {f : Fin W → Option (Item W)} {R : Item W → Item W → Prop}
    (hR : ∀ v w x y, v < w → f v = some x → f w = some y → R x y) :
    ((List.finRange W).filterMap f).Pairwise R := by
  rw [List.pairwise_filterMap]
  exact (List.pairwise_lt_finRange W).imp fun {v w} hlt x hx y hy => hR v w x y hlt hx hy

theorem enqNow_sorted : (s.enqNow i).Pairwise fun x y => LexLt x.cycle x.slot y.cycle y.slot := by
  refine pairwise_slots fun v w x y hlt hx hy => ?_
  simp only [Option.ite_none_right_eq_some, Option.some.injEq] at hx hy
  obtain ⟨-, rfl⟩ := hx
  obtain ⟨-, rfl⟩ := hy
  exact .inr ⟨rfl, hlt⟩

theorem commitNow_sorted (h : s.Inv) :
    (s.commitNow i).Pairwise fun x y => LexLt x.cycle x.slot y.cycle y.slot := by
  refine pairwise_slots fun v w x y hlt hx hy => ?_
  simp only [Option.ite_none_right_eq_some, Option.some.injEq] at hx hy
  obtain ⟨hv, rfl⟩ := hx
  obtain ⟨hw, rfl⟩ := hy
  exact h.order _ _ (val_of_commit hv).1 (val_of_commit hw).1 (.inr ⟨rfl, hlt⟩)

/-- A killed uop does not commit. -/
theorem not_commit_of_kill (h : s.Inv) (ok : s.Ok i) {a : RobIdx N W} (hv : s.Val a)
    (hk : s.rob.kill_at i.toIn a.1 a.2 = true) : i.oldest.isSome = true ∧
      s.rob.commit_at i.toIn a.1 a.2 = false := by
  cases hold : i.oldest with
  | none => exact absurd ((kill_quiet ok hold a.1 a.2).symm.trans hk) (by simp)
  | some b =>
    refine ⟨rfl, ?_⟩
    by_contra hc
    simp only [Rob.commit_at, Bool.not_eq_false, Bool.and_eq_true, decide_eq_true_eq] at hc
    obtain ⟨hbv, hbsy, -, hkill⟩ := ok.kill b hold
    have hlt : s.Older b (s.rob.rob_head, a.2) := by
      rw [← hc.1]
      exact (hkill a.1 a.2 hv).1 hk
    obtain ⟨hrow, hbc⟩ := commit_of_older h hc.2 hbv hlt
    have hdone := (val_of_commit hbc).2.1
    rw [← hrow] at hdone
    exact absurd (hbsy.symm.trans hdone) (by simp)

/-- Dispatch writes behind all valid entries. -/
theorem before_of_enq (h : s.Inv) (ok : s.Ok i) {a b : RobIdx N W}
    (he : s.rob.enq_at i.toIn a.1 a.2 = true) (hb : s.Val b) : s.Before b a := by
  obtain ⟨hw, hrow, henq⟩ := enq_of_at he
  obtain ⟨hready, hb2, -⟩ := ok.enq_ready henq
  obtain ⟨hs, hfull, -⟩ := ready_iff.1 hready
  have hslot := ok.enq_slot a.2 hw
  have hpos := pos_tail hfull
  unfold Sys.Before LexLt
  rw [hrow, hpos]
  rcases h.place (pending_of_b2 ok hb2) b hb with hlt | ⟨hbrow, hlt⟩
  · exact .inl hlt
  · rw [Sys.tailSlots, hs] at hlt
    simp only [reduceCtorEq, if_false] at hlt
    rw [hbrow, hpos]
    omega

section Step

variable [NeZero N] [NeZero W]

/-- A valid entry is an old one that did not commit, or one that dispatch has
    just written behind all others. -/
theorem val_next_cases (h : s.Inv) (ok : s.Ok i) {a : RobIdx N W} (ha : (s.next i).Val a) :
    (s.Val a ∧ (s.next i).born a.1 a.2 = s.born a.1 a.2) ∨
    (s.rob.enq_at i.toIn a.1 a.2 = true ∧ (s.next i).born a.1 a.2 = s.now ∧
      ∀ b, s.Val b → s.Before b a) := by
  by_cases hv : s.Val a
  · exact .inl ⟨hv, by rw [born_next, enq_at_of_val h ok hv]; rfl⟩
  · have he := (val_next.1 ha).1.resolve_right hv
    exact .inr ⟨he, by rw [born_next, he]; rfl, fun b hb => before_of_enq h ok he hb⟩

theorem order_next (h : s.Inv) (ok : s.Ok i) {a b : RobIdx N W} (ha : (s.next i).Val a)
    (hb : (s.next i).Val b) (hab : (s.next i).Before a b) : (s.next i).Older a b := by
  rw [before_next h ok ha hb] at hab
  unfold Sys.Older
  rcases val_next_cases h ok ha with ⟨hva, hba⟩ | ⟨hea, hba, hlast⟩ <;>
    rcases val_next_cases h ok hb with ⟨hvb, hbb⟩ | ⟨heb, hbb, hlast'⟩ <;> rw [hba, hbb]
  · exact h.order a b hva hvb hab
  · exact .inl (h.born a hva)
  · exact absurd hab (before_asymm (hlast b hvb))
  · have hrow : a.1 = b.1 := (enq_of_at hea).2.1.trans (enq_of_at heb).2.1.symm
    unfold Sys.Before LexLt at hab
    rw [hrow] at hab
    refine .inr ⟨rfl, ?_⟩
    omega

theorem left_next (h : s.Inv) (ok : s.Ok i) {x : Item W} (hx : x ∈ (s.next i).committed)
    {a : RobIdx N W} (ha : (s.next i).Val a) :
    LexLt x.cycle x.slot ((s.next i).born a.1 a.2) a.2 := by
  rcases val_next_cases h ok ha with ⟨hv, hborn⟩ | ⟨-, hborn, -⟩ <;> rw [hborn] <;>
    rcases List.mem_append.1 hx with hx | hx
  · exact h.left x hx a hv
  · obtain ⟨w, hc, rfl⟩ := mem_commitNow.1 hx
    -- what is older than an entry that commits has left with it
    have hne : a ≠ (s.rob.rob_head, w) := by
      rintro rfl
      have hnc := (val_next.1 ha).2.2.2
      simp [Rob.commit_at, hc] at hnc
    rcases before_total (s := s) hne with hlt | hgt
    · have hold := h.order _ _ hv (val_of_commit hc).1 hlt
      obtain ⟨hrow, hac⟩ := commit_of_older h hc hv hold
      have hnc := (val_next.1 ha).2.2.2
      simp [Rob.commit_at, hrow, hac] at hnc
    · exact h.order _ _ (val_of_commit hc).1 hv hgt
  · exact .inl (h.past x (h.known hx))
  · obtain ⟨w, hc, rfl⟩ := mem_commitNow.1 hx
    exact .inl (h.born _ (val_of_commit hc).1)

/-- **One cycle keeps the invariant.** -/
theorem inv_step (h : s.Inv) (ok : s.Ok i) : (s.next i).Inv := by
  have hcom : (s.next i).committed = s.committed ++ s.commitNow i := rfl
  have henq : (s.next i).enqueued = s.enqueued ++ s.enqNow i := rfl
  have hnow : (s.next i).now = s.now + 1 := rfl
  refine
    { place := fun hp a ha => place_next h ok hp ha
      window := fun b hb => window_next h ok hb
      fresh := fresh_next h
      thrown := thrown_next h ok
      rolling := rolling_next
      order := fun a b ha hb hab => order_next h ok ha hb hab
      born := fun a ha => ?_
      stored := fun a ha => ?_
      enqueued := ?_
      past := fun x hx => ?_
      committed := ?_
      known := fun x hx => ?_
      left := fun x hx a ha => left_next h ok hx ha }
  · rcases val_next_cases h ok ha with ⟨hv, hborn⟩ | ⟨-, hborn, -⟩
    · have := h.born a hv
      omega
    · omega
  · rw [henq]
    rcases val_next_cases h ok ha with ⟨hv, -⟩ | ⟨he, -, -⟩
    · rw [item_next_of_val h ok hv]
      exact List.mem_append_left _ (h.stored a hv)
    · rw [item_next_of_enq he]
      exact List.mem_append_right _ (mem_enqNow.2 ⟨a.2, (enq_of_at he).1, rfl⟩)
  · rw [henq, List.pairwise_append]
    refine ⟨h.enqueued, enqNow_sorted, fun x hx y hy => ?_⟩
    obtain ⟨w, -, rfl⟩ := mem_enqNow.1 hy
    exact .inl (h.past x hx)
  · rw [hnow]
    rw [henq] at hx
    rcases List.mem_append.1 hx with hx | hx
    · have := h.past x hx
      omega
    · obtain ⟨w, -, rfl⟩ := mem_enqNow.1 hx
      exact Nat.lt_succ_self _
  · rw [hcom, List.pairwise_append]
    refine ⟨h.committed, commitNow_sorted h, fun x hx y hy => ?_⟩
    obtain ⟨w, hc, rfl⟩ := mem_commitNow.1 hy
    exact h.left x hx _ (val_of_commit hc).1
  · rw [henq]
    rcases List.mem_append.1 hx with hx | hx
    · exact List.mem_append_left _ (h.known hx)
    · obtain ⟨w, hc, rfl⟩ := mem_commitNow.1 hx
      exact List.mem_append_left _ (h.stored _ (val_of_commit hc).1)

theorem inv_reach (h : rob.Reach s) : s.Inv :=
  h.inv (fun _ h0 => inv_reset h0) (fun _ _ hi ok => inv_step hi ok)

/-- What is enqueued is in the ROB afterwards. -/
theorem val_of_enq (h : s.Inv) (ok : s.Ok i) {w : Fin W} (hw : i.enq_valids w = true) :
    (s.next i).Val (s.rob.rob_tail, w) := by
  have he : s.rob.enq_at i.toIn s.rob.rob_tail w = true := by simp [Rob.enq_at, hw]
  obtain ⟨hready, -, hold⟩ := ok.enq_ready (enq_of_at he).2.2
  refine val_next.2 ⟨.inl he, ?_, kill_quiet ok hold _ _, ?_⟩
  · simp [Rob.rbk_at, Rob.rbk_row, (ready_iff.1 hready).1]
  · by_contra hc
    simp only [Rob.commit_at, Bool.not_eq_false, Bool.and_eq_true, decide_eq_true_eq] at hc
    refine enq_free h ok (a := (s.rob.rob_tail, w)) he ?_
    rw [hc.1]
    exact (val_of_commit hc.2).1

/-- **The ROB commits in program order.**  In every cycle of every run:
    dispatch writes only entries that are not valid, and they are valid
    afterwards; what has committed so far is a sublist of what was enqueued; a
    uop commits only if it is valid, not busy and not excepting, and all that
    is older commits with it; and a valid entry stays as it is, or leaves by
    exactly one of commit, kill and rollback. -/
theorem commit_in_order (h : rob.Reach s) (ok : s.Ok i) :
    (∀ w, i.enq_valids w = true → ¬ s.Val (s.rob.rob_tail, w) ∧
      (s.next i).Val (s.rob.rob_tail, w) ∧
      (s.next i).item (s.rob.rob_tail, w) = ⟨s.now, w, (i.enq_uops w).toMicroOp⟩) ∧
    s.committed.Sublist s.enqueued ∧
    (∀ w, s.rob.will_commit i.toIn w = true → s.Val (s.rob.rob_head, w) ∧
      (s.rob.bank s.rob.rob_head w).bsy = false ∧
      (s.rob.bank s.rob.rob_head w).exception = false ∧
      ∀ a, s.Val a → s.Older a (s.rob.rob_head, w) →
        a.1 = s.rob.rob_head ∧ s.rob.will_commit i.toIn a.2 = true) ∧
    (∀ a, s.Val a →
      let commit := s.rob.commit_at i.toIn a.1 a.2
      let kill := s.rob.kill_at i.toIn a.1 a.2
      let rollback := s.rob.rbk_at a.1
      ((s.next i).Val a ∧ (s.next i).item a = s.item a ∧
        commit = false ∧ kill = false ∧ rollback = false) ∨
      (¬ (s.next i).Val a ∧
        (commit = true ∧ kill = false ∧ rollback = false ∨
          commit = false ∧ kill = true ∧ rollback = false ∨
          commit = false ∧ kill = false ∧ rollback = true))) := by
  have hi := inv_reach h
  refine ⟨fun w hw => ?_, sublist_of_ages hi.known hi.committed hi.enqueued, fun w hc => ?_,
    fun a hv => ?_⟩
  · have he : s.rob.enq_at i.toIn s.rob.rob_tail w = true := by simp [Rob.enq_at, hw]
    exact ⟨enq_free hi ok (a := (s.rob.rob_tail, w)) he, val_of_enq hi ok hw,
      item_next_of_enq (a := (s.rob.rob_tail, w)) he⟩
  · obtain ⟨hv, hb, hx⟩ := val_of_commit hc
    exact ⟨hv, hb, hx, fun a ha hlt => commit_of_older hi hc ha hlt⟩
  · dsimp only
    have hval := val_next (s := s) (i := i) (a := a)
    cases hk : s.rob.kill_at i.toIn a.1 a.2 with
    | true =>
      obtain ⟨hold, hc⟩ := not_commit_of_kill hi ok hv hk
      have hr : s.rob.rbk_at a.1 = false := by
        simp [Rob.rbk_at, Rob.rbk_row, (ok.drained hold).1]
      right
      simp [hval, hk, hc, hr]
    | false =>
      cases hc : s.rob.commit_at i.toIn a.1 a.2 with
      | true =>
        simp only [Rob.commit_at, Bool.and_eq_true] at hc
        have hr : s.rob.rbk_at a.1 = false := by
          simp [Rob.rbk_at, Rob.rbk_row, (not_rollback_of_commit hc.2).1]
        right
        have hc' : s.rob.commit_at i.toIn a.1 a.2 = true := by simpa [Rob.commit_at] using hc
        simp [hval, hc', hr]
      | false =>
        cases hr : s.rob.rbk_at a.1 with
        | true =>
          right
          simp [hval, hr]
        | false =>
          refine .inl ⟨hval.2 ⟨.inr hv, hr, hk, hc⟩, item_next_of_val hi ok hv, rfl, rfl, rfl⟩

end Step

end

/-! ## A run -/

/-- A uop without effects. -/
def blankUop (r : Fin 2) (w : Fin 2) : RobUop 2 2 1 where
  uopc := 1
  inst := 0
  is_fence := false
  is_fencei := false
  is_unique := false
  is_sys_pc2epc := false
  flush_on_commit := false
  ucsrInst := false
  isUnsafe := false
  exception := false
  exc_cause := 0
  rob_idx := (r, w)
  br_mask _ := false
  debug_fsrc := 0
  taken := false

/-- Two rows of two banks, after reset. -/
def resetRob : Rob 2 2 1 where
  rob_state := .s_reset
  rob_head := 0
  rob_head_lsb := 0
  rob_tail := 0
  rob_tail_lsb := 0
  rob_pnr := 0
  rob_pnr_lsb := 0
  pnr_maybe_at_tail := false
  maybe_full := false
  r_partial_row := false
  r_xcpt_val := false
  r_xcpt_uop := blankUop 0 0
  exc_d1 := false
  exc_d2 := false
  bank _ _ := ⟨false, false, false, false, false, blankUop 0 0⟩

/-- The ROB after reset. -/
def resetSys : Sys 2 2 1 := ⟨resetRob, none, 0, 0, fun _ _ => 0, [], []⟩

/-- Nothing happens. -/
def idle : SysIn 2 2 1 where
  enq_valids _ := false
  enq_uops := blankUop 0
  enq_partial_stall := false
  b1 := ⟨fun _ => false, fun _ => false⟩
  b2 := none
  wb_resps := []
  lsu_clr_bsy := []
  lsu_clr_unsafe := []
  lxcpt := none
  csr_stall := false
  oldest := none

/-- Two uops are dispatched one after the other into the same row, and written
    back in the opposite order. -/
def outOfOrder : List (SysIn 2 2 1) :=
  [idle,
   { idle with enq_valids := fun w => w = 0, enq_partial_stall := true },
   { idle with enq_valids := fun w => w = 1 },
   { idle with wb_resps := [⟨(0, 1), false⟩] },
   { idle with wb_resps := [⟨(0, 0), false⟩] }]

/-- A cycle without mispredicts is fine if its dispatch is. -/
theorem idle_ok (s : Sys 2 2 1) (i : SysIn 2 2 1) (hold : i.oldest = none) (hb2 : i.b2 = none)
    (hp : s.pending = none) (hm : ∀ t, i.b1.mispredict_mask t = false)
    (hready : Rob.enq i.toIn = true → s.rob.ready = true)
    (hidx : ∀ w, i.enq_valids w = true → (i.enq_uops w).rob_idx = (s.rob.rob_tail, w))
    (hslot : ∀ w, i.enq_valids w = true → s.disp_lsb ≤ w.val) : s.Ok i :=
  ⟨fun he => ⟨hready he, hb2, hold⟩, hidx, hslot, by rw [hb2, hp]; rfl, fun _ => hm,
    by simp [hold], by simp [hold]⟩

theorem commit_in_order_outOfOrder :
    let s := rob.run resetSys outOfOrder
    s.rob.will_commit idle.toIn 0 = true ∧ s.rob.will_commit idle.toIn 1 = true ∧
      s.committed.Sublist s.enqueued ∧ ∀ w, s.rob.will_commit idle.toIn w = true →
        ∀ a, s.Val a → s.Older a (s.rob.rob_head, w) → s.rob.will_commit idle.toIn a.2 = true := by
  have hreset : resetSys.Reset := by constructor <;> intros <;> rfl
  have hok := commit_in_order (i := idle) (Machine.reach_run outOfOrder (.start hreset)
    ⟨idle_ok _ _ rfl rfl rfl (fun _ => rfl) (by decide) (by decide) (by decide),
      idle_ok _ _ rfl rfl rfl (fun _ => rfl) (by decide) (by decide) (by decide),
      idle_ok _ _ rfl rfl rfl (fun _ => rfl) (by decide) (by decide) (by decide),
      idle_ok _ _ rfl rfl rfl (fun _ => rfl) (by decide) (by decide) (by decide),
      idle_ok _ _ rfl rfl rfl (fun _ => rfl) (by decide) (by decide) (by decide), trivial⟩)
    (idle_ok _ _ rfl rfl rfl (fun _ => rfl) (by decide) (by decide) (by decide))
  exact ⟨by decide, by decide, hok.2.1, fun w hc a ha hlt => ((hok.2.2.1 w hc).2.2.2 a ha hlt).2⟩

end BoomStop.Reorder
