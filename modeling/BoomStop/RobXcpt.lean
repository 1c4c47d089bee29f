/-
  The exception record of the reorder buffer: while no flush is in progress,
  `r_xcpt_uop` names the oldest valid entry that is marked as excepting, so an
  exception that is thrown is the one recorded, and nothing younger has
  committed.

  * `Sys.XOk`: what dispatch and the LSU promise beside `Sys.Ok`;
  * `isOlder_iff`: `IsOlder` is the order of the ring;
  * `Sys.XInv`, `xinv_step`: the invariant and its step;
  * `precise_exception`: the result.
-/
import BoomStop.RobOrder

namespace BoomStop.Reorder

open Sync RingOrder
open Issue (getNewBrMask isKilledByBranch)

variable {N W T : ℕ}

namespace Sys

/-- No flush is in progress. -/
def Quiet (s : Sys N W T) : Prop :=
  s.rob.exc_d1 = false ∧ s.rob.exc_d2 = false ∧ s.rob.rob_state ≠ .s_rollback

instance (s : Sys N W T) : Decidable s.Quiet := inferInstanceAs (Decidable (_ ∧ _ ∧ _))

/-- The entry is valid and has an exception. -/
def Excepting (s : Sys N W T) (a : RobIdx N W) : Prop :=
  s.Val a ∧ (s.rob.bank a.1 a.2).exception = true

/-- What dispatch and the LSU promise in a cycle. -/
structure XOk (s : Sys N W T) (i : SysIn N W T) : Prop where
  /-- a flush empties rename2 -/
  enq_calm : Rob.enq i.toIn = true → s.Quiet
  /-- dispatched uops know of the branches that resolve -/
  enq_mask : ∀ w, i.enq_valids w = true →
    getNewBrMask i.b1 (i.enq_uops w).br_mask = (i.enq_uops w).br_mask
  /-- a unique uop waits for the ROB to be empty, and goes alone -/
  enq_unique : ∀ w, i.enq_valids w = true → (i.enq_uops w).is_unique = true →
    s.rob.empty = true ∧ ∀ v, i.enq_valids v = true → v = w
  /-- what flushes at its commit is unique -/
  enq_flush : ∀ w, i.enq_valids w = true → Rob.flushes (i.enq_uops w) = true →
    (i.enq_uops w).is_unique = true
  /-- an exception of the LSU belongs to a uop that is in the ROB, stays
      there and was not killed, and none is reported during a flush -/
  lxcpt : ∀ x, i.lxcpt = some x → s.Val x.uop.rob_idx ∧
    s.rob.commit_at i.toIn x.uop.rob_idx.1 x.uop.rob_idx.2 = false ∧
    x.uop.br_mask = (s.rob.bank x.uop.rob_idx.1 x.uop.rob_idx.2).uop.br_mask ∧
    isKilledByBranch i.b1 x.uop.br_mask = false ∧ s.Quiet

/-- The entry that the record is about. -/
def record (s : Sys N W T) : RobIdx N W := s.rob.r_xcpt_uop.rob_idx

/-- The invariant. -/
structure XInv (s : Sys N W T) : Prop where
  /-- a record is about a valid entry that is marked -/
  record : s.Quiet → s.rob.r_xcpt_val = true → s.Excepting s.record ∧
    s.rob.r_xcpt_uop.br_mask = (s.rob.bank s.record.1 s.record.2).uop.br_mask
  /-- and no marked entry is older -/
  oldest : s.Quiet → ∀ a, s.Excepting a →
    s.rob.r_xcpt_val = true ∧ (a = s.record ∨ s.Before s.record a)
  cleared : ¬ s.Quiet → s.rob.r_xcpt_val = false
  alone : ∀ a, s.Val a → (s.rob.bank a.1 a.2).uop.is_unique = true → a.1 = s.rob.rob_head ∧
    (∀ b, s.Val b → b = a) ∧
    (s.rob.rob_state = .s_wait_till_empty ∨ s.rob.rob_state = .s_rollback)
  flushes : ∀ a, s.Val a → Rob.flushes (s.rob.bank a.1 a.2).uop = true →
    (s.rob.bank a.1 a.2).uop.is_unique = true
  lsb : ∀ w, s.Val (s.rob.rob_head, w) → s.rob.rob_head_lsb ≤ w
  /-- an exception leads to a rollback -/
  first : s.rob.exc_d1 = true → s.rob.rob_state = .s_normal ∨ s.rob.rob_state = .s_wait_till_empty
  second : s.rob.exc_d2 = true → s.rob.rob_state = .s_normal ∨ s.rob.rob_state = .s_rollback

end Sys

section

variable {s : Sys N W T} {i : SysIn N W T}

theorem xinv_reset (h : s.Reset) : s.XInv := by
  have hval : ∀ a, ¬ s.Val a := fun a ha => absurd (ha.symm.trans (h.val a.1 a.2)) (by simp)
  refine
    { record := fun _ hr => ?_
      oldest := fun _ a ha => absurd ha.1 (hval a)
      cleared := fun _ => h.r_xcpt_val
      alone := fun a ha => absurd ha (hval a)
      flushes := fun a ha => absurd ha (hval a)
      lsb := fun w hw => absurd hw (hval _)
      first := fun h1 => ?_
      second := fun h2 => ?_ }
  · exact absurd (hr.symm.trans h.r_xcpt_val) (by simp)
  · exact absurd (h1.symm.trans h.exc_d1) (by simp)
  · exact absurd (h2.symm.trans h.exc_d2) (by simp)

/-- The first slot with a property. -/
theorem find_finRange_le {f : Fin W → Bool} {v w : Fin W}
    (hv : (List.finRange W).find? f = some v) (hw : f w = true) : v ≤ w := by
  obtain ⟨-, as, bs, hsplit, hno⟩ := List.find?_eq_some_iff_append.1 hv
  have hsorted := List.pairwise_lt_finRange W
  have hmem := List.mem_finRange w
  rw [hsplit] at hsorted hmem
  rcases List.mem_append.1 hmem with hin | hin
  · exact absurd hw (by simpa using hno w hin)
  · rcases List.mem_cons.1 hin with rfl | hin
    · exact le_rfl
    · exact (List.rel_of_pairwise_cons (List.pairwise_append.1 hsorted).2.1 hin).le

/-! ## `IsOlder` -/

/-- The numbers of two indices compare like row and bank. -/
theorem toNat_lt {a b : RobIdx N W} : a.toNat < b.toNat ↔ a.1 < b.1 ∨ a.1 = b.1 ∧ a.2 < b.2 := by
  have hpow := Nat.le_pow_clog Nat.one_lt_two W
  have ha := a.2.isLt.trans_le hpow
  have hb := b.2.isLt.trans_le hpow
  unfold RobIdx.toNat
  rcases lt_trichotomy a.1 b.1 with hlt | heq | hgt
  · have hmul : (a.1.val + 1) * 2 ^ Nat.clog 2 W ≤ b.1.val * 2 ^ Nat.clog 2 W :=
      Nat.mul_le_mul_right _ hlt
    rw [Nat.add_mul] at hmul
    simp only [hlt, true_or, iff_true]
    omega
  · simp only [heq, lt_irrefl, true_and, false_or]
    omega
  · have hmul : (b.1.val + 1) * 2 ^ Nat.clog 2 W ≤ a.1.val * 2 ^ Nat.clog 2 W :=
      Nat.mul_le_mul_right _ hgt
    rw [Nat.add_mul] at hmul
    simp only [hgt.not_gt, hgt.ne', false_and, or_self, iff_false]
    omega

/-- Seen from a head that is not behind any valid entry of its row, `IsOlder`
    is the order of the ring. -/
theorem isOlder_iff (hlsb : ∀ w, s.Val (s.rob.rob_head, w) → s.rob.rob_head_lsb ≤ w)
    {a b : RobIdx N W} (ha : s.Val a) (hb : s.Val b) :
    isOlder a.toNat b.toNat s.rob.head_idx = true ↔ s.Before a b := by
  have behind : ∀ c, s.Val c → (c.toNat < s.rob.head_idx ↔ c.1 < s.rob.rob_head) := by
    intro c hc
    rw [Rob.head_idx, toNat_lt]
    refine ⟨fun h => h.resolve_right ?_, .inl⟩
    rintro ⟨hrow, hlt⟩
    have hval : s.Val (s.rob.rob_head, c.2) := by
      rw [← show c.1 = s.rob.rob_head from hrow]
      exact hc
    exact absurd hlt (not_lt.2 (hlsb c.2 hval))
  rw [isOlder_eq_true, behind a ha, behind b hb, toNat_lt]
  simp only [Sys.Before, LexLt, Sys.pos, RingOrder.dist, Fin.ext_iff, Fin.lt_def]
  have := a.1.isLt
  have := b.1.isLt
  split_ifs <;> omega

/-! ## What is marked in a cycle -/

/-- The entry is marked as excepting at the end of the cycle. -/
def Sys.Marked (s : Sys N W T) (i : SysIn N W T) (a : RobIdx N W) : Prop :=
  s.Val a ∧ ((s.rob.bank a.1 a.2).exception = true ∨ ∃ x, i.lxcpt = some x ∧ x.uop.rob_idx = a) ∨
    s.rob.enq_at i.toIn a.1 a.2 = true ∧ (i.enq_uops a.2).exception = true

theorem lxcpt_at_iff {a : RobIdx N W} :
    Rob.lxcpt_at i.toIn a.1 a.2 = true ↔ ∃ x, i.lxcpt = some x ∧ x.uop.rob_idx = a := by
  unfold Rob.lxcpt_at
  cases i.lxcpt <;> simp

theorem rbk_of_quiet (hq : s.Quiet) (r : Fin N) : s.rob.rbk_at r = false := by
  simp [Rob.rbk_at, Rob.rbk_row, hq.2.2]

/-- An entry that is marked does not commit. -/
theorem not_commit_of_marked (ok : s.Ok i) (okx : s.XOk i) (h : s.Inv) {a : RobIdx N W}
    (hm : s.Marked i a) : s.rob.commit_at i.toIn a.1 a.2 = false := by
  by_contra hc
  rw [Bool.not_eq_false] at hc
  have hc' := hc
  simp only [Rob.commit_at, Bool.and_eq_true, decide_eq_true_eq] at hc'
  obtain ⟨hrow, hcom⟩ := hc'
  obtain ⟨hval, -, hexc⟩ := val_of_commit hcom
  rw [← hrow] at hval hexc
  rcases hm with ⟨-, he | ⟨x, hx, rfl⟩⟩ | ⟨he, -⟩
  · exact absurd (he.symm.trans hexc) (by simp)
  · exact absurd (hc.symm.trans (okx.lxcpt x hx).2.1) (by simp)
  · exact enq_free h ok he hval

/-- The kill masks spare what is older than an entry that they spare. -/
theorem not_kill_of_before (ok : s.Ok i) (h : s.Inv) {a b : RobIdx N W} (ha : s.Val a)
    (hb : s.Val b) (hab : s.Before a b) (hk : s.rob.kill_at i.toIn b.1 b.2 = false) :
    s.rob.kill_at i.toIn a.1 a.2 = false := by
  cases hold : i.oldest with
  | none => exact kill_quiet ok hold _ _
  | some c =>
    by_contra hka
    obtain ⟨-, -, -, hkill⟩ := ok.kill c hold
    have hca : s.Older c a := (hkill _ _ ha).1 (by simpa using hka)
    have hord : s.Older a b := h.order a b ha hb hab
    have hcb : s.Older c b := by
      unfold Sys.Older LexLt at *
      omega
    exact absurd (hk.symm.trans ((hkill _ _ hb).2 hcb)) (by simp)

theorem markMispredict_br_mask (r : Fin N) (w : Fin W) (u : RobUop N W T) :
    (Rob.markMispredict i.toIn r w u).br_mask = u.br_mask := by
  unfold Rob.markMispredict
  split
  · split <;> rfl
  · rfl

section Next

variable [NeZero N] [NeZero W]

theorem exception_next (a : RobIdx N W) : ((s.next i).rob.bank a.1 a.2).exception =
    if s.rob.rbk_at a.1 then false
    else if Rob.lxcpt_at i.toIn a.1 a.2 then true
    else if s.rob.enq_at i.toIn a.1 a.2 then (i.enq_uops a.2).exception
    else (s.rob.bank a.1 a.2).exception := rfl

theorem excepting_next (h : s.Inv) (ok : s.Ok i) (okx : s.XOk i) (hq : s.Quiet)
    {a : RobIdx N W} : (s.next i).Excepting a ↔ (s.next i).Val a ∧ s.Marked i a := by
  refine and_congr_right fun hv => ?_
  rw [exception_next, rbk_of_quiet hq, if_neg Bool.false_ne_true]
  constructor
  · intro he
    split_ifs at he with hx henq
    · obtain ⟨x, hx', rfl⟩ := lxcpt_at_iff.1 hx
      exact .inl ⟨(okx.lxcpt x hx').1, .inr ⟨x, hx', rfl⟩⟩
    · exact .inr ⟨henq, he⟩
    · exact .inl ⟨(val_next.1 hv).1.resolve_left henq, .inl he⟩
  · rintro (⟨hold, he | hx⟩ | ⟨henq, he⟩)
    · rw [enq_at_of_val h ok hold, he]
      simp
    · rw [lxcpt_at_iff.2 hx]
      simp
    · rw [henq, he]
      simp

theorem br_mask_next_of_val {a : RobIdx N W} (hv : s.Val a)
    (hk : s.rob.kill_at i.toIn a.1 a.2 = false) : ((s.next i).rob.bank a.1 a.2).uop.br_mask =
      getNewBrMask i.b1 (s.rob.bank a.1 a.2).uop.br_mask := by
  have hval : (s.rob.bank a.1 a.2).val = true := hv
  show (s.rob.uop_next i.toIn a.1 a.2).br_mask = _
  rw [Rob.uop_next, markMispredict_br_mask, hval, hk]
  rfl

theorem br_mask_next_of_enq {a : RobIdx N W} (hv : ¬ s.Val a)
    (he : s.rob.enq_at i.toIn a.1 a.2 = true) :
    ((s.next i).rob.bank a.1 a.2).uop.br_mask = (i.enq_uops a.2).br_mask := by
  have hval : (s.rob.bank a.1 a.2).val = false := by simpa [Sys.Val] using hv
  show (s.rob.uop_next i.toIn a.1 a.2).br_mask = _
  rw [Rob.uop_next, markMispredict_br_mask, hval, he]
  rfl

end Next

/-! ## The record -/

/-- What the record becomes, without a flush: the exception of the LSU if it is
    older, else the first one of dispatch if there is no record yet. -/
theorem next_xcpt_cases (hf : s.rob.flush_val i.toIn = false)
    (hs : s.rob.rob_state ≠ .s_rollback) :
    (∃ x, i.lxcpt = some x ∧ (s.rob.r_xcpt_val = true →
        isOlder x.uop.rob_idx.toNat s.record.toNat s.rob.head_idx = true) ∧
      s.rob.next_xcpt i.toIn = (true, { x.uop with exc_cause := x.cause })) ∨
    (∃ w, i.lxcpt = none ∧ s.rob.r_xcpt_val = false ∧ Rob.enq_xcpts i.toIn w = true ∧
      (∀ v, Rob.enq_xcpts i.toIn v = true → w ≤ v) ∧
      s.rob.next_xcpt i.toIn = (true, i.enq_uops w)) ∨
    (s.rob.next_xcpt i.toIn = (s.rob.r_xcpt_val, s.rob.r_xcpt_uop) ∧
      (∀ x, i.lxcpt = some x → s.rob.r_xcpt_val = true ∧
        isOlder x.uop.rob_idx.toNat s.record.toNat s.rob.head_idx = false) ∧
      (s.rob.r_xcpt_val = false → ∀ w, Rob.enq_xcpts i.toIn w = false)) := by
  unfold Rob.next_xcpt
  rw [hf]
  simp only [Bool.false_or, decide_eq_true_eq, if_neg hs]
  cases hx : i.lxcpt with
  | some x =>
    dsimp only
    split_ifs with hold
    · refine .inl ⟨x, rfl, fun hr => ?_, rfl⟩
      simpa [hr, Sys.record] using hold
    · simp only [Bool.or_eq_true, Bool.not_eq_true', not_or, Bool.not_eq_false,
        Bool.not_eq_true] at hold
      refine .inr (.inr ⟨rfl, fun y hy => ?_, fun hr => absurd (hold.1.symm.trans hr) (by simp)⟩)
      obtain rfl := Option.some.inj hy
      exact hold
  | none =>
    dsimp only
    cases hfind : (List.finRange W).find? (Rob.enq_xcpts i.toIn) with
    | some w =>
      dsimp only
      split_ifs with hr
      · exact .inr (.inl ⟨w, rfl, by simpa using hr, List.find?_some hfind,
          fun v hv => find_finRange_le hfind hv, rfl⟩)
      · exact .inr (.inr ⟨rfl, by simp, fun hr' => absurd hr' (by simpa using hr)⟩)
    | none =>
      refine .inr (.inr ⟨rfl, by simp, fun _ w => ?_⟩)
      have hno := List.find?_eq_none.1 hfind w (List.mem_finRange w)
      simpa using hno

/-- What the next record is about is marked, and knows the branches that the
    entry knows. -/
theorem marked_of_next_xcpt (x : s.XInv) (okx : s.XOk i) (ok : s.Ok i) (hq : s.Quiet)
    (hf : s.rob.flush_val i.toIn = false) (hv : (s.rob.next_xcpt i.toIn).1 = true) :
    let u := (s.rob.next_xcpt i.toIn).2
    s.Val u.rob_idx ∧ s.Marked i u.rob_idx ∧
        u.br_mask = (s.rob.bank u.rob_idx.1 u.rob_idx.2).uop.br_mask ∨
      s.rob.enq_at i.toIn u.rob_idx.1 u.rob_idx.2 = true ∧ s.Marked i u.rob_idx ∧
        u.br_mask = (i.enq_uops u.rob_idx.2).br_mask := by
  dsimp only
  rcases next_xcpt_cases hf hq.2.2 with ⟨y, hy, -, heq⟩ | ⟨w, -, -, hw, -, heq⟩ | ⟨heq, -, -⟩ <;>
    rw [heq] at hv ⊢
  · obtain ⟨hval, -, hmask, -⟩ := okx.lxcpt y hy
    exact .inl ⟨hval, .inl ⟨hval, .inr ⟨y, hy, rfl⟩⟩, hmask⟩
  · simp only [Rob.enq_xcpts, Bool.and_eq_true] at hw
    have hidx := ok.enq_idx w hw.1
    have he : s.rob.enq_at i.toIn s.rob.rob_tail w = true := by simp [Rob.enq_at, hw.1]
    dsimp only
    rw [hidx]
    exact .inr ⟨he, .inr ⟨he, hw.2⟩, rfl⟩
  · obtain ⟨⟨hval, hexc⟩, hmask⟩ := x.record hq hv
    exact .inl ⟨hval, .inl ⟨hval, .inl hexc⟩, hmask⟩

/-- and it is the oldest of what is marked. -/
theorem next_xcpt_oldest (h : s.Inv) (x : s.XInv) (ok : s.Ok i) (okx : s.XOk i) (hq : s.Quiet)
    (hf : s.rob.flush_val i.toIn = false) {a : RobIdx N W} (hm : s.Marked i a) :
    let u := (s.rob.next_xcpt i.toIn).2
    (s.rob.next_xcpt i.toIn).1 = true ∧ (a = u.rob_idx ∨ s.Before u.rob_idx a) := by
  dsimp only
  -- dispatch writes behind all valid entries, and only without a record
  have hlate : s.rob.enq_at i.toIn a.1 a.2 = true → s.rob.r_xcpt_val = false ∧
      ∀ b, s.Val b → s.Before b a := by
    intro he
    obtain ⟨hready, -, -⟩ := ok.enq_ready (enq_of_at he).2.2
    exact ⟨(ready_iff.1 hready).2.2, fun b hb => before_of_enq h ok he hb⟩
  have htrans : ∀ {b c d : RobIdx N W}, s.Before b c → s.Before c d → s.Before b d := by
    intro b c d hbc hcd
    unfold Sys.Before LexLt at *
    omega
  rcases next_xcpt_cases hf hq.2.2 with ⟨y, hy, hold, heq⟩ | ⟨w, hy, hr, hw, hfirst, heq⟩ |
    ⟨heq, hy, hno⟩ <;> rw [heq] <;> dsimp only
  · refine ⟨rfl, ?_⟩
    obtain ⟨hval, -⟩ := okx.lxcpt y hy
    rcases hm with ⟨hva, hexc | ⟨z, hz, rfl⟩⟩ | ⟨he, -⟩
    · obtain ⟨hr, hrec⟩ := x.oldest hq a ⟨hva, hexc⟩
      have hlt := (isOlder_iff x.lsb hval (x.record hq hr).1.1).1 (hold hr)
      rcases hrec with rfl | hra
      · exact .inr hlt
      · exact .inr (htrans hlt hra)
    · obtain rfl := Option.some.inj (hy.symm.trans hz)
      exact .inl rfl
    · exact .inr ((hlate he).2 _ hval)
  · refine ⟨rfl, ?_⟩
    simp only [Rob.enq_xcpts, Bool.and_eq_true] at hw
    rw [ok.enq_idx w hw.1]
    rcases hm with ⟨hva, hexc | ⟨z, hz, -⟩⟩ | ⟨he, hexc⟩
    · exact absurd (hr.symm.trans (x.oldest hq a ⟨hva, hexc⟩).1) (by simp)
    · exact absurd (hy.symm.trans hz) (by simp)
    · obtain ⟨hva, hrow, -⟩ := enq_of_at he
      rcases (hfirst a.2 (by simp [Rob.enq_xcpts, hva, hexc])).lt_or_eq with hlt | rfl
      · exact .inr (.inr ⟨by rw [hrow], hlt⟩)
      · exact .inl (Prod.ext hrow rfl)
  · rcases hm with ⟨hva, hexc | ⟨z, hz, rfl⟩⟩ | ⟨he, hexc⟩
    · exact x.oldest hq a ⟨hva, hexc⟩
    · obtain ⟨hr, hnot⟩ := hy z hz
      refine ⟨hr, ?_⟩
      by_cases hsame : z.uop.rob_idx = s.record
      · exact .inl hsame
      · refine .inr ((before_total (s := s) hsame).resolve_left fun hlt => ?_)
        have hyes := (isOlder_iff x.lsb hva (x.record hq hr).1.1).2 hlt
        exact absurd (hyes.symm.trans hnot) (by simp)
    · have hnone := hno (hlate he).1 a.2
      simp [Rob.enq_xcpts, (enq_of_at he).1, hexc] at hnone

/-! ## Unique uops -/

/-- An empty ROB holds no valid entry, if its ring is not full. -/
theorem not_val_of_empty (h : s.Inv) (hp : s.pending = none) (he : s.rob.empty = true)
    (hm : s.rob.maybe_full = false) (a : RobIdx N W) : ¬ s.Val a := by
  intro hv
  simp only [Rob.empty, Bool.and_eq_true, decide_eq_true_eq, Bool.not_eq_true'] at he
  obtain ⟨hrow, hnone⟩ := he
  rcases h.place hp a hv with hlt | ⟨htail, -⟩
  · simp [Sys.len, hrow, hm] at hlt
  · have hval : s.rob.head_vals a.2 = true := by
      rw [Rob.head_vals, hrow, ← htail]
      exact hv
    exact absurd (List.any_eq_false.1 hnone a.2 (List.mem_finRange _)) (not_not.2 hval)

theorem not_empty_of_val {w : Fin W} (hv : s.Val (s.rob.rob_head, w)) : s.rob.empty = false := by
  have hany : (List.finRange W).any s.rob.head_vals = true :=
    List.any_eq_true.2 ⟨w, List.mem_finRange w, hv⟩
  simp [Rob.empty, hany]

theorem not_enq_of_state (ok : s.Ok i) (hs : s.rob.rob_state ≠ .s_normal) :
    Rob.enq i.toIn = false := by
  by_contra henq
  exact hs (ready_iff.1 (ok.enq_ready (by simpa using henq)).1).1

theorem flushes_congr {u v : RobUop N W T} (e : u.toMicroOp = v.toMicroOp) :
    Rob.flushes u = Rob.flushes v := by
  unfold Rob.flushes
  rw [e]

/-- A rollback ends when nothing is left. -/
theorem not_val_of_rolled (h : s.Inv) (hs : s.rob.rob_state = .s_rollback)
    (he : s.rob.empty = true) (a : RobIdx N W) : ¬ s.Val a := by
  have hpend : s.pending = none := by
    by_contra hne
    obtain ⟨b, hb⟩ := Option.ne_none_iff_exists'.1 hne
    exact (h.window b hb).2.2.2 hs
  rcases h.thrown (.inr (.inr hs)) with ⟨w, hw⟩ | ⟨-, -, hm⟩
  · exact absurd (he.symm.trans (not_empty_of_val hw)) (by simp)
  · exact not_val_of_empty h hpend he hm a

section Unique

variable [NeZero N] [NeZero W]

/-- The uop of an entry that is valid after the cycle. -/
theorem uop_next_cases (h : s.Inv) (ok : s.Ok i) {a : RobIdx N W} (ha : (s.next i).Val a) :
    s.Val a ∧ ((s.next i).rob.bank a.1 a.2).uop.toMicroOp = (s.rob.bank a.1 a.2).uop.toMicroOp ∨
    s.rob.enq_at i.toIn a.1 a.2 = true ∧
      ((s.next i).rob.bank a.1 a.2).uop.toMicroOp = (i.enq_uops a.2).toMicroOp := by
  have hbase := uop_next_base (s := s) (i := i) a.1 a.2
  rcases (val_next.1 ha).1 with he | hv
  · rw [he] at hbase
    exact .inr ⟨he, hbase⟩
  · rw [enq_at_of_val h ok hv] at hbase
    exact .inl ⟨hv, hbase⟩

/-- The head stays in front of an entry of its row. -/
theorem head_next_of_val (h : s.Inv) (ok : s.Ok i) {a : RobIdx N W} (ha : (s.next i).Val a)
    (hrow : a.1 = s.rob.rob_head) : (s.next i).rob.rob_head = s.rob.rob_head := by
  rw [rob_head_next, if_neg]
  intro hf
  exact row_left h ok hf ha hrow

omit [NeZero N] [NeZero W] in
/-- A unique uop comes into a ROB without valid entries. -/
theorem not_val_of_unique (h : s.Inv) (ok : s.Ok i) (okx : s.XOk i) {w : Fin W}
    (hw : i.enq_valids w = true) (hu : (i.enq_uops w).is_unique = true) :
    s.rob.rob_head = s.rob.rob_tail ∧ ∀ b, ¬ s.Val b := by
  obtain ⟨hempty, -⟩ := okx.enq_unique w hw hu
  obtain ⟨hready, hb2, -⟩ := ok.enq_ready (List.any_eq_true.2 ⟨w, List.mem_finRange w, hw⟩)
  obtain ⟨-, hfull, -⟩ := ready_iff.1 hready
  have hht : s.rob.rob_head = s.rob.rob_tail := by
    simp only [Rob.empty, Bool.and_eq_true, decide_eq_true_eq] at hempty
    exact hempty.1
  have hm : s.rob.maybe_full = false := by simpa [Rob.full, hht] using hfull
  exact ⟨hht, not_val_of_empty h (pending_of_b2 ok hb2) hempty hm⟩

theorem alone_next (h : s.Inv) (x : s.XInv) (ok : s.Ok i) (okx : s.XOk i) {a : RobIdx N W}
    (ha : (s.next i).Val a) (hu : ((s.next i).rob.bank a.1 a.2).uop.is_unique = true) :
    a.1 = (s.next i).rob.rob_head ∧ (∀ b, (s.next i).Val b → b = a) ∧
      ((s.next i).rob.rob_state = .s_wait_till_empty ∨
        (s.next i).rob.rob_state = .s_rollback) := by
  rcases uop_next_cases h ok ha with ⟨hv, hbase⟩ | ⟨he, hbase⟩ <;> rw [hbase] at hu
  · obtain ⟨hrow, hall, hstate⟩ := x.alone a hv hu
    have henq : Rob.enq i.toIn = false :=
      not_enq_of_state ok (by rcases hstate with e | e <;> rw [e] <;> simp)
    have hfull : s.rob.empty = false := not_empty_of_val (w := a.2) (by rw [← hrow]; exact hv)
    refine ⟨hrow.trans (head_next_of_val h ok ha hrow).symm,
      fun b hb => hall b (val_of_quiet henq hb), ?_⟩
    rw [rob_state_next, Rob.state_next]
    rcases hstate with e | e <;> rw [e] <;> dsimp only <;>
      simp only [hfull, Bool.false_eq_true, if_false]
    · split_ifs
      · exact .inr rfl
      · exact .inl rfl
    · exact .inr trivial
  · -- the ROB was empty, and nothing else comes in
    obtain ⟨hw, hrow, henq⟩ := enq_of_at he
    obtain ⟨-, hsolo⟩ := okx.enq_unique a.2 hw hu
    obtain ⟨hready, -⟩ := ok.enq_ready henq
    obtain ⟨hs, -⟩ := ready_iff.1 hready
    obtain ⟨hht, hnone⟩ := not_val_of_unique h ok okx hw hu
    have hhead : a.1 = s.rob.rob_head := hrow.trans hht.symm
    refine ⟨hhead.trans (head_next_of_val h ok ha hhead).symm, fun b hb => ?_, ?_⟩
    · obtain ⟨hbw, hbrow, -⟩ := enq_of_at ((val_next.1 hb).1.resolve_right (hnone b))
      exact Prod.ext (hbrow.trans hrow.symm) (hsolo b.2 hbw)
    · have hany : ((List.finRange W).any fun w => i.enq_valids w && (i.enq_uops w).is_unique) =
          true :=
        List.any_eq_true.2 ⟨a.2, List.mem_finRange _, by simp [hw, hu]⟩
      rw [rob_state_next, Rob.state_next, hs]
      dsimp only
      rw [hany]
      split_ifs
      · exact .inr rfl
      · exact .inl rfl
      · contradiction

theorem flushes_next (h : s.Inv) (x : s.XInv) (ok : s.Ok i) (okx : s.XOk i) {a : RobIdx N W}
    (ha : (s.next i).Val a)
    (hf : Rob.flushes ((s.next i).rob.bank a.1 a.2).uop = true) :
    ((s.next i).rob.bank a.1 a.2).uop.is_unique = true := by
  rcases uop_next_cases h ok ha with ⟨hv, hbase⟩ | ⟨he, hbase⟩ <;>
    rw [flushes_congr hbase] at hf <;> rw [hbase]
  · exact x.flushes a hv hf
  · exact okx.enq_flush a.2 (enq_of_at he).1 hf

/-- A commit that flushes leaves nothing behind. -/
theorem not_val_of_flush (x : s.XInv) (ok : s.Ok i)
    (hf : s.rob.flush_commit i.toIn = true) (a : RobIdx N W) : ¬ (s.next i).Val a := by
  intro ha
  obtain ⟨w, -, hw⟩ := List.any_eq_true.1 hf
  simp only [Rob.flush_commit_mask, Bool.and_eq_true] at hw
  obtain ⟨hc, hfl⟩ := hw
  have hval := (val_of_commit hc).1
  rw [Rob.commit_uops, Rob.com_idx, if_neg (not_rollback_of_commit hc).1,
    flushes_congr (markMispredict_base _ _ _)] at hfl
  obtain ⟨-, hall, hstate⟩ := x.alone _ hval (x.flushes _ hval hfl)
  have henq : Rob.enq i.toIn = false :=
    not_enq_of_state ok (by rcases hstate with e | e <;> rw [e] <;> simp)
  obtain rfl := hall a (val_of_quiet henq ha)
  have hnc := (val_next.1 ha).2.2.2
  simp [Rob.commit_at, hc] at hnc

theorem lsb_next (h : s.Inv) (ok : s.Ok i) {w : Fin W}
    (hw : (s.next i).Val ((s.next i).rob.rob_head, w)) : (s.next i).rob.rob_head_lsb ≤ w := by
  have hlsb : (s.next i).rob.rob_head_lsb = s.rob.head_lsb_next i.toIn := rfl
  rw [hlsb, Rob.head_lsb_next]
  split_ifs with hf
  · exact Fin.zero_le w
  rw [rob_head_next, if_neg hf] at hw
  cases hfind : (List.finRange W).find? s.rob.head_vals with
  | none => exact Fin.zero_le w
  | some v =>
    show v ≤ w
    rcases (val_next.1 hw).1 with he | hold
    · have hv : s.rob.head_vals v = true := List.find?_some hfind
      have hlt := before_of_enq h ok (a := (s.rob.rob_head, w)) he
        (show s.Val (s.rob.rob_head, v) from hv)
      unfold Sys.Before LexLt at hlt
      dsimp only at hlt
      omega
    · exact find_finRange_le hfind hold

end Unique

/-! ## One cycle -/

theorem thrown_open (ht : s.rob.exception_thrown i.toIn = true) : s.Quiet ∧
    (s.rob.rob_state = .s_normal ∨ s.rob.rob_state = .s_wait_till_empty) := by
  obtain ⟨-, -, -, hb, -⟩ := exists_thrown ht
  obtain ⟨hs, h1, h2⟩ := state_of_open hb
  refine ⟨⟨h1, h2, hs⟩, ?_⟩
  simp only [Rob.commit_blocked, Bool.or_eq_false_iff, Bool.and_eq_false_iff,
    decide_eq_false_iff_not, not_not] at hb
  exact hb.1.1

/-- During a flush nothing is recorded. -/
theorem next_xcpt_flush (okx : s.XOk i) (hq : ¬ s.Quiet) :
    s.rob.next_xcpt i.toIn = (s.rob.r_xcpt_val, s.rob.r_xcpt_uop) := by
  have hx : i.lxcpt = none := by
    by_contra hne
    obtain ⟨x, hx⟩ := Option.ne_none_iff_exists'.1 hne
    exact hq (okx.lxcpt x hx).2.2.2.2
  have henq : Rob.enq i.toIn = false := by
    by_contra henq
    exact hq (okx.enq_calm (by simpa using henq))
  have hno : (List.finRange W).find? (Rob.enq_xcpts i.toIn) = none := by
    refine List.find?_eq_none.2 fun w hw => ?_
    simp [Rob.enq_xcpts, List.any_eq_false.1 henq w hw]
  unfold Rob.next_xcpt
  rw [hx, hno]
  simp

theorem throws_iff {w : Fin W} : s.rob.throws i.toIn w = true ↔
    s.Excepting (s.rob.rob_head, w) ∧ s.rob.commit_blocked = false ∧
      (∀ v < w, s.rob.holds_back i.toIn v = false) ∧ s.rob.block_xcpt i.toIn w = false := by
  simp [Rob.throws, Rob.can_throw_exception, Rob.block_commit, Sys.Excepting, Sys.Val]
  tauto

/-- A slot that throws is the recorded one. -/
theorem record_of_throws (hx : s.XInv) {w : Fin W}
    (hw : s.rob.throws i.toIn w = true) : s.rob.r_xcpt_val = true ∧
      s.record = (s.rob.rob_head, w) ∧ s.Excepting (s.rob.rob_head, w) := by
  have ht : s.rob.exception_thrown i.toIn = true :=
    List.any_eq_true.2 ⟨w, List.mem_finRange w, hw⟩
  obtain ⟨hq, -⟩ := thrown_open ht
  obtain ⟨hexc, -, hopen, -⟩ := throws_iff.1 hw
  obtain ⟨hr, hold⟩ := hx.oldest hq (s.rob.rob_head, w) hexc
  refine ⟨hr, ?_, hexc⟩
  rcases hold with e | hlt
  · exact e.symm
  · -- an older entry that is marked would hold the slot back
    simp only [Sys.Before, Sys.pos, dist_self, LexLt] at hlt
    have hzero : dist s.rob.rob_head s.record.1 = 0 ∧ s.record.2 < w := by omega
    have hrow := dist_eq_zero.1 hzero.1
    have hpass := hopen s.record.2 hzero.2
    obtain ⟨hv, he⟩ := (hx.record hq hr).1
    rw [Sys.Val, hrow] at hv
    rw [hrow] at he
    simp [Rob.holds_back, Rob.head_vals, Rob.can_throw_exception, hv, he] at hpass

section Step

variable [NeZero N] [NeZero W]

theorem r_xcpt_val_next : (s.next i).rob.r_xcpt_val = ((s.rob.next_xcpt i.toIn).1 &&
    !(s.rob.flush_val i.toIn || isKilledByBranch i.b1 (s.rob.next_xcpt i.toIn).2.br_mask)) := rfl

theorem record_next_eq : (s.next i).record = (s.rob.next_xcpt i.toIn).2.rob_idx := rfl

theorem Quiet.next (hs : s.Quiet) (ht : s.rob.exception_thrown i.toIn = false) :
    (s.next i).Quiet :=
  ⟨ht, hs.1, not_rollback_next hs.1 hs.2.1 hs.2.2⟩

/-- A cycle without a flush comes after one, or after the end of a rollback. -/
theorem quiet_next (x : s.XInv) (hq : (s.next i).Quiet) :
    s.Quiet ∧ s.rob.exception_thrown i.toIn = false ∨
      ¬ s.Quiet ∧ s.rob.rob_state = .s_rollback ∧ s.rob.empty = true := by
  obtain ⟨h1, h2, hs⟩ := hq
  have hd1 : s.rob.exc_d1 = false := h2
  have ht : s.rob.exception_thrown i.toIn = false := h1
  rw [rob_state_next] at hs
  by_cases hroll : s.rob.rob_state = .s_rollback
  · refine .inr ⟨fun hq => hq.2.2 hroll, hroll, ?_⟩
    by_contra he
    simp [Rob.state_next, hroll, he] at hs
  · refine .inl ⟨⟨hd1, ?_, hroll⟩, ht⟩
    by_contra hd2
    rw [Bool.not_eq_false] at hd2
    have hnorm := (x.second hd2).resolve_right hroll
    simp [Rob.state_next, hnorm, hd2] at hs

theorem cleared_next (x : s.XInv) (okx : s.XOk i) (hq : ¬ (s.next i).Quiet) :
    (s.next i).rob.r_xcpt_val = false := by
  rw [r_xcpt_val_next]
  cases hf : s.rob.flush_val i.toIn with
  | true => simp
  | false =>
    by_cases hs : s.Quiet
    · simp only [Rob.flush_val, Bool.or_eq_false_iff] at hf
      exact absurd (Quiet.next hs hf.1) hq
    · rw [next_xcpt_flush okx hs, x.cleared hs]
      rfl

/-- The record of the next cycle is about an entry that stays. -/
theorem record_next (h : s.Inv) (x : s.XInv) (ok : s.Ok i) (okx : s.XOk i)
    (hq : (s.next i).Quiet) (hr : (s.next i).rob.r_xcpt_val = true) :
    (s.next i).Excepting (s.next i).record ∧ (s.next i).rob.r_xcpt_uop.br_mask =
      ((s.next i).rob.bank (s.next i).record.1 (s.next i).record.2).uop.br_mask := by
  have hmask : (s.next i).rob.r_xcpt_uop.br_mask =
      getNewBrMask i.b1 (s.rob.next_xcpt i.toIn).2.br_mask := rfl
  rw [r_xcpt_val_next] at hr
  simp only [Bool.and_eq_true, Bool.not_eq_true', Bool.or_eq_false_iff] at hr
  obtain ⟨hv, hf, hk⟩ := hr
  rw [hmask, record_next_eq]
  rcases quiet_next x hq with ⟨hs, -⟩ | ⟨hs, -⟩
  · rw [excepting_next h ok okx hs]
    rcases marked_of_next_xcpt x okx ok hs hf hv with ⟨hold, hm, hbr⟩ | ⟨he, hm, hbr⟩
    · have hka : s.rob.kill_at i.toIn (s.rob.next_xcpt i.toIn).2.rob_idx.1
          (s.rob.next_xcpt i.toIn).2.rob_idx.2 = false := by
        rw [Rob.kill_at, ← hbr]
        exact hk
      have hval := val_next.2
        ⟨.inr hold, rbk_of_quiet hs _, hka, not_commit_of_marked ok okx h hm⟩
      exact ⟨⟨hval, hm⟩, by rw [br_mask_next_of_val hold hka, hbr]⟩
    · obtain ⟨hw, hrow, -⟩ := enq_of_at he
      have hval := val_of_enq h ok hw
      rw [← hrow] at hval
      exact ⟨⟨hval, hm⟩, by rw [br_mask_next_of_enq (enq_free h ok he) he, hbr, okx.enq_mask _ hw]⟩
  · rw [next_xcpt_flush okx hs, x.cleared hs] at hv
    exact absurd hv (by simp)

/-- No entry that stays marked is older. -/
theorem oldest_next (h : s.Inv) (x : s.XInv) (ok : s.Ok i) (okx : s.XOk i)
    (hq : (s.next i).Quiet) {a : RobIdx N W} (ha : (s.next i).Excepting a) :
    (s.next i).rob.r_xcpt_val = true ∧
      (a = (s.next i).record ∨ (s.next i).Before (s.next i).record a) := by
  rcases quiet_next x hq with ⟨hs, ht⟩ | ⟨-, hroll, hempty⟩
  · have hf : s.rob.flush_val i.toIn = false := by
      simp only [Rob.flush_val, ht, Bool.false_or]
      by_contra hf
      exact not_val_of_flush x ok (by simpa using hf) a ha.1
    obtain ⟨hva, hm⟩ := (excepting_next h ok okx hs).1 ha
    obtain ⟨hv, hfirst⟩ := next_xcpt_oldest h x ok okx hs hf hm
    have hr : (s.next i).rob.r_xcpt_val = true := by
      rw [r_xcpt_val_next, hv, hf, Bool.false_or, Bool.true_and, Bool.not_eq_true']
      rcases marked_of_next_xcpt x okx ok hs hf hv with ⟨hold, -, hbr⟩ | ⟨he, -, -⟩
      · -- a kill of the record would take `a` with it
        have hka := (val_next.1 hva).2.2.1
        rw [hbr]
        rcases hfirst with rfl | hlt
        · exact hka
        · rcases (val_next.1 hva).1 with he | hval
          · exact kill_quiet ok (ok.enq_ready (enq_of_at he).2.2).2.2 _ _
          · exact not_kill_of_before ok h hold hval hlt hka
      · have hnone := (ok.enq_ready (enq_of_at he).2.2).2.2
        simp [isKilledByBranch, ok.quiet hnone]
    refine ⟨hr, ?_⟩
    rw [record_next_eq]
    refine hfirst.imp_right fun hlt => ?_
    have hrec := (record_next h x ok okx hq hr).1.1
    exact (before_next h ok hrec hva).2 hlt
  · exfalso
    have henq := not_enq_of_rollback ok hroll
    exact not_val_of_rolled h hroll hempty a (val_of_quiet henq ha.1)

theorem xinv_step (h : s.Inv) (x : s.XInv) (ok : s.Ok i) (okx : s.XOk i) : (s.next i).XInv where
  record := record_next h x ok okx
  oldest hq _ ha := oldest_next h x ok okx hq ha
  cleared := cleared_next x okx
  alone _ ha hu := alone_next h x ok okx ha hu
  flushes _ ha hf := flushes_next h x ok okx ha hf
  lsb _ hw := lsb_next h ok hw
  first h1 := by
    obtain ⟨hq, hs⟩ := thrown_open h1
    rw [rob_state_next, Rob.state_next]
    rcases hs with e | e <;> rw [e] <;> dsimp only
    · simp only [hq.2.1, Bool.false_eq_true, if_false]
      split_ifs <;> simp
    · simp only [hq.1, Bool.false_eq_true, if_false]
      split_ifs <;> simp
  second h2 := by
    have hd1 : s.rob.exc_d1 = true := h2
    have henq : Rob.enq i.toIn = false := by
      by_contra henq
      have hq := okx.enq_calm (by simpa using henq)
      exact absurd (hd1.symm.trans hq.1) (by simp)
    have hno : ((List.finRange W).any fun w => i.enq_valids w && (i.enq_uops w).is_unique) =
        false :=
      List.any_eq_false.2 fun w hw => by simp [List.any_eq_false.1 henq w hw]
    rw [rob_state_next, Rob.state_next, hno]
    rcases x.first hd1 with e | e <;> rw [e] <;> dsimp only
    · split_ifs <;> simp_all
    · simp [hd1]

theorem xinv_reach (h : (rob.restrict Sys.XOk).Reach s) : s.Inv ∧ s.XInv :=
  h.inv (P := fun s => s.Inv ∧ s.XInv) (fun _ h0 => ⟨inv_reset h0, xinv_reset h0⟩)
    (fun _ _ hi ok => ⟨inv_step hi.1 ok.1, xinv_step hi.1 hi.2 ok.1 ok.2⟩)

/-- The uop that throws stays in the ROB, marked, until it is rolled back. -/
theorem thrown_stays (h : s.Inv) (ok : s.Ok i) (okx : s.XOk i) {w : Fin W}
    (hw : s.rob.throws i.toIn w = true) : (s.next i).Excepting (s.rob.rob_head, w) := by
  obtain ⟨hexc, hb, hopen, -⟩ := throws_iff.1 hw
  obtain ⟨hs, h1, h2⟩ := state_of_open hb
  have hm : s.Marked i (s.rob.rob_head, w) := .inl ⟨hexc.1, .inl hexc.2⟩
  refine (excepting_next h ok okx ⟨h1, h2, hs⟩).2 ⟨val_next.2 ⟨.inr hexc.1, ?_, ?_, ?_⟩, hm⟩
  · exact rbk_of_quiet ⟨h1, h2, hs⟩ _
  · cases hold : i.oldest with
    | none => exact kill_quiet ok hold _ _
    | some b =>
      -- a killer in front of it would be busy, and hold it back
      obtain ⟨hbv, hbsy, -, hkill⟩ := ok.kill b hold
      by_contra hk
      rw [Bool.not_eq_false] at hk
      have hlt := before_of_older h hbv hexc.1 ((hkill _ _ hexc.1).1 hk)
      simp only [Sys.Before, Sys.pos, dist_self, LexLt] at hlt
      have hzero : dist s.rob.rob_head b.1 = 0 ∧ b.2 < w := by omega
      have hrow := dist_eq_zero.1 hzero.1
      have hpass := hopen b.2 hzero.2
      rw [hrow] at hbsy hbv
      simp [Rob.holds_back, Rob.head_vals, Rob.can_commit, hbv, hbsy] at hpass
  · exact not_commit_of_marked ok okx h hm

/-! ## A unique uop that executes -/

/-- What is alone in the ROB and not marked is not flushed. -/
def Sys.Flushing (s : Sys N W T) : Prop := ¬ s.Quiet → ∀ a, s.Val a →
  (s.rob.bank a.1 a.2).uop.is_unique = true → (s.rob.bank a.1 a.2).exception = true

theorem flushing_next (h : s.Inv) (x : s.XInv) (ok : s.Ok i) (okx : s.XOk i) (hf : s.Flushing) :
    (s.next i).Flushing := by
  intro hq a ha hu
  by_cases hs : s.Quiet
  · -- the uop that throws is the only one
    have ht : s.rob.exception_thrown i.toIn = true := by
      by_contra ht
      exact hq (Quiet.next hs (Bool.eq_false_iff.2 ht))
    obtain ⟨w, -, hw⟩ := List.any_eq_true.1 ht
    have hstay := thrown_stays h ok okx hw
    obtain ⟨-, hall, -⟩ := alone_next h x ok okx ha hu
    rw [← hall _ hstay.1]
    exact hstay.2
  · have henq : Rob.enq i.toIn = false := by
      by_contra henq
      exact hs (okx.enq_calm (by simpa using henq))
    have hv := val_of_quiet henq ha
    rcases uop_next_cases h ok ha with ⟨-, hbase⟩ | ⟨he, -⟩
    · rw [hbase] at hu
      rw [exception_next, (val_next.1 ha).2.1, enq_at_of_val h ok hv, hf hs a hv hu]
      simp
    · exact absurd ((enq_of_at he).2.2.symm.trans henq) (by simp)

omit [NeZero N] [NeZero W] in
/-- While something unique executes, no exception is recorded or in flight, and
    dispatch waits. -/
theorem calm_of_alone (x : s.XInv) (hf : s.Flushing) {a : RobIdx N W} (hv : s.Val a)
    (hu : (s.rob.bank a.1 a.2).uop.is_unique = true)
    (hexc : (s.rob.bank a.1 a.2).exception = false) :
    s.Quiet ∧ s.rob.r_xcpt_val = false ∧ s.rob.ready = false := by
  obtain ⟨-, hall, hstate⟩ := x.alone a hv hu
  have hq : s.Quiet := by
    by_contra hq
    exact absurd ((hf hq a hv hu).symm.trans hexc) (by simp)
  refine ⟨hq, ?_, ?_⟩
  · by_contra hr
    obtain ⟨hval, he⟩ := (x.record hq (by simpa using hr)).1
    rw [hall _ hval] at he
    exact absurd (he.symm.trans hexc) (by simp)
  · rcases hstate with e | e <;> simp [Rob.ready, e]

/-- It leaves only by its commit. -/
theorem alone_stays (x : s.XInv) (ok : s.Ok i) (hq : s.Quiet) {a : RobIdx N W} (hv : s.Val a)
    (hu : (s.rob.bank a.1 a.2).uop.is_unique = true)
    (hc : s.rob.commit_at i.toIn a.1 a.2 = false) : (s.next i).Val a := by
  refine val_next.2 ⟨.inr hv, rbk_of_quiet hq _, ?_, hc⟩
  cases hold : i.oldest with
  | none => exact kill_quiet ok hold _ _
  | some b =>
    obtain ⟨hbv, -, -, hkill⟩ := ok.kill b hold
    obtain rfl := (x.alone a hv hu).2.1 b hbv
    by_contra hk
    have hself : s.Older b b := (hkill b.1 b.2 hv).1 (by simpa using hk)
    unfold Sys.Older LexLt at hself
    omega

/-- What commits up to a cycle is older than an entry of the head row that is
    marked. -/
theorem committed_older (hi : s.Inv) {w : Fin W} (he : s.Excepting (s.rob.rob_head, w))
    {y : Item W} (hy : y ∈ (s.next i).committed) :
    LexLt y.cycle y.slot (s.born s.rob.rob_head w) w := by
  rcases List.mem_append.1 hy with hy | hy
  · exact hi.left y hy _ he.1
  · obtain ⟨v, hc, rfl⟩ := mem_commitNow.1 hy
    refine hi.order _ _ (val_of_commit hc).1 he.1 (.inr ⟨rfl, ?_⟩)
    by_contra hge
    have hcw : s.rob.will_commit i.toIn w = true := by
      rcases (not_lt.1 hge : w ≤ v).lt_or_eq with hlt | rfl
      · exact commit_of_lt hc he.1 hlt
      · exact hc
    exact absurd (he.2.symm.trans (val_of_commit hcw).2.2) (by simp)

/-- **The exception record is precise.**  Without a flush in progress, if some
    valid entry is marked as excepting, the record is valid and names the
    oldest such entry in program order.  So an exception that is thrown is the
    recorded one, in the row of the head, and whatever has committed, also in
    this very cycle, is older than it. -/
theorem precise_exception (h : (rob.restrict Sys.XOk).Reach s) :
    (s.Quiet → ∀ a, s.Excepting a → s.rob.r_xcpt_val = true ∧ s.Excepting s.record ∧
      (a = s.record ∨ s.Older s.record a)) ∧
    (s.rob.exception_thrown i.toIn = true → s.rob.r_xcpt_val = true ∧
      s.record.1 = s.rob.rob_head ∧ (∀ w, s.rob.throws i.toIn w = true → w = s.record.2) ∧
      ∀ y ∈ (s.next i).committed,
        LexLt y.cycle y.slot (s.item s.record).cycle (s.item s.record).slot) := by
  obtain ⟨hi, hx⟩ := xinv_reach h
  refine ⟨fun hq a ha => ?_, fun ht => ?_⟩
  · obtain ⟨hr, hold⟩ := hx.oldest hq a ha
    have hrec := (hx.record hq hr).1
    exact ⟨hr, hrec, hold.imp_right (hi.order _ _ hrec.1 ha.1)⟩
  · obtain ⟨w, -, hw⟩ := List.any_eq_true.1 ht
    obtain ⟨hr, hat, he⟩ := record_of_throws hx hw
    refine ⟨hr, by rw [hat], fun v hv => ?_, fun y hy => ?_⟩
    · exact (congrArg Prod.snd (record_of_throws hx hv).2.1).symm
    · rw [hat]
      exact committed_older hi he hy

end Step

end

/-! ## A run -/

/-- Two uops come in, the second one with an exception; then the LSU reports a
    page fault for the first one. -/
def twoFaults : List (SysIn 2 2 1) :=
  [idle,
   { idle with
     enq_valids := fun _ => true
     enq_uops := fun w => { blankUop 0 w with exception := w = 1, exc_cause := 1 } },
   { idle with lxcpt := some ⟨blankUop 0 0, 13⟩ }]

theorem precise_exception_twoFaults :
    let s := rob.run resetSys twoFaults
    s.rob.exception_thrown idle.toIn = true ∧ s.rob.r_xcpt_uop.exc_cause = 13 ∧
      s.rob.r_xcpt_val = true ∧ s.record.1 = s.rob.rob_head ∧
      ∀ a, s.Excepting a → a = s.record ∨ s.Older s.record a := by
  have hreset : resetSys.Reset := by constructor <;> intros <;> rfl
  have hreach : (rob.restrict Sys.XOk).Reach (rob.run resetSys twoFaults) := by
    refine Machine.reach_run (M := rob.restrict Sys.XOk) twoFaults (.start hreset)
      ⟨⟨idle_ok _ _ rfl rfl rfl (fun _ => rfl) (by decide) (by decide) (by decide), ?_⟩,
        ⟨idle_ok _ _ rfl rfl rfl (fun _ => rfl) (by decide) (by decide) (by decide), ?_⟩,
        ⟨idle_ok _ _ rfl rfl rfl (fun _ => rfl) (by decide) (by decide) (by decide), ?_⟩, trivial⟩
    · exact ⟨by decide, by decide, by decide, by decide, by simp [idle]⟩
    · exact ⟨fun _ => ⟨rfl, rfl, by decide⟩, by decide, by decide, by decide, by simp [idle]⟩
    · refine ⟨by decide, by decide, by decide, by decide, fun x hx => ?_⟩
      obtain rfl := Option.some.inj hx
      exact ⟨rfl, by decide, rfl, by decide, rfl, rfl, by decide⟩
  obtain ⟨hold, hthrow⟩ := precise_exception (i := idle) hreach
  have ht : (rob.run resetSys twoFaults).rob.exception_thrown idle.toIn = true := by decide
  exact ⟨ht, by decide, (hthrow ht).1, (hthrow ht).2.1,
    fun a ha => (hold ⟨by decide, by decide, by decide⟩ a ha).2.2⟩

end BoomStop.Reorder
