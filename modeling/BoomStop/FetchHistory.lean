/-
  The global history in the fetch pipeline (`frontend.scala`): every fetch is
  made with a history, f1 and f2 guess the next one from the predictors, and f3
  computes it from the instructions, mends what is behind it or fetches again.

  * `HistFront.next`: a cycle of the pipeline with its histories;
  * `HistFront.Carried`: what a stage holds next has the history that is
    expected, in any respect;
  * `ras_follows`: the place in the return address stack follows the calls and
    returns, unless f3 passes on a call or a return while the packet behind it
    waits for the cache.
-/
import BoomStop.FetchPipe
import BoomStop.GlobalHistory
import Mathlib.Data.Nat.Init

namespace BoomStop.Ifu

open Sync RingOrder

variable {p : Params} {L R : ℕ}

/-! ## The bundle of f3 -/

/-- `cfi_type` as a number. -/
def CfiType.code : CfiType → BitVec 3
  | CFI_X => 0
  | CFI_BR => 1
  | CFI_JAL => 2
  | CFI_JALR => 3

/-- A bit for each slot. -/
def slotBits (slots : List (Slot p)) (f : Slot p → Bool) : ℕ :=
  Nat.ofBits fun i : Fin p.fetchWidth => slots[i.val]?.any f

/-- `f3_fetch_bundle`, as far as the queue reads it. -/
def f3_bundle (cfg : F3Cfg) (x : F3In p) (r : F3Regs) (ras_idx : ℕ) : FetchBundle p where
  pc := x.pc
  cfi_idx_valid := cfi_idx_valid cfg x r
  cfi_idx := cfi_idx cfg x r
  cfi_type := ((cfi_slot cfg x r).map fun t => t.brsigs.cfi_type.code).getD 0
  cfi_is_call := (cfi_slot cfg x r).any fun t => t.brsigs.is_call
  cfi_is_ret := (cfi_slot cfg x r).any fun t => t.brsigs.is_ret
  cfi_npc_plus4 := (cfi_slot cfg x r).any fun t => !isRVC t.inst && !t.edge_inst
  ras_top := x.ras_read_addr
  ras_idx := ras_idx
  br_mask := slotBits (f3_slots cfg x r) fun t => t.mask && t.brsigs.cfi_type == .CFI_BR
  mask := slotBits (f3_slots cfg x r) Slot.mask

/-- What f3 tells `update` of its packet. -/
def FetchBundle.historyUpdate (b : FetchBundle p) : HistoryUpdate p where
  branches := b.br_mask.testBit
  cfi_taken := b.cfi_idx_valid
  cfi_is_br := b.br_mask.testBit b.cfi_idx
  cfi_idx := b.cfi_idx
  cfi_valid := b.cfi_idx_valid
  addr := b.pc
  cfi_is_call := b.cfi_is_call
  cfi_is_ret := b.cfi_is_ret

/-- What f1 and f2 tell it, from the predictions. -/
def predictedUpdate (cfg : F3Cfg) (valid : Bool) (vpc : BitVec p.va)
    (preds : ℕ → BranchPrediction p) : HistoryUpdate p :=
  let redirects i := valid && (fetchMask p vpc).getLsbD i && (preds i).predicted_pc_valid &&
    ((preds i).is_jal || ((preds i).is_br && (preds i).taken))
  let found := (List.range p.fetchWidth).find? redirects
  let redirect_idx := found.getD (p.fetchWidth - 1)
  let do_redirect := found.isSome && cfg.useBPD
  { branches := fun i => (preds i).is_br && (preds i).predicted_pc_valid &&
      (fetchMask p vpc).getLsbD i
    cfi_taken := (preds redirect_idx).taken && do_redirect
    cfi_is_br := (preds redirect_idx).is_br
    cfi_idx := redirect_idx
    cfi_valid := do_redirect
    addr := vpc
    cfi_is_call := false
    cfi_is_ret := false }

/-! ## The pipeline with its histories -/

/-- The configuration; `dontCare` is for `GlobalHistory.update`. -/
structure HistCfg where
  f3 : F3Cfg
  enableGHistStallRepair : Bool
  dontCare : Bool × Bool

/-- The pipeline and the histories of its packets.  Ghosts: the history that a
    packet was asked from the predictors with; the one that is expected of the
    next packet that comes to f3; and the place in the stack after the redirect
    and the packets that have left f3 since. -/
structure HistFront (p : Params) (L R : ℕ) where
  front : Front p
  s1_ghist : GlobalHistory L R
  s2_ghist : GlobalHistory L R
  f3_ghist : GlobalHistory L R
  f4_bundle : FetchBundle p
  f4_ghist : GlobalHistory L R
  s2_asked : GlobalHistory L R
  f3_asked : GlobalHistory L R
  f4_asked : GlobalHistory L R
  expected : GlobalHistory L R
  ras : Fin R

namespace HistFront

variable [NeZero R] (cfg : HistCfg) (s : HistFront p L R) (i : FrontCycle p)

/-- The packet that leaves f3. -/
def leaving : Option (FrontendResp p) := if s.front.f4_ready i then s.front.f3 else none

omit [NeZero R] in
/-- Its bundle. -/
def bundle (q : FrontendResp p) : FetchBundle p :=
  f3_bundle cfg.f3 (Front.f3_in i q) s.front.regs s.f3_ghist.ras_idx

/-- `f3_predicted_ghist`. -/
def f3_predicted_ghist (q : FrontendResp p) : GlobalHistory L R :=
  s.f3_ghist.update cfg.dontCare (s.bundle cfg i q).historyUpdate

/-- `f1_predicted_ghist`. -/
def f1_predicted_ghist : GlobalHistory L R :=
  s.s1_ghist.update cfg.dontCare
    (predictedUpdate cfg.f3 s.front.s1.valid s.front.s1.vpc i.f1_preds)

/-- `f2_predicted_ghist`. -/
def f2_predicted_ghist : GlobalHistory L R :=
  s.s2_ghist.update cfg.dontCare
    (predictedUpdate cfg.f3 s.front.s2.valid s.front.s2.vpc i.f2_preds)

/-- The cycle, with the histories that have to be corrected. -/
def cycle : FrontCycle p :=
  { i with
    f2_correct_f1_ghist :=
      !s.s1_ghist.same (s.f2_predicted_ghist cfg i) && cfg.enableGHistStallRepair
    f3_correct_f1_ghist := (s.leaving i).any fun q =>
      !s.s1_ghist.same (s.f3_predicted_ghist cfg i q) && cfg.enableGHistStallRepair
    f3_correct_f2_ghist := (s.leaving i).any fun q =>
      !s.s2_ghist.same (s.f3_predicted_ghist cfg i q) && cfg.enableGHistStallRepair }

/-- `f3.io.enq.bits.ghist`: f3 mends the packet that comes to it. -/
def f3_enq_ghist : GlobalHistory L R :=
  match s.leaving i with
  | some q =>
    if s.front.s2.valid &&
        s.front.s2.vpc == f3_predicted_target cfg.f3 (Front.f3_in i q) s.front.regs &&
        !(s.cycle cfg i).f3_correct_f2_ghist then s.f3_predicted_ghist cfg i q
    else s.s2_ghist
  | none => s.s2_ghist

/-- `s2_ghist` after f2 has looked at the packet behind its own. -/
def s2_ghist_f2 : GlobalHistory L R :=
  if !s.front.replay i && s.front.s2.valid && s.front.f3_ready i && s.front.s1.valid &&
      s.front.s1.vpc == s.front.f2_predicted_target cfg.f3 i &&
      !(s.cycle cfg i).f2_correct_f1_ghist then s.f2_predicted_ghist cfg i
  else s.s1_ghist

/-- and after f3 has mended it. -/
def s2_ghist_next : GlobalHistory L R :=
  match s.leaving i with
  | some q =>
    if !s.front.s2.valid && s.front.s1.valid &&
        s.front.s1.vpc == f3_predicted_target cfg.f3 (Front.f3_in i q) s.front.regs &&
        !(s.cycle cfg i).f3_correct_f1_ghist then s.f3_predicted_ghist cfg i q
    else s.s2_ghist_f2 cfg i
  | none => s.s2_ghist_f2 cfg i

/-- `s0_ghist`: a later statement wins. -/
def s0_ghist_f2 : GlobalHistory L R :=
  if s.front.replay i then s.s2_ghist
  else if s.front.f2_redirect cfg.f3 (s.cycle cfg i) then s.f2_predicted_ghist cfg i
  else if s.front.s1.valid && !s.front.s1_tlb_miss i then s.f1_predicted_ghist cfg i
  else ⟨0, false, false, false, 0⟩

/-- The history that s0 takes if the core does not redirect. -/
def s0_ghist_f3 : GlobalHistory L R :=
  match s.leaving i with
  | some q =>
    if s.front.f3_redirect cfg.f3 (s.cycle cfg i) then s.f3_predicted_ghist cfg i q
    else s.s0_ghist_f2 cfg i
  | none => s.s0_ghist_f2 cfg i

/-- `s0_ghist`. -/
def s0_ghist (redirect_ghist : GlobalHistory L R) : GlobalHistory L R :=
  if i.sfence.isNone && i.redirect_flush then redirect_ghist else s.s0_ghist_f3 cfg i

/-- A cycle, with the history of a redirect. -/
def next (redirect_ghist : GlobalHistory L R) : HistFront p L R where
  front := s.front.next cfg.f3 (s.cycle cfg i)
  s1_ghist := s.s0_ghist cfg i redirect_ghist
  s2_ghist := s.s2_ghist_next cfg i
  f3_ghist := if (s.front.f3_enq cfg.f3 (s.cycle cfg i)).isSome then s.f3_enq_ghist cfg i
    else s.f3_ghist
  f4_bundle := ((s.leaving i).map (s.bundle cfg i)).getD s.f4_bundle
  f4_ghist := if (s.leaving i).isSome then s.f3_ghist else s.f4_ghist
  s2_asked := s.s1_ghist
  f3_asked := if (s.front.f3_enq cfg.f3 (s.cycle cfg i)).isSome then s.s2_asked else s.f3_asked
  f4_asked := if (s.leaving i).isSome then s.f3_asked else s.f4_asked
  expected :=
    if i.redirect_val then redirect_ghist
    else ((s.leaving i).map (s.f3_predicted_ghist cfg i)).getD s.expected
  ras :=
    if i.redirect_val then redirect_ghist.ras_idx
    else match s.leaving i with
      | some q => rasStep (s.bundle cfg i q).historyUpdate.calls
          (s.bundle cfg i q).historyUpdate.returns s.ras
      | none => s.ras

end HistFront

/-- The frontend after reset; a redirect of the core always flushes it. -/
def histFrontend (cfg : HistCfg) [NeZero R] :
    Machine (HistFront p L R) (FrontCycle p × GlobalHistory L R) where
  start s := (frontend cfg.f3).start s.front ∧ s.s1_ghist = ⟨0, false, false, false, 0⟩ ∧
    s.expected = s.s1_ghist ∧ s.ras = s.s1_ghist.ras_idx
  ok _ i := i.1.redirect_val = true → i.1.redirect_flush = true
  next s i := s.next cfg i.1 i.2

/-! ## What a cycle does to the histories -/

namespace HistFront

variable [NeZero R] {cfg : HistCfg} {s : HistFront p L R} {i : FrontCycle p}
  {redirect_ghist : GlobalHistory L R}

omit [NeZero R] in
theorem f3_fire_eq : s.front.f3_fire cfg.f3 i =
    (s.leaving i).map (s.front.f3_fetch_bundle cfg.f3 i) := by
  rw [Front.f3_fire, leaving]
  split_ifs
  · rfl
  · rfl

theorem cycle_leaving : s.leaving (s.cycle cfg i) = s.leaving i := rfl

omit [NeZero R] in
theorem front_of_leaving {q : FrontendResp p} (h : s.leaving i = some q) :
    s.front.f4_ready i = true ∧ s.front.f3 = some q := by
  rw [leaving] at h
  split_ifs at h with hr
  exact ⟨hr, h⟩

variable (cfg) in
theorem fire_of_leaving {q : FrontendResp p} (h : s.leaving i = some q) :
    s.front.f3_fire cfg.f3 (s.cycle cfg i) =
      some (s.front.f3_fetch_bundle cfg.f3 (s.cycle cfg i) q) := by
  rw [f3_fire_eq, cycle_leaving, h]
  rfl

variable (cfg) in
theorem hold_of_leaving (h : s.leaving i = none) :
    s.front.f3_fire cfg.f3 (s.cycle cfg i) = none := by
  rw [f3_fire_eq, cycle_leaving, h]
  rfl

/-- What follows the packet that leaves is compared with it. -/
theorem redirect_of_leaving {q : FrontendResp p} (h : s.leaving i = some q) :
    s.front.f3_redirect cfg.f3 (s.cycle cfg i) = false ↔
      (s.front.s2.valid = true →
        s.front.s2.vpc = f3_predicted_target cfg.f3 (Front.f3_in i q) s.front.regs ∧
        (s.cycle cfg i).f3_correct_f2_ghist = false) ∧
      (s.front.s2.valid = false → s.front.s1.valid = true ∧
        s.front.s1.vpc = f3_predicted_target cfg.f3 (Front.f3_in i q) s.front.regs ∧
        (s.cycle cfg i).f3_correct_f1_ghist = false) := by
  rw [Front.f3_redirect, fire_of_leaving cfg h, Option.any_some]
  change (_ && (s.front.s2.vpc != f3_predicted_target cfg.f3 (Front.f3_in i q) s.front.regs || _) ||
    _ && (s.front.s1.vpc != f3_predicted_target cfg.f3 (Front.f3_in i q) s.front.regs || _) ||
    _) = false ↔ _
  cases s.front.s2.valid <;> cases s.front.s1.valid <;> simp

/-- The histories that f3 mends are those it need not correct. -/
theorem same_of_not_correct (he : cfg.enableGHistStallRepair = true) {q : FrontendResp p}
    (h : s.leaving i = some q) :
    ((s.cycle cfg i).f3_correct_f2_ghist = false →
      s.s2_ghist.same (s.f3_predicted_ghist cfg i q) = true) ∧
    ((s.cycle cfg i).f3_correct_f1_ghist = false →
      s.s1_ghist.same (s.f3_predicted_ghist cfg i q) = true) := by
  have h2 : (s.cycle cfg i).f3_correct_f2_ghist =
      (!s.s2_ghist.same (s.f3_predicted_ghist cfg i q) && cfg.enableGHistStallRepair) := by
    change (s.leaving i).any _ = _
    rw [h, Option.any_some]
  have h1 : (s.cycle cfg i).f3_correct_f1_ghist =
      (!s.s1_ghist.same (s.f3_predicted_ghist cfg i q) && cfg.enableGHistStallRepair) := by
    change (s.leaving i).any _ = _
    rw [h, Option.any_some]
  rw [h2, h1, he, Bool.and_true, Bool.and_true, Bool.not_eq_false', Bool.not_eq_false']
  exact ⟨id, id⟩

theorem f3_enq_ghist_of_leaving {q : FrontendResp p} (h : s.leaving i = some q)
    (hv : s.front.s2.valid = true) (h3 : s.front.f3_redirect cfg.f3 (s.cycle cfg i) = false) :
    s.f3_enq_ghist cfg i = s.f3_predicted_ghist cfg i q := by
  obtain ⟨hpc, hc⟩ := ((redirect_of_leaving h).1 h3).1 hv
  rw [f3_enq_ghist, h]
  simp only [hv, hpc, hc, beq_self_eq_true, Bool.not_false, Bool.and_self, if_true]

theorem f3_enq_ghist_of_none (h : s.leaving i = none) : s.f3_enq_ghist cfg i = s.s2_ghist := by
  rw [f3_enq_ghist, h]

theorem s2_ghist_next_of_leaving {q : FrontendResp p} (h : s.leaving i = some q)
    (hv : s.front.s2.valid = false) (h3 : s.front.f3_redirect cfg.f3 (s.cycle cfg i) = false) :
    s.s2_ghist_next cfg i = s.f3_predicted_ghist cfg i q := by
  obtain ⟨h1, hpc, hc⟩ := ((redirect_of_leaving h).1 h3).2 hv
  rw [s2_ghist_next, h]
  simp only [hv, h1, hpc, hc, beq_self_eq_true, Bool.not_false, Bool.and_self, if_true]

theorem s2_ghist_next_of_none (h : s.leaving i = none) (hv : s.front.s2.valid = false) :
    s.s2_ghist_next cfg i = s.s1_ghist := by
  rw [s2_ghist_next, h]
  change s.s2_ghist_f2 cfg i = _
  rw [s2_ghist_f2, hv, Bool.and_false, Bool.false_and, Bool.false_and, Bool.false_and,
    Bool.false_and, if_neg Bool.false_ne_true]

theorem s0_ghist_of_not_cancel (hc : Front.cancel i = false) :
    s.s0_ghist cfg i redirect_ghist = s.s0_ghist_f3 cfg i := by
  rw [Front.cancel, Bool.or_eq_false_iff] at hc
  rw [s0_ghist, hc.2, Bool.and_false, if_neg Bool.false_ne_true]

theorem s0_ghist_of_redirect (hc : Front.cancel i = false) {q : FrontendResp p}
    (h : s.leaving i = some q) (h3 : s.front.f3_redirect cfg.f3 (s.cycle cfg i) = true) :
    s.s0_ghist cfg i redirect_ghist = s.f3_predicted_ghist cfg i q := by
  rw [s0_ghist_of_not_cancel hc, s0_ghist_f3, h]
  exact if_pos h3

theorem s0_ghist_of_replay (hc : Front.cancel i = false)
    (h3 : s.front.f3_redirect cfg.f3 (s.cycle cfg i) = false)
    (hr : s.front.replay (s.cycle cfg i) = true) :
    s.s0_ghist cfg i redirect_ghist = s.s2_ghist := by
  have h2 : s.s0_ghist_f2 cfg i = s.s2_ghist := if_pos hr
  rw [s0_ghist_of_not_cancel hc, s0_ghist_f3]
  split
  · rw [h3, if_neg Bool.false_ne_true, h2]
  · exact h2

theorem expected_next (hc : i.redirect_val = false) : (s.next cfg i redirect_ghist).expected =
    ((s.leaving i).map (s.f3_predicted_ghist cfg i)).getD s.expected := by
  change (if i.redirect_val then _ else _) = _
  rw [hc, if_neg Bool.false_ne_true]

/-! ## What is carried -/

/-- What comes to f3 next has the expected history, as far as `Rel` goes. -/
structure Carried (Rel : GlobalHistory L R → GlobalHistory L R → Prop) (s : HistFront p L R) :
    Prop where
  f3 : ∀ q, s.front.f3 = some q → Rel s.f3_ghist s.expected
  s2 : s.front.f3 = none → s.front.s2.valid = true → Rel s.s2_ghist s.expected
  s1 : s.front.f3 = none → s.front.s2.valid = false → s.front.s1.valid = true →
    Rel s.s1_ghist s.expected

/-- The packet behind the one that leaves f3 stays in s2, and is fetched again. -/
structure LeftBehind (cfg : HistCfg) (s : HistFront p L R) (i : FrontCycle p)
    (q : FrontendResp p) : Prop where
  leaving : s.leaving i = some q
  not_cancel : Front.cancel i = false
  follows : s.front.f3_redirect cfg.f3 (s.cycle cfg i) = false
  valid : s.front.s2.valid = true
  stays : s.front.f3_enq cfg.f3 (s.cycle cfg i) = none

variable {Rel : GlobalHistory L R → GlobalHistory L R → Prop}

theorem redirect_val_of_not_cancel (hok : i.redirect_val = true → i.redirect_flush = true)
    (hc : Front.cancel i = false) : i.redirect_val = false := by
  rw [Front.cancel, Bool.or_eq_false_iff] at hc
  rw [Bool.eq_false_iff]
  intro hv
  exact absurd (hok hv) (by rw [hc.2]; exact Bool.false_ne_true)

omit [NeZero R] in
theorem of_orders_redirect {pc : BitVec p.va} (h : Front.orders i = some (.redirect pc)) :
    i.sfence = none ∧ i.redirect_flush = true ∧ i.redirect_val = true := by
  cases hs : i.sfence <;> cases hf : i.redirect_flush <;> cases hv : i.redirect_val <;>
    simp [Front.orders, hs, hf, hv] at h ⊢

variable (cfg redirect_ghist) in
/-- Nothing is left behind s1 when the core cancels. -/
theorem next_of_cancel (hc : Front.cancel i = true) :
    (s.next cfg i redirect_ghist).front.f3 = none ∧
      (s.next cfg i redirect_ghist).front.f4 = none ∧
      (s.next cfg i redirect_ghist).front.s2.valid = false :=
  Front.empty_of_cancel cfg.f3 s.front (show Front.cancel (s.cycle cfg i) = true from hc)

theorem carried_of_cancel (hrel : ∀ g, Rel g g) (hc : Front.cancel i = true) :
    Carried Rel (s.next cfg i redirect_ghist) := by
  have hc' : Front.cancel (s.cycle cfg i) = true := hc
  obtain ⟨h3, -, h2⟩ := next_of_cancel (s := s) cfg redirect_ghist hc
  refine ⟨fun q hq => ?_, fun _ hv => ?_, fun _ _ hv => ?_⟩
  · rw [h3] at hq
    cases hq
  · rw [h2] at hv
    cases hv
  · have hv' : (s.front.s0 cfg.f3 (s.cycle cfg i)).valid = true := hv
    have ho := (Front.s0_of_cancel hc' hv').1
    obtain ⟨hs, hf, hval⟩ := of_orders_redirect (i := i) ho
    have h1 : (s.next cfg i redirect_ghist).s1_ghist = redirect_ghist :=
      if_pos (by rw [hs, hf]; rfl)
    have he : (s.next cfg i redirect_ghist).expected = redirect_ghist := if_pos hval
    rw [h1, he]
    exact hrel _

theorem Carried.f3_next (hrel : ∀ g, Rel g g) (h : Carried Rel s) (hc : Front.cancel i = false)
    (hv : i.redirect_val = false) {q : FrontendResp p}
    (hq : (s.next cfg i redirect_ghist).front.f3 = some q) :
    Rel (s.next cfg i redirect_ghist).f3_ghist (s.next cfg i redirect_ghist).expected := by
  have hc' : Front.cancel (s.cycle cfg i) = false := hc
  rw [expected_next hv]
  change Rel (if (s.front.f3_enq cfg.f3 (s.cycle cfg i)).isSome then _ else _) _
  rcases Front.nextF3_eq_some hc' hq with he | ⟨he, hr, hq⟩
  · obtain ⟨h2, h3, -⟩ := Front.f3_enq_eq_some he
    rw [he, Option.isSome_some, if_pos rfl]
    cases hl : s.leaving i with
    | some q₀ =>
      rw [f3_enq_ghist_of_leaving hl h2 h3]
      exact hrel _
    | none =>
      rw [f3_enq_ghist_of_none hl]
      exact h.s2 (Front.f3_of_f3_enq he (hold_of_leaving cfg hl)) h2
  · have hl : s.leaving i = none := if_neg (Bool.eq_false_iff.1 hr)
    rw [he, hl, Option.isSome_none, if_neg Bool.false_ne_true]
    exact h.f3 q hq

theorem Carried.s2_next (hrel : ∀ g, Rel g g) (h : Carried Rel s) (hv : i.redirect_val = false)
    (h3 : (s.next cfg i redirect_ghist).front.f3 = none)
    (h2 : (s.next cfg i redirect_ghist).front.s2.valid = true) :
    Rel (s.next cfg i redirect_ghist).s2_ghist (s.next cfg i redirect_ghist).expected := by
  obtain ⟨h1, hclear⟩ := Front.s2_valid_next h2
  obtain ⟨hrep, -, hred, hc⟩ := Front.f1_clear_eq_false hclear
  obtain ⟨he, hnone⟩ := Front.f3_of_nextF3 hc h3
  have hs2 := Front.s2_of_not_replay hc hred hrep he
  rw [expected_next hv]
  change Rel (s.s2_ghist_next cfg i) _
  cases hl : s.leaving i with
  | some q =>
    rw [s2_ghist_next_of_leaving hl (hs2 (Front.f3_ready_of_fire (fire_of_leaving cfg hl))) hred]
    exact hrel _
  | none =>
    have hn := hnone (hold_of_leaving cfg hl)
    rw [s2_ghist_next_of_none hl (hs2 (Front.f3_ready_of_none hn))]
    exact h.s1 hn (hs2 (Front.f3_ready_of_none hn)) h1

theorem Carried.s1_next (hrel : ∀ g, Rel g g) (h : Carried Rel s) (hc : Front.cancel i = false)
    (hv : i.redirect_val = false)
    (hlost : ∀ q, LeftBehind cfg s i q → Rel s.s2_ghist (s.f3_predicted_ghist cfg i q))
    (h3 : (s.next cfg i redirect_ghist).front.f3 = none)
    (h2 : (s.next cfg i redirect_ghist).front.s2.valid = false)
    (h1 : (s.next cfg i redirect_ghist).front.s1.valid = true) :
    Rel (s.next cfg i redirect_ghist).s1_ghist (s.next cfg i redirect_ghist).expected := by
  have hc' : Front.cancel (s.cycle cfg i) = false := hc
  obtain ⟨he, hnone⟩ := Front.f3_of_nextF3 hc' h3
  rw [expected_next hv]
  change Rel (s.s0_ghist cfg i redirect_ghist) _
  cases hl : s.leaving i with
  | some q =>
    have hr := Front.f3_ready_of_fire (fire_of_leaving cfg hl)
    cases hred : s.front.f3_redirect cfg.f3 (s.cycle cfg i) with
    | true =>
      rw [s0_ghist_of_redirect hc hl hred]
      exact hrel _
    | false =>
      cases hval : s.front.s2.valid with
      | true =>
        rw [s0_ghist_of_replay hc hred (Front.replay_of_f3_enq hc' hval hred hr he)]
        exact hlost q ⟨hl, hc, hred, hval, he⟩
      | false =>
        have := (((redirect_of_leaving hl).1 hred).2 hval).1
        rw [Front.s1_of_s2_next hc' hred hval h2] at this
        cases this
  | none =>
    have hf := hold_of_leaving cfg hl
    have hn := hnone hf
    have hred := Front.f3_redirect_of_none hf
    cases hval : s.front.s2.valid with
    | true =>
      rw [s0_ghist_of_replay hc hred
        (Front.replay_of_f3_enq hc' hval hred (Front.f3_ready_of_none hn) he)]
      exact h.s2 hn hval
    | false =>
      have h1' : (s.front.s0 cfg.f3 (s.cycle cfg i)).valid = true := h1
      rw [Front.s0_of_empty hc' hred (Front.s1_of_s2_next hc' hred hval h2) hval] at h1'
      cases h1'

/-- **The histories are carried on** in any respect that is not lost with a
    packet that f3 leaves behind. -/
theorem Carried.next (hrel : ∀ g, Rel g g) (h : Carried Rel s)
    (hok : i.redirect_val = true → i.redirect_flush = true)
    (hlost : ∀ q, LeftBehind cfg s i q → Rel s.s2_ghist (s.f3_predicted_ghist cfg i q)) :
    Carried Rel (s.next cfg i redirect_ghist) := by
  cases hc : Front.cancel i with
  | true => exact carried_of_cancel hrel hc
  | false =>
    have hv := redirect_val_of_not_cancel hok hc
    exact ⟨fun _ => h.f3_next hrel hc hv, h.s2_next hrel hv, h.s1_next hrel hc hv hlost⟩

theorem carried_of_start (hrel : ∀ g, Rel g g) (h : (histFrontend cfg).start s) :
    Carried Rel s := by
  obtain ⟨⟨-, -, h2, -, h3, -⟩, -, he, -⟩ := h
  refine ⟨fun q hq => ?_, fun _ hv => ?_, fun _ _ _ => ?_⟩
  · rw [h3] at hq
    cases hq
  · rw [h2] at hv
    cases hv
  · rw [he]
    exact hrel _

/-! ## The return address stack -/

/-- What f3 does to the stack is not lost: where it passes on a packet and the
    one behind it waits in s2 for the cache, this one has its place already. -/
def KeepsRas (cfg : HistCfg) (s : HistFront p L R) (i : FrontCycle p × GlobalHistory L R) :
    Prop :=
  ∀ q, s.leaving i.1 = some q → Front.cancel i.1 = false →
    s.front.f3_redirect cfg.f3 (s.cycle cfg i.1) = false → s.front.s2.valid = true →
    s.front.icache_resp_valid i.1 = false →
    (s.front.s2.tlb_resp.any && !s.front.s2.tlb_miss) = false →
    s.s2_ghist.ras_idx = rasStep (s.bundle cfg i.1 q).historyUpdate.calls
      (s.bundle cfg i.1 q).historyUpdate.returns s.f3_ghist.ras_idx

/-- A packet that is left behind waits for the cache. -/
theorem LeftBehind.waits {q : FrontendResp p} (h : LeftBehind cfg s i q) :
    s.front.icache_resp_valid i = false ∧
      (s.front.s2.tlb_resp.any && !s.front.s2.tlb_miss) = false := by
  have hc : Front.cancel (s.cycle cfg i) = false := h.not_cancel
  have hr := Front.f3_ready_of_fire (fire_of_leaving cfg h.leaving)
  have hno := h.stays
  rw [Front.f3_enq] at hno
  split_ifs at hno with hin
  rw [Front.f2_clear, h.follows, hc, h.valid, hr] at hin
  simp only [Bool.or_self, Bool.not_false, Bool.and_self, Bool.true_and, Bool.and_true,
    Bool.or_eq_true, not_or, Bool.not_eq_true] at hin
  exact hin

/-- The places of what comes to f3 next, and the place that is expected. -/
structure RasInv (s : HistFront p L R) : Prop where
  carried : Carried (fun g e => g.ras_idx = e.ras_idx) s
  ras : s.ras = s.expected.ras_idx

theorem RasInv.next (h : RasInv s) (hok : i.redirect_val = true → i.redirect_flush = true)
    (hk : KeepsRas cfg s (i, redirect_ghist)) : RasInv (s.next cfg i redirect_ghist) := by
  refine ⟨h.carried.next (fun _ => rfl) hok fun q hl => ?_, ?_⟩
  · have hw := hl.waits
    rw [f3_predicted_ghist, GlobalHistory.ras_idx_update]
    exact hk q hl.leaving hl.not_cancel hl.follows hl.valid hw.1 hw.2
  · change (if i.redirect_val then _ else _) =
      (if i.redirect_val then redirect_ghist else
        ((s.leaving i).map (s.f3_predicted_ghist cfg i)).getD s.expected).ras_idx
    split_ifs with hv
    · rfl
    · cases hl : s.leaving i with
      | none => exact h.ras
      | some q =>
        change rasStep _ _ s.ras = (s.f3_predicted_ghist cfg i q).ras_idx
        rw [f3_predicted_ghist, GlobalHistory.ras_idx_update, h.ras,
          ← h.carried.f3 q (front_of_leaving hl).2]

theorem rasInv_of_start (h : (histFrontend cfg).start s) : RasInv s :=
  ⟨carried_of_start (fun _ => rfl) h, by rw [h.2.2.2, h.2.2.1]⟩

/-- **The place in the return address stack follows the calls and returns** in
    every run that keeps it. -/
theorem ras_follows (cfg : HistCfg) {s : HistFront p L R}
    (h : ((histFrontend cfg).restrict (KeepsRas cfg)).Reach s) :
    ∀ q, s.front.f3 = some q → s.f3_ghist.ras_idx = s.ras := by
  have hinv : RasInv s := h.inv (fun _ => rasInv_of_start) fun _ _ hi hok => hi.next hok.1 hok.2
  intro q hq
  rw [hinv.ras]
  exact hinv.carried.f3 q hq

end HistFront

/-! ## A call -/

/-- Stalls repair the history. -/
def callCfg : HistCfg := ⟨nopCfg, true, (false, false)⟩

/-- The frontend after reset. -/
def resetHist : HistFront wideFetch 8 4 where
  front := resetFront
  s1_ghist := ⟨0, false, false, false, 0⟩
  s2_ghist := ⟨0, false, false, false, 0⟩
  f3_ghist := ⟨0, false, false, false, 0⟩
  f4_bundle := ⟨0, false, 0, 0, false, false, false, 0, 0, 0, 0⟩
  f4_ghist := ⟨0, false, false, false, 0⟩
  s2_asked := ⟨0, false, false, false, 0⟩
  f3_asked := ⟨0, false, false, false, 0⟩
  f4_asked := ⟨0, false, false, false, 0⟩
  expected := ⟨0, false, false, false, 0⟩
  ras := 0

theorem resetHist_start : (histFrontend callCfg).start resetHist :=
  ⟨⟨rfl, rfl, rfl, rfl, rfl, rfl, rfl, rfl, Nat.one_pos⟩, rfl, rfl, rfl⟩

/-- The predictors know of a call to 0x2000 in the first slot. -/
def callPreds (k : ℕ) : BranchPrediction wideFetch := ⟨k == 0, 0x2000, k == 0, false, false⟩

/-- `jal ra, 0x1000`. -/
def callData (k : ℕ) : BitVec 16 := if k = 0 then 0x10ef else if k = 1 then 0 else 1

/-- f1 and f2 see the call, and the packet behind it comes to s2. -/
def callRun : List (FrontCycle wideFetch × GlobalHistory 8 4) :=
  [({ hitCycle with f1_preds := callPreds }, ⟨0, false, false, false, 0⟩),
    ({ hitCycle with f2_preds := callPreds, icache_data := callData },
      ⟨0, false, false, false, 0⟩)]

/-- A packet that hits. -/
def hit : FrontCycle wideFetch × GlobalHistory 8 4 := (hitCycle, ⟨0, false, false, false, 0⟩)

/-- A packet that misses. -/
def miss : FrontCycle wideFetch × GlobalHistory 8 4 :=
  ({ hitCycle with icache_hit := false }, ⟨0, false, false, false, 0⟩)

/-- A cycle without a redirect, in which nothing leaves f3 or the cache answers. -/
def answered (s : HistFront wideFetch 8 4) (i : FrontCycle wideFetch × GlobalHistory 8 4) : Bool :=
  !i.1.redirect_val && ((s.leaving i.1).isNone || s.front.icache_resp_valid i.1)

theorem ok_of_answered (s : HistFront wideFetch 8 4)
    (i : FrontCycle wideFetch × GlobalHistory 8 4) (h : answered s i = true) :
    ((histFrontend callCfg).restrict (HistFront.KeepsRas callCfg)).ok s i := by
  rw [answered, Bool.and_eq_true, Bool.or_eq_true, Bool.not_eq_true'] at h
  refine ⟨fun hv => absurd (h.1.symm.trans hv) Bool.false_ne_true, fun q hl _ _ _ hr _ => ?_⟩
  rcases h.2 with hn | hresp
  · rw [hl] at hn
    cases hn
  · exact absurd (hr.symm.trans hresp) Bool.false_ne_true

/-- The packet after the call has its place in the stack when the cache has it. -/
theorem ras_follows_hit :
    ((histFrontend callCfg).run resetHist (callRun ++ [hit])).f3_ghist.ras_idx = 1 := by
  have hf : ((histFrontend callCfg).run resetHist (callRun ++ [hit])).front.f3.isSome = true := by
    decide +kernel
  have hr : ((histFrontend callCfg).restrict (HistFront.KeepsRas callCfg)).Reach
      ((histFrontend callCfg).run resetHist (callRun ++ [hit])) := by
    rw [← Machine.run_restrict]
    exact Machine.reach_run _ (.start resetHist_start)
      (Machine.accepts_of_passes ok_of_answered _ _ (by decide +kernel))
  rw [HistFront.ras_follows callCfg hr _ (Option.some_get hf).symm]
  decide +kernel

/-- It has lost it when it had to be fetched again. -/
theorem not_ras_follows : ¬∀ s : HistFront wideFetch 8 4, (histFrontend callCfg).Reach s →
    ∀ q, s.front.f3 = some q → s.f3_ghist.ras_idx = s.ras := by
  intro hall
  have hf : ((histFrontend callCfg).run resetHist
      (callRun ++ [miss, hit, hit])).front.f3.isSome = true := by
    decide +kernel
  have hr : (histFrontend callCfg).Reach
      ((histFrontend callCfg).run resetHist (callRun ++ [miss, hit, hit])) :=
    Machine.reach_run _ (.start resetHist_start)
      ⟨nofun, nofun, nofun, nofun, nofun, trivial⟩
  have h := hall _ hr _ (Option.some_get hf).symm
  have hne : ((histFrontend callCfg).run resetHist (callRun ++ [miss, hit, hit])).f3_ghist.ras_idx ≠
      ((histFrontend callCfg).run resetHist (callRun ++ [miss, hit, hit])).ras := by
    decide +kernel
  exact hne h

end BoomStop.Ifu
