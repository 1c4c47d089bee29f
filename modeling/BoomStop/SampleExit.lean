/-
  The two places where the core decides on a sample (`core.scala`): the block
  that redirects the front end one cycle after a flush, and the block that
  drives `csr.io.exception` and `userExitPC`.  Both look at the registered
  exception and at the live registers, and they agree.

  * `State`: the core of `Sampling`, with the fetch fields of its uops and the
    registers from which the PC of an exception is rebuilt;
  * `State.redirect_target`: where the front end is sent;
  * `State.Inv`, `inv_step`: what the delayed exception, the delayed flush type
    and the rebuilt PC have to do with the uop that threw;
  * `redirect_agrees`: the result.
-/
import BoomStop.SfbSample

namespace BoomStop.SampleExit

open Sync Reorder RingOrder
open Sampling (Core)
open SfbSample (Gapless first_of_throws gapless_step)

variable {N W T va : ℕ}

/-! ## The PC of an exception -/

/-- `AlignPCToBoundary` -/
def alignPCToBoundary (pc : BitVec va) (b : ℕ) : BitVec va := ~~~(~~~pc ||| .ofNat va (b - 1))

/-- A PC from the PC of its fetch packet; `b` is `icBlockBytes`. -/
def rebuildPC (b : ℕ) (base : BitVec va) (pc_lob : ℕ) (edge_inst : Bool) : BitVec va :=
  alignPCToBoundary base b + .ofNat va pc_lob - if edge_inst then 2 else 0

/-- The fields of a fetched uop that its PC is rebuilt from, and the PC. -/
structure Fetched (va : ℕ) where
  ftq_idx : ℕ
  pc_lob : ℕ
  edge_inst : Bool
  pc : BitVec va

/-- Where the front end is redirected to. -/
inductive Target
  | exitFuncAddr | evec | evec_d2 | tempReg (rtemp : BitVec 2) | flush_pc | flush_pc_next | mispredict
  deriving DecidableEq

/-- The core; the fetch fields of the uops in rename2 and in the ROB; the
    registers of the redirect and of `csr.io.pc`; and, for the history, the uop
    that threw in the last cycle. -/
structure State (N W T va : ℕ) where
  core : Core N W T va
  ren2 : Fin W → Fetched va
  rob : Fin N → Fin W → Fetched va
  deq_ptr : ℕ
  com_pc : BitVec va
  pc_lob_d1 : ℕ
  edge_inst_d1 : Bool
  sys_d1 : Bool
  sys_ftq_d1 : ℕ
  isURet_d1 : Bool
  uret_target_d1 : BitVec 2
  thrown : Option (Fetched va × RobUop N W T)

/-- The inputs of a cycle; `pcs` is what the FTQ holds. -/
structure In (N W T va : ℕ) where
  core : Sampling.In N W T va
  fetched : Fin W → Fetched va
  pcs : ℕ → BitVec va

namespace State

variable (b : ℕ) (s : State N W T va) (i : In N W T va)

/-- `csr.io.pc` -/
def csr_pc : BitVec va := rebuildPC b s.com_pc s.pc_lob_d1 s.edge_inst_d1

/-- The inputs of the core, with the address from the fetch target queue. -/
def coreIn : Sampling.In N W T va := { i.core with com_pc := (s.csr_pc b).setWidth 64 }

/-- The inputs of the ROB. -/
def robIn : SysIn N W T := s.core.robIn i.core

/-- The redirect of the front end. -/
def redirect_target : Option Target :=
  if s.core.flush_d1 then
    if Core.useCsrEvec s.core.flush_typ_d1 then
      if s.core.isOverFlowExcpt then
        some (if s.core.ucsr.exitFuncAddr ≠ 0 then .exitFuncAddr else .evec)
      else some (if s.core.flush_typ_d1 = .eret then .evec_d2 else .evec)
    else if s.isURet_d1 then some (.tempReg s.uret_target_d1)
    else some (if s.core.flush_typ_d1 = .refetch then .flush_pc else .flush_pc_next)
  else if i.core.back.b2.isSome then some .mispredict
  else none

section Commit

variable [NeZero W]

/-- The uop of `com_xcpt`. -/
def com_xcpt : Fetched va := s.rob s.core.sys.rob.com_idx (priorityEncoder s.core.sys.rob.head_vals)

/-- `youngest_com_idx` -/
def youngest_com_idx : Fin W :=
  ((List.finRange W).reverse.find? (s.core.sys.rob.will_commit (s.robIn i).toIn)).getD 0

/-- `io.ifu.commit.valid`; an `ecall` is announced when it is dispatched. -/
def commit_valid : Bool :=
  s.core.sys.rob.commits (s.robIn i).toIn || s.core.sys.rob.com_xcpt_valid (s.robIn i).toIn || s.sys_d1

/-- `io.ifu.commit.bits` -/
def commit_bits : ℕ :=
  if s.sys_d1 then s.sys_ftq_d1
  else if s.core.sys.rob.com_xcpt_valid (s.robIn i).toIn then s.com_xcpt.ftq_idx
  else (s.rob s.core.sys.rob.com_idx (s.youngest_com_idx i)).ftq_idx

/-- The entry that the FTQ shows to the core as `com_pc` in the next cycle. -/
def com_ptr : ℕ := if s.commit_valid i then s.commit_bits i else s.deq_ptr

/-- An `ecall` or `ebreak` is dispatched. -/
def sys_fires : Bool :=
  (List.finRange W).any (s.core.dis_fire i.core) &&
    (s.core.dis_uops i.core (priorityEncoder (s.core.dis_fire i.core))).is_sys_pc2epc

/-- One cycle, with the history. -/
def next [NeZero N] : State N W T va where
  core := s.core.next (s.coreIn b i)
  ren2 w := if !s.core.redirect_flush i.core && s.core.dis_ready i.core then i.fetched w else s.ren2 w
  rob r w := if s.core.sys.rob.enq_at (s.robIn i).toIn r w then s.ren2 w else s.rob r w
  deq_ptr := s.com_ptr i
  com_pc := i.pcs (s.com_ptr i)
  pc_lob_d1 := s.com_xcpt.pc_lob
  edge_inst_d1 := s.com_xcpt.edge_inst
  sys_d1 := s.sys_fires i
  sys_ftq_d1 := (s.ren2 (priorityEncoder s.core.ren2_valid)).ftq_idx
  isURet_d1 :=
    let u := s.core.sys.rob.flush_uop (s.robIn i).toIn
    u.ucsrInst && u.inst.extractLsb' 20 12 = specialInst_URet
  uret_target_d1 := (s.core.sys.rob.flush_uop (s.robIn i).toIn).inst.extractLsb' 15 2
  thrown :=
    ((List.finRange W).find? (s.core.sys.rob.throws (s.robIn i).toIn)).map fun w =>
      (s.rob s.core.sys.rob.rob_head w, (s.core.sys.rob.bank s.core.sys.rob.rob_head w).uop)

end Commit

/-- After reset. -/
def Reset : Prop := s.core.Reset ∧ s.sys_d1 = false

/-- What the rest of the core promises. -/
structure Ok : Prop where
  core : s.core.Ok i.core
  /-- a bundle fills its row without gaps -/
  gapless : ∀ u v w : Fin W, u < v → v < w →
    s.core.sys.Val (s.core.sys.rob.rob_tail, u) ∨ (s.robIn i).enq_valids u = true →
    (s.robIn i).enq_valids w = true →
    s.core.sys.Val (s.core.sys.rob.rob_tail, v) ∨ (s.robIn i).enq_valids v = true
  /-- `ecall` and `ebreak` are unique -/
  unique : ∀ w, (i.core.dec_uops w).is_sys_pc2epc = true → (i.core.dec_uops w).is_unique = true
  /-- the FTQ keeps the packets of the uops in the ROB -/
  ftq : ∀ a, s.core.sys.Val a → let f := s.rob a.1 a.2
    rebuildPC b (i.pcs f.ftq_idx) f.pc_lob f.edge_inst = f.pc

/-- The invariant. -/
structure Inv : Prop where
  sys : s.core.sys.Inv
  xcpt : s.core.sys.XInv
  gapless : Gapless s.core.sys
  delayed : s.core.com_xcpt_d1.isSome = true → s.core.evec_redirect = true
  evec : s.core.flush_d1 = true → s.core.flush_typ_d1 = .xcpt → s.core.com_xcpt_d1.isSome = true
  unique : ∀ w, s.core.ren2_valid w = true → (s.core.ren2_uop w).is_sys_pc2epc = true →
    (s.core.ren2_uop w).is_unique = true
  /-- an `ecall` that was dispatched in the last cycle is alone in the ROB -/
  dispatched : s.sys_d1 = true → ∃ a, s.core.sys.Val a ∧
    (s.core.sys.rob.bank a.1 a.2).uop.is_unique = true ∧ (s.rob a.1 a.2).ftq_idx = s.sys_ftq_d1
  record : s.core.sys.rob.r_xcpt_val = true →
    s.core.sys.rob.r_xcpt_uop.exc_cause = cause_OverFlow →
    Core.marked (s.core.sys.rob.bank s.core.sys.record.1 s.core.sys.record.2).uop = true
  taken : ∀ cause, s.core.com_xcpt_d1 = some cause → ∃ f u, s.thrown = some (f, u) ∧
    s.csr_pc b = f.pc ∧ (cause = cause_OverFlow → Core.marked u = true)

end State

/-- The core, from reset; `b` is `icBlockBytes`. -/
def core [NeZero N] [NeZero W] (b : ℕ) : Machine (State N W T va) (In N W T va) where
  start := State.Reset
  ok s i := s.Ok b i
  next s i := s.next b i

section

variable {b : ℕ} {s : State N W T va} {i : In N W T va}

/-- The PC that the target stands for. -/
theorem redirect_pc_eq : s.core.redirect_pc (s.coreIn b i) =
    (s.redirect_target i).bind fun
      | .exitFuncAddr => some s.core.ucsr.exitFuncAddr
      | .evec => some i.core.evec
      | .evec_d2 => some s.core.evec_d2
      | _ => none := by
  unfold Core.redirect_pc State.redirect_target Core.evec_redirect
  cases s.core.flush_d1 with
  | false => cases i.core.back.b2.isSome <;> rfl
  | true =>
    cases s.core.isOverFlowExcpt <;> cases s.core.flush_typ_d1 <;>
      simp [Core.useCsrEvec, State.coreIn] <;> split_ifs <;> simp

theorem target_of_evec (hf : s.core.evec_redirect = true) : s.redirect_target i =
    if s.core.isOverFlowExcpt then
      some (if s.core.ucsr.exitFuncAddr ≠ 0 then .exitFuncAddr else .evec)
    else some (if s.core.flush_typ_d1 = .eret then .evec_d2 else .evec) := by
  simp only [Core.evec_redirect, Bool.and_eq_true] at hf
  rw [State.redirect_target, if_pos hf.1, if_pos hf.2]

/-- Only the flush of an exception or of an `ERET` reads the CSR file. -/
theorem evec_of_target {t : Target} (ht : s.redirect_target i = some t)
    (hcsr : t = .exitFuncAddr ∨ t = .evec ∨ t = .evec_d2) : s.core.evec_redirect = true := by
  unfold State.redirect_target at ht
  rw [Core.evec_redirect, Bool.and_eq_true]
  by_cases hf : s.core.flush_d1 = true
  · by_cases hu : Core.useCsrEvec s.core.flush_typ_d1 = true
    · exact ⟨hf, hu⟩
    · rw [if_pos hf, if_neg hu] at ht
      split_ifs at ht <;> cases ht <;> simp at hcsr
  · rw [if_neg hf] at ht
    split_ifs at ht
    cases ht
    simp at hcsr

/-! ## The two decisions -/

/-- The exception is taken away from the CSR file, if the front end goes to the
    sample function. -/
theorem suppressed_iff (h : s.Inv b) : (s.core.com_xcpt_d1.isSome = true ∧
    s.core.csr_exception = false) ↔ s.redirect_target i = some .exitFuncAddr := by
  constructor
  · rintro ⟨hd, hc⟩
    rw [target_of_evec (h.delayed hd)]
    unfold Core.csr_exception at hc
    split_ifs at hc ⊢ with hx ha he <;> simp_all
  · intro ht
    have hf := evec_of_target ht (.inl rfl)
    rw [target_of_evec hf] at ht
    split_ifs at ht with hx ha he
    · have hd : s.core.com_xcpt_d1 = some cause_OverFlow := by
        simp only [Core.isOverFlowExcpt, Bool.and_eq_true, decide_eq_true_eq] at hx
        exact hx.1
      refine ⟨by simp [hd], ?_⟩
      rw [Core.csr_exception, if_pos hx, decide_eq_false_iff_not]
      exact ha
    all_goals cases ht

/-- The front end follows the CSR file only into an exception that it sees. -/
theorem exception_of_evec (h : s.Inv b) (ht : s.redirect_target i = some .evec) :
    s.core.csr_exception = true := by
  have hf := evec_of_target ht (.inr (.inl rfl))
  rw [target_of_evec hf] at ht
  unfold Core.csr_exception
  split_ifs at ht with hx ha he
  · cases ht
  · rw [if_pos hx]
    simpa using ha
  · cases ht
  · rw [if_neg hx]
    simp only [Core.evec_redirect, Core.useCsrEvec, Bool.and_eq_true, Bool.or_eq_true,
      decide_eq_true_eq] at hf
    exact h.evec hf.1 (hf.2.resolve_right he)

/-- A sample is redirected whenever the exception block sees it. -/
theorem sample_redirect_eq (h : s.Inv b) : s.core.sample_redirect = s.core.isOverFlowExcpt := by
  cases hx : s.core.isOverFlowExcpt with
  | false => simp [Core.sample_redirect, hx]
  | true =>
    have hd : s.core.com_xcpt_d1 = some cause_OverFlow := by
      simp only [Core.isOverFlowExcpt, Bool.and_eq_true, decide_eq_true_eq] at hx
      exact hx.1
    simp [Core.sample_redirect, hx, h.delayed (by simp [hd])]

theorem count_userExitPC (x : Core N W T va) (j : Sampling.In N W T va) :
    (x.redirect_next j).userExitPC = x.ucsr.userExitPC := by
  unfold Core.redirect_next Core.count_next Core.warmup_next
  split_ifs <;> rfl

section Next

variable [NeZero N] [NeZero W]

theorem userExitPC_next : (s.next b i).core.ucsr.userExitPC =
    if s.core.isOverFlowExcpt then (s.csr_pc b).setWidth 64 else s.core.ucsr.userExitPC := by
  show (s.core.ucsr_next (s.coreIn b i)).userExitPC = _
  rw [Core.ucsr_next, SfbSample.foldl_userExitPC, Core.exit_next]
  split_ifs
  · rfl
  · exact count_userExitPC _ _

omit [NeZero N] [NeZero W] in
theorem core_ok (ok : s.Ok b i) : s.core.Ok (s.coreIn b i) :=
  ⟨ok.core.rob, ok.core.xcpt, ok.core.dec_cause, ok.core.lxcpt_cause, ok.core.writes, ok.core.prv⟩

theorem sys_next : (s.next b i).core.sys = s.core.sys.next (s.robIn i) := rfl

theorem delayed_next (hd : (s.next b i).core.com_xcpt_d1.isSome = true) :
    (s.next b i).core.evec_redirect = true :=
  (Sampling.delayed_next (s := s.core) (i := s.coreIn b i) hd).2

/-- The flush of an exception comes with the exception. -/
theorem evec_next (ht : (s.next b i).core.flush_typ_d1 = .xcpt) :
    (s.next b i).core.com_xcpt_d1.isSome = true := by
  have htyp : s.core.sys.rob.flush_typ (s.robIn i).toIn = .xcpt := ht
  have hcom : (s.next b i).core.com_xcpt_d1 =
    if s.core.sys.rob.com_xcpt_valid (s.robIn i).toIn then
      some s.core.sys.rob.r_xcpt_uop.exc_cause else none := rfl
  unfold Rob.flush_typ at htyp
  dsimp only at htyp
  split_ifs at htyp with _ _ hthrow
  rw [hcom, Rob.com_xcpt_valid, if_pos hthrow]
  rfl

theorem unique_next (h : s.Inv b) (ok : s.Ok b i) {w : Fin W}
    (hv : (s.next b i).core.ren2_valid w = true)
    (hsys : ((s.next b i).core.ren2_uop w).is_sys_pc2epc = true) :
    ((s.next b i).core.ren2_uop w).is_unique = true := by
  have hvalid : (s.next b i).core.ren2_valid w = s.core.ren2_valid_next i.core w := rfl
  have huop : ((s.next b i).core.ren2_uop w).toMicroOp =
      (if !s.core.redirect_flush i.core && s.core.dis_ready i.core then s.core.dec_uop i.core w
        else s.core.ren2_uop w).toMicroOp := rfl
  have hdec : (s.core.dec_uop i.core w).is_sys_pc2epc = true →
      (s.core.dec_uop i.core w).is_unique = true := by
    unfold Core.dec_uop
    split_ifs
    · exact ok.unique w
    · exact ok.unique w
  rw [show ((s.next b i).core.ren2_uop w).is_sys_pc2epc = _ from
    congrArg MicroOp.is_sys_pc2epc huop] at hsys
  rw [show ((s.next b i).core.ren2_uop w).is_unique = _ from congrArg MicroOp.is_unique huop]
  rw [hvalid, Core.ren2_valid_next] at hv
  split_ifs at hv hsys ⊢ with hredir hready <;> simp_all
  exact h.unique w hv.1 hsys

theorem rob_next_of_enq {a : RobIdx N W}
    (he : s.core.sys.rob.enq_at (s.robIn i).toIn a.1 a.2 = true) :
    (s.next b i).rob a.1 a.2 = s.ren2 a.2 :=
  if_pos he

omit [NeZero N] in
/-- An `ecall` that is dispatched is the first uop of rename2. -/
theorem first_of_sys (h : s.Inv b) (hs : s.sys_fires i = true) :
    ∃ w, s.core.dis_fire i.core w = true ∧ (s.core.ren2_uop w).is_unique = true ∧
      priorityEncoder s.core.ren2_valid = w := by
  simp only [State.sys_fires, Bool.and_eq_true] at hs
  obtain ⟨hany, hsys⟩ := hs
  obtain ⟨v, -, hv⟩ := List.any_eq_true.1 hany
  cases hfind : (List.finRange W).find? (s.core.dis_fire i.core) with
  | none => exact absurd hv (List.find?_eq_none.1 hfind v (List.mem_finRange v))
  | some w =>
    rw [priorityEncoder, hfind, Option.getD_some] at hsys
    have hw := List.find?_some hfind
    obtain ⟨hvalid, -, hwait, -⟩ := Sampling.open_of_fire hw
    have hu := h.unique w hvalid hsys
    refine ⟨w, hw, hu, ?_⟩
    -- it waits until nothing is before it
    simp only [Core.wait_for_empty_pipeline, hu, Bool.true_or, Bool.true_and,
      Bool.or_eq_false_iff] at hwait
    cases hf : (List.finRange W).find? s.core.ren2_valid with
    | none => exact absurd hvalid (List.find?_eq_none.1 hf w (List.mem_finRange w))
    | some v =>
      rw [priorityEncoder, hf, Option.getD_some]
      rcases (find_finRange_le hf hvalid).lt_or_eq with hlt | e
      · have hno := List.any_eq_false.1 hwait.2 v (List.mem_finRange v)
        simp [hlt, List.find?_some hf] at hno
      · exact e

theorem dispatched_next (h : s.Inv b) (ok : s.Ok b i) (hs : (s.next b i).sys_d1 = true) :
    ∃ a, (s.next b i).core.sys.Val a ∧
      ((s.next b i).core.sys.rob.bank a.1 a.2).uop.is_unique = true ∧
      ((s.next b i).rob a.1 a.2).ftq_idx = (s.next b i).sys_ftq_d1 := by
  obtain ⟨w, hw, hu, hfirst⟩ := first_of_sys h hs
  have hen : (s.robIn i).enq_valids w = true := hw
  have he : s.core.sys.rob.enq_at (s.robIn i).toIn s.core.sys.rob.rob_tail w = true := by
    simp [Rob.enq_at, hen]
  have hftq : (s.next b i).sys_ftq_d1 = (s.ren2 (priorityEncoder s.core.ren2_valid)).ftq_idx := rfl
  refine ⟨(s.core.sys.rob.rob_tail, w), val_of_enq h.sys ok.core.rob hen, ?_, ?_⟩
  · have hitem := congrArg Item.uop
      (item_next_of_enq (s := s.core.sys) (i := s.robIn i) (a := (s.core.sys.rob.rob_tail, w)) he)
    exact (congrArg MicroOp.is_unique hitem).trans hu
  · rw [rob_next_of_enq (a := (s.core.sys.rob.rob_tail, w)) he, hftq, hfirst]

/-- A record with the private cause is about a marked uop. -/
theorem record_next (h : s.Inv b) (ok : s.Ok b i)
    (hr : (s.next b i).core.sys.rob.r_xcpt_val = true)
    (hc : (s.next b i).core.sys.rob.r_xcpt_uop.exc_cause = cause_OverFlow) :
    Core.marked ((s.next b i).core.sys.rob.bank (s.next b i).core.sys.record.1
      (s.next b i).core.sys.record.2).uop = true := by
  have hsys := xinv_step h.sys h.xcpt ok.core.rob ok.core.xcpt
  have hquiet : (s.next b i).core.sys.Quiet := by
    by_contra hq
    exact absurd (hr.symm.trans (hsys.cleared hq)) (by simp)
  have hval : (s.next b i).core.sys.Val (s.next b i).core.sys.record :=
    (hsys.record hquiet hr).1.1
  obtain ⟨-, ⟨hv, hcause, hrec⟩ | ⟨w, hw, hm, hrec⟩⟩ :=
    Sampling.recorded_cases h.xcpt (core_ok ok) hr hc
  · have hrec' : (s.next b i).core.sys.record = s.core.sys.record := hrec
    rw [hrec'] at hval ⊢
    rcases uop_next_cases h.sys ok.core.rob (i := s.robIn i) hval with ⟨-, he⟩ | ⟨henq, -⟩
    · exact (SfbSample.marked_congr he).trans (h.record hv hcause)
    · -- dispatch waits while there is a record
      have hready := (ok.core.rob.enq_ready (enq_of_at henq).2.2).1
      exact absurd (hv.symm.trans (ready_iff.1 hready).2.2) (by simp)
  · have hrec' : (s.next b i).core.sys.record = (s.core.sys.rob.rob_tail, w) := hrec
    have he : s.core.sys.rob.enq_at (s.robIn i).toIn s.core.sys.rob.rob_tail w = true := by
      simp [Rob.enq_at, State.robIn, Core.robIn, show s.core.dis_fire i.core w = true from hw]
    rw [hrec']
    have hitem := congrArg Item.uop
      (item_next_of_enq (s := s.core.sys) (i := s.robIn i) (a := (s.core.sys.rob.rob_tail, w)) he)
    exact (SfbSample.marked_congr hitem).trans hm

omit [NeZero N] in
/-- What throws is shown to the FTQ, also while an `ecall` is announced. -/
theorem com_ptr_of_throws (h : s.Inv b) {w : Fin W}
    (hw : s.core.sys.rob.throws (s.robIn i).toIn w = true)
    (hcom : s.core.sys.rob.com_xcpt_valid (s.robIn i).toIn = true) :
    s.com_ptr i = (s.rob s.core.sys.rob.rob_head w).ftq_idx ∧
      s.com_xcpt = s.rob s.core.sys.rob.rob_head w := by
  have hthrow : s.core.sys.rob.exception_thrown (s.robIn i).toIn = true :=
    List.any_eq_true.2 ⟨w, List.mem_finRange w, hw⟩
  have hidx : s.core.sys.rob.com_idx = s.core.sys.rob.rob_head :=
    if_neg (thrown_open hthrow).1.2.2
  have hx : s.com_xcpt = s.rob s.core.sys.rob.rob_head w := by
    rw [State.com_xcpt, hidx, first_of_throws h.gapless hw]
  refine ⟨?_, hx⟩
  have hvalid : s.commit_valid i = true := by simp [State.commit_valid, hcom]
  rw [State.com_ptr, if_pos hvalid, State.commit_bits]
  split_ifs with hs
  · obtain ⟨a, hv, hu, hftq⟩ := h.dispatched hs
    obtain rfl := (h.xcpt.alone a hv hu).2.1 _ (throws_iff.1 hw).1.1
    exact hftq.symm
  · rw [hx]

theorem taken_next (h : s.Inv b) (ok : s.Ok b i) {cause : ℕ}
    (hd : (s.next b i).core.com_xcpt_d1 = some cause) :
    ∃ f u, (s.next b i).thrown = some (f, u) ∧ (s.next b i).csr_pc b = f.pc ∧
      (cause = cause_OverFlow → Core.marked u = true) := by
  have hcom : (s.next b i).core.com_xcpt_d1 =
    if s.core.sys.rob.com_xcpt_valid (s.robIn i).toIn then
      some s.core.sys.rob.r_xcpt_uop.exc_cause else none := rfl
  rw [hcom, Option.ite_none_right_eq_some, Option.some.injEq] at hd
  obtain ⟨hvalid, hc⟩ := hd
  have hthrow := hvalid
  rw [Rob.com_xcpt_valid, Bool.and_eq_true] at hthrow
  obtain ⟨v, -, hv⟩ := List.any_eq_true.1 hthrow.1
  have hthrown : (s.next b i).thrown =
    ((List.finRange W).find? (s.core.sys.rob.throws (s.robIn i).toIn)).map fun w =>
      (s.rob s.core.sys.rob.rob_head w, (s.core.sys.rob.bank s.core.sys.rob.rob_head w).uop) := rfl
  cases hfind : (List.finRange W).find? (s.core.sys.rob.throws (s.robIn i).toIn) with
  | none => exact absurd hv (List.find?_eq_none.1 hfind v (List.mem_finRange v))
  | some w =>
    have hw := List.find?_some hfind
    obtain ⟨hr, hrec, hexc⟩ := record_of_throws h.xcpt hw
    obtain ⟨hptr, hx⟩ := com_ptr_of_throws h hw hvalid
    refine ⟨_, _, by rw [hthrown, hfind]; rfl, ?_, fun ho => ?_⟩
    · show rebuildPC b (i.pcs (s.com_ptr i)) s.com_xcpt.pc_lob s.com_xcpt.edge_inst = _
      rw [hptr, hx]
      exact ok.ftq (s.core.sys.rob.rob_head, w) hexc.1
    · have hm := h.record hr (hc.trans ho)
      rw [hrec] at hm
      exact hm

theorem inv_step (h : s.Inv b) (ok : s.Ok b i) : (s.next b i).Inv b where
  sys := Reorder.inv_step h.sys ok.core.rob
  xcpt := xinv_step h.sys h.xcpt ok.core.rob ok.core.xcpt
  gapless := gapless_step h.sys ok.core.rob h.gapless ok.gapless
  delayed := delayed_next
  evec _ ht := evec_next ht
  unique _ hv hsys := unique_next h ok hv hsys
  dispatched := dispatched_next h ok
  record := record_next h ok
  taken _ hd := taken_next h ok hd

omit [NeZero N] [NeZero W] in
theorem inv_reset (h : s.Reset) : s.Inv b where
  sys := Reorder.inv_reset h.1.sys
  xcpt := xinv_reset h.1.sys
  gapless r u v w _ _ hu _ := absurd (hu.symm.trans (h.1.sys.val r u)) (by simp)
  delayed hd := by
    rw [h.1.xcpt] at hd
    exact absurd hd (by simp)
  evec hf := absurd (hf.symm.trans h.1.flush) (by simp)
  unique w hw := absurd (hw.symm.trans (h.1.ren2 w)) (by simp)
  dispatched hs := absurd (hs.symm.trans h.2) (by simp)
  record hr := absurd (hr.symm.trans h.1.sys.r_xcpt_val) (by simp)
  taken cause hd := absurd (hd.symm.trans h.1.xcpt) (by simp)

theorem inv_reach (h : (core (N := N) (W := W) b).Reach s) : s.Inv b :=
  h.inv (P := State.Inv b) (fun _ h0 => inv_reset h0) fun _ _ hi ok => inv_step hi ok

/-- **Suppression and redirect agree.**  In every cycle of every run: an
    exception that was thrown is kept from the CSR file if and only if the front
    end goes to `exitFuncAddr`; the front end goes where `csr.io.evec` points
    for an exception only when the CSR file sees one; and `userExitPC` changes
    exactly when a sample is redirected, to the PC of the uop that threw, which
    is one that decode has marked. -/
theorem redirect_agrees (h : (core (N := N) (W := W) b).Reach s) :
    (s.core.com_xcpt_d1.isSome = true →
      (s.core.csr_exception = false ↔ s.redirect_target i = some .exitFuncAddr)) ∧
    (s.redirect_target i = some .exitFuncAddr → s.core.com_xcpt_d1.isSome = true ∧
      s.core.redirect_pc (s.coreIn b i) = some s.core.ucsr.exitFuncAddr) ∧
    (s.redirect_target i = some .evec → s.core.csr_exception = true ∧
      s.core.redirect_pc (s.coreIn b i) = some i.core.evec) ∧
    (s.core.sample_redirect = false →
      (s.next b i).core.ucsr.userExitPC = s.core.ucsr.userExitPC) ∧
    (s.core.sample_redirect = true → ∃ f u, s.thrown = some (f, u) ∧ Core.marked u = true ∧
      (s.next b i).core.ucsr.userExitPC = f.pc.setWidth 64) := by
  have hi := inv_reach h
  have hsup := suppressed_iff (i := i) hi
  refine ⟨fun hd => ⟨fun hc => hsup.1 ⟨hd, hc⟩, fun ht => (hsup.2 ht).2⟩,
    fun ht => ⟨(hsup.2 ht).1, by rw [redirect_pc_eq, ht]; rfl⟩,
    fun ht => ⟨exception_of_evec hi ht, by rw [redirect_pc_eq, ht]; rfl⟩, fun hs => ?_, fun hs => ?_⟩
  · rw [sample_redirect_eq hi] at hs
    rw [userExitPC_next, if_neg (by simp [hs])]
  · rw [sample_redirect_eq hi] at hs
    have hd : s.core.com_xcpt_d1 = some cause_OverFlow := by
      simp only [Core.isOverFlowExcpt, Bool.and_eq_true, decide_eq_true_eq] at hs
      exact hs.1
    obtain ⟨f, u, hthrown, hpc, hm⟩ := hi.taken _ hd
    exact ⟨f, u, hthrown, hm rfl, by rw [userExitPC_next, if_pos hs, hpc]⟩

end Next

end

/-! ## A run -/

/-- Cycles of `Sampling` that decode the instructions of a straight program. -/
def fetching : ℕ → List (Sampling.In 2 1 1 40) → List (In 2 1 1 40)
  | _, [] => []
  | k, i :: is =>
    ⟨i, fun _ => ⟨0, 4 * k, false, .ofNat 40 (4 * k)⟩, fun _ => 0⟩ ::
      fetching (if i.dec_valids 0 then k + 1 else k) is

/-- The core after reset. -/
def resetState : State 2 1 1 40 where
  core := Sampling.resetCore
  ren2 _ := ⟨0, 0, false, 0⟩
  rob _ _ := ⟨0, 0, false, 0⟩
  deq_ptr := 0
  com_pc := 0
  pc_lob_d1 := 0
  edge_inst_d1 := false
  sys_d1 := false
  sys_ftq_d1 := 0
  isURet_d1 := false
  uret_target_d1 := 0
  thrown := none

/-- The cycle is calm, and the FTQ knows the packets of the ROB. -/
def calm (s : State 2 1 1 40) (i : In 2 1 1 40) : Bool :=
  Sampling.calm s.core i.core && !(i.core.dec_uops 0).is_sys_pc2epc &&
    (List.finRange 2).all fun r => let f := s.rob r 0
      rebuildPC 64 (i.pcs f.ftq_idx) f.pc_lob f.edge_inst = f.pc

theorem ok_of_calm (s : State 2 1 1 40) (i : In 2 1 1 40) (h : calm s i = true) : s.Ok 64 i := by
  simp only [calm, Bool.and_eq_true, Bool.not_eq_true', List.all_eq_true, List.mem_finRange,
    forall_const, decide_eq_true_eq] at h
  obtain ⟨⟨hcore, hsys⟩, hftq⟩ := h
  refine ⟨Sampling.ok_of_calm _ _ hcore, fun u v _ huv => ?_, fun w hw => ?_, fun a _ => ?_⟩
  · exact absurd huv (by rw [Subsingleton.elim u v]; exact lt_irrefl _)
  · rw [Subsingleton.elim w 0, hsys] at hw
    exact absurd hw (by simp)
  · rw [Subsingleton.elim a.2 0]
    exact hftq a.1

/-- The run of `Sampling` in which a user program goes over its limit. -/
def sampled : List (In 2 1 1 40) := fetching 0 Sampling.sampled

set_option maxRecDepth 20000 in
theorem redirect_agrees_sampled :
    let s := (core 64).run resetState sampled
    s.core.sample_redirect = true ∧ ∃ f u, s.thrown = some (f, u) ∧ Core.marked u = true ∧
      ∀ i, (s.next 64 i).core.ucsr.userExitPC = f.pc.setWidth 64 := by
  have hreach : (core 64).Reach ((core 64).run resetState sampled) :=
    Machine.reach_run sampled (.start ⟨Sampling.resetCore_reset, rfl⟩)
      (Machine.accepts_of_passes ok_of_calm sampled resetState (by decide +kernel))
  have hs : ((core 64).run resetState sampled).core.sample_redirect = true := by decide +kernel
  obtain ⟨f, u, hthrown, hm, -⟩ := (redirect_agrees (i := ⟨Sampling.cycle none [] [] 0,
    fun _ => ⟨0, 0, false, 0⟩, fun _ => 0⟩) hreach).2.2.2.2 hs
  refine ⟨hs, f, u, hthrown, hm, fun i => ?_⟩
  obtain ⟨f', u', hthrown', -, hpc⟩ := (redirect_agrees (i := i) hreach).2.2.2.2 hs
  obtain ⟨rfl, -⟩ := Prod.ext_iff.1 (Option.some.inj (hthrown.symm.trans hthrown'))
  exact hpc

end BoomStop.SampleExit
