/-
  The count of the instructions that retire in user mode (`core.scala`): the
  commits of a cycle are counted one cycle later, if the privilege level was
  that of a user in this cycle and in the two before it.  A trap changes the
  level two cycles after the last commit before it, a system return or call in
  the cycle before its own commit.

  * `State`: the core, and the privilege level under which each entry of the
    ROB was dispatched;
  * `Core.zeroes`, `nowEventNum_next`: what a cycle does to the counter;
  * `State.Inv`, `inv_step`: the level of what is in the ROB, and of the last
    two cycles;
  * `user_of_commit`, `arch_d1_next`: what is counted for a cycle is what
    retires in it;
  * `user_count`: the result.
-/
import BoomStop.SampleArming

namespace BoomStop.Sampling

open Sync Reorder

variable {N W T va : ℕ}

/-! ## The counter -/

/-- The cycle sets `nowEventNum` to zero. -/
def Core.zeroes (s : Core N W T va) (i : In N W T va) : Bool :=
  s.sample_redirect ||
    s.warmupValid && decide (s.ucsr.warmupInstNum < s.ucsr.nowWarmupInsts) ||
    i.ucsr_writes.any fun p => decide (p.1 = setUCSR_MaxEventNum)

theorem foldl_nowEventNum (ps : List (BitVec 12 × BitVec 64)) (u : Ucsr va) :
    (ps.foldl (fun u p => u.setUCSR p.1 p.2) u).nowEventNum =
      if ps.any fun p => decide (p.1 = setUCSR_MaxEventNum) then 0 else u.nowEventNum := by
  induction ps generalizing u with
  | nil => rfl
  | cons p ps ih =>
    rw [List.foldl_cons, ih, Ucsr.setUCSR_nowEventNum, List.any_cons]
    by_cases htag : p.1 = setUCSR_MaxEventNum
    · simp [htag]
    · simp [htag]

section

variable {s : Core N W T va} {i : In N W T va}

theorem nowEventNum_count : (s.count_next i).nowEventNum =
    if s.warmupValid && decide (s.ucsr.warmupInstNum < s.ucsr.nowWarmupInsts) then 0
    else s.ucsr.nowEventNum + if s.sampleValid then s.event i else 0 := by
  unfold Core.count_next Core.warmup_next
  by_cases hv : s.sampleValid = true
  · have hwarm : s.warmupValid = false := by
      simp only [Core.sampleValid, Bool.and_eq_true, decide_eq_true_eq] at hv
      simp [Core.warmupValid, hv.2]
    simp [hv, hwarm]
  · by_cases hwarm : s.warmupValid = true
    · by_cases hlt : s.ucsr.warmupInstNum < s.ucsr.nowWarmupInsts
      · simp [hv, hwarm, hlt]
      · simp [hv, hwarm, hlt]
    · simp [hv, hwarm]

theorem nowEventNum_exit : (s.exit_next i).nowEventNum =
    if s.sample_redirect then 0 else (s.count_next i).nowEventNum := by
  have hexit : (s.exit_next i).nowEventNum = (s.redirect_next i).nowEventNum := by
    unfold Core.exit_next
    split_ifs <;> rfl
  rw [hexit, Core.redirect_next]
  cases s.sample_redirect with
  | false => rfl
  | true =>
    rw [Bool.not_true, if_neg Bool.false_ne_true, if_pos rfl]
    split_ifs <;> rfl

/-- A cycle that does not zero the counter adds the event, under the filter. -/
theorem nowEventNum_next : (s.ucsr_next i).nowEventNum =
    if s.zeroes i then 0
    else s.ucsr.nowEventNum + if s.sampleValid then s.event i else 0 := by
  rw [Core.ucsr_next, foldl_nowEventNum, nowEventNum_exit, nowEventNum_count, Core.zeroes]
  cases s.sample_redirect <;>
    cases i.ucsr_writes.any fun p => decide (p.1 = setUCSR_MaxEventNum) <;> simp

/-- and it leaves the limit alone. -/
theorem maxEventNum_next_of_not_zeroes (hz : s.zeroes i = false) :
    (s.ucsr_next i).maxEventNum = s.ucsr.maxEventNum := by
  simp only [Core.zeroes, Bool.or_eq_false_iff] at hz
  obtain ⟨⟨hd, -⟩, hw⟩ := hz
  rcases foldl_setUCSR i.ucsr_writes (s.exit_next i) with ⟨p, hp, htag, -⟩ | ⟨hmax, -⟩
  · exact absurd (List.any_eq_false.1 hw p hp) (by simp [htag])
  · rw [Core.ucsr_next, hmax, maxEventNum_exit_next, hd]
    rfl

theorem procTag_count_next : (s.count_next i).procTag = s.ucsr.procTag := by
  unfold Core.count_next Core.warmup_next
  split_ifs <;> rfl

/-- Without a delivery and a write the tag stays. -/
theorem procTag_next (hd : s.sample_redirect = false) (hw : i.ucsr_writes = []) :
    (s.ucsr_next i).procTag = s.ucsr.procTag := by
  have hexit : (s.exit_next i).procTag = (s.redirect_next i).procTag := by
    unfold Core.exit_next
    split_ifs <;> rfl
  rw [Core.ucsr_next, hw, List.foldl_nil, hexit, Core.redirect_next, hd, Bool.not_false, if_pos rfl,
    procTag_count_next]

end

end BoomStop.Sampling

namespace BoomStop.UserCount

open Sync Reorder Sampling

variable {N W T va : ℕ}

/-! ## The entries of the ROB -/

/-- The core, and whether the entries of the ROB were dispatched in user mode. -/
structure State (N W T va : ℕ) where
  core : Core N W T va
  user : Fin N → Fin W → Bool

namespace State

variable (s : State N W T va) (i : In N W T va)

/-- The slot retires an instruction of the user, in user mode. -/
def retires (w : Fin W) : Bool :=
  s.core.sys.rob.arch_valids (s.core.robIn i).toIn w &&
    (s.user s.core.sys.rob.rob_head w && decide (s.core.prv = 0))

/-- What retires in user mode, while the tag matches. -/
def retired : ℕ :=
  if s.core.isTargetProc then (List.finRange W).countP (s.retires i) else 0

/-- One cycle, with the mode that each uop was dispatched in. -/
def next [NeZero N] [NeZero W] : State N W T va where
  core := s.core.next i
  user r w :=
    if s.core.sys.rob.enq_at (s.core.robIn i).toIn r w then decide (s.core.prv = 0) else s.user r w

/-- The uop of an entry is a system return or call. -/
def System (a : RobIdx N W) : Prop :=
  s.core.sys.Val a ∧ (s.core.sys.rob.bank a.1 a.2).exception = false ∧
    (s.core.sys.rob.bank a.1 a.2).uop.uopc = uopERET ∧
    (s.core.sys.rob.bank a.1 a.2).uop.is_unique = true

/-- It has been written back, and commits. -/
def Returned (a : RobIdx N W) : Prop :=
  s.System a ∧ (s.core.sys.rob.bank a.1 a.2).bsy = false

/-- What the rest of the core and the CSR file promise in a cycle. -/
structure Ok : Prop where
  core : s.core.Ok i
  /-- the privilege level changes by a trap, or in the write-back of a system
      return or call -/
  prv : i.new_prv = s.core.prv ∨ s.core.csr_exception = true ∨
    ∃ a, s.System a ∧ (s.core.sys.rob.bank a.1 a.2).bsy = true ∧
      ∃ x ∈ i.back.wb_resps, x.rob_idx = a
  /-- the CSR file stalls the commit for a `wfi`, which is alone in the ROB -/
  stall : i.back.csr_stall = true → ∀ a, s.core.sys.Val a →
    (s.core.sys.rob.bank a.1 a.2).uop.uopc ≠ uopERET
  /-- the LSU has no exception for a system instruction -/
  lxcpt : ∀ x, i.back.lxcpt = some x →
    (s.core.sys.rob.bank x.uop.rob_idx.1 x.uop.rob_idx.2).uop.uopc ≠ uopERET
  /-- a custom write comes before the write-back of its uop -/
  writes : i.ucsr_writes ≠ [] → ∀ a, s.core.sys.Val a →
    (s.core.sys.rob.bank a.1 a.2).uop.ucsrInst = true → (s.core.sys.rob.bank a.1 a.2).bsy = true

/-- The invariant: what is in the ROB was dispatched under the present level,
    or it is the system instruction that has just changed it. -/
structure Inv : Prop where
  base : Base s.core
  mode : s.core.sys.Quiet → ∀ a, s.core.sys.Val a →
    s.user a.1 a.2 = decide (s.core.prv = 0) ∧ s.core.user_d1 = decide (s.core.prv = 0) ∨
      s.Returned a ∧ s.core.user_d1 = s.user a.1 a.2

end State

section

variable {s : State N W T va} {i : In N W T va}

/-! ## Commits -/

theorem csr_exception_of_quiet (h : Base s.core) (hq : s.core.sys.Quiet) :
    s.core.csr_exception = false := by
  have hnone : s.core.com_xcpt_d1 = none := by
    by_contra hne
    have hd := h.delayed (Option.isSome_iff_ne_none.2 hne)
    exact absurd (hd.symm.trans hq.1) (by simp)
  simp [Core.csr_exception, Core.isOverFlowExcpt, hnone]

theorem quiet_of_commit {w : Fin W}
    (hc : s.core.sys.rob.will_commit (s.core.robIn i).toIn w = true) : s.core.sys.Quiet := by
  obtain ⟨hroll, h1, h2⟩ := not_rollback_of_commit hc
  exact ⟨h1, h2, hroll⟩

/-- While a unique uop executes, nothing commits. -/
theorem not_commit_of_busy (h : Base s.core) {a : RobIdx N W} (hv : s.core.sys.Val a)
    (hu : (s.core.sys.rob.bank a.1 a.2).uop.is_unique = true)
    (hb : (s.core.sys.rob.bank a.1 a.2).bsy = true) (w : Fin W) :
    s.core.sys.rob.will_commit (s.core.robIn i).toIn w = false := by
  by_contra hc
  obtain ⟨hval, hbsy, -⟩ := val_of_commit (Bool.not_eq_false _ ▸ hc)
  rw [← (h.xcpt.alone a hv hu).2.1 _ hval] at hb
  exact absurd (hb.symm.trans hbsy) (by simp)

/-- A system instruction commits in the cycle after its write-back. -/
theorem commit_of_returned (h : Base s.core) (ok : s.Ok i) (hq : s.core.sys.Quiet)
    {a : RobIdx N W} (ha : s.Returned a) :
    s.core.sys.rob.commit_at (s.core.robIn i).toIn a.1 a.2 = true := by
  obtain ⟨⟨hv, hexc, hop, hu⟩, hbsy⟩ := ha
  obtain ⟨hrow, hall, hstate⟩ := h.xcpt.alone a hv hu
  have hval : (s.core.sys.rob.bank s.core.sys.rob.rob_head a.2).val = true := by
    rw [← hrow]
    exact hv
  have hstall : (s.core.robIn i).csr_stall = false := by
    by_contra hst
    exact ok.stall (Bool.not_eq_false _ ▸ hst) a hv hop
  rw [Rob.commit_at, hrow, decide_eq_true rfl, Bool.true_and]
  refine will_commit_iff.2 ⟨?_, ?_, ?_, fun v hlt => ?_⟩
  · rw [hrow] at hbsy
    simp [Rob.can_commit, hval, hbsy, hstall]
  · rw [hrow] at hexc
    simp [Rob.can_throw_exception, hexc]
  · simp [Rob.commit_blocked, hq.1, hq.2.1, hstate.resolve_right hq.2.2]
  · -- it is alone, so that no slot before it is valid
    have hno : s.core.sys.rob.head_vals v = false := by
      by_contra hv'
      have hsame := hall (s.core.sys.rob.rob_head, v) (eq_true_of_ne_false hv')
      rw [← hsame] at hlt
      exact lt_irrefl _ hlt
    simp [Rob.holds_back, hno]

/-- In a cycle with a commit the level stays. -/
theorem prv_of_commit (h : Base s.core) (ok : s.Ok i) {w : Fin W}
    (hc : s.core.sys.rob.will_commit (s.core.robIn i).toIn w = true) :
    i.new_prv = s.core.prv := by
  rcases ok.prv with hsame | hexc | ⟨a, ⟨hv, -, -, hu⟩, hb, -⟩
  · exact hsame
  · exact absurd (hexc.symm.trans (csr_exception_of_quiet h (quiet_of_commit hc))) (by simp)
  · exact absurd (hc.symm.trans (not_commit_of_busy h hv hu hb w)) (by simp)

/-- and so does the tag. -/
theorem procTag_of_commit (h : Base s.core) (ok : s.Ok i) {w : Fin W}
    (hc : s.core.sys.rob.will_commit (s.core.robIn i).toIn w = true) :
    (s.core.ucsr_next i).procTag = s.core.ucsr.procTag := by
  have hq := quiet_of_commit hc
  have hnone : i.ucsr_writes = [] := by
    by_contra hne
    obtain ⟨p, hp⟩ := List.exists_mem_of_ne_nil _ hne
    obtain ⟨a, hv, -, hcustom, hu, -⟩ := ok.core.writes p hp
    have hb := ok.writes hne a hv hcustom
    exact absurd (hc.symm.trans (not_commit_of_busy h hv hu hb w)) (by simp)
  have hd : s.core.sample_redirect = false := by
    by_contra hd
    exact not_quiet_of_delivery h (Bool.not_eq_false _ ▸ hd) hq
  exact procTag_next hd hnone

/-! ## One cycle -/

section Step

variable [NeZero N] [NeZero W]

theorem mode_next (h : s.Inv) (ok : s.Ok i) (hq : (s.next i).core.sys.Quiet) {a : RobIdx N W}
    (ha : (s.next i).core.sys.Val a) :
    (s.next i).user a.1 a.2 = decide ((s.next i).core.prv = 0) ∧
        (s.next i).core.user_d1 = decide ((s.next i).core.prv = 0) ∨
      (s.next i).Returned a ∧ (s.next i).core.user_d1 = (s.next i).user a.1 a.2 := by
  have hb := h.base
  have hsys : (s.next i).core.sys = s.core.sys.next (s.core.robIn i) := rfl
  have hprv : (s.next i).core.prv = i.new_prv := rfl
  have hd1 : (s.next i).core.user_d1 = decide (s.core.prv = 0) := rfl
  have huser : (s.next i).user a.1 a.2 =
    if s.core.sys.rob.enq_at (s.core.robIn i).toIn a.1 a.2 then decide (s.core.prv = 0)
    else s.user a.1 a.2 := rfl
  rw [hsys] at hq ha
  rw [hprv, hd1, huser]
  rcases quiet_next hb.xcpt hq with ⟨hs, -⟩ | ⟨-, hroll, hempty⟩
  · rcases ok.prv with hsame | hexc | ⟨b, hsystem, hbsy, x, hx, hidx⟩
    · refine .inl ⟨?_, by rw [hsame]⟩
      rw [hsame]
      split_ifs with he
      · rfl
      · have hv := (val_next.1 ha).1.resolve_left he
        rcases h.mode hs a hv with ⟨hu, -⟩ | ⟨hret, -⟩
        · exact hu
        · -- it would have committed
          have hc := commit_of_returned hb ok hs hret
          exact absurd (hc.symm.trans (val_next.1 ha).2.2.2) (by simp)
    · exact absurd (hexc.symm.trans (csr_exception_of_quiet hb hs)) (by simp)
    · -- the system instruction is alone, and its level is the old one
      obtain ⟨hv, hexc, hop, hu⟩ := hsystem
      obtain ⟨-, hall, hstate⟩ := hb.xcpt.alone b hv hu
      have henq : Rob.enq (s.core.robIn i).toIn = false :=
        not_enq_of_state ok.core.rob (by rcases hstate with e | e <;> rw [e] <;> simp)
      obtain rfl := hall a (val_of_quiet henq ha)
      have he := enq_at_of_val hb.sys ok.core.rob hv
      rw [he, if_neg Bool.false_ne_true]
      right
      have hbase : ((s.next i).core.sys.rob.bank a.1 a.2).uop.toMicroOp =
          (s.core.sys.rob.bank a.1 a.2).uop.toMicroOp := by
        rcases uop_next_cases hb.sys ok.core.rob ha with ⟨-, hsame⟩ | ⟨henq', -⟩
        · exact hsame
        · exact absurd (henq'.symm.trans he) (by simp)
      refine ⟨⟨⟨ha, ?_, ?_, ?_⟩, ?_⟩, ?_⟩
      · have hlx : Rob.lxcpt_at (s.core.robIn i).toIn a.1 a.2 = false := by
          by_contra hlx
          obtain ⟨y, hy, rfl⟩ := lxcpt_at_iff.1 (eq_true_of_ne_false hlx)
          exact ok.lxcpt y hy hop
        rw [hsys, exception_next, (val_next.1 ha).2.1, hlx, he]
        simpa using hexc
      · rw [hbase]
        exact hop
      · rw [hbase]
        exact hu
      · have hun : Rob.unbusy_at (s.core.robIn i).toIn a.1 a.2 = true := by
          rw [Rob.unbusy_at, Bool.or_eq_true]
          exact .inl (List.any_eq_true.2 ⟨x, hx, by simp [hidx]⟩)
        show (if Rob.unbusy_at (s.core.robIn i).toIn a.1 a.2 then false else _) = false
        rw [if_pos hun]
      · rcases h.mode hs a hv with ⟨huser, -⟩ | ⟨hret, -⟩
        · exact huser.symm
        · exact absurd (hbsy.symm.trans hret.2) (by simp)
  · have henq := not_enq_of_rollback ok.core.rob hroll
    exact absurd (val_of_quiet henq ha) (not_val_of_rolled hb.sys hroll hempty a)

theorem inv_step (h : s.Inv) (ok : s.Ok i) : (s.next i).Inv where
  base := base_step h.base ok.core
  mode hq _ ha := mode_next h ok hq ha

/-- **What commits is counted by the level it was dispatched under.** -/
theorem user_of_commit (h : s.Inv) (ok : s.Ok i) {w : Fin W}
    (hc : s.core.sys.rob.will_commit (s.core.robIn i).toIn w = true) :
    (s.next i).core.isUserMode =
      (s.user s.core.sys.rob.rob_head w && decide (s.core.prv = 0)) := by
  have hmode : (s.next i).core.isUserMode =
    (decide (i.new_prv = 0) && decide (s.core.prv = 0) && s.core.user_d1) := rfl
  rw [hmode, prv_of_commit h.base ok hc, Bool.and_self]
  rcases h.mode (quiet_of_commit hc) _ (val_of_commit hc).1 with ⟨hu, hd⟩ | ⟨-, hd⟩
  · rw [hu, hd]
  · rw [hd, Bool.and_comm]

/-- What the next cycle counts, under the filter, is what retires in user mode
    in this one. -/
theorem arch_d1_next (h : s.Inv) (ok : s.Ok i) :
    (if (s.next i).core.isUserMode && (s.next i).core.isTargetProc then (s.next i).core.arch_d1
      else 0) = s.retired i := by
  have harch : (s.next i).core.arch_d1 =
    (List.finRange W).countP (s.core.sys.rob.arch_valids (s.core.robIn i).toIn) := rfl
  have htag : (s.next i).core.isTargetProc = decide ((s.core.ucsr_next i).procTag = targetTag) := rfl
  rw [harch, State.retired]
  by_cases hany : ∃ w, s.core.sys.rob.will_commit (s.core.robIn i).toIn w = true
  · obtain ⟨w, hc⟩ := hany
    rw [htag, procTag_of_commit h.base ok hc]
    have hslot : s.retires i = fun v => s.core.sys.rob.arch_valids (s.core.robIn i).toIn v &&
        (s.next i).core.isUserMode := by
      ext v
      rw [State.retires]
      cases hv : s.core.sys.rob.will_commit (s.core.robIn i).toIn v with
      | false => simp [Rob.arch_valids, hv]
      | true => rw [user_of_commit h ok hv]
    rw [hslot]
    cases (s.next i).core.isUserMode with
    | false => simp
    | true => simp [Core.isTargetProc]
  · have hno : ∀ w, s.core.sys.rob.arch_valids (s.core.robIn i).toIn w = false := by
      intro w
      cases hw : s.core.sys.rob.will_commit (s.core.robIn i).toIn w with
      | false => simp [Rob.arch_valids, hw]
      | true => exact absurd ⟨w, hw⟩ hany
    have hret : ∀ w, s.retires i w = false := fun w => by simp [State.retires, hno w]
    have h0 : (List.finRange W).countP (s.core.sys.rob.arch_valids (s.core.robIn i).toIn) = 0 := by
      simp [hno]
    have h0' : (List.finRange W).countP (s.retires i) = 0 := by
      simp [hret]
    rw [h0, h0', ite_self, ite_self]

end Step

end

/-! ## Runs -/

/-- The core with the levels of its entries, from reset. -/
def counting [NeZero N] [NeZero W] : Machine (State N W T va) (In N W T va) where
  start s := s.core.Reset
  ok := State.Ok
  next s i := s.next i

section Runs

variable [NeZero N] [NeZero W]

theorem inv_reach {s : State N W T va} (h : counting.Reach s) : s.Inv := by
  refine h.inv (fun s h0 => ⟨base_reset h0, fun _ a ha => ?_⟩) fun _ _ hi ok => inv_step hi ok
  exact absurd (ha.symm.trans (h0.sys.val a.1 a.2)) (by simp)

variable (r : (counting : Machine (State N W T va) (In N W T va)).Run)

/-- The run counts the instructions. -/
def Configured (t : ℕ) : Prop :=
  (r.state t).core.ucsr.sampleEventSel = 0 ∧ (r.state t).core.ucsr.warmupInstNum = 0

variable {r}

theorem ucsr_succ (t : ℕ) :
    (r.state (t + 1)).core.ucsr = (r.state t).core.ucsr_next (r.input t) := by
  rw [r.next]
  rfl

/-- One cycle of the counter: it goes up by what retired in the last one. -/
theorem nowEventNum_step {t : ℕ} (hz : (r.state (t + 1)).core.zeroes (r.input (t + 1)) = false)
    (hcfg : Configured r (t + 1)) (hmax : (r.state (t + 1)).core.ucsr.maxEventNum ≠ 0) :
    (r.state (t + 2)).core.ucsr.nowEventNum = (r.state (t + 1)).core.ucsr.nowEventNum +
      .ofNat 64 ((r.state t).retired (r.input t)) := by
  have hnext : r.state (t + 1) = (r.state t).next (r.input t) := r.next t
  rw [ucsr_succ (t + 1), nowEventNum_next, hz, if_neg Bool.false_ne_true,
    ← arch_d1_next (inv_reach (r.reach t)) (r.ok t), ← hnext]
  congr 1
  have hvalid : (r.state (t + 1)).core.sampleValid =
      ((r.state (t + 1)).core.isUserMode && (r.state (t + 1)).core.isTargetProc) := by
    rw [Core.sampleValid, decide_eq_true hmax, decide_eq_true hcfg.2, Bool.and_true, Bool.and_true]
  rw [hvalid, Core.event, if_pos hcfg.1]
  split_ifs <;> rfl

/-- **The instructions of the user are counted exactly.**  After a cycle `t` the
    counter is the number of instructions that retired in user mode, while the
    tag matched, from the cycle that zeroed it until before `t`.  An instruction
    that commits was dispatched in the mode in which it commits, except for a
    system return or call, whose own level is not counted. -/
theorem user_count {z t : ℕ} (hzt : z ≤ t) (hz : (r.state z).core.zeroes (r.input z) = true)
    (hlast : ∀ k ≤ t, z < k → (r.state k).core.zeroes (r.input k) = false)
    (hcfg : ∀ k ≤ t, z < k → Configured r k)
    (hmax : (r.state (t + 1)).core.ucsr.maxEventNum ≠ 0) :
    (r.state (t + 1)).core.ucsr.nowEventNum =
        .ofNat 64 (∑ k ∈ Finset.Ico z t, (r.state k).retired (r.input k)) ∧
      ∀ k w, (r.state k).core.sys.rob.will_commit ((r.state k).core.robIn (r.input k)).toIn w = true →
        (r.state k).user (r.state k).core.sys.rob.rob_head w = decide ((r.state k).core.prv = 0) ∨
          ((r.state k).core.sys.rob.bank (r.state k).core.sys.rob.rob_head w).uop.uopc = uopERET := by
  constructor
  · induction t, hzt using Nat.le_induction with
    | base =>
      rw [ucsr_succ, nowEventNum_next, if_pos hz, Finset.Ico_self, Finset.sum_empty]
      rfl
    | succ t ht ih =>
      have hno := hlast (t + 1) le_rfl (Nat.lt_succ_of_le ht)
      rw [ucsr_succ, maxEventNum_next_of_not_zeroes hno] at hmax
      rw [nowEventNum_step hno (hcfg (t + 1) le_rfl (Nat.lt_succ_of_le ht)) hmax,
        ih (fun k hk => hlast k (hk.trans (Nat.le_succ t)))
          (fun k hk => hcfg k (hk.trans (Nat.le_succ t))) hmax,
        Finset.sum_Ico_succ_top ht, BitVec.ofNat_add]
  · intro k w hc
    rcases (inv_reach (r.reach k)).mode (quiet_of_commit hc) _ (val_of_commit hc).1 with
      ⟨hu, -⟩ | ⟨⟨⟨-, -, hop, -⟩, -⟩, -⟩
    · exact .inl hu
    · exact .inr hop

end Runs

/-! ## A run -/

section Round

/-- The core after reset. -/
def resetState : State 2 1 1 40 := ⟨resetCore, fun _ _ => false⟩

/-- A test for `State.Ok`. -/
def fits (s : State 2 1 1 40) (i : In 2 1 1 40) : Bool :=
  calm s.core i && !i.back.csr_stall &&
  (decide (i.new_prv = s.core.prv) || (List.finRange 2).any fun r =>
    let e := s.core.sys.rob.bank r 0
    e.val && !e.exception && decide (e.uop.uopc = uopERET) && e.uop.is_unique && e.bsy &&
      i.back.wb_resps.any fun x => decide (x.rob_idx = (r, 0))) &&
  (i.ucsr_writes.isEmpty || (List.finRange 2).all fun r =>
    let e := s.core.sys.rob.bank r 0
    !e.val || !e.uop.ucsrInst || e.bsy)

theorem ok_of_fits (s : State 2 1 1 40) (i : In 2 1 1 40) (h : fits s i = true) : s.Ok i := by
  simp only [fits, Bool.and_eq_true, Bool.or_eq_true, Bool.not_eq_true', List.any_eq_true,
    List.all_eq_true, decide_eq_true_eq, List.isEmpty_iff] at h
  obtain ⟨⟨⟨hcalm, hstall⟩, hprv⟩, hwrites⟩ := h
  have hlx : i.back.lxcpt = none := by
    simp only [calm, Bool.and_eq_true, Option.isNone_iff_eq_none] at hcalm
    exact hcalm.1.1.1.1.1.1.2
  refine ⟨ok_of_calm s.core i hcalm, ?_, fun hs => ?_, fun x hx => ?_, fun hne a hv hu => ?_⟩
  · rcases hprv with hsame | ⟨r, -, ⟨⟨⟨⟨hv, hexc⟩, hop⟩, hu⟩, hb⟩, x, hx, hidx⟩
    · exact .inl hsame
    · exact .inr (.inr ⟨(r, 0), ⟨hv, hexc, hop, hu⟩, hb, x, hx, hidx⟩)
  · exact absurd (hs.symm.trans hstall) (by simp)
  · exact absurd (hx.symm.trans hlx) (by simp)
  · obtain ⟨r, w⟩ := a
    obtain rfl : w = 0 := Subsingleton.elim w 0
    rcases hwrites.resolve_left hne r (List.mem_finRange r) with (hno | hno) | hb
    · exact absurd (hv.symm.trans hno) (by simp)
    · exact absurd (hu.symm.trans hno) (by simp)
    · exact hb

/-- An instruction from decode to commit, with the level before and after its
    write-back. -/
def through (u : RobUop 2 1 1) (row : Fin 2) (writes : List (BitVec 12 × BitVec 64))
    (prv prv' : BitVec 2) : List (In 2 1 1 40) :=
  [cycle (some u) [] [] prv, cycle none [] [] prv, cycle none [row] writes prv',
    cycle none [] [] prv', cycle none [] [] prv']

/-- The tag and the limit are set; then come an instruction of the user, a system
    call, an instruction of the kernel, the return, and one more of the user. -/
def round : List (In 2 1 1 40) :=
  toUser ++ through (userUop (some setUCSR_ProcTag)) 1 [(setUCSR_ProcTag, 0x1234567)] 0 0 ++
    through (userUop (some setUCSR_MaxEventNum)) 0 [(setUCSR_MaxEventNum, 100)] 0 0 ++
    through (userUop none) 1 [] 0 0 ++ through mret 0 [] 0 1 ++ through (userUop none) 1 [] 1 1 ++
    through mret 0 [] 1 0 ++ through (userUop none) 1 [] 0 0

theorem idle_step {s : State 2 1 1 40} (h : Waits s.core) :
    counting.ok s idling ∧ Waits (counting.next s idling).core :=
  ⟨⟨(waits_step h).1, .inl h.2.1.symm, fun hs => absurd hs (by simp [idling, cycle]),
    fun x hx => absurd hx (by simp [idling, cycle]), fun hne => absurd rfl hne⟩, (waits_step h).2⟩

set_option maxRecDepth 20000 in

/-- The run of `round`, with nothing after it. -/
def roundTrip : (counting : Machine (State 2 1 1 40) (In 2 1 1 40)).Run :=
  Machine.Run.of resetState (Machine.pad round idling) resetCore_reset
    (Machine.ok_pad (fun _ => idle_step) _ _
      (Machine.accepts_of_passes ok_of_fits _ resetState (by decide +kernel))
      ⟨by decide +kernel, by decide +kernel, by decide +kernel⟩)

set_option maxRecDepth 20000 in
/-- The write of the limit, and the two instructions of the user. -/
theorem user_count_roundTrip : (roundTrip.state 41).core.ucsr.nowEventNum = 3 ∧
    (roundTrip.state 41).core.ucsr.nowEventNum =
      .ofNat 64 (∑ k ∈ Finset.Ico 13 40, (roundTrip.state k).retired (roundTrip.input k)) := by
  have hlast : ∀ k ≤ 40, 13 < k → (roundTrip.state k).core.zeroes (roundTrip.input k) = false := by
    decide +kernel
  have hcfg : ∀ k ≤ 40, 13 < k → (roundTrip.state k).core.ucsr.sampleEventSel = 0 ∧
      (roundTrip.state k).core.ucsr.warmupInstNum = 0 := by
    decide +kernel
  exact ⟨by decide +kernel, (user_count (by decide) (by decide +kernel) hlast hcfg
    (by decide +kernel)).1⟩

end Round

end BoomStop.UserCount
