/-
  Counting mispredicted branches at commit (`core.scala`, `rob.scala`).  A
  branch that resolves as mispredicted is reported by `b2` one cycle later; the
  ROB then sets `debug_fsrc` of its entry to `BSRC_C`, and shows the mark at
  once to a commit in the same cycle.  The core counts the branches and JALRs
  that commit with the mark.

  * `State`: the ROB with the fields of its uops that tell the kind of a
    branch, and the history: the branches that were reported, the branches and
    JALRs that committed, and those that were counted;
  * `State.Inv`, `inv_step`: an entry is marked, or about to be, if and only if
    its uop was reported;
  * `misp_exact`: the result.
-/
import BoomStop.RobOrder

namespace BoomStop.MispCount

open Sync RingOrder Reorder

variable {N W T : ℕ}

/-- The fields of a uop that tell its kind. -/
structure Cfi where
  is_br : Bool
  is_jalr : Bool
  ldst : ℕ
  lrs1 : ℕ

/-- The uop is one that the counters look at. -/
def Cfi.counts (c : Cfi) : Bool := c.is_br || c.is_jalr

/-- The ROB, and the history.  `reported` are the branches that were found
    mispredicted: `b2` reports each in the cycle after. -/
structure State (N W T : ℕ) where
  sys : Sys N W T
  cfi : Fin N → Fin W → Cfi
  reported : List (Item W)
  retired : List (Item W)
  counted : List (Item W)

/-- The inputs of a cycle. -/
structure In (N W T : ℕ) extends SysIn N W T where
  enq_cfis : Fin W → Cfi

namespace State

variable (s : State N W T) (i : In N W T)

/-! ### Counting -/

/-- What the entry of the row that commits is. -/
def com_cfi (w : Fin W) : Cfi := s.cfi s.sys.rob.com_idx w

/-- `com_is_br`. -/
def com_is_br (w : Fin W) : Bool := s.sys.rob.arch_valids i.toIn w && (s.com_cfi w).is_br

/-- `com_is_jalr`. -/
def com_is_jalr (w : Fin W) : Bool := s.sys.rob.arch_valids i.toIn w && (s.com_cfi w).is_jalr

/-- `com_is_ret`. -/
def com_is_ret (w : Fin W) : Bool :=
  s.sys.rob.arch_valids i.toIn w && (s.com_cfi w).is_jalr && (s.com_cfi w).ldst = 0 &&
    (s.com_cfi w).lrs1 = 1

/-- `com_is_jalrcall`. -/
def com_is_jalrcall (w : Fin W) : Bool :=
  s.sys.rob.arch_valids i.toIn w && (s.com_cfi w).is_jalr && (s.com_cfi w).ldst = 1

/-- The uop that commits carries the mark. -/
def from_core (w : Fin W) : Bool := (s.sys.rob.commit_uops i.toIn w).debug_fsrc = BSRC_C

/-- `com_misp_br`. -/
def com_misp_br (w : Fin W) : Bool := s.com_is_br i w && s.from_core i w

/-- `com_misp_jalr`. -/
def com_misp_jalr (w : Fin W) : Bool := s.com_is_jalr i w && s.from_core i w

/-- `com_misp_ret`. -/
def com_misp_ret (w : Fin W) : Bool := s.com_is_ret i w && s.from_core i w

/-- `com_misp_jalrcall`. -/
def com_misp_jalrcall (w : Fin W) : Bool := s.com_is_jalrcall i w && s.from_core i w

/-- A branch or a jump whose misprediction is counted. -/
def com_misp_cfi (w : Fin W) : Bool := s.com_misp_br i w || s.com_misp_jalr i w

/-! ### One cycle -/

/-- The item in a slot of the row that commits. -/
def headItem (w : Fin W) : Item W := s.sys.item (s.sys.rob.rob_head, w)

/-- The branches and JALRs that commit in the cycle. -/
def retireNow : List (Item W) :=
  (List.finRange W).filterMap fun w =>
    if s.sys.rob.will_commit i.toIn w && (s.com_cfi w).counts then some (s.headItem w) else none

/-- The mispredictions that are counted in the cycle. -/
def countNow : List (Item W) :=
  (List.finRange W).filterMap fun w =>
    if s.com_misp_cfi i w then some (s.headItem w) else none

/-- One cycle. -/
def next [NeZero N] [NeZero W] : State N W T where
  sys := s.sys.next i.toSysIn
  cfi r w := if s.sys.rob.enq_at i.toIn r w then i.enq_cfis w else s.cfi r w
  reported := s.reported ++ (i.oldest.map s.sys.item).toList
  retired := s.retired ++ s.retireNow i
  counted := s.counted ++ s.countNow i

/-- After reset. -/
structure Reset : Prop where
  sys : s.sys.Reset
  reported : s.reported = []
  retired : s.retired = []
  counted : s.counted = []

/-- What the core promises in a cycle. -/
structure Ok : Prop where
  rob : s.sys.Ok i.toSysIn
  /-- fetch never names the core as the source of a prediction -/
  fsrc : ∀ w, i.enq_valids w = true → (i.enq_uops w).debug_fsrc ≠ BSRC_C
  /-- what is predicated off is in the shadow of a branch: no branch or JALR -/
  shadow : ∀ x ∈ i.wb_resps, x.predicated = true →
    s.sys.Val x.rob_idx ∧ (s.cfi x.rob_idx.1 x.rob_idx.2).counts = false

/-- The invariant. -/
structure Inv : Prop where
  rob : s.sys.Inv
  mark : ∀ a, s.sys.Val a →
    ((s.sys.rob.bank a.1 a.2).uop.debug_fsrc = BSRC_C ∨ s.sys.pending = some a ↔
      s.sys.item a ∈ s.reported)
  past : ∀ x ∈ s.reported, x.cycle < s.sys.now
  executed : ∀ a, s.sys.Val a → (s.cfi a.1 a.2).counts = true →
    (s.sys.rob.bank a.1 a.2).predicated = false
  retired : s.retired.Sublist s.sys.committed
  counted : s.counted = s.retired.filter (· ∈ s.reported)

end State

/-- The ROB and the counting, from reset. -/
def misp [NeZero N] [NeZero W] : Machine (State N W T) (In N W T) where
  start := State.Reset
  ok := State.Ok
  next s i := s.next i

section

variable {s : State N W T} {i : In N W T}

/-- Different entries hold different items. -/
theorem item_inj (h : s.sys.Inv) {a b : RobIdx N W} (ha : s.sys.Val a) (hb : s.sys.Val b)
    (he : s.sys.item a = s.sys.item b) : a = b := by
  have hborn : s.sys.born a.1 a.2 = s.sys.born b.1 b.2 := congrArg Item.cycle he
  have hslot : a.2 = b.2 := congrArg Item.slot he
  by_contra hne
  rcases before_total (s := s.sys) hne with hlt | hlt
  · have hold := h.order a b ha hb hlt
    unfold Sys.Older LexLt at hold
    omega
  · have hold := h.order b a hb ha hlt
    unfold Sys.Older LexLt at hold
    omega

/-- What has committed is not in the ROB any more. -/
theorem item_not_committed (h : s.sys.Inv) {a : RobIdx N W} (ha : s.sys.Val a) :
    s.sys.item a ∉ s.sys.committed := by
  intro hc
  have hlt := h.left _ hc a ha
  unfold LexLt Sys.item at hlt
  dsimp only at hlt
  omega

/-! ## Marks -/

theorem fsrc_mark (ok : s.sys.Ok i.toSysIn) (a : RobIdx N W) (u : RobUop N W T) :
    (Rob.markMispredict i.toIn a.1 a.2 u).debug_fsrc = BSRC_C ↔
      u.debug_fsrc = BSRC_C ∨ s.sys.pending = some a := by
  unfold Rob.markMispredict
  have hpend : i.b2.map (·.1) = s.sys.pending := ok.b2
  rw [← hpend]
  cases hb : i.b2 with
  | none => simp
  | some b =>
    obtain ⟨idx, taken⟩ := b
    by_cases hidx : idx = a
    · simp [hidx]
    · simp [hidx]

/-- The mark of a uop that commits: it was reported. -/
theorem from_core_iff (h : s.Inv) (ok : s.Ok i) {w : Fin W}
    (hc : s.sys.rob.will_commit i.toIn w = true) :
    s.from_core i w = true ↔ s.headItem w ∈ s.reported := by
  have hrow : s.sys.rob.com_idx = s.sys.rob.rob_head :=
    if_neg (not_rollback_of_commit (i := i.toSysIn) hc).1
  have hval := (val_of_commit (i := i.toSysIn) hc).1
  rw [State.from_core, decide_eq_true_eq, Rob.commit_uops, hrow]
  exact (fsrc_mark ok.rob (s.sys.rob.rob_head, w) _).trans (h.mark _ hval)

theorem arch_of_cfi (h : s.Inv) {w : Fin W} (hcfi : (s.com_cfi w).counts = true) :
    s.sys.rob.arch_valids i.toIn w = s.sys.rob.will_commit i.toIn w := by
  cases hc : s.sys.rob.will_commit i.toIn w with
  | false => simp [Rob.arch_valids, hc]
  | true =>
    have hrow : s.sys.rob.com_idx = s.sys.rob.rob_head :=
      if_neg (not_rollback_of_commit (i := i.toSysIn) hc).1
    have hval := (val_of_commit (i := i.toSysIn) hc).1
    rw [State.com_cfi, hrow] at hcfi
    have hpred : (s.sys.rob.bank s.sys.rob.rob_head w).predicated = false := h.executed _ hval hcfi
    simp [Rob.arch_valids, hc, hrow, hpred]

theorem misp_br_iff (h : s.Inv) (ok : s.Ok i) {w : Fin W} : s.com_misp_br i w = true ↔
    s.sys.rob.will_commit i.toIn w = true ∧ (s.com_cfi w).is_br = true ∧
      s.headItem w ∈ s.reported := by
  rw [State.com_misp_br, State.com_is_br, Bool.and_eq_true, Bool.and_eq_true, and_assoc]
  by_cases hbr : (s.com_cfi w).is_br = true
  · rw [arch_of_cfi h (by simp [Cfi.counts, hbr])]
    exact and_congr_right fun hc => and_congr_right fun _ => from_core_iff h ok hc
  · simp [hbr]

theorem misp_jalr_iff (h : s.Inv) (ok : s.Ok i) {w : Fin W} : s.com_misp_jalr i w = true ↔
    s.sys.rob.will_commit i.toIn w = true ∧ (s.com_cfi w).is_jalr = true ∧
      s.headItem w ∈ s.reported := by
  rw [State.com_misp_jalr, State.com_is_jalr, Bool.and_eq_true, Bool.and_eq_true, and_assoc]
  by_cases hjalr : (s.com_cfi w).is_jalr = true
  · rw [arch_of_cfi h (by simp [Cfi.counts, hjalr])]
    exact and_congr_right fun hc => and_congr_right fun _ => from_core_iff h ok hc
  · simp [hjalr]

theorem misp_cfi_iff (h : s.Inv) (ok : s.Ok i) {w : Fin W} : s.com_misp_cfi i w = true ↔
    (s.sys.rob.will_commit i.toIn w && (s.com_cfi w).counts) = true ∧
      s.headItem w ∈ s.reported := by
  rw [State.com_misp_cfi, Bool.or_eq_true, misp_br_iff h ok, misp_jalr_iff h ok, Bool.and_eq_true,
    Cfi.counts, Bool.or_eq_true]
  tauto

/-- What is counted in a cycle: what retires and was reported. -/
theorem countNow_eq (h : s.Inv) (ok : s.Ok i) :
    s.countNow i = (s.retireNow i).filter (· ∈ s.reported) := by
  rw [State.countNow, State.retireNow, List.filter_filterMap]
  congr 1
  funext w
  by_cases hret : (s.sys.rob.will_commit i.toIn w && (s.com_cfi w).counts) = true
  · rw [if_pos hret]
    by_cases hrep : s.headItem w ∈ s.reported
    · rw [if_pos ((misp_cfi_iff h ok).2 ⟨hret, hrep⟩)]
      simp [Option.filter, hrep]
    · rw [if_neg fun hm => hrep ((misp_cfi_iff h ok).1 hm).2]
      simp [Option.filter, hrep]
  · rw [if_neg hret, if_neg fun hm => hret ((misp_cfi_iff h ok).1 hm).1]
    rfl

/-! ## One cycle -/

section Step

variable [NeZero N] [NeZero W]

theorem fsrc_next (ok : s.Ok i) {a : RobIdx N W}
    (he : s.sys.rob.enq_at i.toIn a.1 a.2 = false) :
    ((s.next i).sys.rob.bank a.1 a.2).uop.debug_fsrc = BSRC_C ↔
      (s.sys.rob.bank a.1 a.2).uop.debug_fsrc = BSRC_C ∨ s.sys.pending = some a := by
  show (s.sys.rob.uop_next i.toIn a.1 a.2).debug_fsrc = BSRC_C ↔ _
  rw [Rob.uop_next, fsrc_mark ok.rob a, he]
  rfl

theorem reported_next {x : Item W} : x ∈ (s.next i).reported ↔
    x ∈ s.reported ∨ ∃ b, i.oldest = some b ∧ s.sys.item b = x := by
  simp [State.next]

theorem mark_next (h : s.Inv) (ok : s.Ok i) {a : RobIdx N W} (ha : (s.next i).sys.Val a) :
    ((s.next i).sys.rob.bank a.1 a.2).uop.debug_fsrc = BSRC_C ∨
        (s.next i).sys.pending = some a ↔
      (s.next i).sys.item a ∈ (s.next i).reported := by
  have hpend : (s.next i).sys.pending = i.oldest := rfl
  have hsys : (s.next i).sys = s.sys.next i.toSysIn := rfl
  rw [reported_next, hpend]
  rcases val_next_cases h.rob ok.rob ha with ⟨hv, -⟩ | ⟨he, -, -⟩
  · have he := enq_at_of_val h.rob ok.rob hv
    rw [fsrc_next ok he, h.mark a hv, hsys, item_next_of_val h.rob ok.rob hv]
    refine or_congr_right ⟨fun hold => ⟨a, hold, rfl⟩, ?_⟩
    rintro ⟨b, hold, hitem⟩
    obtain rfl := item_inj h.rob (ok.rob.kill b hold).1 hv hitem
    exact hold
  · -- an entry that dispatch writes starts without a mark
    obtain ⟨hw, -, henq⟩ := enq_of_at he
    obtain ⟨-, hb2, hold⟩ := ok.rob.enq_ready henq
    rw [hsys, item_next_of_enq he, hold]
    have hfsrc : ((s.next i).sys.rob.bank a.1 a.2).uop.debug_fsrc ≠ BSRC_C := by
      show (s.sys.rob.uop_next i.toIn a.1 a.2).debug_fsrc ≠ BSRC_C
      rw [Rob.uop_next, Rob.markMispredict, hb2, he]
      exact ok.fsrc a.2 hw
    constructor
    · rintro (hm | hm)
      · exact absurd hm hfsrc
      · exact absurd hm (by simp)
    · rintro (hm | ⟨b, hb, -⟩)
      · exact absurd (h.past _ hm) (lt_irrefl _)
      · exact absurd hb (by simp)

theorem past_next (h : s.Inv) (ok : s.Ok i) {x : Item W} (hx : x ∈ (s.next i).reported) :
    x.cycle < (s.next i).sys.now := by
  have hnow : (s.next i).sys.now = s.sys.now + 1 := rfl
  rw [hnow]
  rcases reported_next.1 hx with hold | ⟨b, hb, rfl⟩
  · exact (h.past x hold).trans (Nat.lt_succ_self _)
  · exact (h.rob.born b (ok.rob.kill b hb).1).trans (Nat.lt_succ_self _)

theorem executed_next (h : s.Inv) (ok : s.Ok i) {a : RobIdx N W} (ha : (s.next i).sys.Val a)
    (hcfi : ((s.next i).cfi a.1 a.2).counts = true) :
    ((s.next i).sys.rob.bank a.1 a.2).predicated = false := by
  show (s.sys.rob.bank_next i.toIn a.1 a.2).predicated = false
  simp only [Rob.bank_next]
  have hcfi_next : (s.next i).cfi a.1 a.2 =
    if s.sys.rob.enq_at i.toIn a.1 a.2 then i.enq_cfis a.2 else s.cfi a.1 a.2 := rfl
  cases hfind : i.wb_resps.reverse.find? fun x => decide (x.rob_idx = (a.1, a.2)) with
  | some x =>
    have hx : x ∈ i.wb_resps := List.mem_reverse.1 (List.mem_of_find?_eq_some hfind)
    have hidx : x.rob_idx = a := by simpa using List.find?_some hfind
    show x.predicated = false
    by_contra hpred
    obtain ⟨hv, hno⟩ := ok.shadow x hx (by simpa using hpred)
    rw [hidx] at hv hno
    rw [hcfi_next, enq_at_of_val h.rob ok.rob hv, if_neg (by simp), hno] at hcfi
    exact absurd hcfi (by simp)
  | none =>
    show (if s.sys.rob.enq_at i.toIn a.1 a.2 then false
      else (s.sys.rob.bank a.1 a.2).predicated) = false
    split_ifs with he
    · rfl
    · rw [hcfi_next, if_neg he] at hcfi
      exact h.executed a ((val_next.1 ha).1.resolve_left he) hcfi

omit [NeZero N] [NeZero W] in
/-- What retires is part of what commits. -/
theorem retireNow_sublist : (s.retireNow i).Sublist (s.sys.commitNow i.toSysIn) := by
  unfold State.retireNow Sys.commitNow
  induction List.finRange W with
  | nil => exact .slnil
  | cons w ws ih =>
    by_cases hc : s.sys.rob.will_commit i.toIn w = true
    · have hitem : s.headItem w = _ := item_of_commit (i := i.toSysIn) hc
      by_cases hcfi : (s.com_cfi w).counts = true
      · rw [List.filterMap_cons_some (b := s.headItem w) (by simp [hc, hcfi]),
          List.filterMap_cons_some (b := s.headItem w) (by simp [hc, hitem])]
        exact ih.cons_cons _
      · rw [List.filterMap_cons_none (by simp [hcfi]),
          List.filterMap_cons_some (b := s.headItem w) (by simp [hc, hitem])]
        exact ih.cons _
    · rw [List.filterMap_cons_none (by simp [hc]), List.filterMap_cons_none (by simp [hc])]
      exact ih

/-- A branch that is reported now has not retired. -/
theorem counted_next (h : s.Inv) (ok : s.Ok i) :
    (s.next i).counted = (s.next i).retired.filter (· ∈ (s.next i).reported) := by
  have hcounted : (s.next i).counted = s.counted ++ s.countNow i := rfl
  have hretired : (s.next i).retired = s.retired ++ s.retireNow i := rfl
  have hold : ∀ x ∈ s.retired ++ s.retireNow i,
      (x ∈ (s.next i).reported ↔ x ∈ s.reported) := by
    intro x hx
    rw [reported_next]
    refine or_iff_left ?_
    rintro ⟨b, hb, rfl⟩
    obtain ⟨hv, hbsy, -⟩ := ok.rob.kill b hb
    rcases List.mem_append.1 hx with hin | hin
    · exact item_not_committed h.rob hv (h.retired.subset hin)
    · -- nor does it retire in this cycle, since it is busy
      obtain ⟨w, hc, hitem⟩ := mem_commitNow.1 (retireNow_sublist.subset hin)
      obtain rfl := item_inj h.rob hv (val_of_commit hc).1 hitem
      exact absurd (hbsy.symm.trans (val_of_commit hc).2.1) (by simp)
  rw [hcounted, hretired, countNow_eq h ok, h.counted, ← List.filter_append]
  refine List.filter_congr fun x hx => ?_
  simp only [hold x hx]

theorem inv_step (h : s.Inv) (ok : s.Ok i) : (s.next i).Inv where
  rob := Reorder.inv_step h.rob ok.rob
  mark _ ha := mark_next h ok ha
  past _ hx := past_next h ok hx
  executed _ ha hcfi := executed_next h ok ha hcfi
  retired := h.retired.append retireNow_sublist
  counted := counted_next h ok

theorem inv_reach (h : (misp (N := N)).Reach s) : s.Inv := by
  refine h.inv (fun s h0 => ?_) (fun _ _ hi ok => inv_step hi ok)
  have hval : ∀ a, ¬ s.sys.Val a := fun a ha =>
    absurd (ha.symm.trans (h0.sys.val a.1 a.2)) (by simp)
  exact ⟨inv_reset h0.sys, fun a ha => absurd ha (hval a), by simp [h0.reported],
    fun a ha => absurd ha (hval a), by simp [h0.retired], by simp [h0.counted, h0.retired]⟩

/-- **Mispredictions are counted truthfully, and once.**  In every cycle of
    every run, `com_misp_br` counts a slot if and only if a branch commits
    there that `b2` has reported, in this cycle or before, and `com_misp_jalr`
    does so for the JALRs.  Of all branches and JALRs that have committed so
    far, those that were counted are those that were reported, each once. -/
theorem misp_exact (h : (misp (N := N)).Reach s) (ok : s.Ok i) :
    (∀ w, s.com_misp_br i w = true ↔ s.sys.rob.will_commit i.toIn w = true ∧
      (s.com_cfi w).is_br = true ∧ s.headItem w ∈ s.reported) ∧
    (∀ w, s.com_misp_jalr i w = true ↔ s.sys.rob.will_commit i.toIn w = true ∧
      (s.com_cfi w).is_jalr = true ∧ s.headItem w ∈ s.reported) ∧
    s.counted = s.retired.filter (· ∈ s.reported) ∧ s.counted.Nodup := by
  have hi := inv_reach h
  refine ⟨fun w => misp_br_iff hi ok, fun w => misp_jalr_iff hi ok, hi.counted, ?_⟩
  rw [hi.counted]
  refine List.Nodup.filter _ (List.Nodup.sublist hi.retired (hi.rob.committed.imp ?_))
  rintro x y hlt rfl
  unfold LexLt at hlt
  omega

end Step

end

/-! ## A run -/

/-- The reset state. -/
def resetState : State 2 2 1 := ⟨resetSys, fun _ _ => ⟨false, false, 0, 0⟩, [], [], []⟩

/-- Nothing happens. -/
def quiet : In 2 2 1 := { idle with enq_cfis := fun _ => ⟨true, false, 0, 0⟩ }

/-- A branch comes in, and resolves as mispredicted while it is written back. -/
def mispredicted : List (In 2 2 1) :=
  [quiet, { quiet with enq_valids := fun w => w = 0 },
    { quiet with
      b1 := ⟨fun _ => true, fun _ => true⟩
      oldest := some (0, 0)
      wb_resps := [⟨(0, 0), false⟩] }]

/-- It commits in the cycle in which `b2` reports it. -/
def reports : In 2 2 1 := { quiet with b2 := some ((0, 0), true) }

theorem misp_exact_mispredicted :
    let s := misp.run resetState mispredicted
    s.sys.rob.will_commit reports.toIn 0 = true ∧ s.com_misp_br reports 0 = true ∧
      s.headItem 0 ∈ s.reported ∧ s.counted.Nodup := by
  have hreset : resetState.Reset := ⟨by constructor <;> intros <;> rfl, rfl, rfl, rfl⟩
  have hidle : ∀ s : State 2 2 1, s.sys.pending = none → s.Ok quiet := fun s hp =>
    ⟨idle_ok _ _ rfl rfl hp (fun _ => rfl) (by simp [Rob.enq, quiet, idle])
      (by simp [quiet, idle]) (by simp [quiet, idle]), by simp [quiet, idle],
      by simp [quiet, idle]⟩
  have hreach : misp.Reach (misp.run resetState mispredicted) := by
    refine Machine.reach_run mispredicted (.start hreset) ⟨hidle _ rfl,
      ⟨idle_ok _ _ rfl rfl rfl (fun _ => rfl) (by decide) (by decide) (by decide), by decide,
        by simp [quiet, idle]⟩,
      ⟨⟨by decide, by decide, by decide, rfl, by simp, fun b hb => ?_, by decide⟩, by decide,
        by simp⟩, trivial⟩
    obtain rfl := Option.some.inj hb
    refine ⟨rfl, rfl, by decide, fun r w _ => iff_of_false ?_ ?_⟩
    · revert r w
      decide
    · unfold Sys.Older LexLt
      revert r w
      decide
  have hok : (misp.run resetState mispredicted).Ok reports :=
    ⟨⟨by decide, by decide, by decide, rfl, fun _ _ => rfl, by simp [reports, quiet, idle],
      by decide⟩, by decide, by simp [reports, quiet, idle]⟩
  obtain ⟨hbr, -, -, hnodup⟩ := misp_exact hreach hok
  have hcount : (misp.run resetState mispredicted).com_misp_br reports 0 = true := by decide
  exact ⟨by decide, hcount, ((hbr 0).1 hcount).2.2, hnodup⟩

end BoomStop.MispCount
