/-
  What the issue ports take from the collapsing queue.  The list of the uops
  that the queue owes is kept by what register read gets from the ports alone,
  whatever the slots make of their grants.

  * `iss_slot`, `read_uop`: the slot whose uop a port shows, and what register
    read gets from the port;
  * `iss_slot_iff`, `exists_port`: a grant is one port that shows the uop of the
    slot;
  * `MicroOp.rest`: what is left of a uop of which a part has issued;
  * `issueQueue`: the queue with that list; `next_eq`: the slots give up what the
    ports have taken;
  * `nothing_lost`: the valid slots hold the list; `fence_not_held`: fences and
    uops with an exception do not enter.
-/
import BoomStop.StoreIssue

namespace BoomStop.Issue

open Sync
open Rename (RType)

variable {n d I T : ℕ}

namespace IssueUnit

variable (q : IssueUnit n d T) (i : In d I T)

/-- The slot whose uop a port shows. -/
def iss_slot (w : Fin I) : Option (Fin n) :=
  (List.finRange n).find? fun k => (q.slots k).request i.bcast &&
    decide (portOf i (q.port_issued i k) (q.slots k).uop = some w)

/-- What register read gets from a port: a uop that waits on a load that missed
    is dropped. -/
def read_uop (w : Fin I) : Option (MicroOp T) :=
  (q.iss_uops i w).filter fun u =>
    !(i.bcast.ldspec_miss && (u.iw_p1_poisoned || u.iw_p2_poisoned))

/-- What the ports issue of the uop in a slot. -/
def issued (k : Fin n) : List (MicroOp T) :=
  (List.finRange I).filterMap fun w => if q.iss_slot i w = some k then q.read_uop i w else none

end IssueUnit

/-- What is left of a uop when `v` of it has issued: of a store that still has
    both halves the other one, of any other uop nothing. -/
def MicroOp.rest (u v : MicroOp T) : Option (MicroOp T) :=
  if u.iw_state = .s_valid_2 then
    match v.piece with
    | some .address => some { u with iw_state := .s_valid_1, uopc := .uopSTD, lrs1_rtype := .RT_X }
    | some .data => some { u with iw_state := .s_valid_1, lrs2_rtype := .RT_X }
    | _ => none
  else none

/-- and after a cycle in which some uops have issued of it. -/
def MicroOp.after (b : BrUpdate T) (u : MicroOp T) (vs : List (MicroOp T)) : Option (MicroOp T) :=
  if isKilledByBranch b u.br_mask then none
  else vs.foldl (fun o v => o.bind (·.rest v))
    (some { u with br_mask := getNewBrMask b u.br_mask })

namespace Sys

variable (s : Sys n d T) (i : IssueUnit.In d I T) (iqType : IqType)

/-- The entries that stay: the ports have not taken them, and no branch kills
    them. -/
def remain : List (Entry T) :=
  (List.zipWith (fun e k => (e.uop.after i.bcast.brupdate (s.unit.issued i k)).map
    (Entry.mk e.number)) s.queue s.unit.valid_slots).reduceOption

/-- One cycle, by the ports. -/
def issue : Sys n d T where
  unit := s.unit.next i iqType
  queue := if i.bcast.kill then [] else s.remain i ++ s.enter i iqType
  dispatched := s.dispatched + (IssueUnit.accepted i iqType).length

end Sys

/-- Dispatch presents a uop only at a port that is ready; and decode has given
    every AMO its data in an integer register. -/
structure Dispatches (s : Sys n d T) (i : IssueUnit.In d I T) : Prop where
  ready : ∀ w, (i.dis_uops w).isSome → s.unit.ready w = true
  amo : ∀ w, ∀ u ∈ i.dis_uops w, u.uopc = .uopAMO_AG → u.lrs2_rtype = .RT_FIX

/-- The queue and what it owes, with any grants, branch resolutions, flushes and
    load misses. -/
def issueQueue (n d I T : ℕ) (iqType : IqType) : Machine (Sys n d T) (IssueUnit.In d I T) where
  start s := (collapsing n d I T iqType).start s
  ok s i := Dispatches s i
  next s i := s.issue i iqType

/-! ## The ports -/

namespace IssueUnit

variable {q : IssueUnit n d T} {i : In d I T} {k : Fin n} {w : Fin I}

theorem iss_uops_eq (w : Fin I) :
    q.iss_uops i w = (q.iss_slot i w).map fun k => (q.slots k).uop := rfl

/-- A port that a slot takes is taken for all later ones. -/
theorem port_issued_of_lt {m : ℕ} (hk : (q.slots k).request i.bcast = true)
    (hw : portOf i (q.port_issued i k) (q.slots k).uop = some w) (hlt : k.val < m) :
    q.port_issued i m w = true := by
  induction m, hlt using Nat.le_induction with
  | base =>
    show (q.port_issued i k w || _) = true
    rw [dif_pos k.isLt, hk, hw, decide_eq_true rfl, Bool.and_true, Bool.or_true]
  | succ m _ ih =>
    show (q.port_issued i m w || _) = true
    rw [ih, Bool.true_or]

/-- and the slot has found it free. -/
theorem not_port_issued (hw : portOf i (q.port_issued i k) (q.slots k).uop = some w) :
    q.port_issued i k w = false := by
  have hfree := List.find?_some hw
  rw [Bool.and_eq_true, Bool.not_eq_true'] at hfree
  exact hfree.2

/-- **A port shows one slot**, the one that has found it. -/
theorem iss_slot_iff : q.iss_slot i w = some k ↔
    (q.slots k).request i.bcast = true ∧
      portOf i (q.port_issued i k) (q.slots k).uop = some w := by
  constructor
  · intro h
    have hp := List.find?_some h
    rwa [Bool.and_eq_true, decide_eq_true_eq] at hp
  · rintro ⟨hk, hw⟩
    cases hf : q.iss_slot i w with
    | none =>
      have hno := List.find?_eq_none.1 hf k (List.mem_finRange k)
      rw [hk, hw, decide_eq_true rfl] at hno
      exact absurd rfl hno
    | some j =>
      have hp := List.find?_some hf
      rw [Bool.and_eq_true, decide_eq_true_eq] at hp
      -- the later of two would have found it taken
      rcases Nat.lt_trichotomy j.val k.val with hlt | he | hlt
      · exact absurd (not_port_issued hw) (by rw [port_issued_of_lt hp.1 hp.2 hlt]; decide)
      · rw [Fin.ext he]
      · exact absurd (not_port_issued hp.2) (by rw [port_issued_of_lt hk hw hlt]; decide)

/-- **A grant is one port.** -/
theorem grant_iff : q.grant i k = true ↔ ∃ w, q.iss_slot i w = some k := by
  rw [grant, Bool.and_eq_true, Option.isSome_iff_exists]
  constructor
  · rintro ⟨hk, w, hw⟩
    exact ⟨w, iss_slot_iff.2 ⟨hk, hw⟩⟩
  · rintro ⟨w, hw⟩
    obtain ⟨hk, hw⟩ := iss_slot_iff.1 hw
    exact ⟨hk, w, hw⟩

theorem iss_slot_inj {w' : Fin I} (h : q.iss_slot i w = some k) (h' : q.iss_slot i w' = some k) :
    w = w' :=
  Option.some.inj ((iss_slot_iff.1 h).2.symm.trans (iss_slot_iff.1 h').2)

/-- What the ports issue of a slot is its uop, if it is granted and does not wait
    on a load that missed. -/
theorem issued_eq : q.issued i k = ((q.slots k).iss_uop i.bcast (q.grant i k)).toList := by
  cases hg : q.grant i k with
  | false =>
    rw [Slot.iss_uop, Bool.false_and, if_neg Bool.false_ne_true, issued, Option.toList_none,
      List.filterMap_eq_nil_iff]
    intro w _
    refine if_neg fun hw => ?_
    rw [grant_iff.2 ⟨w, hw⟩] at hg
    cases hg
  | true =>
    obtain ⟨w, hw⟩ := grant_iff.1 hg
    have hread : q.read_uop i w = (q.slots k).iss_uop i.bcast true := by
      rw [read_uop, iss_uops_eq, hw, Option.map_some, Option.filter_some, Slot.iss_uop,
        Bool.true_and]
    have hone : ∀ w', (if q.iss_slot i w' = some k then q.read_uop i w' else none) =
        if w'.val = w.val then q.read_uop i w' else none := by
      intro w'
      refine if_congr ⟨fun h => ?_, fun h => ?_⟩ rfl rfl
      · rw [iss_slot_inj h hw]
      · rwa [Fin.ext h]
    have hsorted : ((List.finRange I).map Fin.val).Pairwise (· < ·) := by
      rw [List.map_coe_finRange_eq_range]
      exact List.pairwise_lt_range
    rw [issued, funext hone, filterMap_key Fin.val hsorted (List.mem_finRange w), hread]

end IssueUnit

/-! ## The slots give up what the ports have taken -/

/-- A store with both halves in the queue has its data in an integer register. -/
def MicroOp.Split (u : MicroOp T) : Prop := u.iw_state = .s_valid_2 → u.IntStore

namespace Slot

variable {s : Slot T} {x : Bcast T} {grant : Bool}

/-- The uop of a slot, as it is owed. -/
def content (s : Slot T) : MicroOp T := { s.slot_uop with iw_state := s.state }.settled

/-- What a slot gives up is what register read gets of its uop. -/
theorem after_issued (b : BrUpdate T) (hreq : grant = true → s.request x = true)
    (hsplit : s.content.Split) :
    s.content.after b (s.iss_uop x grant).toList = s.content.left b (s.taken x grant) := by
  unfold MicroOp.after MicroOp.left
  split_ifs with hkill
  · rfl
  cases hg : grant && !s.squash_grant x with
  | false =>
    rw [taken_of_not_issued hg, iss_uop_eq, hg, if_neg Bool.false_ne_true]
    rfl
  | true =>
    rw [iss_uop_eq, hg, if_pos rfl]
    rw [Bool.and_eq_true, Bool.not_eq_true'] at hg
    obtain ⟨rfl, hs⟩ := hg
    have hr := hreq rfl
    show MicroOp.rest _ s.uop = _
    cases hst : s.state with
    | s_invalid =>
      rw [request, hst] at hr
      cases hr
    | s_valid_1 =>
      have ht : s.taken x true = .all := by simp [taken, may_vacate, hst, hs]
      rw [ht, MicroOp.rest, if_neg]
      show s.state ≠ _
      rw [hst]
      exact IwState.noConfusion
    | s_valid_2 =>
      obtain ⟨hsta, hrs2⟩ : s.slot_uop.is_sta = true ∧ s.slot_uop.lrs2_rtype = .RT_FIX := hsplit hst
      simp only [request, hst, Bool.and_eq_true, Bool.not_eq_true'] at hr
      refine Eq.trans (if_pos hst) ?_
      cases hall : s.p1 && s.p2 && s.ppred with
      | true =>
        have ht : s.taken x true = .all := by simp [taken, may_vacate, hst, hall, hs]
        rw [ht, uop_of_ready hall, MicroOp.piece_both hsta hrs2]
      | false =>
        have ht : s.taken x true = if s.p1 then .address else .data := by
          simp [taken, may_vacate, splits, hst, hall, hs, hr.2]
        rw [ht, uop_of_split rfl hsta hst hall hr.1.2 hr.1.1]
        cases s.p1 <;> rfl

end Slot

/-! ## Runs -/

namespace Sys

variable {s : Sys n d T} {i : IssueUnit.In d I T} {iqType : IqType}

/-- The list is that of the slots, and a store that has both halves is one. -/
structure Owed (s : Sys n d T) : Prop where
  inv : s.Inv
  split : ∀ e ∈ s.queue, e.uop.Split

theorem remain_eq (h : s.Owed) : s.remain i = s.stay i := by
  have hzip : ∀ a ∈ s.queue.zip s.unit.valid_slots, a.1.uop = (s.unit.slots a.2).content :=
    fun a ha => eq_of_mem_zip (h.inv.held.symm.trans IssueUnit.held_eq) ha
  rw [stay, IssueUnit.taken_eq, zipWith_map_zip, remain, ← List.map_uncurry_zip_eq_zipWith]
  refine congrArg List.reduceOption (List.map_congr_left fun a ha => ?_)
  have huop := hzip a ha
  have hsplit := h.split _ (List.of_mem_zip ha).1
  rw [huop] at hsplit
  change Option.map _ (MicroOp.after _ a.1.uop (s.unit.issued i a.2)) = _
  rw [huop, IssueUnit.issued_eq,
    Slot.after_issued i.bcast.brupdate IssueUnit.request_of_grant hsplit]

/-- **The slots give up what the ports have taken.** -/
theorem next_eq (h : s.Owed) : s.issue i iqType = s.next i iqType := by
  rw [issue, next, remain_eq h]

theorem split_of_left {b : BrUpdate T} {u v : MicroOp T} {t : Taken} (hu : u.Split)
    (h : u.left b t = some v) : v.Split := by
  unfold MicroOp.left at h
  split_ifs at h
  cases t with
  | nothing =>
    obtain rfl := Option.some.inj h
    exact hu
  | address =>
    obtain rfl := Option.some.inj h
    exact fun hst => IwState.noConfusion hst
  | data =>
    obtain rfl := Option.some.inj h
    exact fun hst => IwState.noConfusion hst
  | all => cases h

theorem left_of_mem_stay {e : Entry T} (h : e ∈ s.stay i) :
    ∃ e' ∈ s.queue, ∃ t, e'.uop.left i.bcast.brupdate t = some e.uop := by
  rw [stay, ← List.map_uncurry_zip_eq_zipWith, List.reduceOption_mem_iff, List.mem_map] at h
  obtain ⟨⟨e', t⟩, hmem, he⟩ := h
  obtain ⟨v, hv, rfl⟩ := Option.map_eq_some_iff.1 he
  exact ⟨e', (List.of_mem_zip hmem).1, t, hv⟩

/-- Dispatch gives both halves only to a store with integer data. -/
theorem split_dispatch {u : MicroOp T} (hamo : u.uopc = .uopAMO_AG → u.lrs2_rtype = .RT_FIX) :
    (dispatchUop iqType u).settled.Split := by
  intro hst
  have hst : (dispatchUop iqType u).iw_state = .s_valid_2 := hst
  suffices h : (dispatchUop iqType u).IntStore from h
  cases iqType with
  | FP =>
    simp only [dispatchUop] at hst
    split_ifs at hst
  | INT | MEM =>
    simp only [dispatchUop] at hst ⊢
    split_ifs at hst ⊢ with hboth
    rw [MicroOp.IntStore, MicroOp.is_sta]
    rcases hboth with ⟨hop, hrs2⟩ | hop
    · exact ⟨by rw [hop]; rfl, hrs2⟩
    · exact ⟨by rw [hop]; rfl, hamo hop⟩

theorem split_of_mem_enter (hamo : ∀ w, ∀ u ∈ i.dis_uops w, u.uopc = .uopAMO_AG →
    u.lrs2_rtype = .RT_FIX) {e : Entry T} (he : e ∈ s.enter i iqType) : e.uop.Split := by
  have huop : e.uop ∈ IssueUnit.accepted i iqType := by
    rw [← enter_uop (s := s)]
    exact List.mem_map_of_mem he
  obtain ⟨w, hw, hv⟩ := List.mem_filterMap.1 huop
  rw [dif_pos (List.mem_range.1 hw)] at hv
  obtain ⟨u, hu, hp⟩ := Option.bind_eq_some_iff.1 hv
  unfold MicroOp.pending at hp
  split_ifs at hp
  rw [← Option.some.inj hp]
  exact split_dispatch (hamo _ u (Option.filter_eq_some_iff.1 hu).1)

theorem owed_step [NeZero d] (h : s.Owed) (hok : Dispatches s i) : (s.issue i iqType).Owed := by
  rw [next_eq h]
  refine ⟨inv_step h.inv hok.ready, fun e he => ?_⟩
  have he : e ∈ if i.bcast.kill then [] else s.stay i ++ s.enter i iqType := he
  split_ifs at he
  · cases he
  · rcases List.mem_append.1 he with he | he
    · obtain ⟨e', he', t, hleft⟩ := left_of_mem_stay he
      exact split_of_left (h.split e' he') hleft
    · exact split_of_mem_enter hok.amo he

theorem owed_reach [NeZero d] (h : (issueQueue n d I T iqType).Reach s) : s.Owed :=
  h.inv
    (fun s (h : (collapsing n d I T iqType).start s) =>
      ⟨inv_start h, by rw [h.2.2.1]; exact fun _ he => absurd he List.not_mem_nil⟩)
    fun _ _ h hok => owed_step h hok

end Sys

/-- What the ports do with the slots in a cycle. -/
structure IssueUnit.Ports (q : IssueUnit n d T) (i : IssueUnit.In d I T) : Prop where
  /-- a grant is one port, -/
  one : ∀ k, q.grant i k = true → ∃! w, q.iss_slot i w = some k
  /-- which shows the uop of the slot, -/
  shows : ∀ w k, q.iss_slot i w = some k →
    q.grant i k = true ∧ q.iss_uops i w = some (q.slots k).uop
  /-- and the other ports show nothing -/
  none : ∀ w, q.iss_slot i w = none → q.iss_uops i w = none

theorem IssueUnit.ports (q : IssueUnit n d T) (i : IssueUnit.In d I T) : q.Ports i where
  one k hg := by
    obtain ⟨w, hw⟩ := grant_iff.1 hg
    exact ⟨w, hw, fun w' hw' => iss_slot_inj hw' hw⟩
  shows w k hw := ⟨grant_iff.2 ⟨w, hw⟩, by rw [iss_uops_eq, hw]; rfl⟩
  none w hw := by
    rw [iss_uops_eq, hw]
    rfl

/-- **The collapsing queue loses nothing**: the valid slots hold, in slot order,
    the uops that have entered and that the ports have not issued and no branch
    or flush has killed, each once and in the order of dispatch; and whatever the
    next cycle brings, every uop has one place to go to and none is overwritten,
    and a grant is one port with the uop of its slot. -/
theorem nothing_lost [NeZero d] {iqType : IqType} {s : Sys n d T}
    (h : (issueQueue n d I T iqType).Reach s) :
    s.unit.held = s.queue.map Entry.uop ∧
      (s.queue.map Entry.number).Pairwise (· < ·) ∧ (∀ e ∈ s.queue, e.number < s.dispatched) ∧
      (∀ i, (issueQueue n d I T iqType).ok s i → s.unit.Orderly i) ∧
      ∀ i : IssueUnit.In d I T, s.unit.Ports i := by
  obtain ⟨hheld, hsorted, holder, hfree⟩ := (Sys.owed_reach h).inv
  exact ⟨hheld, hsorted, holder, fun i hok => IssueUnit.orderly hfree hok.ready,
    fun i => s.unit.ports i⟩

/-! ## Two runs -/

/-- What may be dispatched. -/
def mayDispatch (s : Sys 3 2 1) (i : IssueUnit.In 2 1 1) : Bool :=
  decide (∀ w, (i.dis_uops w).isSome → s.unit.ready w = true) &&
    decide (∀ w, (i.dis_uops w).all fun u => u.uopc ≠ .uopAMO_AG || u.lrs2_rtype = .RT_FIX)

theorem dispatches_of_may {s : Sys 3 2 1} {i : IssueUnit.In 2 1 1} (h : mayDispatch s i = true) :
    Dispatches s i := by
  rw [mayDispatch, Bool.and_eq_true, decide_eq_true_iff, decide_eq_true_iff] at h
  refine ⟨h.1, fun w u hu hop => ?_⟩
  have hall := h.2 w
  rw [Option.mem_def.1 hu] at hall
  simpa [hop] using hall

theorem start_emptyUnit (iqType : IqType) :
    (issueQueue 3 2 1 1 iqType).start ⟨emptyUnit, [], 0⟩ :=
  ⟨fun _ => rfl, fun w _ => w.isLt.trans (by decide), rfl, rfl⟩

/-- Two uops are dispatched, of which the first waits for a load; the second one
    issues while the load is announced and a store comes in; the first one moves
    down, is granted, and the load has missed; then half of the store issues. -/
def missRun : List (IssueUnit.In 2 1 1) :=
  [present fun w => some (if w = 0 then { aluUop 0 with prs1 := 7, prs1_busy := true } else aluUop 1),
    { present fun w => if w = 0 then some (storeUop .RT_FIX) else none with
      bcast := ⟨⟨fun _ => false, fun _ => false⟩, false, false, [], none, [7]⟩ },
    { present fun _ => none with
      bcast := ⟨⟨fun _ => false, fun _ => false⟩, false, true, [], none, []⟩ },
    present fun _ => none]

theorem missRun_reach : (issueQueue 3 2 1 1 .MEM).Reach
    ((issueQueue 3 2 1 1 .MEM).run ⟨emptyUnit, [], 0⟩ missRun) :=
  Machine.reach_run _ (.start (start_emptyUnit .MEM))
    (Machine.accepts_of_passes (fun _ _ => dispatches_of_may) _ _ (by decide))

/-- The first uop is still there, and the data half of the store behind it. -/
theorem nothing_lost_missed :
    let s := (issueQueue 3 2 1 1 .MEM).run ⟨emptyUnit, [], 0⟩ missRun
    s.queue.map (fun e => (e.number, e.uop.uopc)) = [(0, .other 1), (2, .uopSTD)] ∧
      s.unit.held = s.queue.map Entry.uop :=
  ⟨by decide, (nothing_lost missRun_reach).1⟩

/-- A fence that is dispatched does not enter: nothing has issued or killed it,
    and no slot holds it. -/
theorem fence_not_held :
    ¬ ∀ (s : Sys 3 2 1) (i : IssueUnit.In 2 1 1), (issueQueue 3 2 1 1 .MEM).Reach s →
      Dispatches s i → i.bcast.kill = false → ∀ w, ∀ u ∈ i.dis_uops w,
        isKilledByBranch i.bcast.brupdate u.br_mask = false →
          ∃ v ∈ (s.issue i .MEM).unit.held, v.rob_idx = u.rob_idx := by
  intro h
  obtain ⟨v, hv, -⟩ := h ⟨emptyUnit, [], 0⟩
    (present fun w => if w = 0 then some { aluUop 0 with is_fence := true } else none)
    (.start (start_emptyUnit .MEM)) (dispatches_of_may (by decide)) rfl 0 _ rfl (by decide)
  have hnone : ((⟨emptyUnit, [], 0⟩ : Sys 3 2 1).issue
      (present fun w => if w = 0 then some { aluUop 0 with is_fence := true } else none)
        .MEM).unit.held.length = 0 := by decide
  rw [List.eq_nil_of_length_eq_zero hnone] at hv
  cases hv

end BoomStop.Issue
