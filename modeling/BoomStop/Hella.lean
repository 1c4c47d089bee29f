/-
  The shim of the LSU through which the page-table walker uses the data cache
  (the `hella_state` machine of `lsu.scala`), and whether it keeps track of its
  request.

  * `Shim.next`: one cycle of the machine, with its outputs;
  * `Sys`: the shim and the number of its requests in the cache;
  * `tracks`: without a nack for a dead request, the shim waits exactly while
    its request is in the cache;
  * `dead_nack_lost`, `dead_forever`: such a nack leaves it waiting for ever.
-/
import Mathlib.Tactic.Common
import Mathlib.Data.Nat.Notation
import BoomStop.Lib.Sizes
import BoomStop.Lib.Machine

namespace BoomStop.Hella

open Sync

variable {M : ℕ}

/-- `hella_state`. -/
inductive HellaState
  | h_ready | h_s1 | h_s2 | h_s2_nack | h_wait | h_replay | h_dead
  deriving DecidableEq

/-- `HellaCacheReq`. -/
structure HellaCacheReq where
  addr : ℕ
  tag : ℕ
  cmd : ℕ
  size : ℕ
  signed : Bool
  phys : Bool

/-- `HellaCacheResp`. -/
structure HellaCacheResp where
  addr : ℕ
  tag : ℕ
  cmd : ℕ
  size : ℕ
  signed : Bool
  data : ℕ

/-- A request to the data cache. -/
structure DCacheReq where
  addr : ℕ
  data : ℕ
  mem_cmd : ℕ
  mem_size : ℕ
  mem_signed : Bool

/-- The registers; an exception is `0` when there is none. -/
structure Shim where
  hella_state : HellaState
  hella_req : HellaCacheReq
  hella_data : ℕ
  hella_paddr : ℕ
  hella_xcpt : ℕ

/-- The inputs of a cycle, for a memory width of `M`. -/
structure In (M : ℕ) where
  req : Option HellaCacheReq
  s1_kill : Bool
  s2_kill : Bool
  s1_data : ℕ
  exe_tlb_miss : Bool
  tlb_xcpt : ℕ
  exe_tlb_paddr : ℕ
  /-- `lsu_sched` leaves the TLB and the cache port to the shim -/
  sched : Bool
  dmem_ready : Bool
  /-- the answers with `is_hella`: the data of a response, and the nacks -/
  resp : Fin M → Option ℕ
  nack : Fin M → Bool

namespace Shim

variable (s : Shim) (i : In M)

/-- `StoreGen`, for a double word: the bytes to be stored, repeated. -/
def storeData (size data : ℕ) : ℕ :=
  let bits := 8 * 2 ^ min size 3
  data % 2 ^ bits * ((2 ^ 64 - 1) / (2 ^ bits - 1))

/-- `will_fire_hella_incoming`. -/
def will_fire_hella_incoming : Bool := s.hella_state = .h_s1 && i.sched

/-- `will_fire_hella_wakeup`. -/
def will_fire_hella_wakeup : Bool := s.hella_state = .h_replay && i.sched

/-- `dmem_req`, when it is valid. -/
def dmem_req : Option DCacheReq :=
  let r := s.hella_req
  if s.will_fire_hella_incoming i then
    if !i.s1_kill && (!i.exe_tlb_miss || r.phys) then
      some ⟨i.exe_tlb_paddr, storeData r.size i.s1_data, r.cmd, r.size, r.signed⟩
    else none
  else if s.will_fire_hella_wakeup i then
    some ⟨s.hella_paddr, storeData r.size s.hella_data, r.cmd, r.size, r.signed⟩
  else none

/-- The request goes to the cache. -/
def dmem_req_fire : Bool := (s.dmem_req i).isSome && i.dmem_ready

/-- `io.hellacache.req.ready` -/
def req_ready : Bool := s.hella_state = .h_ready

/-- `io.hellacache.s2_nack` -/
def s2_nack : Bool := s.hella_state = .h_s2_nack

/-- `io.hellacache.s2_xcpt` -/
def s2_xcpt : ℕ := if s.hella_state = .h_s2 then s.hella_xcpt else 0

/-- What a lane answers to a live request. -/
def waitLane (st : HellaState) (w : Fin M) : HellaState :=
  if (i.resp w).isSome then .h_ready else if i.nack w then .h_replay else st

/-- and to a dead one. -/
def deadLane (st : HellaState) (w : Fin M) : HellaState :=
  if (i.resp w).isSome then .h_ready else st

/-- `hella_state`, in the next cycle. -/
def state_next : HellaState :=
  match s.hella_state with
  | .h_ready => if i.req.isSome then .h_s1 else .h_ready
  | .h_s1 =>
    if i.s1_kill then
      if s.will_fire_hella_incoming i && s.dmem_req_fire i then .h_dead else .h_ready
    else if s.will_fire_hella_incoming i && s.dmem_req_fire i then .h_s2
    else .h_s2_nack
  | .h_s2_nack => .h_ready
  | .h_s2 => if i.s2_kill || s.hella_xcpt ≠ 0 then .h_dead else .h_wait
  | .h_wait => (List.finRange M).foldl (waitLane i) .h_wait
  | .h_replay => if s.will_fire_hella_wakeup i && s.dmem_req_fire i then .h_wait else .h_replay
  | .h_dead => (List.finRange M).foldl (deadLane i) .h_dead

/-- `io.hellacache.resp`: the last lane that responds. -/
def resp : Option HellaCacheResp :=
  if s.hella_state = .h_wait then
    (List.finRange M).foldl
      (fun acc w =>
        match i.resp w with
        | some data =>
          let r := s.hella_req
          some ⟨r.addr, r.tag, r.cmd, r.size, r.signed, data⟩
        | none => acc)
      none
  else none

/-- One cycle. -/
def next : Shim where
  hella_state := s.state_next i
  hella_req := if s.req_ready then i.req.getD s.hella_req else s.hella_req
  hella_data := if s.hella_state = .h_s1 then i.s1_data else s.hella_data
  hella_paddr := if s.will_fire_hella_incoming i then i.exe_tlb_paddr else s.hella_paddr
  hella_xcpt := if s.hella_state = .h_s1 then i.tlb_xcpt else s.hella_xcpt

end Shim

/-! ## The cache -/

/-- The shim, the number of its requests in the data cache, and whether one of
    them was fired in the last cycle. -/
structure Sys where
  shim : Shim
  outstanding : ℕ
  recent : Bool

/-- The number of answers in a cycle. -/
def answers (i : In M) : ℕ :=
  (List.finRange M).countP (fun w => (i.resp w).isSome) + (List.finRange M).countP i.nack

namespace Sys

/-- One cycle, with what the cache still has to answer. -/
def next (s : Sys) (i : In M) : Sys where
  shim := s.shim.next i
  outstanding := s.outstanding - answers i + if s.shim.dmem_req_fire i then 1 else 0
  recent := s.shim.dmem_req_fire i

/-- After reset. -/
structure Reset (s : Sys) : Prop where
  state : s.shim.hella_state = .h_ready
  outstanding : s.outstanding = 0
  recent : s.recent = false

/-- Each request is answered once, and not before its second cycle in the
    cache. -/
def Ok (s : Sys) (i : In M) : Prop := answers i + (if s.recent then 1 else 0) ≤ s.outstanding

/-- The request is in the cache exactly when the shim waits for the answer. -/
structure Tracks (s : Sys) : Prop where
  waiting : s.shim.hella_state = .h_wait ∨ s.shim.hella_state = .h_dead → 0 < s.outstanding
  replay : s.shim.hella_state = .h_replay → s.outstanding = 0
  ready : s.shim.hella_state = .h_ready → s.outstanding = 0

/-- No dead request is nacked. -/
def NoDeadNack (s : Sys) (i : In M) : Prop := s.shim.hella_state = .h_dead → ∀ w, i.nack w = false

end Sys

/-- The shim with its cache, from reset. -/
def shim (M : ℕ) : Machine Sys (In M) where
  start := Sys.Reset
  ok := Sys.Ok
  next s i := s.next i

/-! ## The request is never lost -/

/-- When the request is in the cache, and when it has just been fired. -/
structure Sys.Inv (s : Sys) : Prop where
  count : s.outstanding = if s.shim.hella_state = .h_s2 ∨ s.shim.hella_state = .h_wait ∨
    s.shim.hella_state = .h_dead then 1 else 0
  recent : s.recent = true → s.shim.hella_state = .h_s2 ∨ s.shim.hella_state = .h_wait
  first : s.shim.hella_state = .h_s2 → s.recent = true

section

variable {s : Sys} {i : In M}

theorem tracks_of_inv (h : s.Inv) : s.Tracks := by
  refine ⟨fun hw => ?_, fun hr => ?_, fun hr => ?_⟩ <;> rw [h.count]
  · rw [if_pos (.inr hw)]
    exact Nat.one_pos
  · simp [hr]
  · simp [hr]

theorem answers_eq_zero : answers i = 0 ↔ ∀ w, i.resp w = none ∧ i.nack w = false := by
  simp [answers, List.countP_eq_zero, forall_and]

/-- Without an answer the shim goes on waiting. -/
theorem foldl_waitLane_stay (hi : answers i = 0) :
    (List.finRange M).foldl (Shim.waitLane i) .h_wait = .h_wait := by
  have hno := answers_eq_zero.1 hi
  have hall : ∀ ws : List (Fin M), ws.foldl (Shim.waitLane i) .h_wait = .h_wait := by
    intro ws
    induction ws with
    | nil => rfl
    | cons w ws ih => simpa [Shim.waitLane, hno w] using ih
  exact hall _

/-- Any answer to a live request ends the wait. -/
theorem foldl_waitLane_leave (hi : answers i ≠ 0) :
    (List.finRange M).foldl (Shim.waitLane i) .h_wait = .h_ready ∨
      (List.finRange M).foldl (Shim.waitLane i) .h_wait = .h_replay := by
  have hall : ∀ (ws : List (Fin M)) (st : HellaState),
      (st = .h_ready ∨ st = .h_replay ∨ ∃ w ∈ ws, (i.resp w).isSome = true ∨ i.nack w = true) →
      ws.foldl (Shim.waitLane i) st = .h_ready ∨ ws.foldl (Shim.waitLane i) st = .h_replay := by
    intro ws
    induction ws with
    | nil =>
      rintro st (h | h | ⟨w, hw, -⟩)
      · exact .inl h
      · exact .inr h
      · exact absurd hw List.not_mem_nil
    | cons w ws ih =>
      intro st h
      rw [List.foldl_cons]
      apply ih
      unfold Shim.waitLane
      split_ifs with h1 h2
      · exact .inl rfl
      · exact .inr (.inl rfl)
      · rcases h with h | h | ⟨v, hv, hans⟩
        · exact .inl h
        · exact .inr (.inl h)
        · rcases List.mem_cons.1 hv with rfl | hv
          · exact absurd hans (not_or.2 ⟨h1, h2⟩)
          · exact .inr (.inr ⟨v, hv, hans⟩)
  have hex : ∃ w, ¬ (i.resp w = none ∧ i.nack w = false) := by
    by_contra hno
    exact hi (answers_eq_zero.2 fun w => not_not.1 fun hw => hno ⟨w, hw⟩)
  obtain ⟨w, hw⟩ := hex
  refine hall _ _ (.inr (.inr ⟨w, List.mem_finRange w, ?_⟩))
  rw [not_and_or, Bool.not_eq_false] at hw
  exact hw.imp_left Option.isSome_iff_ne_none.2

/-- Only a response ends the wait for a dead request. -/
theorem foldl_deadLane :
    (List.finRange M).foldl (Shim.deadLane i) .h_dead =
      if ∃ w, (i.resp w).isSome = true then .h_ready else .h_dead := by
  have hall : ∀ (ws : List (Fin M)) (st : HellaState), ws.foldl (Shim.deadLane i) st =
      if ∃ w ∈ ws, (i.resp w).isSome = true then .h_ready else st := by
    intro ws
    induction ws with
    | nil => simp
    | cons w ws ih =>
      intro st
      rw [List.foldl_cons, ih]
      unfold Shim.deadLane
      by_cases hw : (i.resp w).isSome = true <;> simp [hw]
  simpa using hall (List.finRange M) .h_dead

theorem inv_reset (h : s.Reset) : s.Inv := by
  refine ⟨?_, fun hr => ?_, fun h2 => ?_⟩
  · rw [h.outstanding, h.state]
    rfl
  · exact absurd (hr.symm.trans h.recent) (by simp)
  · exact absurd (h2.symm.trans h.state) (by simp)

/-- A request is fired in `h_s1`, if it is not killed, and in `h_replay`. -/
theorem fire_cases (hf : s.shim.dmem_req_fire i = true) :
    s.shim.hella_state = .h_s1 ∧ i.s1_kill = false ∧ s.shim.will_fire_hella_incoming i = true ∨
      s.shim.hella_state = .h_replay ∧ s.shim.will_fire_hella_wakeup i = true := by
  simp only [Shim.dmem_req_fire, Shim.dmem_req, Bool.and_eq_true] at hf
  obtain ⟨hsome, -⟩ := hf
  split_ifs at hsome with h1 h2 h3
  · simp only [Bool.not_eq_true'] at h2
    have hs := h1
    simp only [Shim.will_fire_hella_incoming, Bool.and_eq_true, decide_eq_true_eq] at hs
    exact .inl ⟨hs.1, h2.1, h1⟩
  · exact absurd hsome (by simp)
  · have hs := h3
    simp only [Shim.will_fire_hella_wakeup, Bool.and_eq_true, decide_eq_true_eq] at hs
    exact .inr ⟨hs.1, h3⟩
  · exact absurd hsome (by simp)

theorem not_fire (h1 : s.shim.hella_state ≠ .h_s1) (h2 : s.shim.hella_state ≠ .h_replay) :
    s.shim.dmem_req_fire i = false := by
  by_contra hf
  rcases fire_cases (by simpa using hf) with ⟨hs, -⟩ | ⟨hs, -⟩
  · exact h1 hs
  · exact h2 hs

/-- The invariant of the next state, from the next state, the number of answers
    and whether a request is fired. -/
theorem inv_next (st : HellaState) (hst : s.shim.state_next i = st)
    (hcount : s.outstanding - answers i + (if s.shim.dmem_req_fire i then 1 else 0) =
      if st = .h_s2 ∨ st = .h_wait ∨ st = .h_dead then 1 else 0)
    (hrec : s.shim.dmem_req_fire i = true → st = .h_s2 ∨ st = .h_wait)
    (hfirst : st = .h_s2 → s.shim.dmem_req_fire i = true) : (s.next i).Inv := by
  subst hst
  exact ⟨hcount, hrec, hfirst⟩

/-- **One cycle keeps track**, if no dead request is nacked. -/
theorem inv_step (h : s.Inv) (ok : s.Ok i) (hn : s.NoDeadNack i) : (s.next i).Inv := by
  have hcount := h.count
  have hans : answers i + (if s.recent then 1 else 0) ≤ s.outstanding := ok
  cases hs : s.shim.hella_state with
  | h_ready =>
    have hf := not_fire (i := i) (s := s) (by simp [hs]) (by simp [hs])
    simp only [hs, reduceCtorEq, or_self, if_false] at hcount
    have hst : s.shim.state_next i = .h_s1 ∨ s.shim.state_next i = .h_ready := by
      simp only [Shim.state_next, hs]
      split_ifs
      · exact .inl rfl
      · exact .inr rfl
    rcases hst with hst | hst <;> refine inv_next _ hst ?_ ?_ ?_ <;> simp [hf, hcount]
  | h_s1 =>
    simp only [hs, reduceCtorEq, or_self, if_false] at hcount
    have hzero : s.outstanding - answers i = 0 := by omega
    cases hf : s.shim.dmem_req_fire i with
    | true =>
      rcases fire_cases hf with ⟨-, hkill, hwill⟩ | ⟨hs', -⟩
      · refine inv_next .h_s2 ?_ ?_ ?_ ?_
        · simp [Shim.state_next, hs, hkill, hwill, hf]
        · simp [hf, hzero]
        · exact fun _ => .inl rfl
        · exact fun _ => hf
      · exact absurd (hs.symm.trans hs') (by simp)
    | false =>
      have hst : s.shim.state_next i = .h_ready ∨ s.shim.state_next i = .h_s2_nack := by
        simp only [Shim.state_next, hs, hf, Bool.and_false, Bool.false_eq_true, if_false]
        split_ifs
        · exact .inl rfl
        · exact .inr rfl
      rcases hst with hst | hst <;> refine inv_next _ hst ?_ ?_ ?_ <;> simp [hf, hzero]
  | h_s2_nack =>
    have hf := not_fire (i := i) (s := s) (by simp [hs]) (by simp [hs])
    simp only [hs, reduceCtorEq, or_self, if_false] at hcount
    refine inv_next .h_ready ?_ ?_ ?_ ?_ <;> simp [Shim.state_next, hs, hf, hcount]
  | h_s2 =>
    -- the request is too young to be answered
    have hf := not_fire (i := i) (s := s) (by simp [hs]) (by simp [hs])
    simp only [hs, true_or, if_true] at hcount
    rw [h.first hs, if_pos rfl, hcount] at hans
    have hzero : s.outstanding - answers i = 1 := by omega
    have hst : s.shim.state_next i = .h_dead ∨ s.shim.state_next i = .h_wait := by
      simp only [Shim.state_next, hs]
      split_ifs
      · exact .inl rfl
      · exact .inr rfl
    rcases hst with hst | hst <;> refine inv_next _ hst ?_ ?_ ?_ <;> simp [hf, hzero]
  | h_wait =>
    have hf := not_fire (i := i) (s := s) (by simp [hs]) (by simp [hs])
    simp only [hs, true_or, or_true, if_true] at hcount
    by_cases hi : answers i = 0
    · refine inv_next .h_wait ?_ ?_ ?_ ?_
      · simpa only [Shim.state_next, hs] using foldl_waitLane_stay hi
      · simp [hf, hi, hcount]
      · exact fun _ => .inr rfl
      · simp
    · have hzero : s.outstanding - answers i = 0 := by omega
      have hst : s.shim.state_next i = .h_ready ∨ s.shim.state_next i = .h_replay := by
        simpa only [Shim.state_next, hs] using foldl_waitLane_leave hi
      rcases hst with hst | hst <;> refine inv_next _ hst ?_ ?_ ?_ <;> simp [hf, hzero]
  | h_replay =>
    simp only [hs, reduceCtorEq, or_self, if_false] at hcount
    have hzero : s.outstanding - answers i = 0 := by omega
    cases hf : s.shim.dmem_req_fire i with
    | true =>
      rcases fire_cases hf with ⟨hs', -⟩ | ⟨-, hwill⟩
      · exact absurd (hs.symm.trans hs') (by simp)
      · refine inv_next .h_wait ?_ ?_ ?_ ?_
        · simp [Shim.state_next, hs, hwill, hf]
        · simp [hf, hzero]
        · exact fun _ => .inr rfl
        · simp
    | false =>
      refine inv_next .h_replay ?_ ?_ ?_ ?_ <;> simp [Shim.state_next, hs, hf, hzero]
  | h_dead =>
    have hf := not_fire (i := i) (s := s) (by simp [hs]) (by simp [hs])
    simp only [hs, or_true, if_true] at hcount
    have hst : s.shim.state_next i = if ∃ w, (i.resp w).isSome = true then .h_ready else .h_dead := by
      simpa only [Shim.state_next, hs] using foldl_deadLane
    by_cases hr : ∃ w, (i.resp w).isSome = true
    · rw [if_pos hr] at hst
      have hi : answers i ≠ 0 := by
        intro hi
        obtain ⟨w, hw⟩ := hr
        rw [(answers_eq_zero.1 hi w).1] at hw
        exact absurd hw (by simp)
      have hzero : s.outstanding - answers i = 0 := by omega
      refine inv_next _ hst ?_ ?_ ?_ <;> simp [hf, hzero]
    · rw [if_neg hr] at hst
      have hi : answers i = 0 := answers_eq_zero.2 fun w =>
        ⟨Option.not_isSome_iff_eq_none.1 fun hw => hr ⟨w, hw⟩, hn hs w⟩
      refine inv_next _ hst ?_ ?_ ?_ <;> simp [hf, hi, hcount]

theorem inv_reach (h : ((shim M).restrict Sys.NoDeadNack).Reach s) : s.Inv :=
  h.inv (fun _ h0 => inv_reset h0) (fun _ _ hi ok => inv_step hi ok.1 ok.2)

/-- **The shim never loses track of its request**, in every run in which no
    dead request is nacked. -/
theorem tracks (h : ((shim M).restrict Sys.NoDeadNack).Reach s) : s.Tracks :=
  tracks_of_inv (inv_reach h)

/-! ## A nack for a dead request -/

/-- The nack is the last answer, and the shim stays. -/
theorem dead_nack_lost (h : s.Inv) (ok : s.Ok i) (hs : s.shim.hella_state = .h_dead) {w : Fin M}
    (hw : i.nack w = true) : (s.next i).shim.hella_state = .h_dead ∧ (s.next i).outstanding = 0 := by
  have hcount := h.count
  simp only [hs, or_true, if_true] at hcount
  have hans : answers i + (if s.recent then 1 else 0) ≤ s.outstanding := ok
  have hnack : 0 < (List.finRange M).countP i.nack :=
    List.countP_pos_iff.2 ⟨w, List.mem_finRange w, hw⟩
  have hno : ¬ ∃ v, (i.resp v).isSome = true := by
    rintro ⟨v, hv⟩
    have hresp : 0 < (List.finRange M).countP fun w => (i.resp w).isSome :=
      List.countP_pos_iff.2 ⟨v, List.mem_finRange v, hv⟩
    unfold answers at hans
    omega
  refine ⟨?_, ?_⟩
  · show s.shim.state_next i = .h_dead
    rw [Shim.state_next, hs]
    simp only [foldl_deadLane, if_neg hno]
  · show s.outstanding - answers i + _ = 0
    rw [not_fire (by simp [hs]) (by simp [hs])]
    unfold answers at hans ⊢
    simp only [Bool.false_eq_true, if_false]
    omega

/-- From then on it waits for ever, whatever comes: no run leaves `h_dead`. -/
theorem dead_forever (hs : s.shim.hella_state = .h_dead) (ho : s.outstanding = 0) :
    ∀ is : List (In M), (shim M).Accepts s is → ((shim M).run s is).shim.hella_state = .h_dead := by
  intro is
  induction is generalizing s with
  | nil => exact fun _ => hs
  | cons i is ih =>
    rintro ⟨hok, hrest⟩
    have hans : answers i + (if s.recent then 1 else 0) ≤ s.outstanding := hok
    have hzero : answers i = 0 := by omega
    have hno : ¬ ∃ v, (i.resp v).isSome = true := by
      rintro ⟨v, hv⟩
      rw [(answers_eq_zero.1 hzero v).1] at hv
      exact absurd hv (by simp)
    refine ih ?_ ?_ hrest
    · show s.shim.state_next i = .h_dead
      rw [Shim.state_next, hs]
      simp only [foldl_deadLane, if_neg hno]
    · show s.outstanding - answers i + _ = 0
      rw [not_fire (by simp [hs]) (by simp [hs]), ho]
      simp

end

/-! ## A walk that is killed -/

instance (s : Sys) (i : In M) : Decidable (s.Ok i) :=
  inferInstanceAs (Decidable (answers i + _ ≤ s.outstanding))

/-- The shim after reset. -/
def resetShim : Sys := ⟨⟨.h_ready, ⟨0, 0, 0, 3, false, true⟩, 0, 0, 0⟩, 0, false⟩

theorem resetShim_reset : resetShim.Reset := ⟨rfl, rfl, rfl⟩

/-- Nothing is asked. -/
def idle : In 1 where
  req := none
  s1_kill := false
  s2_kill := false
  s1_data := 0
  exe_tlb_miss := false
  tlb_xcpt := 0
  exe_tlb_paddr := 0
  sched := true
  dmem_ready := true
  resp _ := none
  nack _ := false

/-- A request is fired, and killed one cycle later. -/
def killed : List (In 1) :=
  [{ idle with req := some ⟨64, 0, 0, 3, false, true⟩ }, idle, { idle with s2_kill := true }]

theorem tracks_killed :
    let s := (shim 1).run resetShim (killed ++ [idle])
    s.shim.hella_state = .h_dead ∧ 0 < s.outstanding := by
  have test : ∀ (s : Sys) (i : In 1), (decide (s.Ok i) && !i.nack 0) = true →
      ((shim 1).restrict Sys.NoDeadNack).ok s i := by
    intro s i h
    rw [Bool.and_eq_true, decide_eq_true_eq, Bool.not_eq_true'] at h
    refine ⟨h.1, fun _ w => ?_⟩
    rw [Subsingleton.elim w 0]
    exact h.2
  have hreach : ((shim 1).restrict Sys.NoDeadNack).Reach
      ((shim 1).run resetShim (killed ++ [idle])) :=
    Machine.reach_run (M := (shim 1).restrict Sys.NoDeadNack) (killed ++ [idle])
      (.start resetShim_reset) (Machine.accepts_of_passes test _ _ (by decide))
  exact ⟨rfl, (tracks hreach).waiting (.inr rfl)⟩

/-- The cache nacks the killed request, and the shim still waits. -/
theorem dead_request_nacked : ¬ ∀ s : Sys, (shim 1).Reach s → s.Tracks := by
  intro hall
  have test : ∀ (s : Sys) (i : In 1), decide (s.Ok i) = true → (shim 1).ok s i := by
    intro s i h
    exact of_decide_eq_true (p := s.Ok i) h
  have hreach : (shim 1).Reach
      ((shim 1).run resetShim (killed ++ [{ idle with nack := fun _ => true }])) :=
    Machine.reach_run (killed ++ [{ idle with nack := fun _ => true }]) (.start resetShim_reset)
      (Machine.accepts_of_passes test _ _ (by decide))
  exact absurd ((hall _ hreach).waiting (.inr rfl)) (by decide)

end BoomStop.Hella
