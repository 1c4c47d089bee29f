/-
  The scheduler of the load-store unit with one pipe (`lsu.scala`): what can
  fire in a cycle, what does (`lsu_sched`), and the counter that is to let a
  store through when load wakeups keep it from the cache.

  * `can_fire`, `will_fire`: one cycle of the scheduler;
  * `counter_eq`: while a store is blocked the counter alternates between 0
    and 15;
  * `blocked_counter_iff`: so it counts in the runs that never block a store,
    and in no others.
-/
import BoomStop.Lib.Arbiter
import BoomStop.Lib.Machine
import Mathlib.Tactic.Common

namespace BoomStop.LsuSched

open Sync Arbiter

/-! ## A cycle -/

/-- What a request takes. -/
inductive Port where
  | tlb | dc | lcam | rob
  deriving DecidableEq

/-- The requests of `lsu_sched`. -/
inductive Req where
  | load_incoming | stad_incoming | sta_incoming | std_incoming | sfence | release
  | hella_incoming | hella_wakeup | load_retry | sta_retry | load_wakeup | store_commit
  deriving DecidableEq

namespace Req

/-- The ports that a request needs. -/
def uses : Req → List Port
  | load_incoming => [.tlb, .dc, .lcam]
  | stad_incoming => [.tlb, .lcam, .rob]
  | sta_incoming => [.tlb, .lcam, .rob]
  | std_incoming => [.rob]
  | sfence => [.tlb, .rob]
  | release => [.lcam]
  | hella_incoming => [.tlb, .dc]
  | hella_wakeup => [.dc]
  | load_retry => [.tlb, .dc, .lcam]
  | sta_retry => [.tlb, .lcam, .rob]
  | load_wakeup => [.dc, .lcam]
  | store_commit => [.dc]

/-- The order of the statements is the priority. -/
def priority : List Req :=
  [load_incoming, stad_incoming, sta_incoming, std_incoming, sfence, release, hella_incoming,
    hella_wakeup, load_retry, sta_retry, load_wakeup, store_commit]

end Req

/-- `exe_req`: what the address unit sends. -/
structure ExeReq where
  valid : Bool
  is_load : Bool
  is_sta : Bool
  is_std : Bool
  sfence : Bool

/-- The fields of an `LDQEntry` that decide whether its load can fire. -/
structure LDQEntry where
  valid : Bool
  addr_valid : Bool
  addr_is_virtual : Bool
  addr_is_uncacheable : Bool
  executed : Bool
  succeeded : Bool
  order_fail : Bool
  /-- `st_dep_mask === 0.U` -/
  no_st_dep : Bool

/-- The fields of an `STQEntry` that decide whether its store can fire. -/
structure STQEntry where
  valid : Bool
  is_fence : Bool
  is_amo : Bool
  exception : Bool
  addr_valid : Bool
  addr_is_virtual : Bool
  data_valid : Bool
  committed : Bool

/-- What the scheduler sees in a cycle. -/
structure In where
  exe_req : ExeReq
  release_valid : Bool
  can_fire_hella_incoming : Bool
  can_fire_hella_wakeup : Bool
  ldq_retry_e : LDQEntry
  /-- `p1_block_load_mask(ldq_retry_idx)`, `p2_block_load_mask(ldq_retry_idx)` -/
  p1_block_retry : Bool
  p2_block_retry : Bool
  stq_retry_e : STQEntry
  /-- `RegNext(dtlb.io.miss_rdy)` -/
  miss_rdy : Bool
  store_needs_order : Bool
  ldq_wakeup_e : LDQEntry
  p1_block_wakeup : Bool
  p2_block_wakeup : Bool
  /-- `ldq_head === ldq_wakeup_idx` -/
  wakeup_at_head : Bool
  commit_load_at_rob_head : Bool
  stq_commit_e : STQEntry
  mem_xcpt_valid : Bool
  /-- `ldst_addr_matches(0)` is not empty -/
  ldst_addr_matches : Bool
  mem_forward_valid : Bool

/-- `store_blocked_counter`, the delayed failure to forward, and how many
    cycles before this one have blocked a store one after the other. -/
structure Sched where
  store_blocked_counter : BitVec 4
  unforwarded : Bool
  blocked : ℕ

variable (s : Sched) (i : In)

/-- The counter suppresses load wakeups. -/
def Sched.counter_blocks : Bool := s.store_blocked_counter == 15

/-- `block_load_wakeup`. -/
def Sched.block_load_wakeup : Bool := s.unforwarded || s.counter_blocks

/-- `can_fire`. -/
def can_fire : Req → Bool
  | .load_incoming => i.exe_req.valid && i.exe_req.is_load
  | .stad_incoming => i.exe_req.valid && i.exe_req.is_sta && i.exe_req.is_std
  | .sta_incoming => i.exe_req.valid && i.exe_req.is_sta && !i.exe_req.is_std
  | .std_incoming => i.exe_req.valid && i.exe_req.is_std && !i.exe_req.is_sta
  | .sfence => i.exe_req.valid && i.exe_req.sfence
  | .release => i.release_valid
  | .hella_incoming => i.can_fire_hella_incoming
  | .hella_wakeup => i.can_fire_hella_wakeup
  | .load_retry =>
    let e := i.ldq_retry_e
    e.valid && e.addr_valid && e.addr_is_virtual && !i.p1_block_retry && !i.p2_block_retry &&
      i.miss_rdy && !i.store_needs_order && !e.order_fail
  | .sta_retry =>
    -- with one pipe there is no other that could bring the data
    let e := i.stq_retry_e
    e.valid && e.addr_valid && e.addr_is_virtual && i.miss_rdy
  | .load_wakeup =>
    let e := i.ldq_wakeup_e
    e.valid && e.addr_valid && !e.succeeded && !e.addr_is_virtual && !e.executed &&
      !e.order_fail && !i.p1_block_wakeup && !i.p2_block_wakeup && !i.store_needs_order &&
      !s.block_load_wakeup &&
      (!e.addr_is_uncacheable || (i.commit_load_at_rob_head && i.wakeup_at_head && e.no_st_dep))
  | .store_commit =>
    let e := i.stq_commit_e
    e.valid && !e.is_fence && !i.mem_xcpt_valid && !e.exception &&
      (e.committed || (e.is_amo && e.addr_valid && !e.addr_is_virtual && e.data_valid))

/-- `will_fire`. -/
def will_fire (r : Req) : Bool := (granted Req.uses (can_fire s i) Req.priority []).contains r

/-- A store that could commit gets no port. -/
def blocks : Bool := can_fire s i .store_commit && !will_fire s i .store_commit

/-! ## The counter -/

/-- `store_blocked_counter`, in the next cycle. -/
def nextCounter : BitVec 4 :=
  if will_fire s i .store_commit || !can_fire s i .store_commit then 0
  else if s.store_blocked_counter = 15 then s.store_blocked_counter + 1
  else 15

/-- One cycle. -/
def next : Sched where
  store_blocked_counter := nextCounter s i
  unforwarded := i.ldst_addr_matches && !i.mem_forward_valid
  blocked := if blocks s i then s.blocked + 1 else 0

/-- The scheduler after reset, on any inputs. -/
def sched : Machine Sched In where
  start s := s.store_blocked_counter = 0 ∧ s.blocked = 0
  ok _ _ := True
  next := next

variable {s i}

theorem will_fire_iff {r : Req} :
    will_fire s i r = true ↔ r ∈ granted Req.uses (can_fire s i) Req.priority [] := by
  rw [will_fire, List.contains_iff_mem]

theorem mem_priority (r : Req) : r ∈ Req.priority := by
  cases r <;> decide

theorem can_fire_of_will_fire {r : Req} (h : will_fire s i r = true) : can_fire s i r = true :=
  (granted_asks Req.priority [] (will_fire_iff.1 h)).1

/-- A port serves one request a cycle. -/
theorem will_fire_unique {q r : Req} {p : Port} (hq : will_fire s i q = true)
    (hr : will_fire s i r = true) (hpq : p ∈ q.uses) (hpr : p ∈ r.uses) : q = r :=
  unique_granted Req.priority [] (will_fire_iff.1 hq) (will_fire_iff.1 hr) hpq hpr

/-- A store is blocked by another request that goes to the cache. -/
theorem dc_taken_of_blocks (h : blocks s i = true) :
    ∃ r, r ≠ .store_commit ∧ .dc ∈ r.uses ∧ will_fire s i r = true := by
  rw [blocks, Bool.and_eq_true, Bool.not_eq_true'] at h
  have hno : ¬ will_fire s i .store_commit = true := by rw [h.2]; exact Bool.false_ne_true
  rcases granted_or_taken Req.priority ([] : List Port) (mem_priority .store_commit) h.1 with hw | ⟨p, hp, hw⟩
  · exact absurd (will_fire_iff.2 hw) hno
  · obtain rfl := List.mem_singleton.1 hp
    rcases hw with hw | ⟨r, hr, hdc⟩
    · exact absurd hw List.not_mem_nil
    · refine ⟨r, ?_, hdc, will_fire_iff.2 hr⟩
      rintro rfl
      exact hno (will_fire_iff.2 hr)

/-- While the counter stands at 15 no load wakeup fires, so it is not a wakeup
    that blocks the store. -/
theorem wakeup_suppressed (h : s.counter_blocks = true) :
    will_fire s i .load_wakeup = false := by
  cases hw : will_fire s i .load_wakeup with
  | false => rfl
  | true =>
    have hc := can_fire_of_will_fire hw
    simp [can_fire, Sched.block_load_wakeup, h] at hc

theorem next_of_blocks (h : blocks s i = true) : (next s i).blocked = s.blocked + 1 ∧
    (next s i).store_blocked_counter = if s.store_blocked_counter = 15 then 0 else 15 := by
  rw [blocks, Bool.and_eq_true, Bool.not_eq_true'] at h
  constructor
  · simp [next, blocks, h]
  · simp only [next, nextCounter, h, Bool.not_true, Bool.or_self, Bool.false_eq_true, if_false]
    split_ifs with hc
    · rw [hc]
      rfl
    · rfl

theorem next_of_not_blocks (h : blocks s i = false) :
    (next s i).blocked = 0 ∧ (next s i).store_blocked_counter = 0 := by
  constructor
  · simp [next, h]
  · rw [blocks, Bool.and_eq_false_iff, Bool.not_eq_false'] at h
    rw [next, nextCounter, if_pos]
    rw [Bool.or_eq_true, Bool.not_eq_true']
    exact h.symm

/-- What the counter really does: it tells the odd cycles of a blocked store
    from the even ones. -/
theorem counter_eq (h : sched.Reach s) :
    s.store_blocked_counter = if s.blocked % 2 = 0 then 0 else 15 := by
  refine h.inv (P := fun s => s.store_blocked_counter = if s.blocked % 2 = 0 then 0 else 15)
    (fun s h0 => ?_) (fun s i ih _ => ?_)
  · rw [h0.1, h0.2]
    rfl
  · show (next s i).store_blocked_counter = _
    cases hb : blocks s i with
    | false =>
      rw [(next_of_not_blocks hb).2, show (sched.next s i).blocked = 0 from (next_of_not_blocks hb).1]
      rfl
    | true =>
      rw [(next_of_blocks hb).2, ih,
        show (sched.next s i).blocked = s.blocked + 1 from (next_of_blocks hb).1]
      rcases Nat.mod_two_eq_zero_or_one s.blocked with h2 | h2
      · have h1 : ¬ (s.blocked + 1) % 2 = 0 := by omega
        rw [if_pos h2, if_neg h1]
        rfl
      · have h1 : (s.blocked + 1) % 2 = 0 := by omega
        have h0 : ¬ s.blocked % 2 = 0 := by omega
        rw [if_neg h0, if_pos h1]
        rfl

/-! ## What the counter is for -/

/-- The counter holds how long a store has been blocked, at most 15, and
    suppresses load wakeups from then on. -/
def Counts (s : Sched) : Prop :=
  s.store_blocked_counter.toNat = min 15 s.blocked ∧ (s.counter_blocks = true ↔ 15 ≤ s.blocked)

theorem counts_zero (hc : s.store_blocked_counter = 0) (hb : s.blocked = 0) : Counts s := by
  refine ⟨by rw [hc, hb]; rfl, ?_⟩
  rw [Sched.counter_blocks, hc, hb]
  decide

/-- **The counter counts in a run exactly if no cycle of it blocks a store.** -/
theorem blocked_counter_iff (r : sched.Run) :
    (∀ t, Counts (r.state t)) ↔ ∀ t, blocks (r.state t) (r.input t) = false := by
  constructor
  · intro hc t
    induction t using Nat.strongRecOn with
    | ind t ih =>
      -- the first blocked cycle takes the counter from 0 to 15
      have h0 : (r.state t).blocked = 0 ∧ (r.state t).store_blocked_counter = 0 := by
        cases t with
        | zero => exact ⟨r.start.2, r.start.1⟩
        | succ t =>
          rw [r.next]
          exact next_of_not_blocks (ih t (Nat.lt_succ_self t))
      cases hb : blocks (r.state t) (r.input t) with
      | false => rfl
      | true =>
        obtain ⟨hn, hs⟩ := next_of_blocks hb
        have h1 := (hc (t + 1)).1
        rw [r.next, show sched.next (r.state t) (r.input t) = next (r.state t) (r.input t) from rfl,
          hn, hs, h0.1, h0.2] at h1
        exact absurd h1 (by decide)
  · intro hb t
    cases t with
    | zero => exact counts_zero r.start.1 r.start.2
    | succ t =>
      rw [r.next]
      exact counts_zero (next_of_not_blocks (hb t)).2 (next_of_not_blocks (hb t)).1

/-- An entry without a load. -/
def idleLoad : LDQEntry := ⟨false, false, false, false, false, false, false, false⟩

/-- A load from the core in the cycle in which a committed store could go to
    the cache. -/
def contended : In where
  exe_req := ⟨true, true, false, false, false⟩
  release_valid := false
  can_fire_hella_incoming := false
  can_fire_hella_wakeup := false
  ldq_retry_e := idleLoad
  p1_block_retry := false
  p2_block_retry := false
  stq_retry_e := ⟨false, false, false, false, false, false, false, false⟩
  miss_rdy := true
  store_needs_order := false
  ldq_wakeup_e := idleLoad
  p1_block_wakeup := false
  p2_block_wakeup := false
  wakeup_at_head := false
  commit_load_at_rob_head := false
  stq_commit_e := ⟨true, false, false, false, true, false, true, true⟩
  mem_xcpt_valid := false
  ldst_addr_matches := false
  mem_forward_valid := false

/-- A store that has been blocked for one cycle suppresses load wakeups. -/
theorem blocked_counter_early :
    ¬ ∀ (r : sched.Run) (t : ℕ), Counts (r.state t) := by
  intro h
  have h1 := (h (.of ⟨0, false, 0⟩ (fun _ => contended) ⟨rfl, rfl⟩ fun _ => trivial) 1).1
  exact absurd h1 (by decide)

end BoomStop.LsuSched
