/-
  The way of stores to the data cache (`lsu.scala`, `dcache.scala`): the store
  queue with its four pointers, the request pipeline s0, s1, s2 of the cache,
  in which any store may be nacked, and the rewind that follows.

  * `StoreQueue.next`, `Pipe.next`: one cycle of either;
  * `storeOrder`: both in the core, with the stores that have committed, that
    the cache has acknowledged and that have left the queue;
  * `stores_in_order`: the cache acknowledges the committed stores in order.

  AMOs, which go to memory before they commit, are left out.
-/
import BoomStop.Issue
import BoomStop.Rob
import BoomStop.Lib.RingOrder

namespace BoomStop.Lsu

open Sync RingOrder Issue

variable {n T : ℕ}

/-- A store or a fence; they are numbered as they are dispatched. -/
structure Store where
  number : ℕ
  is_fence : Bool
  deriving DecidableEq

/-- A store, with its place in the queue. -/
structure Uop (n T : ℕ) where
  store : Store
  stq_idx : Fin n
  br_mask : Fin T → Bool
  exception : Bool

/-- `STQEntry`. -/
structure STQEntry (n T : ℕ) where
  valid : Bool
  uop : Uop n T
  committed : Bool
  succeeded : Bool

/-- The registers of the store queue. -/
structure StoreQueue (n T : ℕ) where
  stq : Fin n → STQEntry n T
  /-- the next store to clear -/
  stq_head : Fin n
  stq_tail : Fin n
  /-- the next store to commit -/
  stq_commit_head : Fin n
  /-- the next store to execute -/
  stq_execute_head : Fin n

/-- The stores in the first pipe of the cache; other requests are left out. -/
structure Pipe (n T : ℕ) where
  s1 : Option (Uop n T)
  s2 : Option (Uop n T)

/-- A store that is dispatched. -/
structure Dis (T : ℕ) where
  is_fence : Bool
  br_mask : Fin T → Bool

/-- The inputs of a cycle. -/
structure In (n T : ℕ) where
  /-- the stores that dispatch offers, in program order -/
  dis : List (Dis T)
  brupdate : BrUpdate T
  /-- `b2.uop.stq_idx`, on a misprediction -/
  b2 : Option (Fin n)
  exception : Bool
  /-- how many stores commit -/
  commits : ℕ
  mem_xcpt_valid : Bool
  /-- the stores among `mem_xcpt_uops` -/
  mem_xcpt_stq : List (Fin n)
  /-- no request of higher priority takes the cache port -/
  dc_avail : Bool
  dmem_ready : Bool
  /-- the cache cannot take the request that is in s2 -/
  s2_nack : Bool
  /-- nothing but stores keeps the cache from being ordered -/
  fence_rdy : Bool

/-! ## The request pipeline of the cache -/

namespace Pipe

variable (d : Pipe n T) (i : In n T)

/-- `s2_store_failed`: the cache refuses a store. -/
def s2_store_failed : Bool := d.s2.isSome && i.s2_nack

/-- A request moves on, unless it is killed or behind a store that failed. -/
def move (u : Option (Uop n T)) : Option (Uop n T) :=
  (u.filter fun u => !isKilledByBranch i.brupdate u.br_mask && !d.s2_store_failed i).map fun u =>
    { u with br_mask := getNewBrMask i.brupdate u.br_mask }

/-- `io.lsu.nack`. -/
def nack : Option (Uop n T) :=
  d.s2.filter fun u => i.s2_nack && !isKilledByBranch i.brupdate u.br_mask

/-- `io.lsu.resp`: a store that is not nacked hits, or a miss handler takes
    it. -/
def resp : Option (Uop n T) :=
  d.s2.filter fun u => !i.s2_nack && !isKilledByBranch i.brupdate u.br_mask

/-- `io.dmem.ordered`: no store is on its way. -/
def ordered : Bool := i.fence_rdy && d.s1.isNone && d.s2.isNone

/-- One cycle of the cache. -/
def next (s0 : Option (Uop n T)) : Pipe n T := ⟨d.move i s0, d.move i d.s1⟩

end Pipe

/-! ## The store queue -/

namespace StoreQueue

variable [NeZero n] (q : StoreQueue n T) (d : Pipe n T) (i : In n T)

/-- The stores that are dispatched, up to the first that finds the queue
    full. -/
def enqs (count : ℕ) : Fin n → List (Dis T) → List (Uop n T)
  | _, [] => []
  | st_enq_idx, u :: us =>
    if wrapInc st_enq_idx = q.stq_head then []
    else ⟨⟨count, u.is_fence⟩, st_enq_idx, u.br_mask, false⟩ ::
      enqs (count + 1) (wrapInc st_enq_idx) us

/-- The entry that is sent next. -/
def stq_commit_e : STQEntry n T := q.stq q.stq_execute_head

/-- `will_fire_store_commit`: the store is sent. -/
def will_fire_store_commit : Bool :=
  q.stq_commit_e.valid && !q.stq_commit_e.uop.store.is_fence && !i.mem_xcpt_valid &&
    !q.stq_commit_e.uop.exception && q.stq_commit_e.committed && i.dc_avail

/-- The store that the cache takes. -/
def dmem_req : Option (Uop n T) :=
  if q.will_fire_store_commit i && i.dmem_ready then some q.stq_commit_e.uop else none

/-- `clear_store`: the entry at the head leaves. -/
def clear_store : Bool :=
  let e := q.stq q.stq_head
  e.valid && e.committed && if e.uop.store.is_fence then d.ordered i else e.succeeded

/-- The entries that commit. -/
def commitIdx (k : ℕ) : Fin n := wrapInc^[k] q.stq_commit_head

/-- The store of an entry commits. -/
def commits (j : Fin n) : Bool := (List.range i.commits).any fun k => decide (q.commitIdx k = j)

/-- The entry after the cycle; a later write wins. -/
def nextEntry (new : List (Uop n T)) (j : Fin n) : STQEntry n T :=
  let e := q.stq j
  let enq := new.find? fun u => u.stq_idx = j
  let cleared := q.clear_store d i && decide (q.stq_head = j)
  { valid := (e.valid || enq.isSome) && !(e.valid && isKilledByBranch i.brupdate e.uop.br_mask) &&
      !cleared && !(i.exception && !e.committed && !e.succeeded)
    uop :=
      let u := enq.getD e.uop
      { u with
        exception := u.exception || decide (j ∈ i.mem_xcpt_stq)
        br_mask := if e.valid then getNewBrMask i.brupdate e.uop.br_mask else u.br_mask }
    committed := !cleared && (q.commits i j || (e.committed && enq.isNone))
    succeeded := !cleared && ((d.resp i).any (fun u => u.stq_idx = j) ||
      (e.succeeded && enq.isNone &&
        !(q.will_fire_store_commit i && decide (q.stq_execute_head = j)))) }

/-- A nack sends the pointer back, unless a fence leaves. -/
def nextExecuteHead : Fin n :=
  if q.clear_store d i && (q.stq q.stq_head).uop.store.is_fence then wrapInc q.stq_execute_head
  else
    match d.nack i with
    | some u =>
      if Reorder.isOlder u.stq_idx q.stq_execute_head q.stq_head then u.stq_idx
      else if (q.dmem_req i).isSome then wrapInc q.stq_execute_head else q.stq_execute_head
    | none => if (q.dmem_req i).isSome then wrapInc q.stq_execute_head else q.stq_execute_head

/-- One cycle of the queue. -/
def next (new : List (Uop n T)) : StoreQueue n T where
  stq := q.nextEntry d i new
  stq_head := if q.clear_store d i then wrapInc q.stq_head else q.stq_head
  stq_tail :=
    if i.exception then q.stq_commit_head
    else i.b2.getD (wrapInc^[new.length] q.stq_tail)
  stq_commit_head := q.commitIdx i.commits
  stq_execute_head := q.nextExecuteHead d i

end StoreQueue

/-! ## Runs -/

/-- The queue and the cache pipeline with their history. -/
structure Sys (n T : ℕ) where
  q : StoreQueue n T
  d : Pipe n T
  count : ℕ
  /-- the stores that have committed -/
  committed : List Store
  /-- the stores that the cache has acknowledged -/
  acked : List Store
  /-- the stores that have left the queue -/
  freed : List Store

namespace Sys

variable [NeZero n] (s : Sys n T) (i : In n T)

/-- What is dispatched. -/
def enqs : List (Uop n T) := s.q.enqs s.count s.q.stq_tail i.dis

/-- The stores that commit. -/
def committing : List Store :=
  (List.range i.commits).map fun k => (s.q.stq (s.q.commitIdx k)).uop.store

/-- One cycle, with the history. -/
def next : Sys n T where
  q := s.q.next s.d i (s.enqs i)
  d := s.d.next i (s.q.dmem_req i)
  count := s.count + (s.enqs i).length
  committed := s.committed ++ s.committing i
  acked := s.acked ++ (s.d.resp i).toList.map fun u => u.store
  freed := s.freed ++ if s.q.clear_store s.d i then [(s.q.stq s.q.stq_head).uop.store] else []

/-- What the core promises. -/
structure Ok : Prop where
  /-- nothing is dispatched while a misprediction or a flush is under way -/
  dis : i.exception = true ∨ i.b2.isSome = true → i.dis = []
  /-- the reorder buffer commits nothing in the cycle after a flush -/
  exception : i.exception = true → i.commits = 0
  /-- the stores that commit are there, and no branch before them is open -/
  commit : ∀ k < i.commits, k < dist s.q.stq_commit_head s.q.stq_tail ∧
    (s.q.stq (s.q.commitIdx k)).valid = true ∧
    ∀ t, (s.q.stq (s.q.commitIdx k)).uop.br_mask t = true →
      i.brupdate.resolve_mask t = true ∧ i.brupdate.mispredict_mask t = false
  /-- the stores before a mispredicted branch stay, and those that have
      committed are before it -/
  b2 : ∀ r, i.b2 = some r → i.commits ≤ dist s.q.stq_commit_head r ∧
    dist s.q.stq_commit_head r ≤ dist s.q.stq_commit_head s.q.stq_tail

end Sys

/-- The store queue with the cache. -/
def storeOrder (n T : ℕ) [NeZero n] : Machine (Sys n T) (In n T) where
  start s := (∀ j, (s.q.stq j).valid = false) ∧ s.q.stq_head = 0 ∧ s.q.stq_tail = 0 ∧
    s.q.stq_commit_head = 0 ∧ s.q.stq_execute_head = 0 ∧ s.d.s1 = none ∧ s.d.s2 = none ∧
    s.committed = [] ∧ s.acked = [] ∧ s.freed = []
  ok s i := s.Ok i
  next s i := s.next i

/-! ## The invariant -/

namespace Sys

variable [NeZero n] {s : Sys n T} {i : In n T} {h a e c t k : ℕ}

/-- The stores in program order: those that have committed, then those in the
    queue. -/
def log (s : Sys n T) (k : ℕ) : Store := s.committed[k]?.getD (s.q.stq (place n k)).uop.store

/-- A request of the entry at a number. -/
structure Requests (s : Sys n T) (u : Uop n T) (k : ℕ) : Prop where
  stq_idx : u.stq_idx = place n k
  store : u.store = (s.q.stq (place n k)).uop.store
  br_mask : ∀ b, u.br_mask b = false

/-- The numbers of the head, of the first store that is not acknowledged, of
    the three other pointers, and what the entries between them hold. -/
structure At (s : Sys n T) (h a e c t : ℕ) : Prop where
  head : s.q.stq_head = place n h
  execute_head : s.q.stq_execute_head = place n e
  commit_head : s.q.stq_commit_head = place n c
  tail : s.q.stq_tail = place n t
  order : h ≤ a ∧ a ≤ e ∧ e ≤ c ∧ c ≤ t ∧ t < h + n
  /-- what is sent and not acknowledged is in the pipe, in order -/
  flight : e = a + s.d.s2.toList.length + s.d.s1.toList.length
  s2 : ∀ u, s.d.s2 = some u → s.Requests u a
  s1 : ∀ u, s.d.s1 = some u → s.Requests u (a + s.d.s2.toList.length)
  idx : ∀ k, h ≤ k → k < t → (s.q.stq (place n k)).uop.stq_idx = place n k
  live : ∀ k, h ≤ k → k < c → (s.q.stq (place n k)).valid = true ∧
    (s.q.stq (place n k)).committed = true ∧ ∀ b, (s.q.stq (place n k)).uop.br_mask b = false
  store : ∀ k, h ≤ k → k < e → (s.q.stq (place n k)).uop.store.is_fence = false
  succeeded : ∀ k, h ≤ k → k < t → ((s.q.stq (place n k)).succeeded = true ↔ k < a)
  free : ∀ k, c ≤ k → k < h + n → (s.q.stq (place n k)).valid = true →
    (s.q.stq (place n k)).committed = false
  length : s.committed.length = c
  committed : ∀ k, h ≤ k → k < c → s.committed[k]? = some (s.q.stq (place n k)).uop.store
  acked : s.acked = (s.committed.take a).filter fun u => !u.is_fence
  freed : s.freed = s.committed.take h
  sorted : ∀ j k, j < k → k < t → (s.log j).number < (s.log k).number
  lt : ∀ k < t, (s.log k).number < s.count

theorem at_start (h0 : (storeOrder n T).start s) : s.At 0 0 0 0 0 := by
  obtain ⟨hv, hh, ht, hc, he, h1, h2, hcom, hack, hfree⟩ := h0
  have hn := Nat.pos_of_neZero n
  refine ⟨hh, he, hc, ht, by omega, ?_, ?_, ?_, fun k _ hk => ?_, fun k _ hk => ?_,
    fun k _ hk => ?_, fun k _ hk => ?_, fun k _ _ hvk => ?_, by rw [hcom]; rfl, fun k _ hk => ?_, ?_, ?_,
    fun j k _ hk => ?_, fun k hk => ?_⟩
  · rw [h1, h2]
    rfl
  · intro u hu
    rw [h2] at hu
    contradiction
  · intro u hu
    rw [h1] at hu
    contradiction
  · exact absurd hk (Nat.not_lt_zero k)
  · exact absurd hk (Nat.not_lt_zero k)
  · exact absurd hk (Nat.not_lt_zero k)
  · exact absurd hk (Nat.not_lt_zero k)
  · rw [hv] at hvk
    contradiction
  · exact absurd hk (Nat.not_lt_zero k)
  · rw [hack, hcom]
    rfl
  · rw [hfree, hcom]
    rfl
  · exact absurd hk (Nat.not_lt_zero k)
  · exact absurd hk (Nat.not_lt_zero k)

/-! ### Dispatch -/

theorem enqs_spec (hh : s.q.stq_head = place n h) : ∀ (dis : List (Dis T)) (count t : ℕ), h ≤ t →
    t < h + n → t + (s.q.enqs count (place n t) dis).length < h + n ∧
    ∀ k u, (s.q.enqs count (place n t) dis)[k]? = some u →
      u.stq_idx = place n (t + k) ∧ u.store.number = count + k
  | [], count, t, _, hlt => ⟨hlt, fun k u hu => by rw [StoreQueue.enqs] at hu; contradiction⟩
  | d :: dis, count, t, hle, hlt => by
    rw [StoreQueue.enqs, hh, wrapInc_place]
    split_ifs with hfull
    · exact ⟨hlt, fun k u hu => by contradiction⟩
    · have hlt' : t + 1 < h + n := by
        by_contra hge
        rw [show t + 1 = h + n by omega, place_add_self] at hfull
        exact hfull rfl
      obtain ⟨hlen, hk⟩ := enqs_spec hh dis (count + 1) (t + 1) (by omega) hlt'
      refine ⟨by rw [List.length_cons]; omega, fun k u hu => ?_⟩
      cases k with
      | zero =>
        cases hu
        exact ⟨rfl, rfl⟩
      | succ k =>
        obtain ⟨hidx, hnum⟩ := hk k u hu
        exact ⟨by rw [hidx]; congr 1; omega, by rw [hnum]; omega⟩

theorem At.enqs_room (p : s.At h a e c t) : t + (s.enqs i).length < h + n := by
  rw [Sys.enqs, p.tail]
  exact (enqs_spec p.head _ _ _ (by have := p.order; omega) p.order.2.2.2.2).1

theorem At.enqs_get (p : s.At h a e c t) {u : Uop n T} (hu : (s.enqs i)[k]? = some u) :
    u.stq_idx = place n (t + k) ∧ u.store.number = s.count + k := by
  rw [Sys.enqs, p.tail] at hu
  exact (enqs_spec p.head _ _ _ (by have := p.order; omega) p.order.2.2.2.2).2 k u hu

/-- Only the free entries from the tail on are written. -/
theorem At.find_enqs_of_lt (p : s.At h a e c t) (hk : h ≤ k) (hlt : k < t) :
    ((s.enqs i).find? fun u => u.stq_idx = place n k) = none := by
  rw [List.find?_eq_none]
  intro u hu he
  obtain ⟨j, hj⟩ := List.mem_iff_getElem?.1 hu
  have hlen := (List.getElem?_eq_some_iff.1 hj).1
  have hroom := p.enqs_room (i := i)
  have ho := p.order
  rw [decide_eq_true_eq, (p.enqs_get hj).1] at he
  have := place_inj (k := h) (by omega) hk (by omega) (by omega) he
  omega

theorem At.find_enqs (p : s.At h a e c t) {u : Uop n T} (hu : (s.enqs i)[k]? = some u) :
    ((s.enqs i).find? fun v => v.stq_idx = place n (t + k)) = some u := by
  have hlen := (List.getElem?_eq_some_iff.1 hu).1
  have hroom := p.enqs_room (i := i)
  have ho := p.order
  rw [List.find?_eq_some_iff_getElem]
  refine ⟨by rw [decide_eq_true_eq, (p.enqs_get hu).1], k, hlen, (List.getElem?_eq_some_iff.1 hu).2, ?_⟩
  intro j hj
  rw [Bool.not_eq_true', decide_eq_false_iff_not]
  intro he
  rw [(p.enqs_get (List.getElem?_eq_getElem (by omega))).1] at he
  have := place_inj (k := h) (by omega) (by omega) (by omega) (by omega) he
  omega

/-! ### What the cycle does -/

theorem killed_eq_false {b : BrUpdate T} {m : Fin T → Bool} (hm : ∀ t, m t = false) :
    isKilledByBranch b m = false := by
  simp [isKilledByBranch, hm]

theorem getNewBrMask_eq {b : BrUpdate T} {m : Fin T → Bool} (hm : ∀ t, m t = false) :
    getNewBrMask b m = m := by
  funext t
  rw [getNewBrMask, hm, Bool.false_and]

/-- The entry at the head leaves: a fence when nothing is in flight, a store
    that is acknowledged. -/
theorem At.clear_cases (p : s.At h a e c t) (hc : s.q.clear_store s.d i = true) : h < c ∧
    ((s.q.stq (place n h)).uop.store.is_fence = true ∧ a = h ∧ e = h ∧ s.d.s1 = none ∧
        s.d.s2 = none ∨
      (s.q.stq (place n h)).uop.store.is_fence = false ∧ h < a) := by
  rw [StoreQueue.clear_store, p.head] at hc
  simp only [Bool.and_eq_true] at hc
  obtain ⟨⟨hv, hcom⟩, hc⟩ := hc
  have ho := p.order
  have hlt : h < c := by
    by_contra hge
    rw [p.free h (by omega) (by omega) hv] at hcom
    contradiction
  refine ⟨hlt, ?_⟩
  cases hf : (s.q.stq (place n h)).uop.store.is_fence with
  | true =>
    rw [if_pos hf, Pipe.ordered, Bool.and_eq_true, Bool.and_eq_true, Option.isNone_iff_eq_none,
      Option.isNone_iff_eq_none] at hc
    have he : e ≤ h := by
      by_contra hlt
      rw [p.store h le_rfl (by omega)] at hf
      contradiction
    exact .inl ⟨rfl, by omega, by omega, hc.1.2, hc.2⟩
  | false =>
    rw [if_neg (by rw [hf]; exact Bool.false_ne_true)] at hc
    exact .inr ⟨rfl, (p.succeeded h le_rfl (by omega)).1 hc⟩

/-- What is sent is the next committed store. -/
theorem At.fire (p : s.At h a e c t) {u : Uop n T} (hu : s.q.dmem_req i = some u) :
    e < c ∧ s.Requests u e ∧ (s.q.stq (place n e)).uop.store.is_fence = false := by
  rw [StoreQueue.dmem_req] at hu
  split_ifs at hu with hfire
  cases hu
  simp only [StoreQueue.will_fire_store_commit, StoreQueue.stq_commit_e, p.execute_head,
    Bool.and_eq_true, Bool.not_eq_true'] at hfire ⊢
  obtain ⟨⟨⟨⟨⟨⟨hv, hf⟩, -⟩, -⟩, hcom⟩, -⟩, -⟩ := hfire
  have ho := p.order
  have hlt : e < c := by
    by_contra hge
    rw [p.free e (by omega) (by omega) hv] at hcom
    contradiction
  exact ⟨hlt, ⟨p.idx e (by omega) (by omega), rfl, (p.live e (by omega) hlt).2.2⟩, hf⟩

/-- A request in the pipe keeps its entry for as long as it is there. -/
theorem Requests.move {u : Uop n T} (hu : s.Requests u k)
    (hf : s.d.s2_store_failed i = false) : s.d.move i (some u) = some u := by
  rw [Pipe.move, Option.filter_some, killed_eq_false hu.br_mask, hf, Bool.not_false, Bool.and_true,
    if_pos rfl, Option.map_some, getNewBrMask_eq hu.br_mask]

omit [NeZero n] in
theorem move_failed (hf : s.d.s2_store_failed i = true) (u : Option (Uop n T)) :
    s.d.move i u = none := by
  cases u with
  | none => rfl
  | some u => simp [Pipe.move, hf]

theorem At.resp (p : s.At h a e c t) :
    s.d.resp i = if s.d.s2_store_failed i then none else s.d.s2 := by
  rw [Pipe.resp, Pipe.s2_store_failed]
  cases hs : s.d.s2 with
  | none => simp
  | some u =>
    rw [Option.filter_some, killed_eq_false (p.s2 u hs).br_mask]
    cases i.s2_nack <;> rfl

theorem At.nack (p : s.At h a e c t) :
    s.d.nack i = if s.d.s2_store_failed i then s.d.s2 else none := by
  rw [Pipe.nack, Pipe.s2_store_failed]
  cases hs : s.d.s2 with
  | none => simp
  | some u =>
    rw [Option.filter_some, killed_eq_false (p.s2 u hs).br_mask]
    cases i.s2_nack <;> rfl

/-- The store that failed is before the next one to send. -/
theorem At.isOlder (p : s.At h a e c t) (hlt : a < e) :
    Reorder.isOlder (place n a) (place n e) (place n h) = true := by
  have ho := p.order
  rw [Reorder.isOlder_iff_dist, dist_place (by omega) (by omega), dist_place (by omega) (by omega)]
  omega

/-! ### The entries after the cycle -/

/-- The number of the tail after the cycle. -/
def tailNo (s : Sys n T) (i : In n T) (c t : ℕ) : ℕ :=
  if i.exception then c
  else
    match i.b2 with
    | some r => c + dist s.q.stq_commit_head r
    | none => t + (s.enqs i).length

theorem At.commitIdx (p : s.At h a e c t) (k : ℕ) : s.q.commitIdx k = place n (c + k) := by
  rw [StoreQueue.commitIdx, p.commit_head, iterate_wrapInc_place]

theorem At.dist_commit (p : s.At h a e c t) : dist s.q.stq_commit_head s.q.stq_tail = t - c := by
  have ho := p.order
  rw [p.commit_head, p.tail, dist_place (by omega) (by omega)]

theorem At.commit (p : s.At h a e c t) (hok : s.Ok i) (hle : c ≤ k) (hlt : k < c + i.commits) :
    k < t ∧ i.exception = false ∧ (s.q.stq (place n k)).valid = true ∧
      ∀ b, (s.q.stq (place n k)).uop.br_mask b = true →
        i.brupdate.resolve_mask b = true ∧ i.brupdate.mispredict_mask b = false := by
  obtain ⟨hd, hv, hb⟩ := hok.commit (k - c) (by omega)
  rw [p.dist_commit] at hd
  rw [p.commitIdx, show c + (k - c) = k by omega] at hv hb
  refine ⟨by omega, ?_, hv, hb⟩
  by_contra hx
  have := hok.exception (Bool.eq_true_of_not_eq_false hx)
  omega

theorem At.commits_iff (p : s.At h a e c t) (hok : s.Ok i) (hle : c ≤ k) (hlt : k < h + n) :
    s.q.commits i (place n k) = true ↔ k < c + i.commits := by
  have ho := p.order
  rw [StoreQueue.commits, List.any_eq_true]
  constructor
  · rintro ⟨j, hj, he⟩
    rw [List.mem_range] at hj
    rw [decide_eq_true_eq, p.commitIdx] at he
    have := (p.commit hok (k := c + j) (by omega) (by omega)).1
    have := place_inj (k := h) (by omega) (by omega) (by omega) hlt he
    omega
  · intro hk
    refine ⟨k - c, List.mem_range.2 (by omega), ?_⟩
    rw [decide_eq_true_eq, p.commitIdx, show c + (k - c) = k by omega]

theorem At.commit_le (p : s.At h a e c t) (hok : s.Ok i) : c + i.commits ≤ t := by
  have ho := p.order
  by_contra hgt
  have := (p.commit hok (k := t) (by omega) (by omega)).1
  omega

/-- The tail stays behind what commits, and within the round. -/
theorem At.tail_next (p : s.At h a e c t) (hok : s.Ok i) :
    (s.next i).q.stq_tail = place n (s.tailNo i c t) ∧ c + i.commits ≤ s.tailNo i c t ∧
      s.tailNo i c t ≤ t + (s.enqs i).length := by
  have ho := p.order
  have hcommit := p.commit_le hok
  have htail : (s.next i).q.stq_tail = if i.exception then s.q.stq_commit_head
    else i.b2.getD (wrapInc^[(s.enqs i).length] s.q.stq_tail) := rfl
  rw [tailNo, htail]
  split_ifs with hx
  · have := hok.exception hx
    exact ⟨p.commit_head, by omega, by omega⟩
  · cases hb : i.b2 with
    | none => exact ⟨by rw [Option.getD_none, p.tail, iterate_wrapInc_place], by dsimp only; omega, le_rfl⟩
    | some r =>
      obtain ⟨h1, h2⟩ := hok.b2 r hb
      rw [p.dist_commit] at h2
      refine ⟨?_, by dsimp only; omega, by dsimp only; omega⟩
      rw [Option.getD_some, p.commit_head, place_add_dist]

theorem At.cleared_iff (p : s.At h a e c t) (hle : h ≤ k) (hlt : k < h + n) :
    (s.q.clear_store s.d i && decide (s.q.stq_head = place n k)) = true ↔
      s.q.clear_store s.d i = true ∧ k = h := by
  rw [Bool.and_eq_true, decide_eq_true_eq, p.head]
  refine and_congr_right fun _ => ⟨fun he => ?_, fun he => by rw [he]⟩
  exact (place_inj le_rfl hle (by omega) hlt he).symm

/-- An entry of the queue keeps its store. -/
theorem At.uop_next (p : s.At h a e c t) (hle : h ≤ k) (hlt : k < t) :
    ((s.next i).q.stq (place n k)).uop.store = (s.q.stq (place n k)).uop.store ∧
      ((s.next i).q.stq (place n k)).uop.stq_idx = (s.q.stq (place n k)).uop.stq_idx := by
  have henq := p.find_enqs_of_lt (i := i) hle hlt
  simp only [next, StoreQueue.next, StoreQueue.nextEntry, henq, Option.getD_none, and_self]

theorem At.uop_next_of_enq (p : s.At h a e c t) {u : Uop n T} (hu : (s.enqs i)[k]? = some u) :
    ((s.next i).q.stq (place n (t + k))).uop.store = u.store ∧
      ((s.next i).q.stq (place n (t + k))).uop.stq_idx = u.stq_idx := by
  simp only [next, StoreQueue.next, StoreQueue.nextEntry, p.find_enqs hu, Option.getD_some, and_self]

theorem At.live_next (p : s.At h a e c t) (hok : s.Ok i) (hle : h ≤ k)
    (hclear : ¬ (s.q.clear_store s.d i = true ∧ k = h)) (hlt : k < c + i.commits) :
    ((s.next i).q.stq (place n k)).valid = true ∧
      ((s.next i).q.stq (place n k)).committed = true ∧
      ∀ b, ((s.next i).q.stq (place n k)).uop.br_mask b = false := by
  have ho := p.order
  have hcommit := p.commit_le hok
  have henq := p.find_enqs_of_lt (i := i) hle (by omega : k < t)
  rw [← p.cleared_iff hle (by omega), Bool.not_eq_true] at hclear
  simp only [next, StoreQueue.next, StoreQueue.nextEntry, henq, hclear, Option.getD_none,
    Option.isSome_none, Option.isNone_none, Bool.or_false, Bool.not_false, Bool.and_true,
    Bool.true_and]
  by_cases hkc : k < c
  · obtain ⟨hv, hcom, hbr⟩ := p.live k hle hkc
    rw [hv, hcom, killed_eq_false hbr, getNewBrMask_eq hbr]
    simp [hbr]
  · obtain ⟨-, hx, hv, hb⟩ := p.commit hok (by omega) hlt
    have hkilled : isKilledByBranch i.brupdate (s.q.stq (place n k)).uop.br_mask = false := by
      rw [isKilledByBranch, List.any_eq_false]
      intro b _ hmis
      rw [Bool.and_eq_true] at hmis
      rw [(hb b hmis.2).2] at hmis
      exact Bool.false_ne_true hmis.1
    rw [hv, hkilled, hx, (p.commits_iff hok (by omega) (by omega)).2 hlt]
    refine ⟨rfl, rfl, fun b => ?_⟩
    rw [if_pos rfl, getNewBrMask]
    cases hm : (s.q.stq (place n k)).uop.br_mask b with
    | false => rfl
    | true =>
      rw [(hb b hm).1]
      rfl

theorem At.free_next (p : s.At h a e c t) (hok : s.Ok i) (hle : c + i.commits ≤ k)
    (hlt : k < h + n) (hv : ((s.next i).q.stq (place n k)).valid = true) :
    ((s.next i).q.stq (place n k)).committed = false := by
  have ho := p.order
  have hcommits : s.q.commits i (place n k) = false := by
    rw [← Bool.not_eq_true, p.commits_iff hok (by omega) hlt]
    omega
  simp only [next, StoreQueue.next, StoreQueue.nextEntry, hcommits, Bool.false_or] at hv ⊢
  cases henq : (s.enqs i).find? fun u => u.stq_idx = place n k with
  | some u => simp
  | none =>
    rw [henq] at hv
    simp only [Option.isSome_none, Bool.or_false, Bool.and_eq_true] at hv
    rw [p.free k (by omega) hlt hv.1.1.1]
    simp

/-- and the place the head leaves is free. -/
theorem At.free_head (p : s.At h a e c t) (hc : s.q.clear_store s.d i = true) :
    ((s.next i).q.stq (place n (h + n))).valid = false := by
  rw [place_add_self]
  simp only [next, StoreQueue.next, StoreQueue.nextEntry, hc, p.head]
  simp

theorem At.succeeded_next (p : s.At h a e c t) (hok : s.Ok i) (hle : h ≤ k)
    (hclear : ¬ (s.q.clear_store s.d i = true ∧ k = h)) (hlt : k < s.tailNo i c t) :
    ((s.next i).q.stq (place n k)).succeeded = true ↔ k < a + (s.d.resp i).toList.length := by
  have ho := p.order
  have hroom := p.enqs_room (i := i)
  have htail := (p.tail_next hok).2.2
  have hresp : (s.d.resp i).any (fun u => u.stq_idx = place n k) = true ↔
      (s.d.resp i).isSome = true ∧ k = a := by
    rw [p.resp]
    split_ifs with hf
    · simp
    · cases hs : s.d.s2 with
      | none => simp
      | some u =>
        have hflight := p.flight
        rw [hs] at hflight
        rw [Option.any_some, decide_eq_true_eq, (p.s2 u hs).stq_idx]
        refine ⟨fun he => ⟨rfl, ?_⟩, fun he => by rw [he.2]⟩
        exact (place_inj (k := h) (by omega) (by omega) (by omega) (by omega) he).symm
  have hlen : k < a + (s.d.resp i).toList.length ↔ (s.d.resp i).isSome = true ∧ k = a ∨ k < a := by
    cases s.d.resp i with
    | none => simp
    | some u => simp; omega
  rw [← p.cleared_iff hle (by omega), Bool.not_eq_true] at hclear
  simp only [next, StoreQueue.next, StoreQueue.nextEntry, hclear, Bool.not_false, Bool.true_and]
  rw [Bool.or_eq_true, hresp, hlen]
  refine or_congr_right ?_
  by_cases hkt : k < t
  · rw [p.find_enqs_of_lt hle hkt, Option.isNone_none, Bool.and_true, Bool.and_eq_true,
      p.succeeded k hle hkt, and_iff_left_iff_imp]
    intro hka
    -- a store that is sent has not succeeded yet
    have hne : place n e ≠ place n k := fun he => by
      have := place_inj (k := h) (by omega) hle (by omega) (by omega) he
      omega
    rw [p.execute_head, decide_eq_false hne]
    simp
  · have hget := List.getElem?_eq_getElem (l := s.enqs i) (i := k - t) (by omega)
    have hfind := p.find_enqs hget
    rw [show t + (k - t) = k by omega] at hfind
    rw [hfind]
    simp
    omega

theorem At.committed_next (p : s.At h a e c t) (hlt : k < c) :
    (s.next i).committed[k]? = s.committed[k]? := by
  rw [next, List.getElem?_append_left (by rw [p.length]; exact hlt)]

theorem At.committed_next_new (p : s.At h a e c t) (hle : c ≤ k) (hlt : k < c + i.commits) :
    (s.next i).committed[k]? = some (s.q.stq (place n k)).uop.store := by
  rw [next, List.getElem?_append_right (by rw [p.length]; exact hle), p.length, committing,
    List.getElem?_map, List.getElem?_range (by omega), Option.map_some, p.commitIdx,
    show c + (k - c) = k by omega]

theorem At.length_next (p : s.At h a e c t) : (s.next i).committed.length = c + i.commits := by
  rw [next, List.length_append, p.length, committing, List.length_map, List.length_range]

/-- The program order only grows. -/
theorem At.log_next (p : s.At h a e c t) (hlt : k < t) : (s.next i).log k = s.log k := by
  have ho := p.order
  by_cases hkc : k < c
  · rw [log, log, p.committed_next hkc, List.getElem?_eq_getElem (by rw [p.length]; exact hkc)]
    rfl
  · have hnone : s.committed[k]? = none := List.getElem?_eq_none (by rw [p.length]; omega)
    rw [log, log, hnone]
    by_cases hkc' : k < c + i.commits
    · rw [p.committed_next_new (by omega) hkc']
      rfl
    · rw [List.getElem?_eq_none (by rw [p.length_next]; omega), Option.getD_none, Option.getD_none,
        (p.uop_next (by omega) hlt).1]

theorem At.log_next_enq (p : s.At h a e c t) (hok : s.Ok i) {u : Uop n T}
    (hu : (s.enqs i)[k]? = some u) : (s.next i).log (t + k) = u.store := by
  have hle := p.commit_le hok
  rw [log, List.getElem?_eq_none (by rw [p.length_next]; omega), Option.getD_none,
    (p.uop_next_of_enq hu).1]

theorem At.number_next (p : s.At h a e c t) (hok : s.Ok i) (hle : t ≤ k)
    (hlt : k < t + (s.enqs i).length) : ((s.next i).log k).number = s.count + (k - t) := by
  have hget := List.getElem?_eq_getElem (l := s.enqs i) (i := k - t) (by omega)
  have hlog := p.log_next_enq hok hget
  rw [show t + (k - t) = k by omega] at hlog
  rw [hlog, (p.enqs_get hget).2]

theorem Requests.next {u : Uop n T} (p : s.At h a e c t) (hle : h ≤ k) (hlt : k < t)
    (hu : s.Requests u k) : (s.next i).Requests u k :=
  ⟨hu.stq_idx, by rw [(p.uop_next hle hlt).1]; exact hu.store, hu.br_mask⟩

/-- How the head, the stores that are not acknowledged and the next store to
    send move in a cycle. -/
structure Moves (s : Sys n T) (i : In n T) (a c h' a' e' : ℕ) : Prop where
  execute_head : (s.next i).q.stq_execute_head = place n e'
  le : h' ≤ a'
  flight : e' = a' + (s.next i).d.s2.toList.length + (s.next i).d.s1.toList.length
  s2 : ∀ u, (s.next i).d.s2 = some u → s.Requests u a'
  s1 : ∀ u, (s.next i).d.s1 = some u → s.Requests u (a' + (s.next i).d.s2.toList.length)
  sent : e' ≤ c
  store : ∀ k, h' ≤ k → k < e' → (s.q.stq (place n k)).uop.store.is_fence = false
  succeeded : ∀ k, h' ≤ k → (k < a + (s.d.resp i).toList.length ↔ k < a')
  acked : (s.next i).acked = (s.committed.take a').filter fun u => !u.is_fence

theorem At.head_next (p : s.At h a e c t) : ∃ h', (s.next i).q.stq_head = place n h' ∧
    (h' = h ∧ s.q.clear_store s.d i = false ∨ h' = h + 1 ∧ s.q.clear_store s.d i = true) := by
  have hhead : (s.next i).q.stq_head =
    if s.q.clear_store s.d i then wrapInc s.q.stq_head else s.q.stq_head := rfl
  rw [hhead, p.head, wrapInc_place]
  cases s.q.clear_store s.d i with
  | true => exact ⟨h + 1, rfl, .inr ⟨rfl, rfl⟩⟩
  | false => exact ⟨h, rfl, .inl ⟨rfl, rfl⟩⟩

theorem At.next_of (p : s.At h a e c t) (hok : s.Ok i) {h' a' e' : ℕ}
    (hh : (s.next i).q.stq_head = place n h')
    (hclear : h' = h ∧ s.q.clear_store s.d i = false ∨ h' = h + 1 ∧ s.q.clear_store s.d i = true)
    (m : s.Moves i a c h' a' e') :
    (s.next i).At h' a' e' (c + i.commits) (s.tailNo i c t) := by
  have ho := p.order
  have hroom := p.enqs_room (i := i)
  have hcommit := p.commit_le hok
  obtain ⟨htail, hct, htt⟩ := p.tail_next hok
  have hflight := m.flight
  have hsent := m.sent
  have hle := m.le
  have hkept : ∀ k, h' ≤ k → h ≤ k ∧ ¬ (s.q.clear_store s.d i = true ∧ k = h) := by
    intro k hk
    rcases hclear with ⟨he, hc⟩ | ⟨he, hc⟩
    · exact ⟨by omega, by rw [hc]; simp⟩
    · exact ⟨by omega, fun hkh => by omega⟩
  refine ⟨hh, m.execute_head, ?_, htail, ?_, hflight, fun u hu => ?_, fun u hu => ?_,
    fun k hk hlt => ?_, fun k hk hlt => ?_, fun k hk hlt => ?_, fun k hk hlt => ?_,
    fun k hk hlt hv => ?_, p.length_next, fun k hk hlt => ?_, ?_, ?_, fun j k hjk hlt => ?_,
    fun k hlt => ?_⟩
  · exact p.commitIdx i.commits
  · refine ⟨hle, by omega, by omega, hct, ?_⟩
    omega
  · rw [hu, Option.toList_some, List.length_singleton] at hflight
    exact (m.s2 u hu).next p (hkept a' hle).1 (by omega)
  · rw [hu, Option.toList_some, List.length_singleton] at hflight
    exact (m.s1 u hu).next p (hkept _ (by omega)).1 (by omega)
  · -- what was there keeps its index, what is new has it from the dispatch
    by_cases hkt : k < t
    · rw [(p.uop_next (hkept k hk).1 hkt).2, p.idx k (hkept k hk).1 hkt]
    · have hget := List.getElem?_eq_getElem (l := s.enqs i) (i := k - t) (by omega)
      have huop := (p.uop_next_of_enq hget).2
      rw [(p.enqs_get hget).1, show t + (k - t) = k by omega] at huop
      exact huop
  · exact p.live_next hok (hkept k hk).1 (hkept k hk).2 hlt
  · rw [(p.uop_next (hkept k hk).1 (by omega)).1]
    exact m.store k hk hlt
  · rw [p.succeeded_next hok (hkept k hk).1 (hkept k hk).2 hlt]
    exact m.succeeded k hk
  · by_cases hkn : k < h + n
    · exact p.free_next hok hk hkn hv
    · rcases hclear with ⟨he, hc⟩ | ⟨he, hc⟩
      · omega
      · rw [show k = h + n by omega, p.free_head hc] at hv
        contradiction
  · rw [(p.uop_next (hkept k hk).1 (by omega)).1]
    by_cases hkc : k < c
    · rw [p.committed_next hkc]
      exact p.committed k (hkept k hk).1 hkc
    · exact p.committed_next_new (by omega) hlt
  · rw [m.acked]
    have htake : (s.next i).committed.take a' = s.committed.take a' := by
      rw [next, List.take_append_of_le_length (by rw [p.length]; omega)]
    rw [htake]
  · have htake : (s.next i).committed.take h' = s.committed.take h' := by
      rw [next, List.take_append_of_le_length (by rw [p.length]; omega)]
    rw [htake, next, p.freed]
    rcases hclear with ⟨he, hc⟩ | ⟨he, hc⟩
    · rw [hc, he, if_neg Bool.false_ne_true, List.append_nil]
    · have hlt := (p.clear_cases hc).1
      rw [hc, he, if_pos rfl, List.take_add_one, p.committed h le_rfl hlt, p.head]
      rfl
  · by_cases hkt : k < t
    · rw [p.log_next hkt, p.log_next (by omega)]
      exact p.sorted j k hjk hkt
    · rw [p.number_next (k := k) hok (by omega) (by omega)]
      by_cases hjt : j < t
      · rw [p.log_next hjt]
        have := p.lt j hjt
        omega
      · rw [p.number_next hok (by omega) (by omega)]
        omega
  · have hcount : (s.next i).count = s.count + (s.enqs i).length := rfl
    rw [hcount]
    by_cases hkt : k < t
    · rw [p.log_next hkt]
      have := p.lt k hkt
      omega
    · rw [p.number_next hok (by omega) (by omega)]
      omega

/-- A fence leaves: nothing was in the pipe, and nothing is sent. -/
theorem At.moves_fence (p : s.At h a e c t) (hc : s.q.clear_store s.d i = true)
    (hf : (s.q.stq (place n h)).uop.store.is_fence = true) :
    s.Moves i a c (h + 1) (a + 1) (e + 1) := by
  obtain ⟨hlt, ⟨-, ha, he, hs1, hs2⟩ | ⟨hst, -⟩⟩ := p.clear_cases hc
  · have hreq : s.q.dmem_req i = none := by
      cases hreq : s.q.dmem_req i with
      | none => rfl
      | some u =>
        obtain ⟨-, -, hst⟩ := p.fire hreq
        rw [he, hf] at hst
        contradiction
    have hd : (s.next i).d = ⟨none, none⟩ := by
      rw [next, Pipe.next, hreq, hs1]
      rfl
    have hresp : s.d.resp i = none := by
      rw [p.resp, hs2, ite_self]
    refine ⟨?_, by omega, by rw [hd]; simp; omega, fun u hu => ?_, fun u hu => ?_, by omega,
      fun k hk hlt => by omega, fun k hk => ?_, ?_⟩
    · have hex : (s.next i).q.stq_execute_head = s.q.nextExecuteHead s.d i := rfl
      rw [hex, StoreQueue.nextExecuteHead, hc, p.head, hf, p.execute_head]
      exact wrapInc_place
    · rw [hd] at hu
      contradiction
    · rw [hd] at hu
      contradiction
    · rw [hresp]
      simp
      omega
    · rw [next, hresp, p.acked, ha, List.take_add_one, p.committed h le_rfl hlt]
      simp [List.filter_append, hf]
  · rw [hf] at hst
    contradiction

theorem At.execute_head_next (p : s.At h a e c t)
    (hf : (s.q.clear_store s.d i && (s.q.stq s.q.stq_head).uop.store.is_fence) = false) :
    (s.next i).q.stq_execute_head =
      place n (if s.d.s2_store_failed i then a else e + (s.q.dmem_req i).toList.length) := by
  have ho := p.order
  have hflight := p.flight
  have hsend : (if (s.q.dmem_req i).isSome then wrapInc s.q.stq_execute_head
      else s.q.stq_execute_head) = place n (e + (s.q.dmem_req i).toList.length) := by
    rw [p.execute_head]
    cases s.q.dmem_req i with
    | none => rfl
    | some u => exact wrapInc_place
  have hex : (s.next i).q.stq_execute_head = s.q.nextExecuteHead s.d i := rfl
  rw [hex, StoreQueue.nextExecuteHead, hf, if_neg Bool.false_ne_true, p.nack, hsend]
  cases hfail : s.d.s2_store_failed i with
  | false => rfl
  | true =>
    obtain ⟨u, hu⟩ := Option.isSome_iff_exists.1 (Bool.and_eq_true_iff.1 hfail).1
    rw [hu, Option.toList_some, List.length_singleton] at hflight
    rw [hu, if_pos rfl, if_pos rfl]
    dsimp only
    rw [(p.s2 u hu).stq_idx, p.execute_head, p.head, if_pos (p.isOlder (by omega))]

/-- A store fails: all that was sent from it on is dropped, and will be sent
    again. -/
theorem At.moves_failed (p : s.At h a e c t) {h' : ℕ} (hfail : s.d.s2_store_failed i = true)
    (hf : (s.q.clear_store s.d i && (s.q.stq s.q.stq_head).uop.store.is_fence) = false)
    (hle : h ≤ h') (hle' : h' ≤ a) : s.Moves i a c h' a a := by
  have ho := p.order
  have hd : (s.next i).d = ⟨none, none⟩ := by
    rw [next, Pipe.next, move_failed hfail, move_failed hfail]
  have hresp : s.d.resp i = none := by
    rw [p.resp, hfail, if_pos rfl]
  refine ⟨?_, hle', by rw [hd]; rfl, fun u hu => ?_, fun u hu => ?_, by omega,
    fun k hk hlt => p.store k (by omega) (by omega), fun k _ => ?_, ?_⟩
  · rw [p.execute_head_next hf, hfail, if_pos rfl]
  · rw [hd] at hu
    contradiction
  · rw [hd] at hu
    contradiction
  · rw [hresp]
    rfl
  · rw [next, hresp, p.acked]
    exact List.append_nil _

theorem At.s2_next (p : s.At h a e c t) (hfail : s.d.s2_store_failed i = false) :
    (s.next i).d.s2 = s.d.s1 := by
  change s.d.move i s.d.s1 = s.d.s1
  cases h1 : s.d.s1 with
  | none => rfl
  | some u => exact (p.s1 u h1).move hfail

theorem At.s1_next (p : s.At h a e c t) (hfail : s.d.s2_store_failed i = false) :
    (s.next i).d.s1 = s.q.dmem_req i := by
  change s.d.move i (s.q.dmem_req i) = s.q.dmem_req i
  cases hreq : s.q.dmem_req i with
  | none => rfl
  | some u => exact (p.fire hreq).2.1.move hfail

/-- The pipe moves on. -/
theorem At.moves_on (p : s.At h a e c t) {h' : ℕ} (hfail : s.d.s2_store_failed i = false)
    (hf : (s.q.clear_store s.d i && (s.q.stq s.q.stq_head).uop.store.is_fence) = false)
    (hle : h ≤ h') (hle' : h' ≤ a) :
    s.Moves i a c h' (a + s.d.s2.toList.length) (e + (s.q.dmem_req i).toList.length) := by
  have ho := p.order
  have hflight := p.flight
  have hresp : s.d.resp i = s.d.s2 := by
    rw [p.resp, hfail, if_neg Bool.false_ne_true]
  have hs2 := p.s2_next hfail
  have hs1 := p.s1_next hfail
  have hfire : (s.q.dmem_req i).toList.length = 0 ∨ (s.q.dmem_req i).toList.length = 1 ∧ e < c ∧
      (s.q.stq (place n e)).uop.store.is_fence = false := by
    cases hreq : s.q.dmem_req i with
    | none => exact .inl rfl
    | some u => exact .inr ⟨rfl, (p.fire hreq).1, (p.fire hreq).2.2⟩
  refine ⟨?_, by omega, by rw [hs2, hs1]; omega, fun u hu => ?_, fun u hu => ?_, by omega,
    fun k hk hlt => ?_, fun k _ => by rw [hresp], ?_⟩
  · rw [p.execute_head_next hf, hfail, if_neg Bool.false_ne_true]
  · rw [hs2] at hu
    exact p.s1 u hu
  · rw [hs1] at hu
    rw [hs2, ← hflight]
    exact (p.fire hu).2.1
  · by_cases hke : k < e
    · exact p.store k (by omega) hke
    · rcases hfire with hz | ⟨ho, -, hst⟩
      · omega
      · rw [show k = e by omega]
        exact hst
  · rw [next, hresp, p.acked]
    cases hu : s.d.s2 with
    | none => exact List.append_nil _
    | some u =>
      rw [hu, Option.toList_some, List.length_singleton] at hflight
      have hget := p.committed a (by omega) (by omega)
      rw [Option.toList_some, List.length_singleton, List.take_add_one, hget, List.filter_append]
      simp [p.store a (by omega) (by omega), (p.s2 u hu).store]

/-- **One cycle.** -/
theorem At.next (p : s.At h a e c t) (hok : s.Ok i) :
    ∃ h' a' e' c' t', (s.next i).At h' a' e' c' t' := by
  have ho := p.order
  obtain ⟨h', hh, hclear⟩ := p.head_next (i := i)
  by_cases hf : (s.q.clear_store s.d i && (s.q.stq s.q.stq_head).uop.store.is_fence) = true
  · rw [Bool.and_eq_true, p.head] at hf
    rcases hclear with ⟨-, hc⟩ | ⟨rfl, hc⟩
    · rw [hf.1] at hc
      contradiction
    · exact ⟨_, _, _, _, _, p.next_of hok hh (.inr ⟨rfl, hc⟩) (p.moves_fence hc hf.2)⟩
  · rw [Bool.not_eq_true] at hf
    have hle : h ≤ h' ∧ h' ≤ a := by
      rcases hclear with ⟨rfl, hc⟩ | ⟨rfl, hc⟩
      · omega
      · obtain ⟨-, ⟨hfence, -⟩ | ⟨-, hlt⟩⟩ := p.clear_cases hc
        · rw [hc, p.head, hfence] at hf
          contradiction
        · omega
    cases hfail : s.d.s2_store_failed i with
    | true => exact ⟨_, _, _, _, _, p.next_of hok hh hclear (p.moves_failed hfail hf hle.1 hle.2)⟩
    | false => exact ⟨_, _, _, _, _, p.next_of hok hh hclear (p.moves_on hfail hf hle.1 hle.2)⟩

theorem at_reach (hr : (storeOrder n T).Reach s) : ∃ h a e c t, s.At h a e c t :=
  hr.inv (P := fun s => ∃ h a e c t, s.At h a e c t) (fun _ h0 => ⟨_, _, _, _, _, at_start h0⟩)
    fun _ _ ⟨_, _, _, _, _, p⟩ hok => p.next hok

/-- What is sent is acknowledged two cycles later, if the cache refuses nothing
    meanwhile. -/
theorem At.acked_of_sent {i₀ i₁ i₂ : In n T} (p : s.At h a e c t) (hok₀ : s.Ok i₀)
    (hok₁ : (s.next i₀).Ok i₁) (h₀ : s.d.s2_store_failed i₀ = false)
    (h₁ : (s.next i₀).d.s2_store_failed i₁ = false)
    (h₂ : ((s.next i₀).next i₁).d.s2_store_failed i₂ = false) :
    ((s.next i₀).next i₁).d.resp i₂ = s.q.dmem_req i₀ := by
  obtain ⟨_, _, _, _, _, p₁⟩ := p.next hok₀
  obtain ⟨_, _, _, _, _, p₂⟩ := p₁.next hok₁
  rw [p₂.resp, h₂, if_neg Bool.false_ne_true, p₁.s2_next h₁, p.s1_next h₀]

end Sys

/-- **Stores reach the cache in order.**  The cache acknowledges the committed
    stores in program order, each once; one that it has not acknowledged yet is
    still in the queue; only what is acknowledged leaves the queue, so that an
    empty queue has acknowledged all; the next store to send is between the head
    and the tail; and a store that is sent is acknowledged two cycles later,
    unless the cache refuses it or one before it. -/
theorem stores_in_order [NeZero n] {s : Sys n T} (hr : (storeOrder n T).Reach s) :
    (s.committed.Pairwise fun u v => u.number < v.number) ∧
    s.acked <+: (s.committed.filter fun u => !u.is_fence) ∧
    (∀ u ∈ s.committed, u.is_fence = false → u ∉ s.acked →
      ∃ j, (s.q.stq j).valid = true ∧ (s.q.stq j).committed = true ∧ (s.q.stq j).uop.store = u) ∧
    s.freed <+: s.committed ∧ (s.freed.filter fun u => !u.is_fence) <+: s.acked ∧
    (s.q.stq_head = s.q.stq_commit_head →
      s.freed = s.committed ∧ s.acked = s.committed.filter fun u => !u.is_fence) ∧
    dist s.q.stq_head s.q.stq_execute_head ≤ dist s.q.stq_head s.q.stq_tail ∧
    ∀ i₀ i₁ i₂, s.Ok i₀ → (s.next i₀).Ok i₁ → s.d.s2_store_failed i₀ = false →
      (s.next i₀).d.s2_store_failed i₁ = false →
      ((s.next i₀).next i₁).d.s2_store_failed i₂ = false →
      ((s.next i₀).next i₁).d.resp i₂ = s.q.dmem_req i₀ := by
  obtain ⟨h, a, e, c, t, p⟩ := Sys.at_reach hr
  have ho := p.order
  have hlen := p.length
  refine ⟨?_, ?_, ?_, ?_, ?_, fun hempty => ?_, ?_,
    fun i₀ i₁ i₂ hok₀ hok₁ h₀ h₁ h₂ => p.acked_of_sent hok₀ hok₁ h₀ h₁ h₂⟩
  · rw [List.pairwise_iff_getElem]
    intro j k hj hk hlt
    have hnum := p.sorted j k hlt (by omega)
    rw [Sys.log, Sys.log, List.getElem?_eq_getElem hj, List.getElem?_eq_getElem hk] at hnum
    exact hnum
  · rw [p.acked]
    exact (List.take_prefix a s.committed).filter _
  · intro u hu hf hack
    obtain ⟨k, hk, rfl⟩ := List.getElem_of_mem hu
    have hak : a ≤ k := by
      by_contra hlt
      refine hack ?_
      rw [p.acked, List.mem_filter, List.mem_take_iff_getElem]
      exact ⟨⟨k, by omega, rfl⟩, by rw [hf]; rfl⟩
    have hlive := p.live k (by omega) (by omega)
    have hget := p.committed k (by omega) (by omega)
    rw [List.getElem?_eq_getElem hk, Option.some.injEq] at hget
    exact ⟨place n k, hlive.1, hlive.2.1, hget.symm⟩
  · rw [p.freed]
    exact List.take_prefix h s.committed
  · rw [p.freed, p.acked]
    exact (List.take_prefix_take_left ho.1).filter _
  · have hhc : h = c := by
      rw [p.head, p.commit_head] at hempty
      exact place_inj le_rfl (by omega) (by omega) (by omega) hempty
    rw [p.freed, p.acked, List.take_of_length_le (by omega), List.take_of_length_le (by omega)]
    exact ⟨rfl, rfl⟩
  · rw [p.head, p.execute_head, p.tail, dist_place (by omega) (by omega),
      dist_place (by omega) (by omega)]
    omega

/-- The queue after reset. -/
def resetStq : Sys 4 0 where
  q :=
    { stq := fun _ => ⟨false, ⟨⟨0, false⟩, 0, fun _ => false, false⟩, false, false⟩
      stq_head := 0
      stq_tail := 0
      stq_commit_head := 0
      stq_execute_head := 0 }
  d := ⟨none, none⟩
  count := 0
  committed := []
  acked := []
  freed := []

/-- A cycle that dispatches, commits and may refuse. -/
def cycle (dis : List (Dis 0)) (commits : ℕ) (s2_nack : Bool) : In 4 0 where
  dis := dis
  brupdate := ⟨fun _ => false, fun _ => false⟩
  b2 := none
  exception := false
  commits := commits
  mem_xcpt_valid := false
  mem_xcpt_stq := []
  dc_avail := true
  dmem_ready := true
  s2_nack := s2_nack
  fence_rdy := true

/-- Two stores and a fence; the first store fails when the second is right
    behind it. -/
def failedStore : List (In 4 0) :=
  let quiet := cycle [] 0 false
  [cycle [⟨false, fun _ => false⟩, ⟨false, fun _ => false⟩, ⟨true, fun _ => false⟩] 0 false,
    cycle [] 3 false, quiet, quiet, cycle [] 0 true, quiet, quiet, quiet, quiet, quiet, quiet]

set_option maxRecDepth 8000 in
theorem failedStore_reach : (storeOrder 4 0).Reach ((storeOrder 4 0).run resetStq failedStore) := by
  have test : ∀ (s : Sys 4 0) (i : In 4 0), (!i.exception && i.b2.isNone &&
      decide (∀ k < i.commits, k < dist s.q.stq_commit_head s.q.stq_tail ∧
        (s.q.stq (s.q.commitIdx k)).valid = true)) = true → (storeOrder 4 0).ok s i := by
    intro s i h
    simp only [Bool.and_eq_true, Bool.not_eq_true', Option.isNone_iff_eq_none,
      decide_eq_true_iff] at h
    obtain ⟨⟨hx, hb⟩, hc⟩ := h
    refine ⟨fun h => ?_, fun h => ?_, fun k hk => ⟨(hc k hk).1, (hc k hk).2, fun t => t.elim0⟩,
      fun r h => ?_⟩
    · rw [hx, hb] at h
      simp at h
    · rw [hx] at h
      contradiction
    · rw [hb] at h
      contradiction
  exact Machine.reach_run _ (.start ⟨fun _ => rfl, rfl, rfl, rfl, rfl, rfl, rfl, rfl, rfl, rfl⟩)
    (Machine.accepts_of_passes test _ _ (by decide))

set_option maxRecDepth 8000 in
theorem stores_in_order_failed :
    let s := (storeOrder 4 0).run resetStq failedStore
    s.committed.map Store.number = [0, 1, 2] ∧ s.freed = s.committed ∧
      s.acked = s.committed.filter fun u => !u.is_fence :=
  ⟨by decide, (stores_in_order failedStore_reach).2.2.2.2.2.1 (by decide)⟩

end BoomStop.Lsu
