/-
  The masks of older stores that the loads carry (`lsu.scala`): the load queue
  and the store queue with their pointers, and `live_store_mask`, of which a
  load takes a snapshot within its dispatch bundle.

  * `Queues.enqs`: what a bundle writes;
  * `Queues.next`: a cycle, with what leaves the queues by a commit, by an
    acknowledged store, by a branch or by an exception;
  * `lsuQueues`: the two queues in the core;
  * `masks_exact`: the live mask is the set of valid stores, and the mask of a
    load is the set of older stores that are still in the queue.

  The core drops what follows a mispredicted branch at once (`b1`), and moves
  the tails one cycle later (`b2`).
-/
import Mathlib.Data.Fintype.Prod
import BoomStop.Issue
import BoomStop.Lib.SpecRing

namespace BoomStop.StoreDeps

open Sync RingOrder
open Issue (BrUpdate getNewBrMask isKilledByBranch)

variable {n m T : ℕ}

/-- A uop; they are numbered as they are dispatched. -/
@[ext] structure MicroOp (T : ℕ) where
  number : ℕ
  rob_idx : ℕ
  br_mask : Fin T → Bool
  is_fence : Bool
  is_amo : Bool

/-- An entry of the load queue. -/
structure LDQEntry (n T : ℕ) where
  valid : Bool
  uop : MicroOp T
  /-- the entry that the next store after the load gets -/
  youngest_stq_idx : Fin n
  /-- the stores that are older than the load -/
  st_dep_mask : Fin n → Bool

/-- An entry of the store queue. -/
structure STQEntry (T : ℕ) where
  valid : Bool
  uop : MicroOp T
  committed : Bool
  succeeded : Bool

/-- The registers of the two queues, with `n` stores and `m` loads. -/
structure Queues (n m T : ℕ) where
  ldq : Fin m → LDQEntry n T
  stq : Fin n → STQEntry T
  ldq_head : Fin m
  ldq_tail : Fin m
  /-- the next store to clear -/
  stq_head : Fin n
  stq_tail : Fin n
  /-- the next store to commit -/
  stq_commit_head : Fin n
  live_store_mask : Fin n → Bool
  /-- `b2` of a misprediction: `stq_idx` and `ldq_idx` of the branch -/
  b2 : Option (Fin n × Fin m)
  /-- the number of the next uop -/
  count : ℕ

/-- A uop as dispatch offers it. -/
structure DisUop (T : ℕ) where
  uses_ldq : Bool
  uses_stq : Bool
  exception : Bool
  rob_idx : ℕ
  br_mask : Fin T → Bool
  is_fence : Bool
  is_amo : Bool

/-- The inputs of a cycle. -/
structure In (n m T : ℕ) where
  /-- the uops that dispatch offers, in program order -/
  dis_uops : List (DisUop T)
  brupdate : BrUpdate T
  /-- the branch of a misprediction: what becomes of it in `b2` -/
  mispredict : Option (Fin n × Fin m)
  exception : Bool
  /-- how many stores and how many loads commit -/
  commit_stores : ℕ
  commit_loads : ℕ
  /-- the stores that the cache is sent -/
  dmem_req : Fin n → Bool
  /-- the stores that the cache has done -/
  dmem_resp : Fin n → Bool
  ordered : Bool

/-- The uop as the queues keep it, with its number. -/
def DisUop.numbered (u : DisUop T) (number : ℕ) : MicroOp T :=
  ⟨number, u.rob_idx, u.br_mask, u.is_fence, u.is_amo⟩

/-- What dispatch does with a uop. -/
inductive Enq (n m T : ℕ)
  | load (ldq_idx : Fin m) (e : LDQEntry n T)
  | store (stq_idx : Fin n) (e : STQEntry T)
  | other

namespace Enq

/-- The entry that goes to a place of the load queue. -/
def toLoad (l : Fin m) : Enq n m T → Option (LDQEntry n T)
  | load ldq_idx e => if ldq_idx = l then some e else none
  | _ => none

/-- The entry that goes to a place of the store queue. -/
def toStore (j : Fin n) : Enq n m T → Option (STQEntry T)
  | store stq_idx e => if stq_idx = j then some e else none
  | _ => none

/-- The entry is one of a load. -/
def isLoad : Enq n m T → Bool
  | load _ _ => true
  | _ => false

/-- The entry is one of a store. -/
def isStore : Enq n m T → Bool
  | store _ _ => true
  | _ => false

end Enq

namespace Queues

variable [NeZero n] [NeZero m] (q : Queues n m T) (i : In n m T)

/-- What the bundle writes, up to the first uop that finds its queue full. -/
def enqs : ℕ → Fin m → Fin n → (Fin n → Bool) → List (DisUop T) → List (Enq n m T)
  | _, _, _, _, [] => []
  | count, ld_enq_idx, st_enq_idx, next_live_store_mask, u :: us =>
    if u.uses_ldq ∧ wrapInc ld_enq_idx = q.ldq_head ∨
        u.uses_stq ∧ wrapInc st_enq_idx = q.stq_head then []
    else
      let dis_ld_val := u.uses_ldq && !u.exception
      let dis_st_val := u.uses_stq && !u.exception
      (if dis_ld_val then
        .load ld_enq_idx ⟨true, u.numbered count, st_enq_idx, next_live_store_mask⟩
      else if dis_st_val then .store st_enq_idx ⟨true, u.numbered count, false, false⟩
      else .other) ::
      enqs (count + 1) (if dis_ld_val then wrapInc ld_enq_idx else ld_enq_idx)
        (if dis_st_val then wrapInc st_enq_idx else st_enq_idx)
        (fun j => next_live_store_mask j || (dis_st_val && j = st_enq_idx)) us

/-- The store at the head has committed and is done. -/
def clear_store : Bool :=
  let e := q.stq q.stq_head
  e.valid && e.committed && if e.uop.is_fence then i.ordered else e.succeeded

/-- The store at the head leaves the queue. -/
def cleared (j : Fin n) : Bool := q.clear_store i && j = q.stq_head

/-- `live_store_mask` as dispatch finds it. -/
def live_after_clear (j : Fin n) : Bool := q.live_store_mask j && !q.cleared i j

/-- The entries of a cycle. -/
def new : List (Enq n m T) :=
  q.enqs q.count q.ldq_tail q.stq_tail (q.live_after_clear i) i.dis_uops

/-- The last write of the bundle to an entry. -/
def newLoad (l : Fin m) : Option (LDQEntry n T) := ((q.new i).filterMap (Enq.toLoad l)).getLast?

/-- The entry that a place of the store queue gets. -/
def newStore (j : Fin n) : Option (STQEntry T) := ((q.new i).filterMap (Enq.toStore j)).getLast?

/-- The store of a place commits. -/
def commitsStore (j : Fin n) : Bool :=
  (List.range i.commit_stores).any fun k => (wrapInc^[k]) q.stq_commit_head = j

/-- The load of a place commits. -/
def commitsLoad (l : Fin m) : Bool :=
  (List.range i.commit_loads).any fun k => (wrapInc^[k]) q.ldq_head = l

/-- `st_brkilled_mask`. -/
def st_brkilled_mask (j : Fin n) : Bool :=
  (q.stq j).valid && isKilledByBranch i.brupdate (q.stq j).uop.br_mask

/-- The load of a place is killed by a branch. -/
def ld_brkilled_mask (l : Fin m) : Bool :=
  (q.ldq l).valid && isKilledByBranch i.brupdate (q.ldq l).uop.br_mask

/-- `st_exc_killed_mask`. -/
def st_exc_killed_mask (j : Fin n) : Bool :=
  i.exception && !(q.stq j).committed && !(q.stq j).succeeded

/-- A uop in the queue, whose branches may resolve. -/
def nextUop (valid : Bool) (old new : MicroOp T) : MicroOp T :=
  { new with br_mask := if valid then getNewBrMask i.brupdate old.br_mask else new.br_mask }

/-- The entry after the cycle; a later write wins. -/
def nextStq (j : Fin n) : STQEntry T :=
  let e := q.stq j
  let new := (q.newStore i j).getD e
  { valid := new.valid && !q.st_brkilled_mask i j && !q.cleared i j && !q.st_exc_killed_mask i j
    uop := nextUop i e.valid e.uop new.uop
    committed := (q.commitsStore i j || new.committed) && !q.cleared i j
    succeeded := (i.dmem_resp j || (new.succeeded && !i.dmem_req j)) && !q.cleared i j }

/-- The load queue, in the next cycle. -/
def nextLdq (l : Fin m) : LDQEntry n T :=
  let e := q.ldq l
  let new := (q.newLoad i l).getD { e with st_dep_mask j := e.st_dep_mask j && !q.cleared i j }
  { new with
    valid := new.valid && !q.ld_brkilled_mask i l && !q.commitsLoad i l && !i.exception
    uop := nextUop i e.valid e.uop new.uop }

/-- `next_live_store_mask`. -/
def next_live_store_mask (j : Fin n) : Bool :=
  q.live_after_clear i j || (q.newStore i j).isSome

/-- One cycle. -/
def next : Queues n m T where
  ldq := q.nextLdq i
  stq := q.nextStq i
  ldq_head := if i.exception then 0 else (wrapInc^[i.commit_loads]) q.ldq_head
  ldq_tail :=
    if i.exception then 0
    else (q.b2.map Prod.snd).getD ((wrapInc^[(q.new i).countP Enq.isLoad]) q.ldq_tail)
  stq_head := if q.clear_store i then wrapInc q.stq_head else q.stq_head
  stq_tail :=
    if i.exception then q.stq_commit_head
    else (q.b2.map Prod.fst).getD ((wrapInc^[(q.new i).countP Enq.isStore]) q.stq_tail)
  stq_commit_head := (wrapInc^[i.commit_stores]) q.stq_commit_head
  live_store_mask j :=
    q.next_live_store_mask i j && !q.st_brkilled_mask i j && !q.st_exc_killed_mask i j
  b2 := i.mispredict
  count := q.count + (q.new i).length

/-- What the core promises. -/
structure Ok : Prop where
  /-- a uop goes to one queue -/
  one : ∀ u ∈ i.dis_uops, ¬ (u.uses_ldq = true ∧ u.uses_stq = true ∧ u.exception = false)
  /-- nothing is dispatched while a misprediction or a flush is under way -/
  dis : i.mispredict.isSome ∨ q.b2.isSome ∨ i.exception = true → i.dis_uops = []
  /-- a uop waits for the branches that an older one waits for -/
  dis_mask : i.dis_uops.Pairwise fun u v => ∀ b, u.br_mask b = true → v.br_mask b = true
  old_mask : ∀ u ∈ i.dis_uops, ∀ j, (q.stq j).valid = true → ∀ b,
    getNewBrMask i.brupdate (q.stq j).uop.br_mask b = true → u.br_mask b = true
  mispredict : i.mispredict = none → ∀ b, i.brupdate.mispredict_mask b = false
  /-- what comes after the branch of a misprediction waits for it -/
  stq_idx : ∀ r, i.mispredict = some r → Rewinds (fun j => (q.stq j).valid)
    (q.st_brkilled_mask i) q.stq_commit_head q.stq_tail (q.b2.map Prod.fst) i.commit_stores r.1
  ldq_idx : ∀ r, i.mispredict = some r → Rewinds (fun l => (q.ldq l).valid)
    (q.ld_brkilled_mask i) q.ldq_head q.ldq_tail (q.b2.map Prod.snd) i.commit_loads r.2
  /-- the stores that commit are there, and no branch before them is open -/
  commit_stores : ∀ k < i.commit_stores, k < dist q.stq_commit_head q.stq_tail ∧
    (q.stq ((wrapInc^[k]) q.stq_commit_head)).valid = true ∧
    ∀ b, (q.stq ((wrapInc^[k]) q.stq_commit_head)).uop.br_mask b = true →
      i.brupdate.resolve_mask b = true ∧ i.brupdate.mispredict_mask b = false
  commit_loads : ∀ k < i.commit_loads, k < dist q.ldq_head q.ldq_tail ∧
    (q.ldq ((wrapInc^[k]) q.ldq_head)).valid = true
  /-- in the cycle after a flush no branch is mispredicted and nothing commits;
      an AMO that memory has done has committed by then -/
  exception : i.exception = true → i.mispredict = none ∧ i.commit_stores = 0 ∧
    i.commit_loads = 0 ∧ ∀ j, (q.stq j).valid = true → (q.stq j).succeeded = true →
      (q.stq j).committed = true

end Queues

/-- The load queue and the store queue in the core. -/
def lsuQueues (n m T : ℕ) [NeZero n] [NeZero m] : Machine (Queues n m T) (In n m T) where
  start q := (∀ l, (q.ldq l).valid = false) ∧ (∀ j, (q.stq j).valid = false) ∧ q.ldq_head = 0 ∧
    q.ldq_tail = 0 ∧ q.stq_head = 0 ∧ q.stq_tail = 0 ∧ q.stq_commit_head = 0 ∧
    (∀ j, q.live_store_mask j = false) ∧ q.b2 = none
  ok q i := q.Ok i
  next q i := q.next i

/-! ## A dispatch bundle -/

/-- What a bundle `us` writes: where its loads and stores go, what it numbers
    them, and which stores its loads depend on. -/
structure Bundle [NeZero n] [NeZero m] (new : List (Enq n m T)) (us : List (DisUop T))
    (count l t : ℕ) (mask : Fin n → Bool) : Prop where
  store : ∀ j e, .store j e ∈ new →
    (∃ k, j = place n k ∧ t ≤ k ∧ k < t + new.countP Enq.isStore) ∧ e.valid = true ∧
      (e.committed = false ∧ e.succeeded = false) ∧ count ≤ e.uop.number ∧
      e.uop.number < count + new.length ∧ ∃ u ∈ us, u.br_mask = e.uop.br_mask
  load : ∀ k e, .load k e ∈ new →
    (∃ a, k = place m a ∧ l ≤ a ∧ a < l + new.countP Enq.isLoad) ∧ e.valid = true ∧
      count ≤ e.uop.number ∧ e.uop.number < count + new.length ∧
      ∃ u ∈ us, u.br_mask = e.uop.br_mask
  dep : ∀ k e, .load k e ∈ new → ∀ j, e.st_dep_mask j = true ↔
    mask j = true ∨ ∃ st, .store j st ∈ new ∧ st.uop.number < e.uop.number
  unique : ∀ j e e', .store j e ∈ new → .store j e' ∈ new → e = e'
  number : ∀ j e j' e', .store j e ∈ new → .store j' e' ∈ new →
    e.uop.number = e'.uop.number → j = j'
  masks : ∀ j st k e, .store j st ∈ new → .load k e ∈ new → st.uop.number < e.uop.number →
    ∀ b, st.uop.br_mask b = true → e.uop.br_mask b = true

namespace Bundle

variable [NeZero n] [NeZero m] {new : List (Enq n m T)} {u : DisUop T} {us : List (DisUop T)}
  {count l t h : ℕ} {mask : Fin n → Bool}

theorem nil : Bundle ([] : List (Enq n m T)) us count l t mask := by
  constructor <;> simp

theorem cons_other (h : Bundle new us (count + 1) l t mask) :
    Bundle (.other :: new) (u :: us) count l t mask := by
  constructor
  · intro j e he
    obtain ⟨hk, hv, hc, h1, h2, v, hvu, hmask⟩ := h.store j e (by simpa using he)
    refine ⟨hk, hv, hc, by omega, ?_, v, List.mem_cons_of_mem u hvu, hmask⟩
    rw [List.length_cons]
    omega
  · intro k e he
    obtain ⟨hk, hv, h1, h2, v, hvu, hmask⟩ := h.load k e (by simpa using he)
    refine ⟨hk, hv, by omega, ?_, v, List.mem_cons_of_mem u hvu, hmask⟩
    rw [List.length_cons]
    omega
  · intro k e he j
    rw [h.dep k e (by simpa using he) j]
    simp
  · intro j e e' he he'
    exact h.unique j e e' (by simpa using he) (by simpa using he')
  · intro j e j' e' he he'
    exact h.number j e j' e' (by simpa using he) (by simpa using he')
  · intro j st k e hst he
    exact h.masks j st k e (by simpa using hst) (by simpa using he)

theorem cons_load {e0 : LDQEntry n T} (h : Bundle new us (count + 1) (l + 1) t mask)
    (hv0 : e0.valid = true) (hn0 : e0.uop.number = count) (hm0 : e0.uop.br_mask = u.br_mask)
    (hd0 : e0.st_dep_mask = mask) :
    Bundle (.load (place m l) e0 :: new) (u :: us) count l t mask := by
  constructor
  · intro j e he
    obtain ⟨hk, hv, hc, h1, h2, v, hvu, hmask⟩ := h.store j e (by simpa using he)
    refine ⟨hk, hv, hc, by omega, ?_, v, List.mem_cons_of_mem u hvu, hmask⟩
    rw [List.length_cons]
    omega
  · intro k e he
    rw [List.countP_cons_of_pos rfl, List.length_cons]
    rcases List.mem_cons.1 he with he | he
    · cases he
      exact ⟨⟨l, rfl, le_rfl, by omega⟩, hv0, hn0.ge, by omega, u, List.mem_cons_self, hm0.symm⟩
    · obtain ⟨⟨a, ha, h3, h4⟩, hv, h1, h2, v, hvu, hmask⟩ := h.load k e he
      exact ⟨⟨a, ha, by omega, by omega⟩, hv, by omega, by omega, v,
        List.mem_cons_of_mem u hvu, hmask⟩
  · intro k e he j
    rcases List.mem_cons.1 he with he | he
    · cases he
      rw [hd0, or_iff_left]
      rintro ⟨st, hst, hlt⟩
      obtain ⟨-, -, -, h1, -⟩ := h.store j st (by simpa using hst)
      omega
    · rw [h.dep k e he j]
      simp
  · intro j e e' he he'
    exact h.unique j e e' (by simpa using he) (by simpa using he')
  · intro j e j' e' he he'
    exact h.number j e j' e' (by simpa using he) (by simpa using he')
  · intro j st k e hst he hlt
    have hst' : Enq.store j st ∈ new := by simpa using hst
    rcases List.mem_cons.1 he with he | he
    · cases he
      obtain ⟨-, -, -, h1, -⟩ := h.store j st hst'
      omega
    · exact h.masks j st k e hst' he hlt

theorem cons_store {e0 : STQEntry T} (hfit : t + new.countP Enq.isStore + 1 < h + n) (hh : h ≤ t)
    (hb : Bundle new us (count + 1) l (t + 1) fun j => mask j || j = place n t)
    (hv0 : e0.valid = true) (hc0 : e0.committed = false ∧ e0.succeeded = false)
    (hn0 : e0.uop.number = count)
    (hm0 : e0.uop.br_mask = u.br_mask)
    (hmono : ∀ v ∈ us, ∀ b, u.br_mask b = true → v.br_mask b = true) :
    Bundle (.store (place n t) e0 :: new) (u :: us) count l t mask := by
  -- the place of the head is not taken again
  have hne {e : STQEntry T} (he : Enq.store (place n t) e ∈ new) : False := by
    obtain ⟨⟨k, hk, h1, h2⟩, -⟩ := hb.store _ e he
    have hkt := place_inj (k := h) hh (by omega) (by omega) (by omega) hk
    omega
  constructor
  · intro j e he
    rw [List.countP_cons_of_pos rfl, List.length_cons]
    rcases List.mem_cons.1 he with he | he
    · cases he
      exact ⟨⟨t, rfl, le_rfl, by omega⟩, hv0, hc0, hn0.ge, by omega, u, List.mem_cons_self,
        hm0.symm⟩
    · obtain ⟨⟨a, ha, h3, h4⟩, hv, hc, h1, h2, v, hvu, hmask⟩ := hb.store j e he
      exact ⟨⟨a, ha, by omega, by omega⟩, hv, hc, by omega, by omega, v,
        List.mem_cons_of_mem u hvu, hmask⟩
  · intro k e he
    obtain ⟨hk, hv, h1, h2, v, hvu, hmask⟩ := hb.load k e (by simpa using he)
    refine ⟨hk, hv, by omega, ?_, v, List.mem_cons_of_mem u hvu, hmask⟩
    rw [List.length_cons]
    omega
  · intro k e he j
    have he' : Enq.load k e ∈ new := by simpa using he
    obtain ⟨-, -, h1, -⟩ := hb.load k e he'
    rw [hb.dep k e he' j, Bool.or_eq_true, decide_eq_true_iff, or_assoc]
    refine or_congr_right ⟨?_, ?_⟩
    · rintro (rfl | ⟨st, hst, hlt⟩)
      · exact ⟨e0, List.mem_cons_self, by omega⟩
      · exact ⟨st, List.mem_cons_of_mem _ hst, hlt⟩
    · rintro ⟨st, hst, hlt⟩
      rcases List.mem_cons.1 hst with hst | hst
      · cases hst
        exact .inl rfl
      · exact .inr ⟨st, hst, hlt⟩
  · intro j e e' he he'
    rcases List.mem_cons.1 he with he | he <;> rcases List.mem_cons.1 he' with he' | he'
    · cases he
      cases he'
      rfl
    · cases he
      exact (hne he').elim
    · cases he'
      exact (hne he).elim
    · exact hb.unique j e e' he he'
  · intro j e j' e' he he' hnn
    rcases List.mem_cons.1 he with he | he <;> rcases List.mem_cons.1 he' with he' | he'
    · cases he
      cases he'
      rfl
    · cases he
      have := (hb.store j' e' he').2.2.2.1
      omega
    · cases he'
      have := (hb.store j e he).2.2.2.1
      omega
    · exact hb.number j e j' e' he he' hnn
  · intro j st k e hst he hlt
    have he' : Enq.load k e ∈ new := by simpa using he
    rcases List.mem_cons.1 hst with hst | hst
    · cases hst
      obtain ⟨-, -, -, -, v, hvu, hmask⟩ := hb.load k e he'
      rw [hm0, ← hmask]
      exact hmono v hvu
    · exact hb.masks j st k e hst he' hlt

end Bundle

namespace Queues

variable [NeZero n] [NeZero m] {q : Queues n m T} {i : In n m T} {h c t a l : ℕ}

theorem room_of_not_full {N : ℕ} [NeZero N] {head : Fin N} (hh : head = place N h)
    (ht : t < h + N) (hfull : wrapInc (place N t) ≠ head) : t + 1 < h + N := by
  by_contra hge
  rw [hh, wrapInc_place, show t + 1 = h + N by omega, place_add_self] at hfull
  exact hfull rfl

/-- Dispatch stays within the two queues. -/
theorem enqs_bundle (hh : q.stq_head = place n h) (ha : q.ldq_head = place m a) :
    ∀ (us : List (DisUop T)) (count l t : ℕ) (mask : Fin n → Bool), h ≤ t → t < h + n → a ≤ l →
    l < a + m →
    (∀ u ∈ us, ¬ (u.uses_ldq = true ∧ u.uses_stq = true ∧ u.exception = false)) →
    (us.Pairwise fun u v => ∀ b, u.br_mask b = true → v.br_mask b = true) →
    Bundle (q.enqs count (place m l) (place n t) mask us) us count l t mask ∧
      t + (q.enqs count (place m l) (place n t) mask us).countP Enq.isStore < h + n ∧
      l + (q.enqs count (place m l) (place n t) mask us).countP Enq.isLoad < a + m
  | [], _, _, _, _, _, ht, _, hl, _, _ => ⟨Bundle.nil, ht, hl⟩
  | u :: us, count, l, t, mask, hht, ht, hal, hl, hone, hmono => by
    rw [enqs]
    by_cases hfull : (u.uses_ldq = true ∧ wrapInc (place m l) = q.ldq_head) ∨
        (u.uses_stq = true ∧ wrapInc (place n t) = q.stq_head)
    · rw [if_pos hfull]
      exact ⟨Bundle.nil, ht, hl⟩
    · rw [if_neg hfull]
      obtain ⟨hfl, hfs⟩ := not_or.1 hfull
      obtain ⟨hmono1, hmono⟩ := List.pairwise_cons.1 hmono
      have hone1 := hone u List.mem_cons_self
      have ih count l t mask := enqs_bundle hh ha us count l t mask
      simp only [wrapInc_place]
      cases hld : u.uses_ldq && !u.exception with
      | true =>
        rw [Bool.and_eq_true, Bool.not_eq_true'] at hld
        have hroom := room_of_not_full ha hl fun he => hfl ⟨hld.1, he⟩
        have hst : (u.uses_stq && !u.exception) = false := by
          rw [Bool.and_eq_false_iff, Bool.not_eq_false']
          exact .inl (Bool.eq_false_iff.2 fun h => hone1 ⟨hld.1, h, hld.2⟩)
        simp only [hst, Bool.false_and, Bool.or_false, if_true, Bool.false_eq_true, if_false]
        obtain ⟨hb, hfit, hfit'⟩ := ih (count + 1) (l + 1) t mask hht ht (by omega) hroom
          (fun v hv => hone v (List.mem_cons_of_mem u hv)) hmono
        rw [List.countP_cons_of_neg (by simp [Enq.isStore]), List.countP_cons_of_pos rfl]
        refine ⟨hb.cons_load rfl rfl rfl rfl, hfit, ?_⟩
        rw [← Nat.add_assoc, Nat.add_right_comm]
        exact hfit'
      | false =>
        cases hst : u.uses_stq && !u.exception with
        | true =>
          rw [Bool.and_eq_true] at hst
          have hroom := room_of_not_full hh ht fun he => hfs ⟨hst.1, he⟩
          simp only [Bool.true_and, if_true, Bool.false_eq_true, if_false]
          obtain ⟨hb, hfit, hfit'⟩ := ih (count + 1) l (t + 1) (fun j => mask j || j = place n t)
            (by omega) hroom hal hl (fun v hv => hone v (List.mem_cons_of_mem u hv)) hmono
          rw [List.countP_cons_of_pos rfl, List.countP_cons_of_neg (by simp [Enq.isLoad])]
          exact ⟨hb.cons_store (by omega) hht rfl ⟨rfl, rfl⟩ rfl rfl hmono1, by omega, hfit'⟩
        | false =>
          simp only [Bool.false_and, Bool.or_false, Bool.false_eq_true, if_false]
          obtain ⟨hb, hfit, hfit'⟩ := ih (count + 1) l t mask hht ht hal hl
            (fun v hv => hone v (List.mem_cons_of_mem u hv)) hmono
          rw [List.countP_cons_of_neg (by simp [Enq.isStore]),
            List.countP_cons_of_neg (by simp [Enq.isLoad])]
          exact ⟨hb.cons_other, hfit, hfit'⟩

/-! ## The invariant -/

/-- The numbers of the head, of the next store to commit and of the tail of the
    store queue, and those of the load queue. -/
structure At (q : Queues n m T) (h c t a l : ℕ) : Prop where
  stq : Window (fun j => (q.stq j).valid) q.stq_tail (q.b2.map Prod.fst) h c t
  ldq : Window (fun k => (q.ldq k).valid) q.ldq_tail (q.b2.map Prod.snd) a a l
  stq_head : q.stq_head = place n h
  stq_commit_head : q.stq_commit_head = place n c
  ldq_head : q.ldq_head = place m a
  live : ∀ k, h ≤ k → k < c → (q.stq (place n k)).valid = true ∧
    (q.stq (place n k)).committed = true ∧ ∀ b, (q.stq (place n k)).uop.br_mask b = false
  uncommitted : ∀ k, c ≤ k → k < t → (q.stq (place n k)).valid = true →
    (q.stq (place n k)).committed = false

/-- The invariant of the queues. -/
structure Inv (q : Queues n m T) : Prop where
  placed : ∃ h c t a l, q.At h c t a l
  live : ∀ j, q.live_store_mask j = (q.stq j).valid
  store_lt : ∀ j, (q.stq j).valid = true → (q.stq j).uop.number < q.count
  load_lt : ∀ k, (q.ldq k).valid = true → (q.ldq k).uop.number < q.count
  number : ∀ j j', (q.stq j).valid = true → (q.stq j').valid = true →
    (q.stq j).uop.number = (q.stq j').uop.number → j = j'
  /-- the mask of a load is the set of older stores -/
  dep : ∀ k, (q.ldq k).valid = true → ∀ j, (q.ldq k).st_dep_mask j = true ↔
    (q.stq j).valid = true ∧ (q.stq j).uop.number < (q.ldq k).uop.number
  /-- a load waits for the branches that an older store waits for -/
  masks : ∀ k, (q.ldq k).valid = true → ∀ j, (q.stq j).valid = true →
    (q.stq j).uop.number < (q.ldq k).uop.number →
    ∀ b, (q.stq j).uop.br_mask b = true → (q.ldq k).uop.br_mask b = true

theorem inv_of_start (h0 : (lsuQueues n m T).start q) : q.Inv := by
  obtain ⟨hl, hs, h1, h2, h3, h4, h5, hlive, hb2⟩ := h0
  have hn := Nat.pos_of_neZero n
  have hm := Nat.pos_of_neZero m
  have hstq : Window (fun j => (q.stq j).valid) q.stq_tail (q.b2.map Prod.fst) 0 0 0 := by
    rw [hb2, h4]
    exact Window.reset (b := 0) le_rfl (by rw [Nat.zero_add]; exact hn) fun k _ _ => hs _
  have hldq : Window (fun k => (q.ldq k).valid) q.ldq_tail (q.b2.map Prod.snd) 0 0 0 := by
    rw [hb2, h2]
    exact Window.reset (b := 0) le_rfl (by rw [Nat.zero_add]; exact hm) fun k _ _ => hl _
  constructor
  · exact ⟨0, 0, 0, 0, 0, hstq, hldq, h3, h5, h1, fun k _ hk => absurd hk (Nat.not_lt_zero k),
      fun k _ hk => absurd hk (Nat.not_lt_zero k)⟩
  · intro j
    rw [hlive, hs]
  · intro j hj
    rw [hs] at hj
    contradiction
  · intro k hk
    rw [hl] at hk
    contradiction
  · intro j _ hj
    rw [hs] at hj
    contradiction
  · intro k hk
    rw [hl] at hk
    contradiction
  · intro k hk
    rw [hl] at hk
    contradiction

theorem bundle (hat : q.At h c t a l) (hok : q.Ok i) :
    Bundle (q.new i) i.dis_uops q.count l t (q.live_after_clear i) ∧
      t + (q.new i).countP Enq.isStore < h + n ∧ l + (q.new i).countP Enq.isLoad < a + m := by
  obtain ⟨h1, h2, h3⟩ := hat.stq.order
  obtain ⟨-, h4, h5⟩ := hat.ldq.order
  rw [new, hat.stq.tail, hat.ldq.tail]
  exact enqs_bundle hat.stq_head hat.ldq_head i.dis_uops q.count l t _ (by omega) h3 h4 h5
    hok.one hok.dis_mask

theorem mem_of_newStore {j : Fin n} {e : STQEntry T} (he : q.newStore i j = some e) :
    Enq.store j e ∈ q.new i := by
  obtain ⟨x, hx, hxe⟩ := List.mem_filterMap.1 (List.mem_of_getLast? he)
  cases x with
  | store k e' =>
    simp only [Enq.toStore, Option.ite_none_right_eq_some, Option.some.injEq] at hxe
    obtain ⟨rfl, rfl⟩ := hxe
    exact hx
  | load k e' => contradiction
  | other => contradiction

theorem mem_of_newLoad {k : Fin m} {e : LDQEntry n T} (he : q.newLoad i k = some e) :
    Enq.load k e ∈ q.new i := by
  obtain ⟨x, hx, hxe⟩ := List.mem_filterMap.1 (List.mem_of_getLast? he)
  cases x with
  | load k' e' =>
    simp only [Enq.toLoad, Option.ite_none_right_eq_some, Option.some.injEq] at hxe
    obtain ⟨rfl, rfl⟩ := hxe
    exact hx
  | store k' e' => contradiction
  | other => contradiction

theorem not_mem_of_newStore {j : Fin n} (hj : q.newStore i j = none) (e : STQEntry T) :
    Enq.store j e ∉ q.new i := by
  intro he
  rw [newStore, List.getLast?_eq_none_iff, List.filterMap_eq_nil_iff] at hj
  have := hj _ he
  rw [Enq.toStore, if_pos rfl] at this
  contradiction

/-- A bundle is only written when nothing is dropped. -/
theorem new_eq_nil (hok : q.Ok i) (h : i.mispredict.isSome ∨ q.b2.isSome ∨ i.exception = true) :
    q.new i = [] := by
  rw [new, hok.dis h, enqs]

/-! ### One cycle of an entry -/

/-- A store that is written is in a free entry, and stays. -/
theorem nextStq_of_new (hat : q.At h c t a l) (hok : q.Ok i) {j : Fin n} {e : STQEntry T}
    (he : q.newStore i j = some e) : (q.stq j).valid = false ∧ (q.nextStq i j).valid = true ∧
      (q.nextStq i j).uop = e.uop ∧ q.cleared i j = false := by
  obtain ⟨hb, hfit, -⟩ := bundle hat hok
  have hmem := mem_of_newStore he
  obtain ⟨⟨k, rfl, h1, h2⟩, hv, -⟩ := hb.store j e hmem
  have hfree : (q.stq (place n k)).valid = false := hat.stq.free k h1 (by omega)
  have hexc : i.exception = false := by
    by_contra hx
    rw [new_eq_nil hok (.inr (.inr (by simpa using hx)))] at hmem
    contradiction
  have hclear : q.cleared i (place n k) = false := by
    rw [cleared, Bool.and_eq_false_iff, decide_eq_false_iff_not]
    by_contra hno
    obtain ⟨hc, hj⟩ := not_or.1 hno
    rw [Bool.not_eq_false, clear_store, ← not_not.1 hj, hfree] at hc
    contradiction
  refine ⟨hfree, ?_, ?_, hclear⟩
  · simp [nextStq, he, hv, hclear, st_brkilled_mask, st_exc_killed_mask, hfree, hexc]
  · simp [nextStq, nextUop, he, hfree]

/-- What is in the queue and was there before has not been dropped. -/
theorem nextStq_of_old {j : Fin n} (hj : q.newStore i j = none)
    (hv : (q.nextStq i j).valid = true) : (q.stq j).valid = true ∧
      isKilledByBranch i.brupdate (q.stq j).uop.br_mask = false ∧ q.cleared i j = false ∧
      q.st_exc_killed_mask i j = false ∧ (q.nextStq i j).uop.number = (q.stq j).uop.number ∧
      (q.nextStq i j).uop.br_mask = getNewBrMask i.brupdate (q.stq j).uop.br_mask := by
  simp only [nextStq, hj, Option.getD_none, Bool.and_eq_true, Bool.not_eq_true',
    st_brkilled_mask] at hv
  obtain ⟨⟨⟨hv, hk⟩, hc⟩, hx⟩ := hv
  rw [hv, Bool.true_and] at hk
  refine ⟨hv, hk, hc, hx, ?_, ?_⟩ <;> simp [nextStq, nextUop, hj, hv]

theorem nextStq_uop_of_old {j : Fin n} (hj : q.newStore i j = none)
    (hv : (q.stq j).valid = true) : (q.nextStq i j).uop =
      { (q.stq j).uop with br_mask := getNewBrMask i.brupdate (q.stq j).uop.br_mask } := by
  simp [nextStq, nextUop, hj, hv]

/-- What the bundle writes is not committed at once. -/
theorem valid_of_commitsStore (hok : q.Ok i) {j : Fin n} (hc : q.commitsStore i j = true) :
    (q.stq j).valid = true := by
  obtain ⟨k, hk, he⟩ := List.any_eq_true.1 hc
  rw [decide_eq_true_iff] at he
  subst he
  exact (hok.commit_stores k (List.mem_range.1 hk)).2.1

theorem nextStq_valid_of_old {j : Fin n} (hj : q.newStore i j = none) :
    (q.nextStq i j).valid = ((q.stq j).valid && !q.st_brkilled_mask i j && !q.cleared i j &&
      !q.st_exc_killed_mask i j) := by
  rw [nextStq, hj]
  rfl

/-- A load that is written is in a free entry. -/
theorem nextLdq_of_new (hat : q.At h c t a l) (hok : q.Ok i) {k : Fin m} {e : LDQEntry n T}
    (he : q.newLoad i k = some e) : (q.ldq k).valid = false ∧ (q.nextLdq i k).uop = e.uop ∧
      (q.nextLdq i k).st_dep_mask = e.st_dep_mask := by
  obtain ⟨hb, -, hfit⟩ := bundle hat hok
  obtain ⟨⟨b, rfl, h1, h2⟩, -⟩ := hb.load k e (mem_of_newLoad he)
  have hfree : (q.ldq (place m b)).valid = false := hat.ldq.free b h1 (by omega)
  refine ⟨hfree, ?_, ?_⟩ <;> simp [nextLdq, nextUop, he, hfree]

theorem nextLdq_of_old {k : Fin m} (hk : q.newLoad i k = none)
    (hv : (q.nextLdq i k).valid = true) : (q.ldq k).valid = true ∧
      isKilledByBranch i.brupdate (q.ldq k).uop.br_mask = false ∧ i.exception = false ∧
      (q.nextLdq i k).uop.number = (q.ldq k).uop.number ∧
      (q.nextLdq i k).uop.br_mask = getNewBrMask i.brupdate (q.ldq k).uop.br_mask ∧
      ∀ j, (q.nextLdq i k).st_dep_mask j = ((q.ldq k).st_dep_mask j && !q.cleared i j) := by
  simp only [nextLdq, hk, Option.getD_none, Bool.and_eq_true, Bool.not_eq_true',
    ld_brkilled_mask] at hv
  obtain ⟨⟨⟨hv, hkill⟩, -⟩, hx⟩ := hv
  rw [hv, Bool.true_and] at hkill
  refine ⟨hv, hkill, hx, ?_, ?_, fun j => ?_⟩ <;> simp [nextLdq, nextUop, hk, hv]

/-! ### The pointers -/

/-- The number of the head after the cycle. -/
def nextHead (q : Queues n m T) (i : In n m T) (h : ℕ) : ℕ := if q.clear_store i then h + 1 else h

omit [NeZero n] [NeZero m] in
theorem At.le_nextHead : h ≤ q.nextHead i h := by
  rw [nextHead]
  split <;> omega

theorem At.cleared_iff (hat : q.At h c t a l) {k : ℕ} (h1 : h ≤ k) (h2 : k < h + n) :
    q.cleared i (place n k) = true ↔ k < q.nextHead i h := by
  rw [cleared, hat.stq_head, Bool.and_eq_true, decide_eq_true_iff, nextHead]
  constructor
  · rintro ⟨hc, he⟩
    have hkh := place_inj (k := h) h1 le_rfl h2 (by omega) he
    rw [if_pos hc]
    omega
  · intro hlt
    split at hlt
    case isTrue hc => exact ⟨hc, by rw [show k = h by omega]⟩
    case isFalse => omega

/-- The store that is cleared has committed. -/
theorem At.nextHead_le (hat : q.At h c t a l) : q.nextHead i h ≤ c := by
  obtain ⟨h1, h2, h3⟩ := hat.stq.order
  rw [nextHead]
  split
  case isFalse => exact h1
  case isTrue hc =>
    simp only [clear_store, hat.stq_head, Bool.and_eq_true] at hc
    obtain ⟨⟨hv, hcom⟩, -⟩ := hc
    by_contra hlt
    have hch : c = h := by omega
    rcases Nat.lt_or_ge h t with hht | hht
    · rw [hat.uncommitted h hch.le hht hv] at hcom
      contradiction
    · rw [hat.stq.free h hht (by omega)] at hv
      contradiction

/-- What is freed at the head stays free. -/
theorem At.nextStq_freed (hat : q.At h c t a l) (hok : q.Ok i) {k : ℕ} (h1 : h ≤ k)
    (h2 : k < q.nextHead i h) : (q.nextStq i (place n k)).valid = false := by
  have hle := hat.nextHead_le (i := i)
  obtain ⟨h3, h4, h5⟩ := hat.stq.order
  have hc := (hat.cleared_iff (i := i) h1 (by omega)).2 h2
  cases he : q.newStore i (place n k) with
  | some e =>
    rw [(nextStq_of_new hat hok he).2.2.2] at hc
    contradiction
  | none =>
    rw [nextStq_valid_of_old he, hc]
    simp

/-- The places from the new head up to a full round, below the old round. -/
theorem At.lt_of_valid (hat : q.At h c t a l) (hok : q.Ok i) {k : ℕ}
    (h2 : k < q.nextHead i h + n) (hv : (q.nextStq i (place n k)).valid = true) : k < h + n := by
  by_contra hge
  have hle := At.le_nextHead (q := q) (i := i) (h := h)
  have hsub : k - n + n = k := by omega
  have hfree := hat.nextStq_freed hok (k := k - n) (by omega) (by omega)
  rw [← place_add_self, hsub, hv] at hfree
  contradiction

theorem not_killed {b : BrUpdate T} {br_mask : Fin T → Bool}
    (h : ∀ t, br_mask t = true → b.mispredict_mask t = false) :
    isKilledByBranch b br_mask = false := by
  refine List.any_eq_false.2 fun t _ => ?_
  rw [Bool.and_eq_true]
  rintro ⟨h1, h2⟩
  rw [h t h2] at h1
  contradiction

theorem At.commits (hat : q.At h c t a l) (hok : q.Ok i) {k : ℕ} (h1 : c ≤ k)
    (h2 : k < c + i.commit_stores) : k < t ∧ (q.stq (place n k)).valid = true ∧
      ∀ b, (q.stq (place n k)).uop.br_mask b = true →
        i.brupdate.resolve_mask b = true ∧ i.brupdate.mispredict_mask b = false := by
  obtain ⟨h3, h4, h5⟩ := hat.stq.order
  obtain ⟨hlt, hv, hb⟩ := hok.commit_stores (k - c) (by omega)
  rw [hat.stq_commit_head, iterate_wrapInc_place, Nat.add_sub_cancel' h1] at hv hb
  rw [hat.stq_commit_head, hat.stq.tail, dist_place h4 (by omega)] at hlt
  exact ⟨by omega, hv, hb⟩

theorem At.commitsStore_iff (hat : q.At h c t a l) {k : ℕ} (h1 : h ≤ k)
    (h2 : k < h + n) (hc : c + i.commit_stores ≤ h + n) :
    q.commitsStore i (place n k) = true ↔ c ≤ k ∧ k < c + i.commit_stores := by
  obtain ⟨h3, h4, h5⟩ := hat.stq.order
  simp only [commitsStore, List.any_eq_true, List.mem_range, decide_eq_true_iff,
    hat.stq_commit_head, iterate_wrapInc_place]
  constructor
  · rintro ⟨b, hb, he⟩
    have hbk := place_inj (k := h) (by omega) h1 (by omega) h2 he
    omega
  · rintro ⟨h6, h7⟩
    exact ⟨k - c, by omega, by rw [Nat.add_sub_cancel' h6]⟩

theorem At.commit_le (hat : q.At h c t a l) (hok : q.Ok i) : c + i.commit_stores ≤ t := by
  rcases Nat.eq_zero_or_pos i.commit_stores with h0 | hpos
  · rw [h0]
    exact hat.stq.order.2.1
  · have := (hat.commits hok (k := c + (i.commit_stores - 1)) (by omega) (by omega)).1
    omega

/-- A store that is there and is not dropped, cleared or flushed stays. -/
theorem At.nextStq_stays (hat : q.At h c t a l) (hok : q.Ok i) {k : ℕ}
    (h1 : q.nextHead i h ≤ k) (h2 : k < h + n)
    (hx : q.st_exc_killed_mask i (place n k) = false)
    (hv : (q.stq (place n k)).valid = true)
    (hb : ∀ b, (q.stq (place n k)).uop.br_mask b = true →
      i.brupdate.resolve_mask b = true ∧ i.brupdate.mispredict_mask b = false) :
    (q.nextStq i (place n k)).valid = true ∧ (q.nextStq i (place n k)).committed =
      (q.commitsStore i (place n k) || (q.stq (place n k)).committed) ∧
      ∀ b, (q.nextStq i (place n k)).uop.br_mask b = false := by
  have hnew : q.newStore i (place n k) = none := by
    by_contra hno
    obtain ⟨e, he⟩ := Option.ne_none_iff_exists'.1 hno
    rw [(nextStq_of_new hat hok he).1] at hv
    contradiction
  have hclear : q.cleared i (place n k) = false := by
    rw [Bool.eq_false_iff, ne_eq, hat.cleared_iff (At.le_nextHead.trans h1) h2]
    omega
  refine ⟨?_, by simp [nextStq, hnew, hclear], fun b => ?_⟩
  · rw [nextStq_valid_of_old hnew, st_brkilled_mask, not_killed fun b h => (hb b h).2, hclear,
      hx, hv]
    rfl
  · simp only [nextStq, nextUop, hnew, Option.getD_none, hv, if_true, getNewBrMask]
    cases hmask : (q.stq (place n k)).uop.br_mask b with
    | false => rfl
    | true => rw [(hb b hmask).1]; rfl

theorem stq_dropped (hat : q.At h c t a l) (hok : q.Ok i) {j : Fin n}
    (hv : (q.stq j).valid = true) (hk : q.st_brkilled_mask i j = true) :
    (q.nextStq i j).valid = false := by
  cases he : q.newStore i j with
  | some e =>
    rw [(nextStq_of_new hat hok he).1] at hv
    contradiction
  | none =>
    rw [nextStq_valid_of_old he, hk]
    simp

theorem nextLdq_valid : (q.nextLdq i k).valid = true →
    q.ld_brkilled_mask i k = false ∧ q.commitsLoad i k = false ∧ i.exception = false := by
  intro hv
  simp only [nextLdq, Bool.and_eq_true, Bool.not_eq_true'] at hv
  exact ⟨hv.1.1.2, hv.1.2, hv.2⟩

theorem At.stq_next (hat : q.At h c t a l) (hok : q.Ok i) (hx : i.exception = false) :
    ∃ t', Window (fun j => ((q.next i).stq j).valid) (q.next i).stq_tail
      ((q.next i).b2.map Prod.fst) (q.nextHead i h) (c + i.commit_stores) t' := by
  obtain ⟨hb, hfit, -⟩ := bundle hat hok
  have htail : (q.next i).stq_tail =
      (q.b2.map Prod.fst).getD ((wrapInc^[(q.new i).countP Enq.isStore]) q.stq_tail) := by
    simp [next, hx]
  rw [htail]
  refine hat.stq.step hat.stq_commit_head At.le_nextHead
    (hat.nextHead_le.trans (Nat.le_add_right c _)) hfit (fun hq => ?_) (fun j hv => ?_)
    (fun k h1 h2 => hat.nextStq_freed hok h1 h2) (fun j => stq_dropped hat hok)
    (fun k h1 h2 => ?_) fun r hr => ?_
  · rw [new_eq_nil hok]
    · rfl
    · simp only [Option.isSome_map, next] at hq
      tauto
  · cases he : q.newStore i j with
    | some e => exact .inr (hb.store j e (mem_of_newStore he)).1
    | none => exact .inl (nextStq_of_old he hv).1
  · have hcom := hat.commits hok h1 h2
    exact ⟨hcom.1, hcom.2.1⟩
  · obtain ⟨r, hm, rfl⟩ := Option.map_eq_some_iff.1 hr
    exact hok.stq_idx r hm

theorem At.ldq_next (hat : q.At h c t a l) (hok : q.Ok i) (hx : i.exception = false) :
    ∃ l', Window (fun k => ((q.next i).ldq k).valid) (q.next i).ldq_tail
      ((q.next i).b2.map Prod.snd) (a + i.commit_loads) (a + i.commit_loads) l' := by
  obtain ⟨hb, -, hfit⟩ := bundle hat hok
  obtain ⟨-, h4, h5⟩ := hat.ldq.order
  have htail : (q.next i).ldq_tail =
      (q.b2.map Prod.snd).getD ((wrapInc^[(q.new i).countP Enq.isLoad]) q.ldq_tail) := by
    simp [next, hx]
  rw [htail]
  have hdropped : ∀ k, (q.ldq k).valid = true → q.ld_brkilled_mask i k = true →
      ((q.next i).ldq k).valid = false := by
    intro k _ hk
    by_contra hv
    rw [Bool.not_eq_false] at hv
    rw [(nextLdq_valid hv).1] at hk
    contradiction
  refine hat.ldq.step hat.ldq_head (Nat.le_add_right a _) le_rfl
    hfit (fun hq => ?_) (fun k hv => ?_) (fun k h1 h2 => ?_) hdropped
    (fun k h1 h2 => ?_) fun r hr => ?_
  · rw [new_eq_nil hok]
    · rfl
    · simp only [Option.isSome_map, next] at hq
      tauto
  · cases he : q.newLoad i k with
    | some e => exact .inr (hb.load k e (mem_of_newLoad he)).1
    | none => exact .inl (nextLdq_of_old he hv).1
  · by_contra hv
    rw [Bool.not_eq_false] at hv
    have hcom := (nextLdq_valid hv).2.1
    rw [commitsLoad, List.any_eq_false] at hcom
    refine hcom (k - a) (List.mem_range.2 (by omega)) ?_
    rw [decide_eq_true_iff, hat.ldq_head, iterate_wrapInc_place, Nat.add_sub_cancel' h1]
  · obtain ⟨hlt, hv⟩ := hok.commit_loads (k - a) (by omega)
    rw [hat.ldq_head, iterate_wrapInc_place, Nat.add_sub_cancel' h1] at hv
    rw [hat.ldq_head, hat.ldq.tail, dist_place h4 (by omega)] at hlt
    exact ⟨by omega, hv⟩
  · obtain ⟨r, hm, rfl⟩ := Option.map_eq_some_iff.1 hr
    exact hok.ldq_idx r hm

theorem At.next (hat : q.At h c t a l) (hok : q.Ok i) (hx : i.exception = false) :
    ∃ h c t a l, (q.next i).At h c t a l := by
  obtain ⟨t', hstq⟩ := hat.stq_next hok hx
  obtain ⟨l', hldq⟩ := hat.ldq_next hok hx
  obtain ⟨h1, h2, h3⟩ := hat.stq.order
  have hcom := hat.commit_le hok
  have hle := hat.nextHead_le (i := i)
  refine ⟨_, _, t', _, l', hstq, hldq, ?_, ?_, ?_, fun k h4 h5 => ?_, fun k h4 h5 hv => ?_⟩
  · simp only [Queues.next, hat.stq_head, nextHead, wrapInc_place]
    split <;> rfl
  · simp only [Queues.next, hat.stq_commit_head, iterate_wrapInc_place]
  · simp [Queues.next, hx, hat.ldq_head, iterate_wrapInc_place]
  · have hhk := At.le_nextHead.trans h4
    have hexc : q.st_exc_killed_mask i (place n k) = false := by
      rw [st_exc_killed_mask, hx]
      rfl
    rcases Nat.lt_or_ge k c with hkc | hkc
    · obtain ⟨hv, hcom, hb⟩ := hat.live k hhk hkc
      obtain ⟨hv', hcom', hb'⟩ := hat.nextStq_stays hok h4 (by omega) hexc hv
        fun b h => by rw [hb] at h; contradiction
      exact ⟨hv', hcom'.trans (by rw [hcom, Bool.or_true]), hb'⟩
    · obtain ⟨hkt, hv, hb⟩ := hat.commits hok hkc h5
      obtain ⟨hv', hcom', hb'⟩ := hat.nextStq_stays hok h4 (by omega) hexc hv hb
      refine ⟨hv', hcom'.trans ?_, hb'⟩
      rw [(hat.commitsStore_iff hhk (by omega) (by omega)).2 ⟨hkc, h5⟩, Bool.true_or]
  · have hkn := hat.lt_of_valid hok (h5.trans hstq.order.2.2) hv
    have hnot : q.commitsStore i (place n k) = false := by
      rw [Bool.eq_false_iff, ne_eq, hat.commitsStore_iff (by omega) hkn (by omega)]
      omega
    show (q.nextStq i (place n k)).committed = false
    cases he : q.newStore i (place n k) with
    | some e =>
      simp [nextStq, he, hnot, ((bundle hat hok).1.store _ e (mem_of_newStore he)).2.2.1.1]
    | none =>
      have hold := (nextStq_of_old he hv).1
      have hkt : k < t := by
        by_contra hge
        rw [hat.stq.free k (Nat.le_of_not_lt hge) hkn] at hold
        contradiction
      simp [nextStq, he, hnot, hat.uncommitted k (by omega) hkt hold]

/-- After a flush the committed stores are left. -/
theorem At.flush (hat : q.At h c t a l) (hok : q.Ok i) (hx : i.exception = true) :
    ∃ h c t a l, (q.next i).At h c t a l := by
  obtain ⟨hmis, hst, -, hsucc⟩ := hok.exception hx
  obtain ⟨h1, h2, h3⟩ := hat.stq.order
  have hle := hat.nextHead_le (i := i)
  have hm := Nat.pos_of_neZero m
  have hb2 : (q.next i).b2 = none := hmis
  have hnew : q.new i = [] := new_eq_nil hok (.inr (.inr hx))
  have hnone (j : Fin n) : q.newStore i j = none := by
    rw [newStore, hnew]
    rfl
  have hgone {k : ℕ} (h4 : c ≤ k) (h5 : k < q.nextHead i h + n) :
      (q.nextStq i (place n k)).valid = false := by
    by_contra hv
    rw [Bool.not_eq_false] at hv
    have hkn := hat.lt_of_valid hok h5 hv
    obtain ⟨hold, -, -, hexc, -⟩ := nextStq_of_old (hnone _) hv
    have hkt : k < t := by
      by_contra hge
      rw [hat.stq.free k (Nat.le_of_not_lt hge) hkn] at hold
      contradiction
    have hcom := hat.uncommitted k h4 hkt hold
    rw [st_exc_killed_mask, hx, hcom, Bool.not_false, Bool.true_and, Bool.true_and,
      Bool.not_eq_false'] at hexc
    rw [hsucc _ hold hexc] at hcom
    contradiction
  refine ⟨q.nextHead i h, c, c, 0, 0, ?_, ?_, ?_, ?_, ?_, fun k h4 h5 => ?_, fun k h4 h5 => ?_⟩
  · have htail : (q.next i).stq_tail = place n c := by simp [Queues.next, hx, hat.stq_commit_head]
    rw [hb2, htail]
    exact Window.reset hle (by have := At.le_nextHead (q := q) (i := i) (h := h); omega)
      fun k h4 h5 => hgone h4 h5
  · have htail : (q.next i).ldq_tail = place m 0 := by simp [Queues.next, hx]; rfl
    rw [hb2, htail]
    refine Window.reset le_rfl (by omega) fun k _ _ => ?_
    by_contra hv
    rw [Bool.not_eq_false] at hv
    rw [(nextLdq_valid hv).2.2] at hx
    contradiction
  · simp only [Queues.next, hat.stq_head, nextHead, wrapInc_place]
    split <;> rfl
  · simp only [Queues.next, hst, hat.stq_commit_head]
    rfl
  · simp only [Queues.next, hx, if_true]
    rfl
  · have hhk := At.le_nextHead.trans h4
    obtain ⟨hv, hcom, hb⟩ := hat.live k hhk h5
    obtain ⟨hv', hcom', hb'⟩ := hat.nextStq_stays hok h4 (by omega)
      (by rw [st_exc_killed_mask, hcom]; simp) hv fun b h => by rw [hb] at h; contradiction
    exact ⟨hv', hcom'.trans (by rw [hcom, Bool.or_true]), hb'⟩
  · omega

/-! ### The masks -/

theorem quiet_of_mem (hok : q.Ok i) {x : Enq n m T} (hx : x ∈ q.new i) :
    i.exception = false ∧ ∀ br_mask, isKilledByBranch i.brupdate br_mask = false := by
  have hno : ¬ (i.mispredict.isSome ∨ q.b2.isSome ∨ i.exception = true) := by
    intro h
    rw [new_eq_nil hok h] at hx
    contradiction
  obtain ⟨h1, h2⟩ := not_or.1 hno
  refine ⟨?_, fun br_mask => not_killed fun b _ => hok.mispredict ?_ b⟩
  · rw [Bool.eq_false_iff]
    exact (not_or.1 h2).2
  · rw [← Option.not_isSome_iff_eq_none]
    exact h1

theorem killed_of_masks {b : BrUpdate T} {x y : Fin T → Bool}
    (h : ∀ t, x t = true → y t = true) (hx : isKilledByBranch b x = true) :
    isKilledByBranch b y = true := by
  obtain ⟨t, ht, hbt⟩ := List.any_eq_true.1 hx
  rw [Bool.and_eq_true] at hbt
  exact List.any_eq_true.2 ⟨t, ht, Bool.and_eq_true_iff.2 ⟨hbt.1, h t hbt.2⟩⟩

theorem Inv.live_next (h : q.Inv) (hok : q.Ok i) (j : Fin n) :
    (q.next i).live_store_mask j = ((q.next i).stq j).valid := by
  obtain ⟨_, _, _, _, _, hat⟩ := h.placed
  show (q.next_live_store_mask i j && !q.st_brkilled_mask i j && !q.st_exc_killed_mask i j) =
    (q.nextStq i j).valid
  cases he : q.newStore i j with
  | some e =>
    have hv := (nextStq_of_new hat hok he).2.1
    rw [hv]
    simp only [nextStq, Bool.and_eq_true, Bool.not_eq_true'] at hv
    rw [next_live_store_mask, he, hv.1.1.2, hv.2]
    simp
  | none =>
    rw [nextStq_valid_of_old he, next_live_store_mask, he, live_after_clear, h.live j,
      Option.isSome_none, Bool.or_false, Bool.and_right_comm (q.stq j).valid]

theorem Inv.store_lt_next (h : q.Inv) (hok : q.Ok i) (j : Fin n)
    (hv : (q.nextStq i j).valid = true) :
    (q.nextStq i j).uop.number < q.count + (q.new i).length := by
  obtain ⟨_, _, _, _, _, hat⟩ := h.placed
  cases he : q.newStore i j with
  | some e =>
    rw [(nextStq_of_new hat hok he).2.2.1]
    exact ((bundle hat hok).1.store j e (mem_of_newStore he)).2.2.2.2.1
  | none =>
    obtain ⟨hold, -, -, -, hn, -⟩ := nextStq_of_old he hv
    rw [hn]
    exact (h.store_lt j hold).trans_le (Nat.le_add_right _ _)

theorem Inv.load_lt_next (h : q.Inv) (hok : q.Ok i) (k : Fin m)
    (hv : (q.nextLdq i k).valid = true) :
    (q.nextLdq i k).uop.number < q.count + (q.new i).length := by
  obtain ⟨_, _, _, _, _, hat⟩ := h.placed
  cases he : q.newLoad i k with
  | some e =>
    rw [(nextLdq_of_new hat hok he).2.1]
    exact ((bundle hat hok).1.load k e (mem_of_newLoad he)).2.2.2.1
  | none =>
    obtain ⟨hold, -, -, hn, -⟩ := nextLdq_of_old he hv
    rw [hn]
    exact (h.load_lt k hold).trans_le (Nat.le_add_right _ _)

theorem Inv.number_next (h : q.Inv) (hok : q.Ok i) (j j' : Fin n)
    (hv : (q.nextStq i j).valid = true) (hv' : (q.nextStq i j').valid = true)
    (hn : (q.nextStq i j).uop.number = (q.nextStq i j').uop.number) : j = j' := by
  obtain ⟨_, _, _, _, _, hat⟩ := h.placed
  have hb := (bundle hat hok).1
  have hmixed {j j' : Fin n} {e : STQEntry T} (he : q.newStore i j = some e)
      (he' : q.newStore i j' = none) (hv' : (q.nextStq i j').valid = true)
      (hn : (q.nextStq i j).uop.number = (q.nextStq i j').uop.number) : False := by
    obtain ⟨hold, -, -, -, hn', -⟩ := nextStq_of_old he' hv'
    rw [(nextStq_of_new hat hok he).2.2.1, hn'] at hn
    have h1 := (hb.store j e (mem_of_newStore he)).2.2.2.1
    have h2 := h.store_lt j' hold
    omega
  cases he : q.newStore i j with
  | some e =>
    cases he' : q.newStore i j' with
    | some e' =>
      rw [(nextStq_of_new hat hok he).2.2.1, (nextStq_of_new hat hok he').2.2.1] at hn
      exact hb.number j e j' e' (mem_of_newStore he) (mem_of_newStore he') hn
    | none => exact (hmixed he he' hv' hn).elim
  | none =>
    cases he' : q.newStore i j' with
    | some e' => exact (hmixed he' he hv hn.symm).elim
    | none =>
      obtain ⟨hold, -, -, -, h1, -⟩ := nextStq_of_old he hv
      obtain ⟨hold', -, -, -, h2, -⟩ := nextStq_of_old he' hv'
      exact h.number j j' hold hold' (h1.symm.trans (hn.trans h2))

/-- The mask of a load that is dispatched. -/
theorem Inv.dep_new (h : q.Inv) (hok : q.Ok i) {k : Fin m} {e : LDQEntry n T}
    (he : Enq.load k e ∈ q.new i) (j : Fin n) : e.st_dep_mask j = true ↔
      (q.nextStq i j).valid = true ∧ (q.nextStq i j).uop.number < e.uop.number := by
  obtain ⟨_, _, _, _, _, hat⟩ := h.placed
  have hb := (bundle hat hok).1
  rw [hb.dep k e he j, live_after_clear, h.live j]
  cases hst : q.newStore i j with
  | some st =>
    obtain ⟨hfree, hv, hu, -⟩ := nextStq_of_new hat hok hst
    have hmem := mem_of_newStore hst
    rw [hfree, hv, hu]
    constructor
    · rintro (hno | ⟨st', hst', hlt⟩)
      · contradiction
      · rw [hb.unique j st st' hmem hst']
        exact ⟨rfl, hlt⟩
    · rintro ⟨-, hlt⟩
      exact .inr ⟨st, hmem, hlt⟩
  | none =>
    obtain ⟨hx, hkill⟩ := quiet_of_mem hok he
    have hvalid : (q.nextStq i j).valid = ((q.stq j).valid && !q.cleared i j) := by
      rw [nextStq_valid_of_old hst, st_brkilled_mask, st_exc_killed_mask, hx, hkill]
      simp
    rw [← hvalid]
    constructor
    · rintro (hv | ⟨st', hst', -⟩)
      · obtain ⟨hold, -, -, -, hn, -⟩ := nextStq_of_old hst hv
        refine ⟨hv, ?_⟩
        rw [hn]
        exact (h.store_lt j hold).trans_le (hb.load k e he).2.2.1
      · exact absurd hst' (not_mem_of_newStore hst st')
    · exact fun hv => .inl hv.1

/-- The mask of a load that was there. -/
theorem Inv.dep_old (h : q.Inv) (hok : q.Ok i) {k : Fin m} (hv : (q.ldq k).valid = true)
    (hkill : isKilledByBranch i.brupdate (q.ldq k).uop.br_mask = false)
    (hx : i.exception = false) (j : Fin n) :
    ((q.ldq k).st_dep_mask j && !q.cleared i j) = true ↔ (q.nextStq i j).valid = true ∧
      (q.nextStq i j).uop.number < (q.ldq k).uop.number := by
  obtain ⟨_, _, _, _, _, hat⟩ := h.placed
  rw [Bool.and_eq_true, Bool.not_eq_true', h.dep k hv j]
  cases hst : q.newStore i j with
  | some st =>
    obtain ⟨hfree, -, hu, -⟩ := nextStq_of_new hat hok hst
    have hge := ((bundle hat hok).1.store j st (mem_of_newStore hst)).2.2.2.1
    have hlt := h.load_lt k hv
    rw [hu, hfree]
    constructor
    · rintro ⟨⟨hno, -⟩, -⟩
      contradiction
    · rintro ⟨-, hlt'⟩
      omega
  | none =>
    constructor
    · rintro ⟨⟨hold, hlt⟩, hclear⟩
      have hbr : q.st_brkilled_mask i j = false := by
        rw [st_brkilled_mask, hold, Bool.true_and]
        by_contra hno
        rw [Bool.not_eq_false] at hno
        rw [killed_of_masks (h.masks k hv j hold hlt) hno] at hkill
        contradiction
      have hv' : (q.nextStq i j).valid = true := by
        rw [nextStq_valid_of_old hst, hold, hbr, hclear, st_exc_killed_mask, hx]
        rfl
      obtain ⟨-, -, -, -, hn, -⟩ := nextStq_of_old hst hv'
      exact ⟨hv', by rw [hn]; exact hlt⟩
    · rintro ⟨hv', hlt⟩
      obtain ⟨hold, -, hclear, -, hn, -⟩ := nextStq_of_old hst hv'
      rw [hn] at hlt
      exact ⟨⟨hold, hlt⟩, hclear⟩

theorem Inv.dep_next (h : q.Inv) (hok : q.Ok i) (k : Fin m) (hv : (q.nextLdq i k).valid = true)
    (j : Fin n) : (q.nextLdq i k).st_dep_mask j = true ↔ (q.nextStq i j).valid = true ∧
      (q.nextStq i j).uop.number < (q.nextLdq i k).uop.number := by
  obtain ⟨_, _, _, _, _, hat⟩ := h.placed
  cases he : q.newLoad i k with
  | some e =>
    obtain ⟨-, hu, hd⟩ := nextLdq_of_new hat hok he
    rw [hu, hd]
    exact h.dep_new hok (mem_of_newLoad he) j
  | none =>
    obtain ⟨hold, hkill, hx, hn, -, hd⟩ := nextLdq_of_old he hv
    rw [hn, hd]
    exact h.dep_old hok hold hkill hx j

theorem Inv.masks_next (h : q.Inv) (hok : q.Ok i) (k : Fin m)
    (hv : (q.nextLdq i k).valid = true) (j : Fin n) (hj : (q.nextStq i j).valid = true)
    (hlt : (q.nextStq i j).uop.number < (q.nextLdq i k).uop.number) (b : Fin T)
    (hb : (q.nextStq i j).uop.br_mask b = true) : (q.nextLdq i k).uop.br_mask b = true := by
  obtain ⟨_, _, _, _, _, hat⟩ := h.placed
  have hbun := (bundle hat hok).1
  cases he : q.newLoad i k with
  | some e =>
    obtain ⟨-, hu, -⟩ := nextLdq_of_new hat hok he
    have hmem := mem_of_newLoad he
    rw [hu] at hlt ⊢
    cases hst : q.newStore i j with
    | some st =>
      rw [(nextStq_of_new hat hok hst).2.2.1] at hlt hb
      exact hbun.masks j st k e (mem_of_newStore hst) hmem hlt b hb
    | none =>
      obtain ⟨hold, -, -, -, -, hmask⟩ := nextStq_of_old hst hj
      obtain ⟨-, -, -, -, u, hu', hue⟩ := hbun.load k e hmem
      rw [hmask] at hb
      rw [← hue]
      exact hok.old_mask u hu' j hold b hb
  | none =>
    obtain ⟨hold, -, -, hn, hmask, -⟩ := nextLdq_of_old he hv
    rw [hn] at hlt
    cases hst : q.newStore i j with
    | some st =>
      rw [(nextStq_of_new hat hok hst).2.2.1] at hlt
      have hge := (hbun.store j st (mem_of_newStore hst)).2.2.2.1
      have := h.load_lt k hold
      omega
    | none =>
      obtain ⟨hold', -, -, -, hn', hmask'⟩ := nextStq_of_old hst hj
      rw [hn'] at hlt
      rw [hmask', getNewBrMask, Bool.and_eq_true] at hb
      rw [hmask, getNewBrMask, h.masks k hold j hold' hlt b hb.1, hb.2]
      rfl

theorem Inv.next (h : q.Inv) (hok : q.Ok i) : (q.next i).Inv := by
  constructor
  · obtain ⟨_, _, _, _, _, hat⟩ := h.placed
    cases hx : i.exception with
    | true => exact hat.flush hok hx
    | false => exact hat.next hok hx
  · exact h.live_next hok
  · exact h.store_lt_next hok
  · exact h.load_lt_next hok
  · exact h.number_next hok
  · exact h.dep_next hok
  · exact h.masks_next hok

end Queues

theorem inv_of_reach [NeZero n] [NeZero m] {q : Queues n m T} (h : (lsuQueues n m T).Reach q) :
    q.Inv :=
  h.inv (fun _ h => Queues.inv_of_start h) fun _ _ h hok => h.next hok

/-- **Store dependency masks are exact**: the live mask is the set of valid
    stores; the mask of a load is the set of the stores that are older than it
    and still in the queue, and has no bit for a younger store that reuses an
    entry. -/
theorem masks_exact [NeZero n] [NeZero m] {q : Queues n m T} (h : (lsuQueues n m T).Reach q) :
    (∀ j, q.live_store_mask j = true ↔ (q.stq j).valid = true) ∧
      ∀ k, (q.ldq k).valid = true → ∀ j, (q.ldq k).st_dep_mask j = true ↔
        (q.stq j).valid = true ∧ (q.stq j).uop.number < (q.ldq k).uop.number := by
  refine ⟨fun j => ?_, (inv_of_reach h).dep⟩
  rw [(inv_of_reach h).live j]

/-! A store, a load, and both again after a branch, which is mispredicted; the
next store then takes the entry of the one that was dropped. -/

/-- A store, with the branches that it depends on. -/
def storeUop (br_mask : Fin 1 → Bool) : DisUop 1 := ⟨false, true, false, 0, br_mask, false, false⟩

/-- A load, with the branches that it depends on. -/
def loadUop (br_mask : Fin 1 → Bool) : DisUop 1 := ⟨true, false, false, 0, br_mask, false, false⟩

/-- Nothing is dispatched. -/
def idle : In 3 3 1 where
  dis_uops := []
  brupdate := ⟨fun _ => false, fun _ => false⟩
  mispredict := none
  exception := false
  commit_stores := 0
  commit_loads := 0
  dmem_req _ := false
  dmem_resp _ := false
  ordered := false

/-- A store and its load are killed, and another store gets the place. -/
def reuseRun : List (In 3 3 1) :=
  [{ idle with
      dis_uops := [storeUop fun _ => false, loadUop fun _ => false, storeUop fun _ => true,
        loadUop fun _ => true] },
    { idle with
      brupdate := ⟨fun _ => true, fun _ => true⟩
      mispredict := some (1, 1) },
    idle,
    { idle with dis_uops := [storeUop fun _ => false] }]

/-- The queues after reset. -/
def emptyQueues : Queues 3 3 1 where
  ldq _ := ⟨false, ⟨0, 0, fun _ => false, false, false⟩, 0, fun _ => false⟩
  stq _ := ⟨false, ⟨0, 0, fun _ => false, false, false⟩, false, false⟩
  ldq_head := 0
  ldq_tail := 0
  stq_head := 0
  stq_tail := 0
  stq_commit_head := 0
  live_store_mask _ := false
  b2 := none
  count := 0

/-- What the core promises, as a test, for cycles in which nothing commits and
    nothing is flushed. -/
def okTest [NeZero n] [NeZero m] (q : Queues n m T) (i : In n m T) : Bool :=
  decide (
    (∀ u ∈ i.dis_uops, ¬ (u.uses_ldq = true ∧ u.uses_stq = true ∧ u.exception = false)) ∧
    (i.mispredict.isSome ∨ q.b2.isSome ∨ i.exception = true → i.dis_uops.isEmpty = true) ∧
    (i.dis_uops.Pairwise fun u v => ∀ b, u.br_mask b = true → v.br_mask b = true) ∧
    (∀ u ∈ i.dis_uops, ∀ j, (q.stq j).valid = true → ∀ b,
      getNewBrMask i.brupdate (q.stq j).uop.br_mask b = true → u.br_mask b = true) ∧
    (i.mispredict = none → ∀ b, i.brupdate.mispredict_mask b = false) ∧
    (∀ r ∈ i.mispredict, Rewinds (fun j => (q.stq j).valid) (q.st_brkilled_mask i)
      q.stq_commit_head q.stq_tail (q.b2.map Prod.fst) i.commit_stores r.1) ∧
    (∀ r ∈ i.mispredict, Rewinds (fun l => (q.ldq l).valid) (q.ld_brkilled_mask i)
      q.ldq_head q.ldq_tail (q.b2.map Prod.snd) i.commit_loads r.2) ∧
    i.commit_stores = 0 ∧ i.commit_loads = 0 ∧ i.exception = false)

theorem ok_of_okTest [NeZero n] [NeZero m] {q : Queues n m T} {i : In n m T}
    (h : okTest q i = true) : q.Ok i := by
  obtain ⟨h1, h2, h3, h4, h5, h6, h7, h8, h9, h10⟩ := of_decide_eq_true h
  constructor
  · exact h1
  · exact fun h => List.isEmpty_iff.1 (h2 h)
  · exact h3
  · exact h4
  · exact h5
  · exact h6
  · exact h7
  · rw [h8]
    exact fun k hk => absurd hk (Nat.not_lt_zero k)
  · rw [h9]
    exact fun k hk => absurd hk (Nat.not_lt_zero k)
  · rw [h10]
    exact fun h => by contradiction

theorem emptyQueues_start : (lsuQueues 3 3 1).start emptyQueues :=
  ⟨fun _ => rfl, fun _ => rfl, rfl, rfl, rfl, rfl, rfl, fun _ => rfl, rfl⟩

theorem reuseRun_reach : (lsuQueues 3 3 1).Reach ((lsuQueues 3 3 1).run emptyQueues reuseRun) :=
  Machine.reach_run _ (.start emptyQueues_start)
    (Machine.accepts_of_passes (fun _ _ => ok_of_okTest) _ _ (by decide))

theorem masks_exact_reuse :
    let q := (lsuQueues 3 3 1).run emptyQueues reuseRun
    (q.stq 0).valid = true ∧ (q.stq 1).valid = true ∧ (q.ldq 0).st_dep_mask 0 = true ∧
      (q.ldq 0).st_dep_mask 1 = false := by
  have hmasks := (masks_exact reuseRun_reach).2 0 (by decide)
  refine ⟨by decide, by decide, (hmasks 0).2 (by decide), ?_⟩
  rw [Bool.eq_false_iff, ne_eq, hmasks 1]
  decide

end BoomStop.StoreDeps
