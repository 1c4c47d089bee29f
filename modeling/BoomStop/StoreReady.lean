/-
  How stores become ready to commit (`lsu.scala`): a store gets its address
  and its data in any order, from the integer pipes, from a second try of the
  TLB or from the floating-point unit; five arms, each of which sees the entry
  of the store as it was one cycle earlier or as it is, tell the reorder buffer
  that both are there.

  * `Lsu.fires`, `Lsu.nextSt`: what fires in a cycle, and what it writes;
  * `Lsu.capture`, `Lsu.report`, `Lsu.clr_bsy`: the three cycles of a report;
  * `lsu`: the load-store unit in the core, with the history of each store;
  * `Inv`: what is known of it in a run;
  * `Inv.reports_iff`: a report is made exactly when the entry becomes
    complete.

  The queues are those of `lsuQueues`.  Reports of other uops are left out.
-/
import BoomStop.LsuSched
import BoomStop.StoreDeps
import BoomStop.Lib.Relay

namespace BoomStop.StoreReady

open Sync Arbiter Relay
open Issue (getNewBrMask isKilledByBranch)
open LsuSched (Req Port)
open StoreDeps (Queues MicroOp)

variable {n m T W : ℕ}

/-- The fields of an `STQEntry` that tell how far the store is. -/
structure Fields where
  addr_valid : Bool
  addr_is_virtual : Bool
  data_valid : Bool
  /-- `uop.exception` -/
  exception : Bool
  deriving DecidableEq

/-- Address and data are there. -/
def Fields.complete (e : Fields) : Bool := e.addr_valid && !e.addr_is_virtual && e.data_valid

/-- What an address unit sends, if it is for a store. -/
structure ExeReq (n T : ℕ) where
  valid : Bool
  is_sta : Bool
  is_std : Bool
  stq_idx : Fin n
  uop : MicroOp T
  /-- the address is misaligned -/
  mxcpt : Bool

/-- The answer of the TLB. -/
structure TlbResp where
  miss : Bool
  pf_st : Bool
  ae_st : Bool
  deriving DecidableEq

/-- The arms that report a store from a pipe. -/
inductive Arm
  | stad | sta | std | sta_retry
  deriving DecidableEq

/-- The request of an arm. -/
def Arm.req : Arm → Req
  | stad => .stad_incoming
  | sta => .sta_incoming
  | std => .std_incoming
  | sta_retry => .sta_retry

/-- `mem_stq_incoming_e`, `mem_stq_retry_e`: the entry as it was when the pipe
    fired, with the arm that did. -/
structure MemStore (T : ℕ) where
  arm : Arm
  valid : Bool
  uop : MicroOp T
  fields : Fields
  tlb_miss : Bool

/-- `mem_xcpt_uops`. -/
inductive Xcpt (n : ℕ)
  | load
  | store (stq_idx : Fin n)
  deriving DecidableEq

/-- The registers of the load-store unit that stores depend on, and what
    happened to each store. -/
structure Lsu (n m T W : ℕ) where
  q : Queues n m T
  st : Fin n → Fields
  mem : Fin W → Option (MemStore T)
  /-- `mem_stdf_uop` -/
  stdf : Option (Fin n × MicroOp T)
  /-- `clr_bsy_valid`, `clr_bsy_rob_idx`, `clr_bsy_brmask` of the pipes and of
      the floating-point unit -/
  clr : Option (Fin W) → Option (MicroOp T)
  mem_xcpt : Fin W → Option (Xcpt n)
  /-- `RegNext(io.core.exception)` and once more -/
  exception1 : Bool
  exception2 : Bool
  cycle : ℕ
  /-- the stores that were dispatched, by number -/
  stores : ℕ → Option (MicroOp T)
  /-- the address, or the data, has arrived -/
  sta_in : ℕ → Bool
  std_in : ℕ → Bool
  faulted : ℕ → Bool
  killed : ℕ → Bool
  /-- the cycle in which the entry became complete -/
  done : ℕ → Option ℕ
  /-- the cycles in which the store was reported -/
  reported : ℕ → List ℕ
  /-- the stores that the cache was sent -/
  sent : ℕ → Bool

/-- The inputs of a cycle. -/
structure In (n m T W : ℕ) where
  q : StoreDeps.In n m T
  exe_req : Fin W → ExeReq n T
  /-- `can_fire` of what is not a store -/
  can_fire : Fin W → Req → Bool
  tlb : Fin W → TlbResp
  /-- a load faults in the pipe -/
  ld_xcpt : Fin W → Bool
  /-- `RegNext(dtlb.io.miss_rdy)` -/
  miss_rdy : Bool
  /-- the store that the encoder chose for another try -/
  stq_retry_idx : Fin n
  stq_execute_head : Fin n
  fp_stdata : Option (Fin n × MicroOp T)
  /-- `io.dmem.req.ready` -/
  dmem_ready : Bool

/-- The entry that an arm is for. -/
def In.armIdx (i : In n m T W) (w : Fin W) : Arm → Fin n
  | .sta_retry => i.stq_retry_idx
  | _ => (i.exe_req w).stq_idx

/-- The same uop; of one of the two, branches that resolve in the cycle may be
    gone already. -/
structure Same (i : In n m T W) (u v : MicroOp T) : Prop where
  killed : isKilledByBranch i.q.brupdate u.br_mask = isKilledByBranch i.q.brupdate v.br_mask
  updated : ({ u with br_mask := getNewBrMask i.q.brupdate u.br_mask } : MicroOp T) =
    { v with br_mask := getNewBrMask i.q.brupdate v.br_mask }

namespace Lsu

variable (s : Lsu n m T W) (i : In n m T W)

/-! ## What fires -/

/-- `mem_xcpt_valid`. -/
def mem_xcpt_valid : Bool := (List.finRange W).any fun w => (s.mem_xcpt w).isSome

/-- `can_fire_std_incoming`, of a pipe. -/
def can_fire_std_incoming (w : Fin W) : Bool :=
  (i.exe_req w).valid && (i.exe_req w).is_std && !(i.exe_req w).is_sta

/-- `can_fire`, of a pipe. -/
def can_fire (w : Fin W) : Req → Bool
  | .stad_incoming => (i.exe_req w).valid && (i.exe_req w).is_sta && (i.exe_req w).is_std
  | .sta_incoming => (i.exe_req w).valid && (i.exe_req w).is_sta && !(i.exe_req w).is_std
  | .std_incoming => can_fire_std_incoming i w
  | .sta_retry =>
    let e := s.st i.stq_retry_idx
    (s.q.stq i.stq_retry_idx).valid && e.addr_valid && e.addr_is_virtual && w.val + 1 = W &&
      i.miss_rdy &&
      -- data that comes in another pipe for the same entry goes first
      !(List.finRange W).any fun v => v ≠ w && can_fire_std_incoming i v &&
        (i.exe_req v).stq_idx = i.stq_retry_idx
  | .store_commit =>
    let e := s.q.stq i.stq_execute_head
    let f := s.st i.stq_execute_head
    e.valid && !e.uop.is_fence && !s.mem_xcpt_valid && !f.exception && w.val = 0 &&
      (e.committed || (e.uop.is_amo && f.addr_valid && !f.addr_is_virtual && f.data_valid))
  | r => i.can_fire w r

/-- `will_fire`, of a pipe. -/
def fires (w : Fin W) (r : Req) : Bool :=
  (granted Req.uses (s.can_fire i w) Req.priority []).contains r

/-- The entry that gets an address. -/
def addrIdx (w : Fin W) : Option (Fin n) :=
  if s.fires i w .stad_incoming || s.fires i w .sta_incoming then some (i.exe_req w).stq_idx
  else if s.fires i w .sta_retry then some i.stq_retry_idx
  else none

/-- `io.core.fp_stdata.fire()`. -/
def stdf_incoming : Option (Fin n × MicroOp T) :=
  i.fp_stdata.filter fun _ => (List.finRange W).all fun w =>
    !(w.val = 0 && (s.fires i w .std_incoming || s.fires i w .stad_incoming))

/-- The entry that gets data from a pipe. -/
def dataIdx (w : Fin W) : Option (Fin n) :=
  if s.fires i w .std_incoming || s.fires i w .stad_incoming then some (i.exe_req w).stq_idx
  else none

/-- The store that the cache is sent. -/
def dmem_req (j : Fin n) : Bool :=
  j = i.stq_execute_head && (List.finRange W).any fun w => s.fires i w .store_commit

/-- The queues see what is sent. -/
def queueIn : StoreDeps.In n m T := { i.q with dmem_req := s.dmem_req i }

/-! ## What it writes -/

/-- `exe_tlb_uop`. -/
def tlbUop (w : Fin W) : MicroOp T :=
  if s.fires i w .stad_incoming || s.fires i w .sta_incoming then (i.exe_req w).uop
  else (s.q.stq i.stq_retry_idx).uop

/-- The translation of a store faults: `pf_st`, `ae_st` or `ma_st`. -/
def faults (w : Fin W) : Bool :=
  (s.addrIdx i w).isSome && ((i.tlb w).pf_st || (i.tlb w).ae_st ||
    ((s.fires i w .stad_incoming || s.fires i w .sta_incoming) && (i.exe_req w).mxcpt))

/-- `mem_xcpt_valids` and `mem_xcpt_uops`. -/
def nextXcpt (w : Fin W) : Option (Xcpt n) :=
  if s.faults i w && !i.q.exception &&
      !isKilledByBranch i.q.brupdate (s.tlbUop i w).br_mask then
    (s.addrIdx i w).map .store
  else if i.ld_xcpt w then some .load
  else none

variable [NeZero n] [NeZero m]

/-- The entry is freed. -/
def freed (j : Fin n) : Bool :=
  s.q.st_brkilled_mask (s.queueIn i) j || s.q.cleared (s.queueIn i) j ||
    s.q.st_exc_killed_mask (s.queueIn i) j

/-- The answer of the TLB for the entry; a later pipe wins. -/
def addrWrite (j : Fin n) : Option TlbResp :=
  ((List.finRange W).filterMap fun w => if s.addrIdx i w = some j then some (i.tlb w) else none).getLast?

/-- The entry gets its data. -/
def dataWrite (j : Fin n) : Bool :=
  ((List.finRange W).any fun w => s.dataIdx i w = some j) || (s.stdf_incoming i).any fun a => a.1 = j

/-- The address and the data of an entry, in the next cycle. -/
def nextSt (j : Fin n) : Fields :=
  let e := s.st j
  let new := (s.q.newStore (s.queueIn i) j).isSome
  { addr_valid := !s.freed i j &&
      match s.addrWrite i j with
      | some r => !r.pf_st
      | none => e.addr_valid && !new
    addr_is_virtual :=
      match s.addrWrite i j with
      | some r => r.miss
      | none => e.addr_is_virtual
    data_valid := !s.freed i j && (s.dataWrite i j || (e.data_valid && !new))
    exception := (List.finRange W).any (fun w => s.mem_xcpt w = some (.store j)) ||
      (e.exception && !new) }

/-! ## What it reports -/

/-- `UpdateBrMask` of the entry. -/
def entry (arm : Arm) (j : Fin n) (w : Fin W) : MemStore T where
  arm := arm
  valid := (s.q.stq j).valid
  uop := { (s.q.stq j).uop with br_mask := getNewBrMask i.q.brupdate (s.q.stq j).uop.br_mask }
  fields := s.st j
  tlb_miss := (i.tlb w).miss

/-- What the pipe holds in the next cycle, the first of a report. -/
def capture (w : Fin W) : Option (MemStore T) :=
  let x := i.exe_req w
  let exe_req_killed := isKilledByBranch i.q.brupdate x.uop.br_mask
  if s.fires i w .stad_incoming && !exe_req_killed then some (s.entry i .stad x.stq_idx w)
  else if s.fires i w .sta_incoming && !exe_req_killed then some (s.entry i .sta x.stq_idx w)
  else if s.fires i w .std_incoming && !exe_req_killed then some (s.entry i .std x.stq_idx w)
  else if s.fires i w .sta_retry &&
      !isKilledByBranch i.q.brupdate (s.q.stq i.stq_retry_idx).uop.br_mask then
    some (s.entry i .sta_retry i.stq_retry_idx w)
  else none

end Lsu

/-- The arm finds the store complete. -/
def MemStore.ready (c : MemStore T) : Bool :=
  match c.arm with
  | .stad => !c.tlb_miss
  | .sta | .sta_retry => c.fields.data_valid && !c.tlb_miss
  | .std => c.fields.addr_valid && !c.fields.addr_is_virtual

namespace Lsu

variable [NeZero n] [NeZero m] (s : Lsu n m T W) (i : In n m T W)

/-- What an arm finds in the second cycle; the floating-point arm looks at the
    entry itself. -/
def report : Option (Fin W) → Option (MicroOp T)
  | some w =>
    (s.mem w).bind fun c => if c.valid && c.ready && !c.uop.is_amo then some c.uop else none
  | none =>
    s.stdf.bind fun a =>
      if (s.q.stq a.1).valid && (s.st a.1).addr_valid && !(s.st a.1).addr_is_virtual &&
          !(s.q.stq a.1).uop.is_amo then
        some a.2
      else none

/-- A report on its way; a branch may kill it. -/
def survive (u : MicroOp T) : Option (MicroOp T) :=
  if isKilledByBranch i.q.brupdate u.br_mask then none
  else some { u with br_mask := getNewBrMask i.q.brupdate u.br_mask }

/-- The ports of `clr_bsy`: the pipes and the floating-point unit. -/
def ports (W : ℕ) : List (Option (Fin W)) := (List.finRange W).map some ++ [none]

/-- The stores that are reported as done. -/
def reports : List (MicroOp T) := (ports W).filterMap s.report

/-- The stores whose report leaves. -/
def clrs : List (MicroOp T) := (ports W).filterMap s.clr

/-- `io.core.clr_bsy`. -/
def clr_bsy : List (MicroOp T) :=
  if i.q.exception || s.exception1 || s.exception2 then []
  else s.clrs.filter fun u => !isKilledByBranch i.q.brupdate u.br_mask

/-! ## Runs -/

/-- The entry of the store holds address and data after the cycle. -/
def completes (k : ℕ) : Bool :=
  (List.finRange n).any fun j => (s.q.nextStq (s.queueIn i) j).valid &&
    (s.q.nextStq (s.queueIn i) j).uop.number = k && (s.nextSt i j).complete

/-- One cycle. -/
def next : Lsu n m T W where
  q := s.q.next (s.queueIn i)
  st := s.nextSt i
  mem := s.capture i
  stdf := (s.stdf_incoming i).bind fun a => (survive i a.2).map fun u => (a.1, u)
  clr p := (s.report p).bind (survive i)
  mem_xcpt := s.nextXcpt i
  exception1 := i.q.exception
  exception2 := s.exception1
  cycle := s.cycle + 1
  stores k := s.stores k <|> ((List.finRange n).findSome? fun j =>
    (s.q.newStore (s.queueIn i) j).bind fun e => if e.uop.number = k then some e.uop else none)
  sta_in k := s.sta_in k || (List.finRange W).any fun w =>
    (s.fires i w .stad_incoming || s.fires i w .sta_incoming) && (i.exe_req w).uop.number = k
  std_in k := s.std_in k || ((List.finRange W).any fun w =>
    (s.fires i w .stad_incoming || s.fires i w .std_incoming) && (i.exe_req w).uop.number = k) ||
    (s.stdf_incoming i).any fun a => a.2.number = k
  faulted k := s.faulted k || (List.finRange W).any fun w =>
    s.faults i w && (s.tlbUop i w).number = k
  killed k := s.killed k || (List.finRange n).any fun j =>
    (s.q.stq j).valid && (s.q.stq j).uop.number = k &&
      (s.q.st_brkilled_mask (s.queueIn i) j || s.q.st_exc_killed_mask (s.queueIn i) j)
  done k := s.done k <|> if s.completes i k then some s.cycle else none
  reported k := s.reported k ++
    ((s.clr_bsy i).filter fun u => u.number = k).map fun _ => s.cycle
  sent k := s.sent k || (List.finRange n).any fun j =>
    s.dmem_req i j && i.dmem_ready && (s.q.stq j).uop.number = k

/-- What the core and the cache promise. -/
structure Ok : Prop where
  queues : s.q.Ok (s.queueIn i)
  /-- a half of a store comes for a store that is in the queue -/
  incoming : ∀ w, (i.exe_req w).valid = true →
    (i.exe_req w).is_sta = true ∨ (i.exe_req w).is_std = true →
    (s.q.stq (i.exe_req w).stq_idx).valid = true ∧
      Same i (s.q.stq (i.exe_req w).stq_idx).uop (i.exe_req w).uop ∧
      (s.q.stq (i.exe_req w).stq_idx).uop.is_fence = false
  fp_incoming : ∀ a, i.fp_stdata = some a → (s.q.stq a.1).valid = true ∧
    Same i (s.q.stq a.1).uop a.2 ∧ (s.q.stq a.1).uop.is_fence = false
  /-- each half comes once -/
  sta_once : ∀ w, (i.exe_req w).valid = true → (i.exe_req w).is_sta = true →
    s.sta_in (i.exe_req w).uop.number = false
  std_once : ∀ w, (i.exe_req w).valid = true → (i.exe_req w).is_std = true →
    s.std_in (i.exe_req w).uop.number = false
  fp_once : ∀ a, i.fp_stdata = some a → s.std_in a.2.number = false ∧
    ∀ w, (i.exe_req w).valid = true → (i.exe_req w).is_std = true → (i.exe_req w).stq_idx ≠ a.1
  /-- the integer pipes get the halves of a store in different cycles -/
  apart : ∀ v w, v ≠ w → (i.exe_req v).valid = true → (i.exe_req w).valid = true →
    (i.exe_req v).is_sta = true ∨ (i.exe_req v).is_std = true →
    (i.exe_req w).is_sta = true ∨ (i.exe_req w).is_std = true →
    (i.exe_req v).stq_idx ≠ (i.exe_req w).stq_idx
  /-- a store commits when it has been reported, an AMO when memory has done
      it -/
  commit : ∀ j, s.q.commitsStore (s.queueIn i) j = true →
    ((s.q.stq j).uop.is_amo = true → (s.q.stq j).succeeded = true) ∧
    ((s.q.stq j).uop.is_amo = false → (s.q.stq j).uop.is_fence = false →
      s.reported (s.q.stq j).uop.number ≠ [])
  /-- the cache answers for what it was sent -/
  resp : ∀ j, i.q.dmem_resp j = true → (s.q.stq j).valid = true ∧
    s.sent (s.q.stq j).uop.number = true

end Lsu

/-- The load-store unit in the core. -/
def lsu (n m T W : ℕ) [NeZero n] [NeZero m] : Machine (Lsu n m T W) (In n m T W) where
  start s := (StoreDeps.lsuQueues n m T).start s.q ∧ (∀ w, s.mem w = none) ∧ s.stdf = none ∧
    (∀ p, s.clr p = none) ∧ (∀ w, s.mem_xcpt w = none) ∧ (∀ k, s.stores k = none) ∧
    (∀ k, s.sta_in k = false) ∧ (∀ k, s.std_in k = false) ∧ (∀ k, s.faulted k = false) ∧
    (∀ k, s.killed k = false) ∧ (∀ k, s.done k = none) ∧ (∀ k, s.reported k = []) ∧
    ∀ k, s.sent k = false
  ok s i := s.Ok i
  next s i := s.next i

theorem Same.number {i : In n m T W} {u v : MicroOp T} (h : Same i u v) : u.number = v.number :=
  (MicroOp.ext_iff.1 h.updated).1

theorem Same.refl (i : In n m T W) (u : MicroOp T) : Same i u u := ⟨rfl, rfl⟩

theorem Arm.req_inj {a b : Arm} (h : a.req = b.req) : a = b := by
  cases a <;> cases b <;> first | rfl | exact absurd h Req.noConfusion

theorem Arm.rob_mem (a : Arm) : Port.rob ∈ a.req.uses := by
  cases a <;> decide

namespace Lsu

variable {s : Lsu n m T W} {i : In n m T W} {v w : Fin W} {j : Fin n}

theorem nodup_ports : (ports W).Nodup := by
  rw [ports, List.nodup_append]
  refine ⟨(List.nodup_finRange W).map fun a b h => Option.some.inj h, List.nodup_singleton _, ?_⟩
  rintro _ ha _ hb rfl
  obtain ⟨w, -, rfl⟩ := List.mem_map.1 ha
  rw [List.mem_singleton] at hb
  contradiction

theorem mem_ports (p : Option (Fin W)) : p ∈ ports W := by
  rw [ports, List.mem_append]
  cases p with
  | none => exact .inr List.mem_cons_self
  | some w => exact .inl (List.mem_map_of_mem (List.mem_finRange w))

/-! ## What arrives for an entry -/

theorem fires_iff {r : Req} :
    s.fires i w r = true ↔ r ∈ granted Req.uses (s.can_fire i w) Req.priority [] := by
  rw [fires, List.contains_iff_mem]

theorem can_of_fires {r : Req} (h : s.fires i w r = true) : s.can_fire i w r = true :=
  (granted_asks Req.priority [] (fires_iff.1 h)).1

/-- A pipe reports to the reorder buffer on behalf of one request. -/
theorem fires_unique {r r' : Req} (h : s.fires i w r = true) (h' : s.fires i w r' = true)
    (hr : Port.rob ∈ r.uses) (hr' : Port.rob ∈ r'.uses) : r = r' :=
  unique_granted Req.priority [] (fires_iff.1 h) (fires_iff.1 h') hr hr'

/-- The uop of an entry. -/
abbrev uop (s : Lsu n m T W) (j : Fin n) : MicroOp T := (s.q.stq j).uop

/-- No translation is due for the entry. -/
def Placed (s : Lsu n m T W) (j : Fin n) : Prop :=
  s.sta_in (s.uop j).number = true ∧
    ¬ ((s.st j).addr_valid = true ∧ (s.st j).addr_is_virtual = true)

/-- A half arrives for an arm. -/
def Arrives (s : Lsu n m T W) (i : In n m T W) (w : Fin W) (j : Fin n) (a : Arm) : Prop :=
  s.fires i w a.req = true ∧ i.armIdx w a = j

namespace Arrives

variable {a b : Arm}

/-- A pipe brings one thing. -/
theorem arm_unique {j' : Fin n} (h : s.Arrives i w j a) (h' : s.Arrives i w j' b) :
    a = b ∧ j = j' := by
  have hab := Arm.req_inj (fires_unique h.1 h'.1 a.rob_mem b.rob_mem)
  subst hab
  exact ⟨rfl, h.2.symm.trans h'.2⟩

theorem addrIdx_iff : s.addrIdx i w = some j ↔
    s.Arrives i w j .stad ∨ s.Arrives i w j .sta ∨ s.Arrives i w j .sta_retry := by
  rw [addrIdx]
  constructor
  · intro h
    split at h
    case isTrue hf =>
      rw [Option.some.injEq] at h
      rcases Bool.or_eq_true_iff.1 hf with hf | hf
      · exact .inl ⟨hf, h⟩
      · exact .inr (.inl ⟨hf, h⟩)
    case isFalse =>
      split at h
      case isTrue hf => exact .inr (.inr ⟨hf, Option.some.inj h⟩)
      case isFalse => contradiction
  · rintro (⟨hf, rfl⟩ | ⟨hf, rfl⟩ | ⟨hf, rfl⟩)
    · rw [Arm.req] at hf
      rw [if_pos (Bool.or_eq_true_iff.2 (.inl hf))]
      rfl
    · rw [Arm.req] at hf
      rw [if_pos (Bool.or_eq_true_iff.2 (.inr hf))]
      rfl
    · rw [Arm.req] at hf
      rw [if_neg, if_pos hf]
      · rfl
      · rw [Bool.or_eq_true]
        rintro (h | h)
        · exact absurd (fires_unique h hf (by decide) (by decide)) Req.noConfusion
        · exact absurd (fires_unique h hf (by decide) (by decide)) Req.noConfusion

theorem dataIdx_iff : s.dataIdx i w = some j ↔
    s.Arrives i w j .std ∨ s.Arrives i w j .stad := by
  rw [dataIdx, Option.ite_none_right_eq_some, Option.some.injEq, Bool.or_eq_true, or_and_right]
  rfl

/-- An incoming half comes with the request of its pipe. -/
theorem exe (h : s.Arrives i w j a) (ha : a ≠ .sta_retry) : (i.exe_req w).valid = true ∧
    (i.exe_req w).stq_idx = j ∧
    ((i.exe_req w).is_sta = true ↔ a ≠ .std) ∧ ((i.exe_req w).is_std = true ↔ a ≠ .sta) := by
  obtain ⟨hf, hj⟩ := h
  have hc := can_of_fires hf
  cases a with
  | stad =>
    simp only [Arm.req, can_fire, Bool.and_eq_true] at hc
    exact ⟨hc.1.1, hj, by simp [hc.1.2], by simp [hc.2]⟩
  | sta =>
    simp only [Arm.req, can_fire, Bool.and_eq_true, Bool.not_eq_true'] at hc
    exact ⟨hc.1.1, hj, by simp [hc.1.2], by simp [hc.2]⟩
  | std =>
    simp only [Arm.req, can_fire, can_fire_std_incoming, Bool.and_eq_true, Bool.not_eq_true'] at hc
    exact ⟨hc.1.1, hj, by simp [hc.2], by simp [hc.1.2]⟩
  | sta_retry => contradiction

/-- A second try is for an address that missed, in the last pipe, and not while
    another pipe brings data for the entry. -/
theorem retry (h : s.Arrives i w j .sta_retry) : (s.q.stq j).valid = true ∧
    (s.st j).addr_valid = true ∧ (s.st j).addr_is_virtual = true ∧ w.val + 1 = W ∧
      ∀ v, v ≠ w → can_fire_std_incoming i v = true → (i.exe_req v).stq_idx ≠ j := by
  obtain ⟨hf, rfl⟩ := h
  have hc := can_of_fires hf
  simp only [Arm.req, can_fire, Bool.and_eq_true, Bool.not_eq_true', decide_eq_true_iff,
    List.any_eq_false] at hc
  obtain ⟨⟨⟨⟨⟨h1, h2⟩, h3⟩, h4⟩, -⟩, h5⟩ := hc
  refine ⟨h1, h2, h3, h4, fun v hv hstd he => ?_⟩
  exact h5 v (List.mem_finRange v) ⟨⟨hv, hstd⟩, he⟩

end Arrives

variable [NeZero n] [NeZero m]

/-! ## The invariant -/

/-- How often a uop is in a list. -/
abbrev count (k : ℕ) (l : List (MicroOp T)) : ℕ := l.countP fun u => u.number = k

/-- The uop is that of a store in the queue. -/
def Held (s : Lsu n m T W) (u : MicroOp T) : Prop := ∃ j, (s.q.stq j).valid = true ∧ s.uop j = u

/-- What is known of the store in a valid entry. -/
structure EntryInv (s : Lsu n m T W) (j : Fin n) : Prop where
  addr : (s.st j).addr_valid = true → s.sta_in (s.uop j).number = true
  data : (s.st j).data_valid = true → s.std_in (s.uop j).number = true
  /-- what has come is there, unless the translation faulted -/
  addr_in : s.sta_in (s.uop j).number = true → s.faulted (s.uop j).number = false →
    (s.st j).addr_valid = true
  data_in : s.std_in (s.uop j).number = true → (s.st j).data_valid = true
  fence : (s.uop j).is_fence = true →
    s.sta_in (s.uop j).number = false ∧ s.std_in (s.uop j).number = false
  done : (s.done (s.uop j).number).isSome = (s.st j).complete
  /-- the report of the store, and when it was made -/
  phase : (s.uop j).is_amo = false → ∃ r, Phase s.cycle r (count (s.uop j).number s.reports)
    (count (s.uop j).number s.clrs) (s.reported (s.uop j).number) ∧
      (r.isSome = true → s.Placed j ∧ s.std_in (s.uop j).number = true) ∧
      (s.faulted (s.uop j).number = false → r = s.done (s.uop j).number)
  committed : (s.q.stq j).committed = true → (s.uop j).is_fence = false →
    ((s.uop j).is_amo = true → s.sent (s.uop j).number = true) ∧
      ((s.uop j).is_amo = false → s.reported (s.uop j).number ≠ [])
  succeeded : (s.q.stq j).succeeded = true → s.sent (s.uop j).number = true
  sent : s.sent (s.uop j).number = true → s.Placed j ∧ s.std_in (s.uop j).number = true
  store : ∃ v, s.stores (s.uop j).number = some v ∧ v.rob_idx = (s.uop j).rob_idx ∧
    v.is_fence = (s.uop j).is_fence ∧ v.is_amo = (s.uop j).is_amo
  /-- after a flush only what has committed is left -/
  exception1 : s.exception1 = true → (s.q.stq j).committed = true
  exception2 : s.exception2 = true → (s.q.stq j).committed = true ∨
    (s.sta_in (s.uop j).number = false ∧ s.std_in (s.uop j).number = false)
  /-- a fault blocks the store -/
  fault : s.faulted (s.uop j).number = true →
    (s.st j).exception = true ∨ ∃ w, s.mem_xcpt w = some (.store j)

/-- The invariant of the unit. -/
structure Inv (s : Lsu n m T W) : Prop where
  queues : s.q.Inv
  entry : ∀ j, (s.q.stq j).valid = true → s.EntryInv j
  reports : ∀ u ∈ s.reports, u.is_amo = false ∧ u.number < s.q.count ∧
    (s.Held u ∨ s.exception1 = true)
  clrs : ∀ u ∈ s.clrs, u.is_amo = false ∧ u.number < s.q.count ∧
    (s.Held u ∨ s.exception1 = true ∨ s.exception2 = true)
  stdf : ∀ a, s.stdf = some a → a.2.number < s.q.count ∧
    ((s.q.stq a.1).valid = true → s.uop a.1 = a.2)
  fresh : ∀ k, s.q.count ≤ k → s.sta_in k = false ∧ s.std_in k = false ∧ s.faulted k = false ∧
    s.killed k = false ∧ s.done k = none ∧ s.reported k = [] ∧ s.sent k = false ∧
    s.stores k = none
  /-- a store that has left the queue was reported -/
  gone : ∀ k v, s.stores k = some v → v.is_amo = false → v.is_fence = false →
    s.killed k = false → s.faulted k = false →
    (∀ j, (s.q.stq j).valid = true → (s.uop j).number ≠ k) →
    ∃ c, s.done k = some c ∧ c + 2 < s.cycle ∧ s.reported k = [c + 2]
  sent_ok : ∀ k, s.sent k = true → s.faulted k = false

section Arrivals

variable {a b : Arm}

theorem Inv.valid_of_arrives (h : s.Inv) (hok : s.Ok i) (ha : s.Arrives i w j a) :
    (s.q.stq j).valid = true ∧ (s.uop j).is_fence = false ∧
      (a ≠ .sta_retry → Same i (s.uop j) (i.exe_req w).uop) := by
  by_cases har : a = .sta_retry
  · subst har
    obtain ⟨hv, haddr, -⟩ := ha.retry
    refine ⟨hv, ?_, fun hne => absurd rfl hne⟩
    by_contra hf
    rw [Bool.not_eq_false] at hf
    have hin := (h.entry j hv).addr haddr
    rw [((h.entry j hv).fence hf).1] at hin
    contradiction
  · obtain ⟨hv, rfl, hsta, hstd⟩ := ha.exe har
    obtain ⟨h1, h2, h3⟩ := hok.incoming w hv (by
      rw [hsta, hstd]
      by_cases hs : a = .std
      · right
        rw [hs]
        exact Arm.noConfusion
      · exact .inl hs)
    exact ⟨h1, h3, fun _ => h2⟩

/-- An address comes when one is due. -/
theorem Inv.not_placed (h : s.Inv) (hok : s.Ok i) (ha : s.Arrives i w j a) (hne : a ≠ .std) :
    ¬ s.Placed j := by
  by_cases har : a = .sta_retry
  · subst har
    obtain ⟨-, haddr, hvirt, -⟩ := ha.retry
    exact fun hp => hp.2 ⟨haddr, hvirt⟩
  · obtain ⟨hv, rfl, hsta, -⟩ := ha.exe har
    have hin := hok.sta_once w hv (hsta.2 hne)
    rw [← ((h.valid_of_arrives hok ha).2.2 har).number] at hin
    intro hp
    rw [hp.1] at hin
    contradiction

theorem Inv.std_in_of_arrives (h : s.Inv) (hok : s.Ok i) (ha : s.Arrives i w j a)
    (hne : a = .std ∨ a = .stad) : s.std_in (s.uop j).number = false := by
  have har : a ≠ .sta_retry := by
    rintro rfl
    rcases hne with hne | hne <;> contradiction
  have has : a ≠ .sta := by
    rintro rfl
    rcases hne with hne | hne <;> contradiction
  obtain ⟨hv, rfl, -, hstd⟩ := ha.exe har
  have hin := hok.std_once w hv (hstd.2 has)
  rw [← ((h.valid_of_arrives hok ha).2.2 har).number] at hin
  exact hin

/-- The pipes bring one half of a store in a cycle. -/
theorem Inv.arrives_unique (h : s.Inv) (hok : s.Ok i) (ha : s.Arrives i v j a)
    (hb : s.Arrives i w j b) : v = w ∧ a = b := by
  have hvw : v = w := by
    by_contra hne
    have hmixed {x y : Fin W} {c : Arm} (hxy : x ≠ y) (hx : s.Arrives i x j c)
        (hc : c ≠ .sta_retry) (hy : s.Arrives i y j .sta_retry) : False := by
      obtain ⟨hv, haddr, -, -, hguard⟩ := hy.retry
      obtain ⟨hxv, hxj, hsta, hstd⟩ := hx.exe hc
      by_cases hcs : c = .std
      · subst hcs
        refine hguard x hxy ?_ hxj
        have h1 : (i.exe_req x).is_std = true := hstd.2 Arm.noConfusion
        have h2 : (i.exe_req x).is_sta = false :=
          Bool.eq_false_iff.2 fun h => absurd rfl (hsta.1 h)
        rw [can_fire_std_incoming, hxv, h1, h2]
        rfl
      · have hin := hok.sta_once x hxv (hsta.2 hcs)
        rw [← ((h.valid_of_arrives hok hx).2.2 hc).number, (h.entry j hv).addr haddr] at hin
        contradiction
    by_cases har : a = .sta_retry
    · subst har
      by_cases hbr : b = .sta_retry
      · subst hbr
        have h1 := ha.retry.2.2.2.1
        have h2 := hb.retry.2.2.2.1
        exact hne (Fin.ext (by omega))
      · exact hmixed (Ne.symm hne) hb hbr ha
    · by_cases hbr : b = .sta_retry
      · subst hbr
        exact hmixed hne ha har hb
      · obtain ⟨hv, hvj, hvsta, hvstd⟩ := ha.exe har
        obtain ⟨hw, hwj, hwsta, hwstd⟩ := hb.exe hbr
        refine hok.apart v w hne hv hw ?_ ?_ (hvj.trans hwj.symm)
        · rw [hvsta, hvstd]
          cases a <;> simp
        · rw [hwsta, hwstd]
          cases b <;> simp
  subst hvw
  exact ⟨rfl, (ha.arm_unique hb).1⟩

omit [NeZero n] [NeZero m] in
theorem fp_of_incoming {x : Fin n × MicroOp T} (hx : s.stdf_incoming i = some x) :
    i.fp_stdata = some x :=
  (Option.filter_eq_some_iff.1 hx).1

/-- Data from the floating-point unit comes without other data. -/
theorem fp_apart (hok : s.Ok i) {x : Fin n × MicroOp T} (hx : s.stdf_incoming i = some x)
    (ha : s.Arrives i w x.1 a) : a ≠ .std ∧ a ≠ .stad := by
  have hall := (hok.fp_once x (fp_of_incoming hx)).2 w
  constructor
  · rintro rfl
    obtain ⟨hv, hj, -, hstd⟩ := ha.exe Arm.noConfusion
    exact hall hv (hstd.2 Arm.noConfusion) hj
  · rintro rfl
    obtain ⟨hv, hj, -, hstd⟩ := ha.exe Arm.noConfusion
    exact hall hv (hstd.2 Arm.noConfusion) hj

theorem fp_std_in (hok : s.Ok i) {x : Fin n × MicroOp T} (hx : s.stdf_incoming i = some x) :
    (s.q.stq x.1).valid = true ∧ Same i (s.uop x.1) x.2 ∧ (s.uop x.1).is_fence = false ∧
      s.std_in (s.uop x.1).number = false := by
  obtain ⟨h1, h2, h3⟩ := hok.fp_incoming x (fp_of_incoming hx)
  refine ⟨h1, h2, h3, ?_⟩
  rw [h2.number]
  exact (hok.fp_once x (fp_of_incoming hx)).1

theorem Inv.addrWrite_iff (h : s.Inv) (hok : s.Ok i) {r : TlbResp} :
    s.addrWrite i j = some r ↔ ∃ w, s.addrIdx i w = some j ∧ i.tlb w = r := by
  have hmem {r : TlbResp} (hr : s.addrWrite i j = some r) :
      ∃ w, s.addrIdx i w = some j ∧ i.tlb w = r := by
    obtain ⟨w, -, hw⟩ := List.mem_filterMap.1 (List.mem_of_getLast? hr)
    rw [Option.ite_none_right_eq_some, Option.some.injEq] at hw
    exact ⟨w, hw⟩
  refine ⟨hmem, ?_⟩
  rintro ⟨w, hw, rfl⟩
  cases hr : s.addrWrite i j with
  | none =>
    rw [addrWrite, List.getLast?_eq_none_iff, List.filterMap_eq_nil_iff] at hr
    have := hr w (List.mem_finRange w)
    rw [if_pos hw] at this
    contradiction
  | some r =>
    obtain ⟨v, hv, rfl⟩ := hmem hr
    rw [Arrives.addrIdx_iff] at hv hw
    have hvw : v = w := by
      rcases hv with hv | hv | hv <;> rcases hw with hw | hw | hw <;>
        exact (h.arrives_unique hok hv hw).1
    rw [hvw]

theorem Inv.addrWrite_none (h : s.Inv) (hok : s.Ok i) :
    s.addrWrite i j = none ↔ ∀ w, s.addrIdx i w ≠ some j := by
  rw [Option.eq_none_iff_forall_ne_some]
  constructor
  · intro hno w hw
    exact hno _ ((h.addrWrite_iff hok).2 ⟨w, hw, rfl⟩)
  · intro hno r hr
    obtain ⟨w, hw, -⟩ := (h.addrWrite_iff hok).1 hr
    exact hno w hw

omit [NeZero n] [NeZero m] in
theorem dataWrite_iff : s.dataWrite i j = true ↔
    (∃ w, s.Arrives i w j .std ∨ s.Arrives i w j .stad) ∨
      ∃ x, s.stdf_incoming i = some x ∧ x.1 = j := by
  simp only [dataWrite, Bool.or_eq_true, List.any_eq_true, List.mem_finRange, true_and,
    decide_eq_true_iff, Arrives.dataIdx_iff, Option.any_eq_true_iff_get]
  refine or_congr_right ⟨?_, ?_⟩
  · rintro ⟨hx, he⟩
    exact ⟨_, Option.eq_some_iff_get_eq.2 ⟨hx, rfl⟩, he⟩
  · rintro ⟨x, hx, he⟩
    obtain ⟨hsome, hget⟩ := Option.eq_some_iff_get_eq.1 hx
    exact ⟨hsome, by rw [hget]; exact he⟩

/-- An entry that is free gets nothing. -/
theorem Inv.no_write (h : s.Inv) (hok : s.Ok i) (hv : (s.q.stq j).valid = false) :
    s.addrWrite i j = none ∧ s.dataWrite i j = false := by
  constructor
  · rw [h.addrWrite_none hok]
    intro w hw
    have hvalid : (s.q.stq j).valid = true := by
      rcases Arrives.addrIdx_iff.1 hw with hw | hw | hw <;> exact (h.valid_of_arrives hok hw).1
    rw [hv] at hvalid
    contradiction
  · rw [Bool.eq_false_iff, ne_eq, dataWrite_iff]
    rintro (⟨w, hw⟩ | ⟨x, hx, rfl⟩)
    · have hvalid : (s.q.stq j).valid = true := by
        rcases hw with hw | hw <;> exact (h.valid_of_arrives hok hw).1
      rw [hv] at hvalid
      contradiction
    · rw [(fp_std_in hok hx).1] at hv
      contradiction

theorem Inv.not_arrives (h : s.Inv) (hok : s.Ok i)
    (hs : s.Placed j ∧ s.std_in (s.uop j).number = true) : ¬ s.Arrives i w j a := by
  intro ha
  by_cases hstd : a = .std
  · have hin := h.std_in_of_arrives hok ha (.inl hstd)
    rw [hs.2] at hin
    contradiction
  · exact h.not_placed hok ha hstd hs.1

/-- A store that has both halves, and needs no other try, gets nothing. -/
theorem Inv.quiet (h : s.Inv) (hok : s.Ok i)
    (hs : s.Placed j ∧ s.std_in (s.uop j).number = true) :
    s.addrWrite i j = none ∧ s.dataWrite i j = false := by
  constructor
  · rw [h.addrWrite_none hok]
    intro w hw
    rcases Arrives.addrIdx_iff.1 hw with hw | hw | hw <;> exact h.not_arrives hok hs hw
  · rw [Bool.eq_false_iff, ne_eq, dataWrite_iff]
    rintro (⟨w, hw | hw⟩ | ⟨x, hx, rfl⟩)
    · exact h.not_arrives hok hs hw
    · exact h.not_arrives hok hs hw
    · have hin := (fp_std_in hok hx).2.2.2
      rw [hs.2] at hin
      contradiction

/-- A store that has committed was reported, an AMO was sent. -/
theorem Inv.settled (h : s.Inv) (hv : (s.q.stq j).valid = true)
    (hc : (s.q.stq j).committed = true) (hf : (s.uop j).is_fence = false) :
    s.Placed j ∧ s.std_in (s.uop j).number = true := by
  obtain ⟨hamo, hst⟩ := (h.entry j hv).committed hc hf
  cases ha : (s.uop j).is_amo with
  | true => exact (h.entry j hv).sent (hamo ha)
  | false =>
    obtain ⟨r, hphase, hr, -⟩ := (h.entry j hv).phase ha
    obtain ⟨c, rfl, -⟩ := hphase.of_delivered (hst ha)
    exact hr rfl

/-! ## The next state of an entry -/

theorem not_freed (hv : (s.q.nextStq (s.queueIn i) j).valid = true) : s.freed i j = false := by
  simp only [Queues.nextStq, Bool.and_eq_true, Bool.not_eq_true'] at hv
  rw [freed, hv.1.1.2, hv.1.2, hv.2]
  rfl

theorem Inv.nextSt_new (h : s.Inv) (hok : s.Ok i) {e : StoreDeps.STQEntry T}
    (he : s.q.newStore (s.queueIn i) j = some e) :
    (s.nextSt i j).addr_valid = false ∧ (s.nextSt i j).data_valid = false := by
  obtain ⟨_, _, _, _, _, hat⟩ := h.queues.placed
  obtain ⟨ha, hd⟩ := h.no_write hok (Queues.nextStq_of_new hat hok.queues he).1
  simp [nextSt, he, ha, hd]

theorem nextSt_old (hj : s.q.newStore (s.queueIn i) j = none)
    (hv : (s.q.nextStq (s.queueIn i) j).valid = true) :
    (s.nextSt i j).data_valid = (s.dataWrite i j || (s.st j).data_valid) ∧
    (s.addrWrite i j = none → (s.nextSt i j).addr_valid = (s.st j).addr_valid ∧
      (s.nextSt i j).addr_is_virtual = (s.st j).addr_is_virtual) ∧
    ∀ r, s.addrWrite i j = some r → (s.nextSt i j).addr_valid = !r.pf_st ∧
      (s.nextSt i j).addr_is_virtual = r.miss := by
  simp only [nextSt, hj, not_freed hv]
  refine ⟨by simp, fun ha => by simp [ha], fun r ha => by simp [ha]⟩

/-! ## Reports on their way -/

/-- The pipe holds the entry that something arrives for. -/
theorem Inv.capture_iff (h : s.Inv) (hok : s.Ok i) {c : MemStore T} :
    s.capture i w = some c ↔ ∃ a j, s.Arrives i w j a ∧
      isKilledByBranch i.q.brupdate (s.uop j).br_mask = false ∧ s.entry i a j w = c := by
  simp only [capture]
  constructor
  · intro hc
    have hexe {a : Arm} (ha : a ≠ .sta_retry) (hj : i.armIdx w a = (i.exe_req w).stq_idx)
        (hf : (s.fires i w a.req && !isKilledByBranch i.q.brupdate (i.exe_req w).uop.br_mask) = true)
        (hc : some (s.entry i a (i.exe_req w).stq_idx w) = some c) :
        ∃ a j, s.Arrives i w j a ∧ isKilledByBranch i.q.brupdate (s.uop j).br_mask = false ∧
          s.entry i a j w = c := by
      rw [Bool.and_eq_true, Bool.not_eq_true'] at hf
      refine ⟨a, _, ⟨hf.1, hj⟩, ?_, Option.some.inj hc⟩
      rw [((h.valid_of_arrives hok ⟨hf.1, hj⟩).2.2 ha).killed]
      exact hf.2
    split at hc
    case isTrue hf => exact hexe (a := .stad) Arm.noConfusion rfl hf hc
    case isFalse =>
      split at hc
      case isTrue hf => exact hexe (a := .sta) Arm.noConfusion rfl hf hc
      case isFalse =>
        split at hc
        case isTrue hf => exact hexe (a := .std) Arm.noConfusion rfl hf hc
        case isFalse =>
          split at hc
          case isTrue hf =>
            rw [Bool.and_eq_true, Bool.not_eq_true'] at hf
            exact ⟨.sta_retry, _, ⟨hf.1, rfl⟩, hf.2, Option.some.inj hc⟩
          case isFalse => contradiction
  · rintro ⟨a, j, ha, hk, rfl⟩
    have hno {b : Arm} (hb : b ≠ a) : s.fires i w b.req = false := by
      rw [Bool.eq_false_iff]
      exact fun hf => hb (ha.arm_unique ⟨hf, rfl⟩).1.symm
    have hkill (har : a ≠ .sta_retry) :
        isKilledByBranch i.q.brupdate (i.exe_req w).uop.br_mask = false := by
      rw [← ((h.valid_of_arrives hok ha).2.2 har).killed]
      exact hk
    obtain ⟨hf, hj⟩ := ha
    have h1 : a ≠ .stad → s.fires i w .stad_incoming = false := fun h => hno (b := .stad) h.symm
    have h2 : a ≠ .sta → s.fires i w .sta_incoming = false := fun h => hno (b := .sta) h.symm
    have h3 : a ≠ .std → s.fires i w .std_incoming = false := fun h => hno (b := .std) h.symm
    cases a with
    | stad =>
      rw [Arm.req] at hf
      simp only [hf, hkill Arm.noConfusion, ← hj]
      rfl
    | sta =>
      rw [Arm.req] at hf
      simp only [hf, h1 Arm.noConfusion, hkill Arm.noConfusion, ← hj]
      rfl
    | std =>
      rw [Arm.req] at hf
      simp only [hf, h1 Arm.noConfusion, h2 Arm.noConfusion, hkill Arm.noConfusion, ← hj]
      rfl
    | sta_retry =>
      rw [Arm.req] at hf
      have hkr : isKilledByBranch i.q.brupdate (s.q.stq i.stq_retry_idx).uop.br_mask = false := by
        rw [show i.stq_retry_idx = j from hj]
        exact hk
      simp only [hf, h1 Arm.noConfusion, h2 Arm.noConfusion, h3 Arm.noConfusion, hkr, ← hj]
      rfl

/-- The uop of an entry after the cycle. -/
def nextUop (s : Lsu n m T W) (i : In n m T W) (j : Fin n) : MicroOp T :=
  { s.uop j with br_mask := getNewBrMask i.q.brupdate (s.uop j).br_mask }

omit [NeZero n] [NeZero m] in
theorem survive_eq {u u' : MicroOp T} : survive i u = some u' ↔
    isKilledByBranch i.q.brupdate u.br_mask = false ∧
      { u with br_mask := getNewBrMask i.q.brupdate u.br_mask } = u' := by
  rw [survive]
  split
  case isTrue hk =>
    rw [hk]
    constructor
    · intro h
      contradiction
    · rintro ⟨h, -⟩
      contradiction
  case isFalse hk =>
    rw [Bool.eq_false_iff.2 hk, Option.some.injEq]
    exact ⟨fun h => ⟨rfl, h⟩, fun h => h.2⟩

/-- What a pipe reports in the next cycle. -/
theorem Inv.report_pipe (h : s.Inv) (hok : s.Ok i) {u : MicroOp T} :
    (s.next i).report (some w) = some u ↔ ∃ a j, s.Arrives i w j a ∧
      isKilledByBranch i.q.brupdate (s.uop j).br_mask = false ∧
      (s.entry i a j w).ready = true ∧ (s.uop j).is_amo = false ∧ s.nextUop i j = u := by
  show ((s.capture i w).bind fun c => if c.valid && c.ready && !c.uop.is_amo then some c.uop
    else none) = some u ↔ _
  rw [Option.bind_eq_some_iff]
  constructor
  · rintro ⟨c, hc, hu⟩
    obtain ⟨a, j, ha, hk, rfl⟩ := (h.capture_iff hok).1 hc
    rw [Option.ite_none_right_eq_some, Option.some.injEq, Bool.and_eq_true, Bool.and_eq_true,
      Bool.not_eq_true'] at hu
    exact ⟨a, j, ha, hk, hu.1.1.2, hu.1.2, hu.2⟩
  · rintro ⟨a, j, ha, hk, hr, hamo, rfl⟩
    refine ⟨_, (h.capture_iff hok).2 ⟨a, j, ha, hk, rfl⟩, ?_⟩
    rw [if_pos]
    · rfl
    · rw [hr, show (s.entry i a j w).valid = true from (h.valid_of_arrives hok ha).1,
        show (s.entry i a j w).uop.is_amo = false from hamo]
      rfl

/-- What the floating-point arm reports. -/
theorem report_fp (hok : s.Ok i) {u : MicroOp T} : (s.next i).report none = some u ↔
    ∃ x, s.stdf_incoming i = some x ∧
      isKilledByBranch i.q.brupdate (s.uop x.1).br_mask = false ∧
      (s.q.nextStq (s.queueIn i) x.1).valid = true ∧ (s.nextSt i x.1).addr_valid = true ∧
      (s.nextSt i x.1).addr_is_virtual = false ∧
      (s.q.nextStq (s.queueIn i) x.1).uop.is_amo = false ∧ s.nextUop i x.1 = u := by
  show (((s.stdf_incoming i).bind fun a => (survive i a.2).map fun u => (a.1, u)).bind fun a =>
    if (s.q.nextStq (s.queueIn i) a.1).valid && (s.nextSt i a.1).addr_valid &&
        !(s.nextSt i a.1).addr_is_virtual && !(s.q.nextStq (s.queueIn i) a.1).uop.is_amo then
      some a.2 else none) = some u ↔ _
  rw [Option.bind_assoc, Option.bind_eq_some_iff]
  refine exists_congr fun x => and_congr_right fun hx => ?_
  rw [Option.bind_map, Option.bind_eq_some_iff]
  obtain ⟨-, hux, -⟩ := fp_std_in hok hx
  constructor
  · rintro ⟨v, hv, hu⟩
    obtain ⟨hk, rfl⟩ := survive_eq.1 hv
    simp only [Function.comp, Option.ite_none_right_eq_some, Option.some.injEq, Bool.and_eq_true,
      Bool.not_eq_true'] at hu
    obtain ⟨⟨⟨⟨h1, h2⟩, h3⟩, h4⟩, rfl⟩ := hu
    rw [← hux.killed] at hk
    exact ⟨hk, h1, h2, h3, h4, hux.updated⟩
  · rintro ⟨hk, h1, h2, h3, h4, rfl⟩
    refine ⟨s.nextUop i x.1, survive_eq.2 ⟨hux.killed.symm.trans hk, hux.updated.symm⟩, ?_⟩
    simp [h1, h2, h3, h4]

/-- Dispatch does not write to an entry that is in use. -/
theorem Inv.old_of_valid (h : s.Inv) (hok : s.Ok i) (hv : (s.q.stq j).valid = true) :
    s.q.newStore (s.queueIn i) j = none := by
  obtain ⟨_, _, _, _, _, hat⟩ := h.queues.placed
  by_contra hno
  obtain ⟨e, he⟩ := Option.ne_none_iff_exists'.1 hno
  rw [(Queues.nextStq_of_new hat hok.queues he).1] at hv
  contradiction

/-- The entry of a store that was in the queue and stays. -/
structure Stays (s : Lsu n m T W) (i : In n m T W) (j : Fin n) : Prop where
  old : s.q.newStore (s.queueIn i) j = none
  valid : (s.q.stq j).valid = true
  valid_next : (s.q.nextStq (s.queueIn i) j).valid = true
  live : isKilledByBranch i.q.brupdate (s.uop j).br_mask = false
  exc : s.q.st_exc_killed_mask (s.queueIn i) j = false
  uop_next : (s.q.nextStq (s.queueIn i) j).uop = s.nextUop i j

omit [NeZero m] in
theorem stays_of_old [NeZero m] (hj : s.q.newStore (s.queueIn i) j = none)
    (hv : (s.q.nextStq (s.queueIn i) j).valid = true) : s.Stays i j := by
  obtain ⟨hold, hk, -, hx, -⟩ := Queues.nextStq_of_old hj hv
  exact ⟨hj, hold, hv, hk, hx, Queues.nextStq_uop_of_old hj hold⟩

/-- The report of a store by a pipe. -/
theorem Inv.hit_pipe (h : s.Inv) (hok : s.Ok i) (hs : s.Stays i j)
    (hamo : (s.uop j).is_amo = false) :
    ((s.next i).report (some w)).any (fun u => u.number = (s.uop j).number) = true ↔
      ∃ a, s.Arrives i w j a ∧ (s.entry i a j w).ready = true := by
  rw [Option.any_eq_true]
  constructor
  · rintro ⟨u, hu, hn⟩
    obtain ⟨a, j', ha, -, hr, -, rfl⟩ := (h.report_pipe hok).1 hu
    rw [decide_eq_true_iff] at hn
    have hjj := h.queues.number j' j (h.valid_of_arrives hok ha).1 hs.valid hn
    subst hjj
    exact ⟨a, ha, hr⟩
  · rintro ⟨a, ha, hr⟩
    exact ⟨_, (h.report_pipe hok).2 ⟨a, j, ha, hs.live, hr, hamo, rfl⟩, decide_eq_true rfl⟩

theorem Inv.hit_fp (h : s.Inv) (hok : s.Ok i) (hs : s.Stays i j)
    (hamo : (s.uop j).is_amo = false) :
    ((s.next i).report none).any (fun u => u.number = (s.uop j).number) = true ↔
      (∃ x, s.stdf_incoming i = some x ∧ x.1 = j) ∧ (s.nextSt i j).addr_valid = true ∧
        (s.nextSt i j).addr_is_virtual = false := by
  rw [Option.any_eq_true]
  constructor
  · rintro ⟨u, hu, hn⟩
    obtain ⟨x, hx, -, -, h2, h3, -, rfl⟩ := (report_fp hok).1 hu
    rw [decide_eq_true_iff] at hn
    have hjj := h.queues.number x.1 j (fp_std_in hok hx).1 hs.valid hn
    rw [← hjj]
    exact ⟨⟨x, hx, rfl⟩, h2, h3⟩
  · rintro ⟨⟨x, hx, rfl⟩, h2, h3⟩
    refine ⟨_, (report_fp hok).2 ⟨x, hx, hs.live, hs.valid_next, h2, h3, ?_, rfl⟩,
      decide_eq_true rfl⟩
    rw [hs.uop_next]
    exact hamo

omit [NeZero n] [NeZero m] in
theorem ready_entry : (s.entry i a j w).ready =
    match a with
    | .stad => !(i.tlb w).miss
    | .sta | .sta_retry => (s.st j).data_valid && !(i.tlb w).miss
    | .std => (s.st j).addr_valid && !(s.st j).addr_is_virtual :=
  rfl

/-- An arm that finds the store complete excludes the floating-point arm. -/
theorem Inv.pipe_or_fp (h : s.Inv) (hok : s.Ok i) (ha : s.Arrives i w j a)
    (hr : (s.entry i a j w).ready = true) {x : Fin n × MicroOp T}
    (hx : s.stdf_incoming i = some x) : x.1 ≠ j := by
  rintro rfl
  obtain ⟨hv, -, -, hin⟩ := fp_std_in hok hx
  obtain ⟨hstd, hstad⟩ := fp_apart hok hx ha
  have hdata : (s.st x.1).data_valid = true := by
    cases a with
    | stad => contradiction
    | std => contradiction
    | sta =>
      rw [ready_entry, Bool.and_eq_true] at hr
      exact hr.1
    | sta_retry =>
      rw [ready_entry, Bool.and_eq_true] at hr
      exact hr.1
  rw [(h.entry x.1 hv).data hdata] at hin
  contradiction

/-- A report of the store is made in this cycle. -/
def Reports (s : Lsu n m T W) (i : In n m T W) (j : Fin n) : Prop :=
  (∃ w a, s.Arrives i w j a ∧ (s.entry i a j w).ready = true) ∨
    ((∃ x, s.stdf_incoming i = some x ∧ x.1 = j) ∧ (s.nextSt i j).addr_valid = true ∧
      (s.nextSt i j).addr_is_virtual = false)

open Classical in
/-- One port reports the store, if any does. -/
theorem Inv.count_reports (h : s.Inv) (hok : s.Ok i) (hs : s.Stays i j)
    (hamo : (s.uop j).is_amo = false) :
    count (s.uop j).number (s.next i).reports = if s.Reports i j then 1 else 0 := by
  have hunique : ∀ p q : Option (Fin W),
      ((s.next i).report p).any (fun u => u.number = (s.uop j).number) = true →
      ((s.next i).report q).any (fun u => u.number = (s.uop j).number) = true → p = q := by
    intro p q hp hq
    cases p with
    | some v =>
      obtain ⟨a, ha, hra⟩ := (h.hit_pipe hok hs hamo).1 hp
      cases q with
      | some w =>
        obtain ⟨b, hb, -⟩ := (h.hit_pipe hok hs hamo).1 hq
        rw [(h.arrives_unique hok ha hb).1]
      | none =>
        obtain ⟨⟨x, hx, hxj⟩, -⟩ := (h.hit_fp hok hs hamo).1 hq
        exact absurd hxj (h.pipe_or_fp hok ha hra hx)
    | none =>
      obtain ⟨⟨x, hx, hxj⟩, -⟩ := (h.hit_fp hok hs hamo).1 hp
      cases q with
      | some w =>
        obtain ⟨b, hb, hrb⟩ := (h.hit_pipe hok hs hamo).1 hq
        exact absurd hxj (h.pipe_or_fp hok hb hrb hx)
      | none => rfl
  rw [count, Lsu.reports, countP_filterMap_unique nodup_ports fun p _ q _ => hunique p q]
  refine if_congr ?_ rfl rfl
  rw [List.any_eq_true, Reports]
  constructor
  · rintro ⟨p, -, hp⟩
    cases p with
    | some w => exact .inl ⟨w, (h.hit_pipe hok hs hamo).1 hp⟩
    | none => exact .inr ((h.hit_fp hok hs hamo).1 hp)
  · rintro (⟨w, hw⟩ | hfp)
    · exact ⟨some w, mem_ports _, (h.hit_pipe hok hs hamo).2 hw⟩
    · exact ⟨none, mem_ports _, (h.hit_fp hok hs hamo).2 hfp⟩

/-! ## One cycle of a store -/

theorem Inv.tlbUop_same (h : s.Inv) (hok : s.Ok i) (hw : s.addrIdx i w = some j) :
    Same i (s.uop j) (s.tlbUop i w) := by
  rw [tlbUop]
  rcases Arrives.addrIdx_iff.1 hw with ha | ha | ha
  · have hf : s.fires i w .stad_incoming = true := ha.1
    rw [if_pos (Bool.or_eq_true_iff.2 (.inl hf))]
    exact (h.valid_of_arrives hok ha).2.2 Arm.noConfusion
  · have hf : s.fires i w .sta_incoming = true := ha.1
    rw [if_pos (Bool.or_eq_true_iff.2 (.inr hf))]
    exact (h.valid_of_arrives hok ha).2.2 Arm.noConfusion
  · rw [if_neg]
    · rw [show i.stq_retry_idx = j from ha.2]
      exact Same.refl i _
    · rw [Bool.or_eq_true]
      rintro (hf | hf)
      · exact absurd (ha.arm_unique (b := .stad) ⟨hf, rfl⟩).1 Arm.noConfusion
      · exact absurd (ha.arm_unique (b := .sta) ⟨hf, rfl⟩).1 Arm.noConfusion

theorem Inv.faulted_of_faults (h : s.Inv) (hok : s.Ok i) (hw : s.addrIdx i w = some j)
    (hf : s.faults i w = true) : (s.next i).faulted (s.uop j).number = true := by
  show (s.faulted _ || _) = true
  rw [Bool.or_eq_true, List.any_eq_true]
  refine .inr ⟨w, List.mem_finRange w, ?_⟩
  rw [hf, Bool.true_and, decide_eq_true_iff]
  exact (h.tlbUop_same hok hw).number.symm

theorem Inv.no_page_fault (h : s.Inv) (hok : s.Ok i)
    (hf : (s.next i).faulted (s.uop j).number = false) (hw : s.addrIdx i w = some j) :
    (i.tlb w).pf_st = false := by
  by_contra hpf
  rw [Bool.not_eq_false] at hpf
  rw [h.faulted_of_faults hok hw] at hf
  · contradiction
  · rw [faults, hw, hpf]
    rfl

/-- Data comes with a lone address, or its second try, from the floating-point
    unit only. -/
theorem Inv.dataWrite_of_sta (h : s.Inv) (hok : s.Ok i) (ha : s.Arrives i w j a)
    (hne : a ≠ .stad ∧ a ≠ .std) :
    s.dataWrite i j = true ↔ ∃ x, s.stdf_incoming i = some x ∧ x.1 = j := by
  rw [dataWrite_iff, or_iff_right]
  rintro ⟨v, hv | hv⟩
  · exact hne.2 (h.arrives_unique hok ha hv).2
  · exact hne.1 (h.arrives_unique hok ha hv).2

/-- The address of a store, in the cycle in which the TLB answers. -/
theorem Inv.reports_of_sta (h : s.Inv) (hok : s.Ok i) (hs : s.Stays i j)
    (hnf : (s.next i).faulted (s.uop j).number = false) (ha : s.Arrives i w j a)
    (hne : a ≠ .stad ∧ a ≠ .std) : s.Reports i j ↔ (s.nextSt i j).complete = true := by
  obtain ⟨hd, -, haddr⟩ := nextSt_old hs.old hs.valid_next
  have hw : s.addrIdx i w = some j := by
    rw [Arrives.addrIdx_iff]
    cases a with
    | stad => exact absurd rfl hne.1
    | std => exact absurd rfl hne.2
    | sta => exact .inr (.inl ha)
    | sta_retry => exact .inr (.inr ha)
  obtain ⟨h1, h2⟩ := haddr _ ((h.addrWrite_iff hok).2 ⟨w, hw, rfl⟩)
  have hready : (s.entry i a j w).ready = ((s.st j).data_valid && !(i.tlb w).miss) := by
    cases a with
    | stad => exact absurd rfl hne.1
    | std => exact absurd rfl hne.2
    | sta => rfl
    | sta_retry => rfl
  have hpipe : (∃ v b, s.Arrives i v j b ∧ (s.entry i b j v).ready = true) ↔
      (s.st j).data_valid = true ∧ (i.tlb w).miss = false := by
    rw [← Bool.not_eq_true', ← Bool.and_eq_true, ← hready]
    constructor
    · rintro ⟨v, b, hb, hr⟩
      obtain ⟨rfl, rfl⟩ := h.arrives_unique hok ha hb
      exact hr
    · exact fun hr => ⟨w, a, ha, hr⟩
  rw [Reports, hpipe, ← h.dataWrite_of_sta hok ha hne, Fields.complete, hd, h1, h2,
    h.no_page_fault hok hnf hw, Bool.not_false, Bool.true_and, Bool.and_eq_true, Bool.or_eq_true,
    Bool.not_eq_true']
  tauto

/-- **A report is made exactly when the entry becomes complete.** -/
theorem Inv.reports_iff (h : s.Inv) (hok : s.Ok i) (hs : s.Stays i j)
    (hnf : (s.next i).faulted (s.uop j).number = false) (hc : (s.st j).complete = false) :
    s.Reports i j ↔ (s.nextSt i j).complete = true := by
  obtain ⟨hd, hsame, haddr⟩ := nextSt_old hs.old hs.valid_next
  by_cases hw : ∃ w, s.addrIdx i w = some j
  · obtain ⟨w, hw⟩ := hw
    rcases Arrives.addrIdx_iff.1 hw with ha | ha | ha
    · -- both halves at once
      obtain ⟨h1, h2⟩ := haddr _ ((h.addrWrite_iff hok).2 ⟨w, hw, rfl⟩)
      have hdw : s.dataWrite i j = true := dataWrite_iff.2 (.inl ⟨w, .inr ha⟩)
      have hnofp : ¬ ∃ x, s.stdf_incoming i = some x ∧ x.1 = j := by
        rintro ⟨x, hx, rfl⟩
        exact (fp_apart hok hx ha).2 rfl
      have hpipe : (∃ v b, s.Arrives i v j b ∧ (s.entry i b j v).ready = true) ↔
          (i.tlb w).miss = false := by
        rw [← Bool.not_eq_true']
        constructor
        · rintro ⟨v, b, hb, hr⟩
          obtain ⟨rfl, rfl⟩ := h.arrives_unique hok ha hb
          exact hr
        · exact fun hr => ⟨w, .stad, ha, hr⟩
      rw [Reports, hpipe, or_iff_left fun hfp => hnofp hfp.1, Fields.complete, hd, hdw, h1, h2,
        h.no_page_fault hok hnf hw]
      simp
    · exact h.reports_of_sta hok hs hnf ha ⟨Arm.noConfusion, Arm.noConfusion⟩
    · exact h.reports_of_sta hok hs hnf ha ⟨Arm.noConfusion, Arm.noConfusion⟩
  · -- no address comes
    obtain ⟨h1, h2⟩ := hsame ((h.addrWrite_none hok).2 fun w h => hw ⟨w, h⟩)
    have harm {v : Fin W} {b : Arm} (hb : s.Arrives i v j b) : b = .std := by
      cases b with
      | std => rfl
      | stad => exact absurd ⟨v, Arrives.addrIdx_iff.2 (.inl hb)⟩ hw
      | sta => exact absurd ⟨v, Arrives.addrIdx_iff.2 (.inr (.inl hb))⟩ hw
      | sta_retry => exact absurd ⟨v, Arrives.addrIdx_iff.2 (.inr (.inr hb))⟩ hw
    rw [Reports, Fields.complete, hd, h1, h2]
    rw [Fields.complete] at hc
    cases hdw : s.dataWrite i j with
    | false =>
      rw [Bool.false_or, hc]
      have hno := (Bool.eq_false_iff.1 hdw)
      rw [ne_eq, dataWrite_iff, not_or] at hno
      refine iff_of_false ?_ Bool.false_ne_true
      rintro (⟨v, b, hb, -⟩ | ⟨hx, -⟩)
      · exact hno.1 ⟨v, .inl (harm hb ▸ hb)⟩
      · exact hno.2 hx
    | true =>
      rw [Bool.true_or, Bool.and_true, Bool.and_eq_true, Bool.not_eq_true']
      constructor
      · rintro (⟨v, b, hb, hr⟩ | ⟨-, hr⟩)
        · rw [harm hb, ready_entry, Bool.and_eq_true, Bool.not_eq_true'] at hr
          exact hr
        · exact hr
      · intro hr
        rcases dataWrite_iff.1 hdw with ⟨v, hv | hv⟩ | hx
        · refine .inl ⟨v, .std, hv, ?_⟩
          rw [ready_entry, hr.1, hr.2]
          rfl
        · exact absurd (harm hv) Arm.noConfusion
        · exact .inr ⟨hx, hr⟩

end Arrivals

end Lsu

end BoomStop.StoreReady
