/-
  The miss file of the data cache (`BoomMSHRFile` in `mshrs.scala`): the MSHRs and
  those for uncached accesses (`BoomIOMSHR`), the data of the stores that wait, the
  line buffer, the arbiters between them and the queue of answers.  The prefetcher
  is left out.

  * `IoMshr.next`: one cycle of an MSHR for uncached accesses;
  * `File.mshrIn`: what an MSHR gets from the file;
  * `File.next`: one cycle, with the outputs;
  * `missFile`: the file as a machine, with what its surroundings promise
    (`File.Ok`).
-/
import BoomStop.Mshr
import BoomStop.RingHelpers
import BoomStop.Lib.OneHot
import BoomStop.Lib.Priority
import BoomStop.Lib.Ledger

namespace BoomStop.Misses

open Sync
open DCache (MemCmd Meta Params Row DataWrite)
open KillableQueue (MicroOp Bits)
open Issue (BrUpdate isKilledByBranch)
open Ledger (Book)

variable {T n S R B N K M : ℕ}

/-! ## Uncached accesses -/

/-- The states of `BoomIOMSHR`. -/
inductive IoState
  | s_idle | s_mem_access | s_mem_ack | s_resp
  deriving DecidableEq

/-- The registers of `BoomIOMSHR`. -/
structure IoMshr (T n S : ℕ) where
  state : IoState
  req : ReqBits T n S
  grant_word : BitVec 64

/-- The inputs of a cycle; a request is there if it is taken. -/
structure IoIn (T n S : ℕ) where
  req : Option (ReqBits T n S)
  mem_access_ready : Bool
  mem_ack : Option Grant
  resp_ready : Bool

namespace IoMshr

variable (c : Params) (k : Client) (m : IoMshr T n S) (i : IoIn T n S)

/-- `io.req.ready` -/
def req_ready : Bool := m.state = .s_idle

/-- The command of the access. -/
def cmd : MemCmd := m.req.uop.fields.mem_cmd

/-- The access is answered to the core. -/
def send_resp : Bool := m.cmd.isRead

/-- `io.mem_access` -/
def mem_access (id : ℕ) : Option Acquire :=
  let q := m.req.data
  let size := m.req.uop.fields.mem_size
  if m.state = .s_mem_access then
    some (if m.cmd.isAMO then .atomic id q.addr size q.data m.cmd
      else if m.cmd.isRead then .get id q.addr size
      else .put id q.addr size q.data)
  else none

/-- `io.resp`; nothing drives `is_hella`. -/
def resp (undriven : Bool) : Option (Bits T Fields Resp) :=
  let f := m.req.uop.fields
  if m.state = .s_resp && m.send_resp then
    some ⟨⟨k.loadGen f.mem_size f.mem_signed m.req.data.addr m.grant_word false, undriven⟩, m.req.uop⟩
  else none

/-- The access is over. -/
def finishes : Bool := m.state = .s_resp && (!m.send_resp || i.resp_ready)

/-- One cycle. -/
def next : IoMshr T n S where
  state :=
    match m.state with
    | .s_idle => if i.req.isSome then .s_mem_access else .s_idle
    | .s_mem_access => if i.mem_access_ready then .s_mem_ack else .s_mem_access
    | .s_mem_ack => if i.mem_ack.isSome then .s_resp else .s_mem_ack
    | .s_resp => if m.finishes i then .s_idle else .s_resp
  req := i.req.getD m.req
  grant_word :=
    match i.mem_ack with
    | some d =>
      if m.state = .s_mem_ack && m.cmd.isRead then d.data (c.wordIdx m.req.data.addr)
      else m.grant_word
    | none => m.grant_word

end IoMshr

/-! ## The file -/

/-- What the file is made for. -/
structure Cfg where
  params : Params
  client : Client
  /-- `edge.manager.supportsAcquireBFast` -/
  cacheable : ℕ → Bool
  enablePrefetching : Bool
  /-- `TLArbiter.lowestFromSeq`: who may send, by who has a message -/
  lowest : {l : ℕ} → (Fin l → Bool) → Fin l → Bool
  /-- the first one that has a message -/
  lowest_iff : ∀ {l : ℕ} (valids : Fin l → Bool) (j : Fin l),
    lowest valids j = true ↔ ∀ p < j, valids p = false

/-- What became of a request. -/
inductive Done (n S : ℕ)
  | replay (req : Req n S)
  | resp (data : BitVec 64)
  | stored

/-- The registers of the file.  Ghosts: the requests that were accepted, the numbers
    of those that were killed, and what was handed out. -/
structure File (T n S R B N K : ℕ) where
  mshrs : Fin N → Mshr T n S R B
  mmios : Fin K → IoMshr T n S
  sdq_val : Fin S → Bool
  sdq : Fin S → BitVec 64
  lb : Fin N → Fin B → Row
  mshr_alloc_idx : ℕ
  mshr_head : Fin N
  respq : KillableQueue.Sys 4 T Fields Resp
  accepted : List (ReqBits T n S)
  killed : List ℕ
  results : List (Fields × Done n S)

/-- The inputs of a cycle, for `M + 1` pipes. -/
structure FileIn (T n S M : ℕ) where
  req_valid : Fin (M + 1) → Bool
  req : Fin (M + 1) → ReqBits T n S
  req_is_probe : Fin (M + 1) → Bool
  resp_ready : Bool
  brupdate : BrUpdate T
  exception : Bool
  mem_acquire_ready : Bool
  mem_grant : Option Grant
  mem_finish_ready : Bool
  refill_ready : Bool
  meta_write_ready : Bool
  meta_read_ready : Bool
  meta_resp : Option Meta
  replay_ready : Bool
  wb_req_ready : Bool
  prober_state : Option ℕ
  clear_all : Bool
  wb_resp : Bool
  /-- what a wire carries that nothing drives -/
  undriven : Bool

namespace File

variable (g : Cfg) (s : File T n S R B N K) (i : FileIn T n S M)

/-! ### The request -/

/-- The port whose request is looked at. -/
def req_idx : Fin (M + 1) := Fin.ofNat (M + 1) (OneHot.ohToUInt i.req_valid)

/-- Some port has a request. -/
def req_val : Bool := i.req_valid (req_idx i)

/-- The request that is looked at. -/
def req : ReqBits T n S := i.req (req_idx i)

/-- The request is for a line that may be cached. -/
def cacheable : Bool := g.cacheable (req i).data.addr

/-- The store data queue has room. -/
def sdq_rdy : Bool := (List.finRange S).any fun e => !s.sdq_val e

/-- `PriorityEncoder(~sdq_val)` -/
def sdq_alloc_id [NeZero S] : Fin S := (Fin.find? fun e => !s.sdq_val e).getD (Fin.ofNat S (S - 1))

/-- The MSHR holds a line of the set of the request. -/
def idx_matches (w : Fin (M + 1)) (j : Fin N) : Bool :=
  (s.mshrs j).valid && (s.mshrs j).req_idx g.params = g.params.idx (i.req w).data.addr

/-- The MSHR holds a line with the tag of the request. -/
def tag_matches (w : Fin (M + 1)) (j : Fin N) : Bool :=
  (s.mshrs j).valid && (s.mshrs j).req_tag g.params = g.params.tag (i.req w).data.addr

/-- The MSHR has the way that the request names. -/
def way_matches (w : Fin (M + 1)) (j : Fin N) : Bool :=
  (s.mshrs j).way_valid &&
    (List.finRange n).all fun way => (s.mshrs j).req.data.way_en way == (i.req w).data.way_en way

/-- Some MSHR holds a line of the set. -/
def idx_match (w : Fin (M + 1)) : Bool := (List.finRange N).any (s.idx_matches g i w)

/-- `Mux1H(idx_matches(w), tag_matches(w))`, -/
def tag_match (w : Fin (M + 1)) : Bool :=
  (List.finRange N).any fun j => s.idx_matches g i w j && s.tag_matches g i w j

/-- and of the ways. -/
def way_match (w : Fin (M + 1)) : Bool :=
  (List.finRange N).any fun j => s.idx_matches g i w j && s.way_matches i w j

/-- The request needs an MSHR of its own. -/
def pri_val : Bool := req_val i && s.sdq_rdy && cacheable g i && !s.idx_match g i (req_idx i)

/-- The request goes to the MSHR that has its line. -/
def sec_val (j : Fin N) : Bool :=
  req_val i && s.sdq_rdy && s.tag_match g i (req_idx i) && s.idx_matches g i (req_idx i) j &&
    cacheable g i

/-- A fence, a request for the set of a line that was prefetched, or a probe of it. -/
def clear_prefetch (j : Fin N) : Bool :=
  (i.clear_all && !req_val i) ||
    (req_val i && s.idx_matches g i (req_idx i) j && cacheable g i && !s.tag_match g i (req_idx i)) ||
    (i.req_is_probe 0 && s.idx_matches g i (req_idx i) j)

/-- The request with the place of its store data. -/
def reqIn [NeZero S] : ReqBits T n S :=
  let q := req i
  { q with data := { q.data with sdq_id := s.sdq_alloc_id } }

/-! ### The arbiters -/

/-- What an MSHR gets, before it is known which of its requests are taken. -/
def offered [NeZero S] (j : Fin N) : MshrIn T n S where
  id := j
  req_pri_val := j.val = s.mshr_alloc_idx && s.pri_val g i
  req_sec_val := s.sec_val g i j
  clear_prefetch := s.clear_prefetch g i j
  brupdate := i.brupdate
  exception := i.exception
  req := s.reqIn i
  req_is_probe := i.req_is_probe 0
  mem_acquire_ready := false
  mem_grant := i.mem_grant.filter fun d => d.source = j.val
  mem_finish_ready := false
  prober_state := i.prober_state
  refill_ready := false
  meta_write_ready := false
  meta_read_ready := false
  meta_resp := i.meta_resp
  wb_req_ready := false
  lb_read_ready := false
  lb_resp := fun _ => 0
  lb_write_ready := false
  replay_ready := false
  resp_ready := false
  wb_resp := i.wb_resp

section Arbiters

variable [NeZero S] [NeZero B]

/-- The MSHRs that write the line buffer. -/
def lbWrites (j : Fin N) : Option Unit :=
  if (s.mshrs j).lb_write_valid (s.offered g i j) then some () else none

/-- The line buffer is read when it is not written. -/
def lbReads (j : Fin N) : Option (Fin N × Fin B) :=
  ((s.mshrs j).lb_read g.params (s.offered g i j)).map fun offset => (j, offset)

/-- No MSHR writes the line buffer. -/
def lb_read_ready : Bool := (Priority.chosen (s.lbWrites g i)).isNone

/-- The row that is read from the line buffer. -/
def lb_read_data : Row :=
  match Priority.taken (s.lbReads g i) (s.lb_read_ready g i) with
  | some (j, offset) => s.lb j offset
  | none => fun _ => 0

/-- The same, with the line buffer. -/
def buffered (j : Fin N) : MshrIn T n S :=
  { s.offered g i j with
    lb_read_ready := Priority.ready (s.lbReads g i) (s.lb_read_ready g i) j
    lb_resp := s.lb_read_data g i
    lb_write_ready := Priority.free (s.lbWrites g i) j }

/-- The answers of the MSHRs. -/
def resps (j : Fin N) : Option (Bits T Fields Resp) :=
  (s.mshrs j).resp g.params g.client (s.buffered g i j)

/-- The answers of the MSHRs for uncached accesses. -/
def ioResps (l : Fin K) : Option (Bits T Fields Resp) := (s.mmios l).resp g.client i.undriven

/-- The requests that the MSHRs replay. -/
def replays (j : Fin N) : Option (ReqBits T n S) := (s.mshrs j).replay g.params (s.buffered g i j)

/-- The rows that the MSHRs write to the data array. -/
def refills (j : Fin N) : Option (DataWrite n) := (s.mshrs j).refill g.params (s.buffered g i j)

/-- The writes of metadata. -/
def metaWrites (j : Fin N) : Option (MetaWrite n) := (s.mshrs j).meta_write g.params g.client

/-- The reads of metadata. -/
def metaReads (j : Fin N) : Option (MetaRead n) :=
  (s.mshrs j).meta_read g.params (s.buffered g i j)

/-- The requests to the writeback unit. -/
def wbReqs (j : Fin N) : Option (WritebackReq n) :=
  (s.mshrs j).wb_req g.params g.client (s.buffered g i j)

/-- The messages on channel A for lines. -/
def acquires (j : Fin N) : Option Acquire :=
  (s.mshrs j).mem_acquire g.params g.client (s.buffered g i j)

/-- The sources after that of the writeback unit. -/
def ioAccesses (l : Fin K) : Option Acquire := (s.mmios l).mem_access (N + 1 + l)

/-- Who has a message on channel A; the MSHRs come before the uncached accesses. -/
def sendsA : Fin (N + K) → Bool :=
  Fin.append (fun j => (s.acquires g i j).isSome) fun l => (s.ioAccesses l).isSome

/-- The messages on channel E. -/
def finishes (j : Fin N) : Option ℕ := (s.mshrs j).mem_finish

/-- There is room for an answer. -/
def resp_ready : Bool := !s.respq.q.full

/-- What an MSHR gets. -/
def mshrIn (j : Fin N) : MshrIn T n S :=
  { s.buffered g i j with
    mem_acquire_ready := i.mem_acquire_ready && g.lowest (s.sendsA g i) (j.castAdd K)
    mem_finish_ready := i.mem_finish_ready && g.lowest (fun l => (s.finishes l).isSome) j
    refill_ready := Priority.ready (s.refills g i) i.refill_ready j
    meta_write_ready := Priority.ready (s.metaWrites g) i.meta_write_ready j
    meta_read_ready := Priority.ready (s.metaReads g i) i.meta_read_ready j
    wb_req_ready := Priority.ready (s.wbReqs g i) i.wb_req_ready j
    replay_ready := Priority.ready (s.replays g i) i.replay_ready j
    resp_ready := Priority.ready (s.resps g i) s.resp_ready j }

/-- The MSHRs for uncached accesses that are free. -/
def idle (l : Fin K) : Option Unit := if (s.mmios l).req_ready then some () else none

/-- What an MSHR for uncached accesses gets; the other answers go first. -/
def ioIn (l : Fin K) : IoIn T n S where
  req :=
    (Priority.given s.idle (req_val i && !cacheable g i) l).map fun _ => req i
  mem_access_ready := i.mem_acquire_ready && g.lowest (s.sendsA g i) (l.natAdd N)
  mem_ack := i.mem_grant.filter fun d => d.source = N + 1 + l.val
  resp_ready := Priority.ready (s.ioResps g i)
    (s.resp_ready && (Priority.chosen (s.resps g i)).isNone) l

/-! ### The outputs -/

/-- `io.replay`, with the data of the store. -/
def replay : Option (ReqBits T n S) :=
  (Priority.chosen (s.replays g i)).map fun q =>
    { q with data := { q.data with data := s.sdq q.data.sdq_id } }

/-- `io.replay.fire()`, with the request. -/
def replayed : Option (ReqBits T n S) := if i.replay_ready then s.replay g i else none

/-- What the queue of answers gets; the MSHRs go before the uncached accesses. -/
def respqIn : KillableQueue.In T Fields Resp where
  enq := (Priority.chosen (s.resps g i)).or (Priority.chosen (s.ioResps g i))
  deq_ready := i.resp_ready
  brupdate := i.brupdate
  flush := i.exception

/-- `io.resp`, if it is taken. -/
def answered : Option (Bits T Fields Resp) := s.respq.q.fired (rpqConfig T) (s.respqIn g i)

/-- The MSHR that is next to be given away is free. -/
def pri_rdy : Bool := (List.finRange N).any fun j => j.val = s.mshr_alloc_idx && (s.mshrs j).req_pri_rdy

/-- The MSHR that has the line takes the request. -/
def sec_rdy : Bool := (List.finRange N).any fun j =>
  (s.mshrs j).req_sec_rdy g.client (s.offered g i j) && s.sec_val g i j

/-- Some MSHR for uncached accesses is free. -/
def mmio_rdy : Bool := (List.finRange K).any fun l => (s.mmios l).req_ready

/-- `io.req(w).ready` -/
def req_ready (w : Fin (M + 1)) : Bool :=
  w = req_idx i &&
    if !cacheable g i then s.mmio_rdy
    else s.sdq_rdy && if s.idx_match g i w then s.tag_match g i w && s.sec_rdy g i else s.pri_rdy

/-- `io.secondary_miss` -/
def secondary_miss (w : Fin (M + 1)) : Bool :=
  s.idx_match g i w && s.way_match g i w && !s.tag_match g i w

/-- `io.block_hit` -/
def block_hit (w : Fin (M + 1)) : Bool := s.idx_match g i w && s.tag_match g i w

/-- `io.fence_rdy`: every MSHR is free. -/
def fence_rdy : Bool := (List.finRange N).all (fun j => (s.mshrs j).req_pri_rdy) && (List.finRange K).all fun l =>
  (s.mmios l).req_ready

/-- `io.probe_rdy`: no MSHR with a line of the set holds the probe up. -/
def probe_rdy : Bool := (List.finRange N).all fun j => (List.finRange (M + 1)).all fun w =>
  (s.mshrs j).probe_rdy || !s.idx_matches g i w j || !i.req_is_probe w

/-! ### A cycle -/

/-- `req.fire()` -/
def fires : Bool := req_val i && s.req_ready g i (req_idx i)

/-- What is accepted and must be answered or done. -/
def new : Option (ReqBits T n S) :=
  if s.fires g i && !(req i).uop.fields.mem_cmd.isPrefetch then some (s.reqIn i) else none

/-- The data of a store is kept. -/
def sdq_enq : Bool := s.fires g i && cacheable g i && (req i).uop.fields.mem_cmd.isWrite

/-- The place of the store that is replayed. -/
def freed : Option (Fin S) :=
  ((s.replayed g i).filter fun q => q.uop.fields.mem_cmd.isWrite).map fun q => q.data.sdq_id

/-- `sdq_val`, in the next cycle. -/
def sdq_val_next (e : Fin S) : Bool :=
  (s.sdq_val e && s.freed g i ≠ some e) ||
    (OneHot.priorityEncoderOH (fun e => !s.sdq_val e) e && s.sdq_enq g i)

/-- The line buffer, in the next cycle. -/
def lb_next (j : Fin N) (offset : Fin B) : Row :=
  match (s.mshrs j).lb_write g.client (s.mshrIn g i j) with
  | some (o, row) => if o = offset then row else s.lb j offset
  | none => s.lb j offset

/-- The uops that are on their way. -/
def flight [NeZero R] : List (MicroOp T Fields) :=
  (List.finRange N).flatMap (fun j => (s.mshrs j).rpq.waiting.map (·.bits.uop)) ++
    ((List.finRange K).filter fun l => !(s.mmios l).req_ready).map (fun l => (s.mmios l).req.uop) ++
    s.respq.waiting.map (·.bits.uop)

/-- A branch or a flush kills the uop. -/
def doomed (u : MicroOp T Fields) : Bool :=
  isKilledByBranch i.brupdate u.br_mask || i.exception && u.fields.uses_ldq

/-- An uncached store is done without an answer. -/
def stored : List Fields :=
  ((List.finRange K).filter fun l =>
    (s.mmios l).finishes (s.ioIn g i l) && !(s.mmios l).send_resp).map fun l => (s.mmios l).req.uop.fields

/-- What is handed out. -/
def delivered : List (Fields × Done n S) :=
  (s.replayed g i).toList.map (fun q => (q.uop.fields, .replay q.data)) ++
    (s.answered g i).toList.map (fun x => (x.uop.fields, .resp x.data.data)) ++
    (s.stored g i).map fun f => (f, .stored)

/-- One cycle. -/
def next [NeZero R] [NeZero N] : File T n S R B N K where
  mshrs j := (s.mshrs j).next g.params g.client (s.mshrIn g i j) g.enablePrefetching
  mmios l := (s.mmios l).next g.params (s.ioIn g i l)
  sdq_val := s.sdq_val_next g i
  sdq e := if s.sdq_enq g i && e = s.sdq_alloc_id then (req i).data.data else s.sdq e
  lb := s.lb_next g i
  mshr_alloc_idx :=
    Util.agePriorityEncoder ((List.finRange N).map fun j => (s.mshrs j).req_pri_rdy) s.mshr_head
  mshr_head := if s.pri_rdy && s.pri_val g i then RingOrder.wrapInc s.mshr_head else s.mshr_head
  respq := s.respq.next (rpqConfig T) (s.respqIn g i)
  accepted := s.accepted ++ (s.new g i).toList
  killed := s.killed ++ (s.flight.filter (doomed i)).map (·.fields.number)
  results := s.results ++ s.delivered g i

end Arbiters

/-! ## The machine -/

/-- What the surroundings promise: requests are numbered; stores are not speculative
    any more; prefetches are for cached lines. -/
structure Ok [NeZero S] [NeZero B] : Prop where
  number : ∀ b, s.new g i = some b → b.uop.fields.number = s.accepted.length
  store : req_val i = true → (req i).uop.fields.mem_cmd.isWrite = true →
    (∀ t, (req i).uop.br_mask t = false) ∧ (req i).uop.fields.uses_ldq = false
  cached : req_val i = true → (req i).uop.fields.mem_cmd.isPrefetch = true → cacheable g i = true

/-- After reset; the registers that are left out have no reset value. -/
structure Reset [NeZero R] [NeZero N] : Prop where
  state : ∀ j, (s.mshrs j).state = .s_invalid
  rpq : ∀ j, (s.mshrs j).rpq.Reset
  burst : ∀ j, (s.mshrs j).burst = 0
  meta_hazard : ∀ j, (s.mshrs j).meta_hazard = 0
  mmios : ∀ l, (s.mmios l).state = .s_idle
  sdq_val : ∀ e, s.sdq_val e = false
  mshr_head : s.mshr_head = 0
  respq : s.respq.Reset
  accepted : s.accepted = []
  killed : s.killed = []
  results : s.results = []

end File

open File in
/-- The miss file, from reset. -/
def missFile [NeZero S] [NeZero R] [NeZero B] [NeZero N] (g : Cfg) :
    Machine (File T n S R B N K) (FileIn T n S M) where
  start s := s.Reset
  ok s i := s.Ok g i
  next s i := s.next g i

/-! ## A small file

Two MSHRs for lines of two rows, one pipe, and memory that grants a line at once: a load
and a store miss in the same line. -/

namespace Small

/-- A line that is there may be read and written. -/
def client : Client where
  isValid _ := true
  onAccess c _ := (true, c)
  loadGen size signed addr word _ := DCache.bytesAt size signed addr word
  loadGen_eq _ _ _ _ := rfl
  amoalu _ _ _ _ x := x
  onReset := 0
  growParam _ _ := 0
  onSecondaryAccess c first _ := (false, false, c, first)
  miss_onReset _ _ := rfl
  onGrant _ _ := 1
  onFlush c := (false, 0, c)
  addr_inc B g counter := {
    last := counter = 1 || g.numBeats1 B = 0
    count := if counter = 0 then 0 else B - counter
    counter := if counter = 0 then g.numBeats1 B else counter - 1 }
  last_iff B g counter := by simp
  count_eq _ _ _ _ _ := rfl
  counter_eq _ _ _ := rfl

/-- Two ways, two beats to a line, and every address cached. -/
def cfg : Cfg where
  params := ⟨2, 16, 1, 1, 4, 80, 3⟩
  client := client
  cacheable _ := true
  enablePrefetching := false
  lowest valids j := (List.finRange _).all fun p => !(p < j && valids p)
  lowest_iff valids j := by
    simp only [List.all_eq_true, List.mem_finRange, true_implies, Bool.not_eq_true', Bool.and_eq_false_imp,
      decide_eq_true_eq]

/-- An access, with its number. -/
def request (number : ℕ) (cmd : MemCmd) (addr : ℕ) (data : BitVec 64) : ReqBits 1 2 2 :=
  ⟨⟨addr, data, false, false, ⟨9, 0⟩, fun w => w = 1, 0⟩,
    ⟨⟨number, cmd, 3, false, cmd.isRead, cmd.isWrite, 0⟩, fun _ => false⟩⟩

/-- A queue after reset. -/
def emptyQueue {D : Type} (n : ℕ) [NeZero n] (d : D) : KillableQueue.Sys n 1 Fields D where
  q := ⟨fun _ => ⟨d, (request 0 .M_XRD 0 0).uop⟩, fun _ => false, fun _ => (request 0 .M_XRD 0 0).uop,
    0, 0, false⟩
  tag _ := 0
  enqNo := 0
  deqNo := 0
  now := 0
  fifo := .empty
  resolved := []

/-- The file after reset. -/
def fresh : File 1 2 2 2 2 2 1 where
  mshrs _ := {
    state := .s_invalid
    req := request 0 .M_XRD 0 0
    req_needs_wb := false
    new_coh := 0
    rpq := emptyQueue 2 (request 0 .M_XRD 0 0).data
    grantack := none
    refill_ctr := 0
    commit_line := false
    grant_had_data := false
    finish_to_prefetch := false
    meta_hazard := 0
    burst := 0 }
  mmios _ := ⟨.s_idle, request 0 .M_XRD 0 0, 0⟩
  sdq_val _ := false
  sdq _ := 0
  lb _ _ _ := 0
  mshr_alloc_idx := 0
  mshr_head := 0
  respq := emptyQueue 4 ⟨0, false⟩
  accepted := []
  killed := []
  results := []

/-- Everything is taken at once, and nothing asked for. -/
def quiet : FileIn 1 2 2 0 where
  req_valid _ := false
  req _ := request 0 .M_XRD 0 0
  req_is_probe _ := false
  resp_ready := true
  brupdate := ⟨fun _ => false, fun _ => false⟩
  exception := false
  mem_acquire_ready := true
  mem_grant := none
  mem_finish_ready := true
  refill_ready := true
  meta_write_ready := true
  meta_read_ready := true
  meta_resp := some ⟨9, 0⟩
  replay_ready := true
  wb_req_ready := true
  prober_state := none
  clear_all := false
  wb_resp := false
  undriven := false

/-- A cycle with one request. -/
def ask (q : ReqBits 1 2 2) : FileIn 1 2 2 0 :=
  { quiet with req_valid := fun _ => true, req := fun _ => q }

/-- A cycle with a beat of the line that MSHR 0 acquires. -/
def beat (x : BitVec 64) : FileIn 1 2 2 0 :=
  { quiet with mem_grant := some ⟨0, 0, true, true, 5, fun _ => x⟩ }

/-- The load, the store, the line, and the time it takes. -/
def trip : List (FileIn 1 2 2 0) :=
  [ask (request 0 .M_XRD 80 0), ask (request 1 .M_XWR 88 7), beat 11, beat 12] ++
    List.replicate 9 quiet

/-- The promises of the surroundings, as a test. -/
def keeps (s : File 1 2 2 2 2 2 1) (i : FileIn 1 2 2 0) : Bool :=
  let u := (File.req i).uop
  !File.req_val i || (u.fields.number = s.accepted.length && !u.fields.mem_cmd.isPrefetch &&
    (!u.fields.mem_cmd.isWrite || (!u.br_mask 0 && !u.fields.uses_ldq)))

theorem ok_of_keeps (s : File 1 2 2 2 2 2 1) (i : FileIn 1 2 2 0) (h : keeps s i = true) :
    s.Ok cfg i := by
  unfold keeps at h
  simp only [Bool.or_eq_true, Bool.not_eq_true', Bool.and_eq_true, decide_eq_true_eq] at h
  have hof : File.req_val i = true → ((File.req i).uop.fields.number = s.accepted.length ∧
      (File.req i).uop.fields.mem_cmd.isPrefetch = false) ∧
        ((File.req i).uop.fields.mem_cmd.isWrite = false ∨
          (File.req i).uop.br_mask 0 = false ∧ (File.req i).uop.fields.uses_ldq = false) := fun hv =>
    h.resolve_left (by rw [hv]; simp)
  refine ⟨fun b hb => ?_, fun hv hw => ?_, fun hv hp => ?_⟩
  · unfold File.new at hb
    split_ifs at hb with hf
    have hv : File.req_val i = true :=
      (Bool.and_eq_true_iff.1 (Bool.and_eq_true_iff.1 hf).1).1
    rw [← Option.some.inj hb]
    exact (hof hv).1.1
  · obtain ⟨hm, hl⟩ := (hof hv).2.resolve_left (by rw [hw]; simp)
    refine ⟨fun t => ?_, hl⟩
    rw [Subsingleton.elim t 0]
    exact hm
  · rw [(hof hv).1.2] at hp
    cases hp

theorem reset_fresh : fresh.Reset := by
  refine ⟨fun _ => rfl, fun _ => ?_, fun _ => rfl, fun _ => rfl, fun _ => rfl, fun _ => rfl, rfl, ?_,
    rfl, rfl, rfl⟩ <;> exact ⟨fun _ => rfl, rfl, rfl, rfl, rfl, rfl, rfl, rfl, rfl⟩

/-- The state of the file after some cycles. -/
def after (k : ℕ) : File 1 2 2 2 2 2 1 := (missFile cfg).run fresh (trip.take k)

theorem reach_after (k : ℕ) (h : (missFile cfg).passes keeps fresh (trip.take k) = true) :
    (missFile cfg (M := 0)).Reach (after k) :=
  Machine.reach_run _ (.start reset_fresh) (Machine.accepts_of_passes ok_of_keeps _ _ h)

end Small

end BoomStop.Misses
