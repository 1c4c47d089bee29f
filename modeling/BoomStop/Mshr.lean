/-
  A miss status holding register of the data cache (`BoomMSHR` in `mshrs.scala`):
  it acquires a line into the line buffer, answers the loads that wait for it
  from there, writes the victim back and the line into the arrays, and replays
  what else waits.

  * `Client`: what it takes from the Rocket chip library;
  * `Mshr.next`: one cycle, with its outputs;
  * `Mshr.Closed`: the states in which nothing waits; `closed_next`: the assertion
    that a free register has an empty queue;
  * `Mshr.SameLine`: what waits is for the line of the register.
-/
import Mathlib.Data.Fintype.Prod
import BoomStop.KillableQueue
import BoomStop.DCachePipe
import BoomStop.Lib.Sizes

namespace BoomStop.Misses

open Sync
open DCache (MemCmd Meta Params Row DataWrite)
open KillableQueue (MicroOp Bits)
open Issue (BrUpdate isKilledByBranch getNewBrMask)

variable {T n S R B : ℕ}

/-- What the miss file reads of a uop, and the cache of one that is replayed; the number
    of the request, a ghost, stands for the rest. -/
structure Fields where
  number : ℕ
  mem_cmd : MemCmd
  mem_size : Fin 4
  mem_signed : Bool
  uses_ldq : Bool
  uses_stq : Bool
  rob_idx : ℕ

/-- `BoomDCacheReqInternal` less the uop, for `n` ways and `S` entries of store
    data. -/
structure Req (n S : ℕ) where
  addr : ℕ
  data : BitVec 64
  is_hella : Bool
  tag_match : Bool
  old_meta : Meta
  way_en : Fin n → Bool
  sdq_id : Fin S

/-- A request with its uop. -/
abbrev ReqBits (T n S : ℕ) : Type := Bits T Fields (Req n S)

/-- `BoomDCacheResp` less the uop. -/
structure Resp where
  data : BitVec 64
  is_hella : Bool

/-- A message of channel D. -/
structure Grant where
  source : ℕ
  param : ℕ
  hasData : Bool
  isRequest : Bool
  sink : ℕ
  data : Row

/-- `edge.numBeats1` of a message, in bursts of `B`: the beats after the first one. -/
def Grant.numBeats1 (B : ℕ) (g : Grant) : ℕ := if g.hasData then B - 1 else 0

/-- What `edge.addr_inc` says of a message: the burst ends with it, the beats that came
    before, and the counter after it. -/
structure Beat where
  last : Bool
  count : ℕ
  counter : ℕ

/-- `ClientMetadata`, beside what the pipeline uses, and `edge`. -/
structure Client extends DCache.Rocket where
  onReset : BitVec 2
  /-- the permissions that `onAccess` asks for -/
  growParam : BitVec 2 → MemCmd → ℕ
  /-- `onSecondaryAccess`: another acquire is needed, it hits, the state and the
      command for both -/
  onSecondaryAccess : BitVec 2 → MemCmd → MemCmd → Bool × Bool × BitVec 2 × MemCmd
  /-- nothing hits in a line that is not there -/
  miss_onReset : ∀ first second, (onSecondaryAccess onReset first second).2.1 = false
  onGrant : MemCmd → ℕ → BitVec 2
  /-- `onCacheControl(M_FLUSH)`: the line is dirty, what is reported, the state -/
  onFlush : BitVec 2 → Bool × ℕ × BitVec 2
  /-- `edge.addr_inc`, in bursts of `B`, of a message by the counter of the burst -/
  addr_inc : ℕ → Grant → ℕ → Beat
  /-- a message without data is a burst of its own -/
  last_iff : ∀ B g counter, (addr_inc B g counter).last = true ↔ counter = 1 ∨ g.numBeats1 B = 0
  /-- the beats of a burst are numbered from 0 -/
  count_eq : ∀ B g counter, g.hasData = true → counter < B →
    (addr_inc B g counter).count = if counter = 0 then 0 else B - counter
  /-- the first message sets the counter, the others count it down -/
  counter_eq : ∀ B g counter,
    (addr_inc B g counter).counter = if counter = 0 then g.numBeats1 B else counter - 1

/-- A message of channel A. -/
inductive Acquire
  | acquireBlock (source addr : ℕ) (growPermissions : ℕ)
  | get (source addr : ℕ) (size : Fin 4)
  | put (source addr : ℕ) (size : Fin 4) (data : BitVec 64)
  | atomic (source addr : ℕ) (size : Fin 4) (data : BitVec 64) (op : MemCmd)

/-- `L1MetaWriteReq`, -/
structure MetaWrite (n : ℕ) where
  idx : ℕ
  way_en : Fin n → Bool
  data : Meta

/-- `L1MetaReadReq`, -/
structure MetaRead (n : ℕ) where
  idx : ℕ
  tag : ℕ
  way_en : Fin n → Bool

/-- `WritebackReq`. -/
structure WritebackReq (n : ℕ) where
  tag : ℕ
  idx : ℕ
  source : ℕ
  param : ℕ
  way_en : Fin n → Bool
  voluntary : Bool

/-- The states of `BoomMSHR`. -/
inductive MshrState
  | s_invalid | s_refill_req | s_refill_resp | s_drain_rpq_loads | s_meta_read | s_meta_resp_1
  | s_meta_resp_2 | s_meta_clear | s_wb_meta_read | s_wb_req | s_wb_resp | s_commit_line
  | s_drain_rpq | s_meta_write_req | s_mem_finish_1 | s_mem_finish_2 | s_prefetched | s_prefetch
  deriving DecidableEq

/-- A flush drops the loads of the queue. -/
def rpqConfig (T : ℕ) : KillableQueue.Config T Fields := ⟨fun u => u.fields.uses_ldq, false⟩

/-- The registers; `burst` is the counter of `edge.addr_inc`. -/
structure Mshr (T n S R B : ℕ) where
  state : MshrState
  req : ReqBits T n S
  req_needs_wb : Bool
  new_coh : BitVec 2
  rpq : KillableQueue.Sys R T Fields (Req n S)
  grantack : Option ℕ
  refill_ctr : Fin B
  commit_line : Bool
  grant_had_data : Bool
  finish_to_prefetch : Bool
  meta_hazard : Fin 4
  burst : ℕ

/-- The inputs of a cycle. -/
structure MshrIn (T n S : ℕ) where
  id : ℕ
  req_pri_val : Bool
  req_sec_val : Bool
  clear_prefetch : Bool
  brupdate : BrUpdate T
  exception : Bool
  req : ReqBits T n S
  req_is_probe : Bool
  mem_acquire_ready : Bool
  mem_grant : Option Grant
  mem_finish_ready : Bool
  prober_state : Option ℕ
  refill_ready : Bool
  meta_write_ready : Bool
  meta_read_ready : Bool
  meta_resp : Option Meta
  wb_req_ready : Bool
  lb_read_ready : Bool
  lb_resp : Row
  lb_write_ready : Bool
  replay_ready : Bool
  resp_ready : Bool
  wb_resp : Bool

/-- The states in which nothing waits. -/
def MshrState.closed : MshrState → Bool
  | .s_invalid | .s_meta_write_req | .s_mem_finish_1 | .s_mem_finish_2 | .s_prefetch => true
  | _ => false

/-- The states in which the line buffer has the line. -/
def MshrState.filled : MshrState → Bool
  | .s_drain_rpq_loads | .s_meta_read | .s_meta_resp_1 | .s_meta_resp_2 | .s_meta_clear | .s_wb_req
  | .s_wb_resp | .s_commit_line | .s_prefetch => true
  | _ => false

/-- A request goes to one place: a primary one does not find the line or a prefetch
    of its set, and the one that is taken does not clear what it is taken for. -/
structure MshrIn.Exclusive (i : MshrIn T n S) : Prop where
  pri : i.req_pri_val = true → i.req_sec_val = false ∧ i.clear_prefetch = false
  sec : i.req_sec_val = true → i.req_is_probe = false → i.clear_prefetch = false

namespace Mshr

variable (c : Params) (k : Client) (m : Mshr T n S R B) (i : MshrIn T n S)

/-- The command of the first request. -/
def cmd : MemCmd := m.req.uop.fields.mem_cmd

/-- The set of the line. -/
def req_idx : ℕ := c.idx m.req.data.addr

/-- The tag of the line. -/
def req_tag : ℕ := c.tag m.req.data.addr

/-- The address of the line. -/
def req_block_addr : ℕ := c.block m.req.data.addr * c.blockBytes

/-- The line of the register and the place of an address in its own line. -/
def lineAddr (addr : ℕ) : ℕ := (m.req_tag c * c.nSets + m.req_idx c) * c.blockBytes + addr % c.blockBytes

/-- `addr >> rowOffBits`, in the width of the offset. -/
def rowOffset [NeZero B] (addr : ℕ) : Fin B := Fin.ofNat B (c.row addr)

/-! ### Requests -/

/-- What a second request asks for, beside what is asked for already. -/
def second : Bool × Bool × BitVec 2 × MemCmd :=
  k.onSecondaryAccess m.new_coh m.cmd i.req.uop.fields.mem_cmd

/-- A second request fits in with what the MSHR does. -/
def sec_rdy : Bool :=
  !(m.second k i).1 && !i.req_is_probe &&
    !(m.state = .s_invalid || m.state = .s_meta_write_req || m.state = .s_mem_finish_1 ||
      m.state = .s_mem_finish_2)

/-- `io.req_pri_rdy`: the MSHR is free. -/
def req_pri_rdy : Bool := m.state = .s_invalid || m.state = .s_prefetch

/-- `io.req_sec_rdy` -/
def req_sec_rdy : Bool := m.sec_rdy k i && !m.rpq.q.full

/-- A first request comes in. -/
def pri_fires : Bool := i.req_pri_val && m.req_pri_rdy

/-- A second request comes in. -/
def sec_fires : Bool := i.req_sec_val && m.req_sec_rdy k i

/-- `rpq.io.enq` -/
def enq : Option (ReqBits T n S) :=
  if (m.pri_fires i || m.sec_fires k i) && !i.req.uop.fields.mem_cmd.isPrefetch then some i.req
  else none

/-- `clear_prefetch`, or a second request that is not taken. -/
def clears : Bool := (i.req_sec_val && !m.req_sec_rdy k i) || i.clear_prefetch

/-! ### The head of the queue -/

/-- `rpq.io.deq.bits` -/
def head : ReqBits T n S := m.rpq.q.out.update i.brupdate

/-- `rpq.io.deq.valid` -/
def deq_valid : Bool :=
  !m.rpq.q.empty && m.rpq.q.valids m.rpq.q.deq_ptr &&
    !(isKilledByBranch i.brupdate m.rpq.q.out.uop.br_mask ||
      i.exception && m.rpq.q.out.uop.fields.uses_ldq)

/-- A load, and no LR. -/
def drain_load : Bool :=
  let cmd := m.rpq.q.out.uop.fields.mem_cmd
  cmd.isRead && !cmd.isWrite && cmd ≠ .M_XLR

/-- `io.lb_read`, its offset. -/
def lb_read [NeZero B] : Option (Fin B) :=
  match m.state with
  | .s_drain_rpq_loads =>
    if m.deq_valid i && m.drain_load then some (rowOffset c m.rpq.q.out.data.addr) else none
  | .s_commit_line => some m.refill_ctr
  | _ => none

/-- `io.resp`: a load takes its bytes from the line buffer. -/
def resp [NeZero B] : Option (Bits T Fields Resp) :=
  if m.state = .s_drain_rpq_loads && (m.lb_read c i).isSome && i.lb_read_ready then
    let q := m.head i
    let addr := m.lineAddr c q.data.addr
    some ⟨⟨k.loadGen q.uop.fields.mem_size q.uop.fields.mem_signed addr
      (i.lb_resp (c.wordIdx addr)) false, q.data.is_hella⟩, q.uop⟩
  else none

/-- `io.replay`; the data come from the file. -/
def replay : Option (ReqBits T n S) :=
  if m.state = .s_drain_rpq && m.deq_valid i then
    let q := m.head i
    some { q with data := { q.data with addr := m.lineAddr c q.data.addr, way_en := m.req.data.way_en } }
  else none

/-- `rpq.io.deq.ready` -/
def deq_ready : Bool :=
  match m.state with
  | .s_drain_rpq_loads => i.resp_ready && i.lb_read_ready && m.drain_load
  | .s_drain_rpq => i.replay_ready
  | _ => false

/-- What the replay queue gets. -/
def rpqIn : KillableQueue.In T Fields (Req n S) := ⟨m.enq k i, m.deq_ready i, i.brupdate, i.exception⟩

/-- `rpq.io.deq.fire()` -/
def deq_fires : Bool := m.deq_valid i && m.deq_ready i

/-! ### The other ports -/

/-- `io.mem_acquire` -/
def mem_acquire : Option Acquire :=
  if m.state = .s_refill_req then
    some (.acquireBlock i.id ((m.req_tag c * c.nSets + m.req_idx c) * c.blockBytes)
      (k.growParam m.new_coh m.cmd))
  else none

/-- `io.lb_write.valid` -/
def lb_write_valid : Bool := m.state = .s_refill_resp && i.mem_grant.any (·.hasData)

/-- `io.mem_grant.fire()`, with the message; in other states the port is not
    driven. -/
def grant : Option Grant :=
  if m.state = .s_refill_resp then i.mem_grant.filter fun g => !g.hasData || i.lb_write_ready
  else none

/-- `refill_address_inc >> rowOffBits` -/
def beat [NeZero B] (g : Grant) : Fin B := Fin.ofNat B (k.addr_inc B g m.burst).count

/-- `refill_done`, with the message that ends the burst. -/
def refill_done : Option Grant := (m.grant i).filter fun g => (k.addr_inc B g m.burst).last

/-- The counter of `edge.addr_inc`, in the next cycle. -/
def burst_next : ℕ :=
  match m.grant i with
  | some g => (k.addr_inc B g m.burst).counter
  | none => m.burst

/-- `io.lb_write`, when it fires. -/
def lb_write [NeZero B] : Option (Fin B × Row) :=
  ((m.grant i).filter (·.hasData)).map fun g => (m.beat k g, g.data)

/-- `io.mem_finish` -/
def mem_finish : Option ℕ := if m.state = .s_mem_finish_1 then m.grantack else none

/-- `io.meta_read` -/
def meta_read : Option (MetaRead n) :=
  if m.state = .s_meta_read &&
      (i.prober_state.all fun addr => c.idx addr ≠ m.req_idx c || m.grantack.isNone) then
    some ⟨m.req_idx c, m.req_tag c, m.req.data.way_en⟩
  else none

/-- `io.meta_write` -/
def meta_write : Option (MetaWrite n) :=
  match m.state with
  | .s_meta_clear =>
    some ⟨m.req_idx c, m.req.data.way_en, m.req_tag c, (k.onFlush m.req.data.old_meta.coh).2.2⟩
  | .s_meta_write_req => some ⟨m.req_idx c, m.req.data.way_en, m.req_tag c, m.new_coh⟩
  | _ => none

/-- `io.wb_req` -/
def wb_req : Option (WritebackReq n) :=
  if m.state = .s_wb_req then
    some ⟨m.req.data.old_meta.tag, m.req_idx c, i.id, (k.onFlush m.req.data.old_meta.coh).2.1,
      m.req.data.way_en, true⟩
  else none

/-- `io.refill` -/
def refill [NeZero B] : Option (DataWrite n) :=
  if m.state = .s_commit_line && i.lb_read_ready then
    some ⟨m.req_block_addr c + m.refill_ctr * (8 * c.rowWords), m.req.data.way_en, fun _ => true,
      i.lb_resp⟩
  else none

/-- A row goes from the line buffer to the data array. -/
def refill_fires : Bool := m.state = .s_commit_line && i.lb_read_ready && i.refill_ready

/-- `io.probe_rdy`: a probe of the line may go on. -/
def probe_rdy : Bool :=
  m.meta_hazard = 0 && (m.state = .s_invalid || m.state = .s_refill_req || m.state = .s_refill_resp ||
    m.state = .s_drain_rpq_loads || (m.state = .s_meta_read && m.grantack.isSome))

/-- `io.idx.valid`, which is also `io.tag.valid`, -/
def valid : Bool := m.state ≠ .s_invalid

/-- and `io.way.valid`. -/
def way_valid : Bool := !(m.state = .s_invalid || m.state = .s_prefetch)

/-! ### A cycle -/

/-- `handle_pri_req`: the state -/
def pri_state : MshrState :=
  if i.req.data.tag_match && (k.onAccess i.req.data.old_meta.coh i.req.uop.fields.mem_cmd).1 then
    .s_drain_rpq
  else .s_refill_req

/-- and `new_coh`. -/
def pri_coh : BitVec 2 :=
  if i.req.data.tag_match then
    if (k.onAccess i.req.data.old_meta.coh i.req.uop.fields.mem_cmd).1 then
      (k.onAccess i.req.data.old_meta.coh i.req.uop.fields.mem_cmd).2
    else i.req.data.old_meta.coh
  else k.onReset

/-- A primary request is handled. -/
def handles : Bool :=
  match m.state with
  | .s_invalid => i.req_pri_val
  | .s_prefetch => !m.clears k i && !m.sec_fires k i && i.req_pri_val
  | _ => false

/-- `state`, in the next cycle. -/
def state_next : MshrState :=
  match m.state with
  | .s_invalid => if m.handles k i then pri_state k i else .s_invalid
  | .s_refill_req => if i.mem_acquire_ready then .s_refill_resp else .s_refill_req
  | .s_refill_resp =>
    if (m.refill_done k i).isSome then
      if m.grant_had_data then .s_drain_rpq_loads else .s_drain_rpq
    else .s_refill_resp
  | .s_drain_rpq_loads =>
    if m.deq_fires i then .s_drain_rpq_loads
    else if m.rpq.q.empty && !m.commit_line then
      if (m.enq k i).isSome then .s_drain_rpq_loads else .s_mem_finish_1
    else if m.rpq.q.empty || (m.deq_valid i && !m.drain_load) then .s_meta_read
    else .s_drain_rpq_loads
  | .s_meta_read => if (m.meta_read c i).isSome && i.meta_read_ready then .s_meta_resp_1 else .s_meta_read
  | .s_meta_resp_1 => .s_meta_resp_2
  | .s_meta_resp_2 =>
    match i.meta_resp with
    | none => .s_meta_read
    | some x => if (k.onFlush x.coh).1 then .s_meta_clear else .s_commit_line
  | .s_meta_clear => if i.meta_write_ready then .s_wb_req else .s_meta_clear
  | .s_wb_req => if i.wb_req_ready then .s_wb_resp else .s_wb_req
  | .s_wb_resp => if i.wb_resp then .s_commit_line else .s_wb_resp
  | .s_commit_line =>
    if m.refill_fires i && m.refill_ctr.val = B - 1 then .s_drain_rpq else .s_commit_line
  | .s_drain_rpq => if m.rpq.q.empty && (m.enq k i).isNone then .s_meta_write_req else .s_drain_rpq
  | .s_meta_write_req => if i.meta_write_ready then .s_mem_finish_1 else .s_meta_write_req
  | .s_mem_finish_1 => if i.mem_finish_ready || m.grantack.isNone then .s_mem_finish_2 else .s_mem_finish_1
  | .s_mem_finish_2 => if m.finish_to_prefetch then .s_prefetch else .s_invalid
  | .s_prefetch =>
    if m.clears k i then .s_invalid
    else if m.sec_fires k i then
      if (k.onAccess m.new_coh i.req.uop.fields.mem_cmd).1 then .s_meta_read else .s_refill_req
    else if m.handles k i then pri_state k i
    else .s_prefetch
  | .s_wb_meta_read => .s_wb_meta_read
  | .s_prefetched => .s_prefetched

/-- A request with another command. -/
def withCmd (q : ReqBits T n S) (cmd : MemCmd) : ReqBits T n S :=
  { q with uop := { q.uop with fields := { q.uop.fields with mem_cmd := cmd } } }

/-- `req`, in the next cycle. -/
def req_next : ReqBits T n S :=
  if m.handles k i then i.req
  else if m.sec_fires k i then withCmd m.req (m.second k i).2.2.2
  else m.req

/-- The store that is replayed makes the line dirty. -/
def new_coh_next : BitVec 2 :=
  let both := if m.sec_fires k i && (m.second k i).2.1 then (m.second k i).2.2.1 else m.new_coh
  match m.state with
  | .s_refill_resp =>
    match m.refill_done k i with
    | some g => k.onGrant m.cmd g.param
    | none => both
  | .s_drain_rpq =>
    if m.deq_fires i && (m.head i).uop.fields.mem_cmd.isWrite then
      (k.onAccess m.new_coh (m.head i).uop.fields.mem_cmd).2
    else both
  | .s_prefetch =>
    if m.clears k i then both
    else if m.sec_fires k i then
      let a := k.onAccess m.new_coh i.req.uop.fields.mem_cmd
      if a.1 then a.2 else k.onReset
    else if m.handles k i then pri_coh k i
    else both
  | _ => if m.handles k i then pri_coh k i else both

/-- `grantack`, in the next cycle. -/
def grantack_next : Option ℕ :=
  match m.state with
  | .s_refill_resp =>
    match m.refill_done k i with
    | some g => if g.isRequest then some g.sink else none
    | none => m.grantack
  | .s_mem_finish_1 => if i.mem_finish_ready || m.grantack.isNone then none else m.grantack
  | _ => if m.handles k i then none else m.grantack

/-- `refill_ctr`, in the next cycle. -/
def refill_ctr_next [NeZero B] : Fin B :=
  if m.handles k i then 0
  else if m.refill_fires i then m.refill_ctr + 1
  else m.refill_ctr

/-- `commit_line`, in the next cycle. -/
def commit_line_next : Bool :=
  match m.state with
  | .s_refill_resp => if (m.refill_done k i).isSome then false else m.commit_line
  | .s_drain_rpq_loads => m.deq_fires i || m.commit_line
  | _ => m.commit_line

/-- `grant_had_data`, in the next cycle. -/
def grant_had_data_next : Bool :=
  match m.state with
  | .s_invalid => false
  | .s_refill_resp =>
    match m.grant i with
    | some g => g.hasData
    | none => m.grant_had_data
  | .s_prefetch => if m.handles k i then false else m.grant_had_data
  | _ => m.grant_had_data

/-- `finish_to_prefetch := enablePrefetching.B` after a line that nobody read. -/
def finish_to_prefetch_next (enablePrefetching : Bool) : Bool :=
  match m.state with
  | .s_drain_rpq_loads =>
    if !m.deq_fires i && m.rpq.q.empty && !m.commit_line && (m.enq k i).isNone then enablePrefetching
    else m.finish_to_prefetch
  | .s_meta_write_req => if i.meta_write_ready then false else m.finish_to_prefetch
  | _ => m.finish_to_prefetch

/-- `meta_hazard`, in the next cycle. -/
def meta_hazard_next : Fin 4 :=
  if (m.meta_write c k).isSome && i.meta_write_ready then 1
  else if m.meta_hazard = 0 then 0 else m.meta_hazard + 1

/-- One cycle. -/
def next [NeZero R] [NeZero B] (enablePrefetching : Bool) : Mshr T n S R B where
  state := m.state_next c k i
  req := m.req_next k i
  req_needs_wb := if m.handles k i then (k.onFlush i.req.data.old_meta.coh).1 else m.req_needs_wb
  new_coh := m.new_coh_next k i
  rpq := m.rpq.next (rpqConfig T) (m.rpqIn k i)
  grantack := m.grantack_next k i
  refill_ctr := m.refill_ctr_next k i
  commit_line := m.commit_line_next k i
  grant_had_data := m.grant_had_data_next k i
  finish_to_prefetch := m.finish_to_prefetch_next k i enablePrefetching
  meta_hazard := m.meta_hazard_next c k i
  burst := m.burst_next k i

/-! ## The queue -/

section

variable {c k m i}

theorem deq_eq : m.rpq.q.deq (rpqConfig T) (m.rpqIn k i) =
    if m.deq_valid i then some (m.head i) else none := by
  unfold KillableQueue.Queue.deq KillableQueue.Queue.bypasses
  simp only [rpqConfig, Bool.false_and, Bool.false_eq_true, if_false]
  rfl

theorem fired_eq : m.rpq.q.fired (rpqConfig T) (m.rpqIn k i) =
    if m.deq_fires i then some (m.head i) else none := by
  have hready : (m.rpqIn k i).deq_ready = m.deq_ready i := rfl
  rw [KillableQueue.Queue.fired, deq_eq, hready, deq_fires]
  cases m.deq_ready i <;> cases m.deq_valid i <;> rfl

/-- What leaves the queue is answered or replayed. -/
theorem deq_fires_iff [NeZero B] : m.deq_fires i = true ↔
    ((m.resp c k i).isSome = true ∧ i.resp_ready = true) ∨
      ((m.replay c i).isSome = true ∧ i.replay_ready = true) := by
  unfold deq_fires deq_ready resp replay lb_read
  cases m.state <;> cases m.deq_valid i <;> cases m.drain_load <;> cases i.resp_ready <;>
    cases i.lb_read_ready <;> simp

theorem enq_eq_some {b : ReqBits T n S} (h : m.enq k i = some b) :
    (m.pri_fires i = true ∨ m.sec_fires k i = true) ∧ b = i.req := by
  unfold enq at h
  split_ifs at h with hf
  exact ⟨by simpa using (Bool.and_eq_true_iff.1 hf).1, (Option.some.inj h).symm⟩

/-- A request that is taken is not the one that clears. -/
theorem not_clears_of_sec (hx : i.Exclusive) (h : m.sec_fires k i = true) : m.clears k i = false := by
  obtain ⟨hv, hr⟩ := (Bool.and_eq_true_iff.1 h)
  have hp : i.req_is_probe = false := by
    unfold req_sec_rdy sec_rdy at hr
    simp only [Bool.and_eq_true, Bool.not_eq_true'] at hr
    exact hr.1.1.2
  rw [clears, hv, hr, hx.sec hv hp]
  rfl

theorem not_clears_of_pri (hx : i.Exclusive) (h : i.req_pri_val = true) :
    m.clears k i = false ∧ m.sec_fires k i = false := by
  obtain ⟨hs, hc⟩ := hx.pri h
  rw [clears, sec_fires, hs, hc]
  exact ⟨rfl, rfl⟩

/-- **A primary request that is taken is handled.** -/
theorem handles_eq (hx : i.Exclusive) : m.handles k i = m.pri_fires i := by
  unfold handles pri_fires req_pri_rdy
  cases hs : m.state <;> cases hv : i.req_pri_val <;> simp
  exact not_clears_of_pri hx hv

theorem pri_state_open : (pri_state k i).closed = false := by
  unfold pri_state
  split_ifs <;> rfl

/-- Nothing comes in on the way into a state in which nothing waits. -/
theorem of_closed_next [NeZero R] [NeZero B] {e : Bool} (hx : i.Exclusive)
    (h : (m.next c k i e).state.closed = true) :
    m.enq k i = none ∧ (m.state.closed = true ∨ m.rpq.q.empty = true) := by
  have hnone : m.pri_fires i = false → m.sec_fires k i = false → m.enq k i = none := by
    intro hp hs
    rw [enq, hp, hs]
    rfl
  have hsec : m.state = .s_invalid ∨ m.state = .s_meta_write_req ∨ m.state = .s_mem_finish_1 ∨
      m.state = .s_mem_finish_2 → m.sec_fires k i = false := by
    intro hst
    rcases hst with hst | hst | hst | hst <;> simp [sec_fires, req_sec_rdy, sec_rdy, hst]
  have hpri : m.req_pri_rdy = false → m.pri_fires i = false := by
    intro hr
    rw [pri_fires, hr, Bool.and_false]
  change (m.state_next c k i).closed = true at h
  cases hst : m.state with
  | s_invalid =>
    simp only [state_next, hst] at h
    refine ⟨hnone ?_ (hsec (.inl hst)), .inl rfl⟩
    rw [← handles_eq (k := k) hx, Bool.eq_false_iff]
    intro hh
    rw [if_pos hh, pri_state_open] at h
    cases h
  | s_drain_rpq_loads =>
    simp only [state_next, hst] at h
    split_ifs at h with h1 h2 h3 <;> cases h
    exact ⟨by simpa using h3, .inr (Bool.and_eq_true_iff.1 h2).1⟩
  | s_drain_rpq =>
    simp only [state_next, hst] at h
    split_ifs at h with h1
    · obtain ⟨he, hn⟩ := Bool.and_eq_true_iff.1 h1
      exact ⟨Option.isNone_iff_eq_none.1 hn, .inr he⟩
    · cases h
  | s_meta_write_req =>
    exact ⟨hnone (hpri (by simp [req_pri_rdy, hst])) (hsec (.inr (.inl hst))), .inl rfl⟩
  | s_mem_finish_1 =>
    exact ⟨hnone (hpri (by simp [req_pri_rdy, hst])) (hsec (.inr (.inr (.inl hst)))), .inl rfl⟩
  | s_mem_finish_2 =>
    exact ⟨hnone (hpri (by simp [req_pri_rdy, hst])) (hsec (.inr (.inr (.inr hst)))), .inl rfl⟩
  | s_prefetch =>
    simp only [state_next, hst] at h
    split_ifs at h with h1 h2 h3 h4 <;> try cases h
    · refine ⟨hnone ?_ ?_, .inl rfl⟩
      · rw [Bool.eq_false_iff]
        intro hp
        rw [(not_clears_of_pri hx (Bool.and_eq_true_iff.1 hp).1).1] at h1
        cases h1
      · rw [Bool.eq_false_iff]
        intro hs
        rw [not_clears_of_sec hx hs] at h1
        cases h1
    · rw [pri_state_open] at h
      cases h
    · refine ⟨hnone ?_ (by simpa using h2), .inl rfl⟩
      rw [← handles_eq (k := k) hx]
      simpa using h4
  | _ =>
    simp only [state_next, hst] at h
    exfalso
    revert h
    repeat' split
    all_goals simp [MshrState.closed]

/-- **A free register has an empty queue**, and so have those that are about to be
    free. -/
theorem closed_next [NeZero R] [NeZero B] {e : Bool} (hring : m.rpq.Ring) (hx : i.Exclusive)
    (h : m.state.closed = true → m.rpq.occupied = 0)
    (hc : (m.next c k i e).state.closed = true) : (m.next c k i e).rpq.occupied = 0 := by
  obtain ⟨hnone, hwhy⟩ := of_closed_next hx hc
  have hzero : m.rpq.occupied = 0 := by
    rcases hwhy with hcl | hem
    · exact h hcl
    · exact KillableQueue.occupied_of_empty hring hem
  have hle := KillableQueue.occupied_next_le (c := rpqConfig T) (i := m.rpqIn k i) hring
  have henq : (m.rpqIn k i).enq = none := hnone
  rw [henq, hzero] at hle
  exact Nat.le_zero.1 hle

/-! ## The line -/

/-- What waits is for the line of the register. -/
def SameLine [NeZero R] (c : Params) (m : Mshr T n S R B) : Prop :=
  ∀ x ∈ m.rpq.waiting, c.block x.bits.data.addr = c.block m.req.data.addr

theorem req_next_of_handles (h : m.handles k i = true) : m.req_next k i = i.req := by
  rw [req_next, if_pos h]

/-- The line changes with a primary request only. -/
theorem addr_req_next (h : m.handles k i = false) :
    (m.req_next k i).data = m.req.data := by
  rw [req_next, h, if_neg Bool.false_ne_true]
  split_ifs <;> rfl

theorem sameLine_next [NeZero R] [NeZero B] {e : Bool} (hring : m.rpq.Ring) (hx : i.Exclusive)
    (hc : m.state.closed = true → m.rpq.waiting = []) (h : m.SameLine c)
    (hsec : i.req_sec_val = true → c.block i.req.data.addr = c.block m.req.data.addr) :
    (m.next c k i e).SameLine c := by
  intro x hmem
  change c.block x.bits.data.addr = c.block (m.req_next k i).data.addr
  rcases KillableQueue.mem_waiting_next hring hmem with ⟨y, hy, hupd⟩ | ⟨b, hb, he⟩
  · have hdata : x.bits.data = y.bits.data := by
      rw [(KillableQueue.bits_of_upd hupd).2]
      rfl
    have hno : m.handles k i = false := by
      rw [handles_eq hx, Bool.eq_false_iff]
      intro hp
      have hcl : m.state.closed = true := by
        rcases Bool.or_eq_true_iff.1 (Bool.and_eq_true_iff.1 hp).2 with hs | hs <;>
          rw [of_decide_eq_true hs] <;> rfl
      rw [hc hcl] at hy
      cases hy
    rw [hdata, addr_req_next hno]
    exact h y hy
  · have henq := (KillableQueue.not_full_of_accepts (KillableQueue.accepts_of_do_enq hb)).2
    obtain ⟨hf, rfl⟩ := enq_eq_some henq
    have hdata : x.bits.data = i.req.data := by
      rw [he]
      rfl
    rw [hdata]
    rcases hf with hp | hs
    · rw [req_next_of_handles (by rw [handles_eq hx, hp])]
    · have hno : m.handles k i = false := by
        rw [handles_eq hx, Bool.eq_false_iff]
        intro hp
        rw [(not_clears_of_pri hx (Bool.and_eq_true_iff.1 hp).1).2] at hs
        cases hs
      rw [addr_req_next hno]
      exact hsec (Bool.and_eq_true_iff.1 hs).1

end

end Mshr

end BoomStop.Misses
