/-
  The data cache as a whole (`BoomNonBlockingDCacheModule` in `dcache.scala`): the
  pipeline, the miss file, the probe unit and the writeback unit, with the arbiters
  between them and the channels of TileLink.  The order in which the arbiter of
  channel C serves the units is an input.

  * `Cache.fileIn`, `pipeIn`, `wbIn`, `proberIn`: what each part gets from the
    others;
  * `Cache.next`: one cycle;
  * `dcache`: the cache as a machine, with what its surroundings promise
    (`Cache.Ok`).
-/
import BoomStop.MshrSets
import BoomStop.LineUnits

namespace BoomStop.Coherence

open Sync
open DCache (MemCmd Meta Params Row ReqType DataWrite mux1H)
open Misses (FileIn Fields ReqBits Grant MetaWrite MetaRead WritebackReq)
open Issue (BrUpdate getNewBrMask)

variable {T n S R B N K M : ℕ}

/-- What happens to a line that is given up: the LSU is told, a message is sent, the
    probe unit writes the metadata. -/
inductive Event (n : ℕ)
  | announce (message : Release)
  | send (message : Release)
  | update (write : MetaWrite n)

/-- The registers.  Ghosts: the type of the request in s3; the probes that were accepted
    and what was done for them; the lines that the MSHRs gave up, and what was done for
    them. -/
structure Cache (T n S R B N K M : ℕ) where
  pipe : DCache.State T (M + 1) n
  mshrs : Misses.File T n S R B N K
  wb : Wb n
  prober : Prober n
  s3_type : ReqType
  probes : List Probe
  answers : List (Event n)
  evicted : List (WritebackReq n)
  releases : List (Event n)

/-- The inputs of a cycle. -/
structure CacheIn (T n M : ℕ) where
  /-- `io.lsu` -/
  lsu_req_valid : Bool
  lsu_valid : Fin (M + 1) → Bool
  lsu_req : Fin (M + 1) → DCache.Req T
  s1_kill : Fin (M + 1) → Bool
  brupdate : BrUpdate T
  exception : Bool
  force_order : Bool
  lsu_release_ready : Bool
  prefetch : Option (DCache.Req T)
  /-- `UIntToOH(replacer.way)` -/
  replaced_way : Fin n → Bool
  /-- channels A to E -/
  acquire_ready : Bool
  probe : Option Probe
  release_ready : Bool
  rep_ready : Bool
  grant : Option Grant
  finish_ready : Bool
  /-- what a wire carries that nothing drives -/
  undriven : Bool

/-- What is left open in `NullMicroOp` is 0. -/
def nullMicroOp : DCache.Uop T where
  mem_cmd := .M_XRD
  mem_size := 0
  mem_signed := false
  uses_ldq := false
  uses_stq := false
  br_mask _ := false
  rob_idx := 0

/-- A request that nobody made. -/
def nullReq (addr : ℕ) : DCache.Req T := ⟨nullMicroOp, addr, 0, false⟩

/-- The uop of a request that is replayed. -/
def uopOf (u : KillableQueue.MicroOp T Fields) : DCache.Uop T where
  mem_cmd := u.fields.mem_cmd
  mem_size := u.fields.mem_size
  mem_signed := u.fields.mem_signed
  uses_ldq := u.fields.uses_ldq
  uses_stq := u.fields.uses_stq
  br_mask := u.br_mask
  rob_idx := u.fields.rob_idx

/-- What the miss file looks at in a uop. -/
def fieldsOf (number : ℕ) (u : DCache.Uop T) : Fields :=
  ⟨number, u.mem_cmd, u.mem_size, u.mem_signed, u.uses_ldq, u.uses_stq, u.rob_idx⟩

/-- The first address of a line. -/
def Cfg.lineAddr (g : Cfg B) (tag idx : ℕ) : ℕ :=
  (tag * g.params.nSets + idx) * g.params.blockBytes

namespace Cache

/-- The way of a set has the line. -/
def found (g : Cfg B) (set : Fin n → Meta) (tag : ℕ) (way : Fin n) : Bool :=
  (set way).tag = tag && g.client.isValid (set way).coh

/-- A way of a set holds the line. -/
def has (g : Cfg B) (s : Cache T n S R B N K M) (idx tag : ℕ) (way : Fin n) : Bool :=
  found g (s.pipe.tags idx) tag way

section

variable [NeZero S] [NeZero B] (g : Cfg B) (s : Cache T n S R B N K M) (i : CacheIn T n M)

/-! ### What is known before the arbiters -/

/-- `mshrs.io.req(w).bits`; the file numbers its requests. -/
def fileReq (w : Fin (M + 1)) : ReqBits T n S :=
  let q := s.pipe.s2.req w
  let repl : Meta :=
    ⟨mux1H s.pipe.s2_replaced_way_en fun way => (s.pipe.s2_meta w way).tag,
      mux1H s.pipe.s2_replaced_way_en fun way => (s.pipe.s2_meta w way).coh⟩
  let tag_match := s.pipe.s2_tag_match w
  ⟨⟨q.addr, q.data, q.is_hella, tag_match,
      if tag_match then ⟨repl.tag, s.pipe.s2_hit_state w⟩ else repl,
      if tag_match then s.pipe.s2_tag_match_way w else s.pipe.s2_replaced_way_en,
      0⟩,
    ⟨fieldsOf s.mshrs.accepted.length q.uop, getNewBrMask i.brupdate q.uop.br_mask⟩⟩

/-- `mshrs.io.meta_resp` -/
def meta_resp : Option Meta :=
  if !s.pipe.s2_nack_hit 0 || s.prober.mshr_wb_rdy then
    some ⟨mux1H (s.pipe.s2_tag_match_way 0) fun way => (s.pipe.s2_meta 0 way).tag,
      mux1H (s.pipe.s2_tag_match_way 0) fun way => (s.pipe.s2_meta 0 way).coh⟩
  else none

/-- What the miss file gets, less the requests that miss and what is taken of it. -/
def looked : FileIn T n S M where
  req_valid _ := false
  req := s.fileReq i
  req_is_probe w := s.pipe.s2.type = .t_probe && s.pipe.s2.valid w
  resp_ready := false
  brupdate := i.brupdate
  exception := i.exception
  mem_acquire_ready := i.acquire_ready
  mem_grant := i.grant.filter fun d => d.source ≠ N
  mem_finish_ready := i.finish_ready
  refill_ready := false
  meta_write_ready := false
  meta_read_ready := false
  meta_resp := s.meta_resp
  replay_ready := false
  wb_req_ready := false
  prober_state := s.prober.io_state
  clear_all := i.force_order
  wb_resp := s.wb.resp B
  undriven := i.undriven

/-- What the pipeline gets, less the request of the cycle. -/
def missed : DCache.In T (M + 1) n where
  grant := none
  lsu_valid _ := false
  s0_req _ := nullReq 0
  way_en _ := false
  s1_kill := i.s1_kill
  exception := i.exception
  brupdate := i.brupdate
  prober_idx := s.prober.io_state.map g.params.idx
  wb_idx := s.wb.idx
  block_hit := s.mshrs.block_hit g.toCfg (s.looked i)
  secondary_miss := s.mshrs.secondary_miss g.toCfg (s.looked i)
  mshr_ready _ := false
  replaced_way := i.replaced_way
  meta_write := none
  refill := none

/-- What the miss file gets, with the requests that miss. -/
def asked : FileIn T n S M :=
  { s.looked i with req_valid := s.pipe.mshr_valid g.params g.client.toRocket (s.missed g i) }

/-- The same for the pipeline, with those that can be taken. -/
def nacked : DCache.In T (M + 1) n :=
  { s.missed g i with mshr_ready := s.mshrs.req_ready g.toCfg (s.asked g i) }

/-! ### The arbiters -/

/-- `metaWriteArb` -/
def meta_write : Option (MetaWrite n) :=
  (Priority.chosen (s.mshrs.metaWrites g.toCfg)).or (s.prober.meta_write g)

/-- The metadata can be read. -/
def meta_free : Bool := (s.meta_write g).isNone

/-- The replay of the miss file. -/
def replay : Option (ReqBits T n S) := s.mshrs.replay g.toCfg (s.asked g i)

/-- The read of metadata for an MSHR. -/
def mshr_meta_read : Option (MetaRead n) :=
  Priority.chosen (s.mshrs.metaReads g.toCfg (s.asked g i))

/-- `metaReadArb` and `dataReadArb` -/
def grant : Option ReqType :=
  if !s.meta_free g then none
  else if (s.replay g i).isSome then some .t_replay
  else if s.prober.reads then some .t_probe
  else if s.wb.reads B then some .t_wb
  else if (s.mshr_meta_read g i).isSome then some .t_mshr_meta_read
  else if i.lsu_req_valid then some .t_lsu
  else if i.prefetch.isSome then some .t_prefetch
  else none

/-- `wbArb` -/
def wb_req : Option (WritebackReq n) :=
  (s.prober.wb_req g).or (Priority.chosen (s.mshrs.wbReqs g.toCfg (s.asked g i)))

/-- `s0_req`; only that of pipe 0 is valid if it is not from the LSU. -/
def s0_req (w : Fin (M + 1)) : DCache.Req T :=
  match s.grant g i with
  | some .t_lsu => i.lsu_req w
  | some .t_wb => nullReq (s.wb.read_addr g)
  | some .t_probe => nullReq (g.lineAddr (s.prober.req_tag g) (s.prober.req_idx g))
  | some .t_prefetch => i.prefetch.getD (nullReq 0)
  | some .t_mshr_meta_read =>
    match s.mshr_meta_read g i with
    | some x => nullReq (g.lineAddr x.tag x.idx)
    | none => nullReq 0
  | _ =>
    match s.replay g i with
    | some q => ⟨uopOf q.uop, q.data.addr, q.data.data, q.data.is_hella⟩
    | none => nullReq 0

/-- The ways of a replay, a writeback or a read of the miss file. -/
def way_en (way : Fin n) : Bool :=
  match s.grant g i with
  | some .t_wb => s.wb.req.way_en way
  | some .t_mshr_meta_read => (s.mshr_meta_read g i).any fun x => x.way_en way
  | _ => (s.replay g i).any fun q => q.data.way_en way

/-! ### What each part gets -/

/-- What the pipeline gets. -/
def pipeIn : DCache.In T (M + 1) n :=
  { s.nacked g i with
    grant := s.grant g i
    lsu_valid := i.lsu_valid
    s0_req := s.s0_req g i
    way_en := s.way_en g i
    meta_write := (s.meta_write g).map fun x => (x.idx, x.way_en, x.data)
    refill := Priority.chosen (s.mshrs.refills g.toCfg (s.asked g i)) }

/-- The cache leaves a port of the LSU to the miss file. -/
def port_free : Bool := (List.finRange (M + 1)).any fun w =>
  (s.pipe.cacheResp g.params g.client.toRocket (s.nacked g i) w).isNone

/-- What the miss file gets. -/
def fileIn : FileIn T n S M :=
  { s.asked g i with
    resp_ready := s.port_free g i
    refill_ready := !s.pipe.s3.valid
    meta_write_ready := true
    meta_read_ready := s.meta_free g && !(s.replay g i).isSome && !s.prober.reads && !s.wb.reads B
    replay_ready := s.meta_free g
    wb_req_ready := s.wb.req_ready && (s.prober.wb_req g).isNone }

/-- What the writeback unit gets. -/
def wbIn : WbIn n where
  id := N
  req := s.wb_req g i
  meta_read_ready := s.meta_free g && !(s.replay g i).isSome && !s.prober.reads
  data_req_ready := s.meta_free g && !(s.replay g i).isSome && !s.prober.reads
  data_resp k := mux1H (s.pipe.s2_tag_match_way 0) fun way => s.pipe.data_regs.resp g.params 0 way k
  mem_grant := i.grant.any fun d => d.source = N
  release_ready := i.release_ready
  lsu_release_ready := i.lsu_release_ready

/-- What the probe unit gets. -/
def proberIn : ProberIn n where
  req := if s.pipe.lrsc_valid g.params then none else i.probe
  rep_ready := i.rep_ready
  meta_read_ready := s.meta_free g && !(s.replay g i).isSome
  meta_write_ready := (Priority.chosen (s.mshrs.metaWrites g.toCfg)).isNone
  wb_req_ready := s.wb.req_ready
  way_en := s.pipe.s2_tag_match_way 0
  wb_rdy := s.wb.idx ≠ some (s.prober.req_idx g)
  mshr_rdy := s.mshrs.probe_rdy g.toCfg (s.asked g i)
  block_state := s.pipe.s2_hit_state 0
  lsu_release_ready := i.lsu_release_ready && (s.wb.lsu_release g (s.wbIn g i)).isNone

/-! ### What is done for a line -/

/-- A probe that is accepted. -/
def accepts : Option Probe := if s.prober.req_ready then (s.proberIn g i).req else none

/-- What the LSU is told by the writeback unit, and what it sends. -/
def wb_events : List (Event n) :=
  (if i.lsu_release_ready then (s.wb.lsu_release g (s.wbIn g i)).toList.map .announce else []) ++
    if i.release_ready then (s.wb.release g (s.wbIn g i)).toList.map .send else []

/-- What the probe unit does in the cycle. -/
def prober_events : List (Event n) :=
  (if (s.proberIn g i).lsu_release_ready then (s.prober.lsu_release g).toList.map .announce else []) ++
    (if i.rep_ready then (s.prober.rep g).toList.map .send else []) ++
    if (s.proberIn g i).meta_write_ready then (s.prober.meta_write g).toList.map .update else []

/-- A line that an MSHR gives up. -/
def evicts : Option (WritebackReq n) :=
  if s.wb.req_ready then (s.wb_req g i).filter (·.voluntary) else none

/-! ### A cycle -/

/-- One cycle. -/
def next [NeZero R] [NeZero N] : Cache T n S R B N K M where
  pipe := s.pipe.next g.params g.client.toRocket (s.pipeIn g i)
  mshrs := s.mshrs.next g.toCfg (s.fileIn g i)
  wb := s.wb.next (s.wbIn g i) B
  prober := s.prober.next g (s.proberIn g i)
  s3_type := s.pipe.s2.type
  probes := s.probes ++ (s.accepts g i).toList
  answers := s.answers ++ s.prober_events g i ++ if s.wb.req.voluntary then [] else s.wb_events g i
  evicted := s.evicted ++ (s.evicts g i).toList
  releases := s.releases ++ if s.wb.req.voluntary then s.wb_events g i else []

/-! ### The machine -/

/-- What the surroundings promise.  The LSU kills requests of its own only; they are no
    prefetches, and its stores are not speculative.  Those of the prefetcher are, of cached
    lines.  Memory sends the
    beats of a line one after the other and wants a grant to be acknowledged; it grants
    permission without data only for a line that the cache holds, and not while it waits
    for the answer to a probe of this line. -/
structure Ok : Prop where
  kill : ∀ w, i.s1_kill w = true → s.pipe.s1.type = .t_lsu
  store : ∀ w, i.lsu_valid w = true → (i.lsu_req w).uop.mem_cmd.isWrite = true →
    (∀ t, (i.lsu_req w).uop.br_mask t = false) ∧ (i.lsu_req w).uop.uses_ldq = false
  demand : ∀ w, i.lsu_valid w = true → (i.lsu_req w).uop.mem_cmd.isPrefetch = false
  prefetch : ∀ q, i.prefetch = some q → q.uop.mem_cmd.isPrefetch = true ∧ g.cacheable q.addr = true
  replaced : ∃ way, ∀ way', i.replaced_way way' = true ↔ way' = way
  burst : ∀ d (j : Fin N), i.grant = some d → d.source = j.val → (s.mshrs.mshrs j).burst ≠ 0 →
    d.hasData = true
  ack : ∀ d (j : Fin N), i.grant = some d → d.source = j.val → d.isRequest = true
  upgrade : ∀ d (j : Fin N), i.grant = some d → d.source = j.val → d.hasData = false →
    (s.mshrs.mshrs j).new_coh ≠ g.client.onReset
  probed : ∀ d (j : Fin N), i.grant = some d → d.source = j.val → d.hasData = false →
    s.prober.owes = true → g.params.block (s.mshrs.mshrs j).req.data.addr ≠
      g.params.block s.prober.req.address

/-- Nothing is on its way, and no line is in two ways. -/
structure Reset [NeZero R] [NeZero N] : Prop where
  s1 : ∀ w, s.pipe.s1.valid w = false
  s2 : ∀ w, s.pipe.s2.valid w = false
  s3 : s.pipe.s3.valid = false
  lrsc_count : s.pipe.lrsc_count = 0
  mshrs : s.mshrs.Reset
  wb : s.wb.state = .s_invalid
  r1_data_req_fired : s.wb.r1_data_req_fired = false
  r2_data_req_fired : s.wb.r2_data_req_fired = false
  prober : s.prober.state = .s_invalid
  unique : ∀ idx tag way way', s.has g idx tag way = true → s.has g idx tag way' = true → way = way'
  probes : s.probes = []
  answers : s.answers = []
  evicted : s.evicted = []
  releases : s.releases = []

end

end Cache

open Cache in
/-- The data cache, from reset. -/
def dcache [NeZero S] [NeZero R] [NeZero B] [NeZero N] (g : Cfg B) :
    Machine (Cache T n S R B N K M) (CacheIn T n M) where
  start s := s.Reset g
  ok s i := s.Ok g i
  next s i := s.next g i

/-! ## A small cache

Two ways, two sets and two MSHRs, one pipe and lines of two rows.  Way 1 of set 0 has a
dirty line. -/

namespace Small

/-- `ClientMetadata`: nothing, branch, trunk and dirty. -/
def client : Misses.Client where
  isValid c := c ≠ 0
  onAccess c cmd := if cmd.isWrite then (1 < c.toNat, 3) else (c ≠ 0, c)
  loadGen := Misses.Small.client.loadGen
  loadGen_eq := Misses.Small.client.loadGen_eq
  amoalu _ _ _ _ x := x
  onReset := 0
  growParam _ _ := 0
  onSecondaryAccess c first second :=
    (second.isWrite && !first.isWrite, c ≠ 0, c, if second.isWrite then second else first)
  miss_onReset _ _ := rfl
  onGrant cmd _ := if cmd.isWrite then 3 else 2
  onFlush c := (c = 3, c.toNat, 0)
  addr_inc := Misses.Small.client.addr_inc
  last_iff := Misses.Small.client.last_iff
  count_eq := Misses.Small.client.count_eq
  counter_eq := Misses.Small.client.counter_eq

/-- Two ways, two beats to a line, and the states of `ClientMetadata`. -/
def cfg : Cfg 2 where
  params := ⟨2, 16, 1, 1, 4, 80, 3⟩
  client := client
  cacheable _ := true
  enablePrefetching := false
  lowest := Misses.Small.cfg.lowest
  lowest_iff := Misses.Small.cfg.lowest_iff
  onProbe c param := (c = 3, c.toNat, if param = 2 then 0 else if c = 0 then 0 else 1)
  blockBytes := rfl
  rows := rfl
  beats := by decide
  rowWords := by decide
  nSets := by decide

/-- An empty stage. -/
def idleStage : DCache.Stage 1 1 := ⟨fun _ => false, fun _ => nullReq 0, .t_replay, fun _ => false⟩

/-- No store. -/
def idleStore : DCache.StoreReg 2 := ⟨false, 0, 0, fun _ => false⟩

/-- The dirty line has tag 5; its words are 100 and 101. -/
def warm : Cache 1 2 2 2 2 2 1 0 where
  pipe := {
    tags := fun idx way => if idx = 0 ∧ way = 1 then ⟨5, 3⟩ else ⟨0, 0⟩
    data := fun way _ k _ => BitVec.ofNat 64 (100 * way.val + k)
    data_regs := ⟨fun _ => 0, fun _ => 0, fun _ => false, fun _ _ _ => 0, fun _ _ _ => 0, fun _ => 0,
      fun _ => false, fun _ _ _ => 0, fun _ _ _ => 0⟩
    s1 := idleStage
    s1_meta := fun _ _ => ⟨0, 0⟩
    s1_way_en := fun _ => false
    s2 := idleStage
    s2_meta := fun _ _ => ⟨0, 0⟩
    s2_tag_match_way := fun _ _ => false
    s2_nack_hit := fun _ => false
    s2_wb_idx_matches := fun _ => false
    s2_replaced_way_en := fun _ => false
    s3 := idleStore
    s4 := idleStore
    s5 := idleStore
    lrsc_count := 0
    lrsc_addr := 0 }
  mshrs := Misses.Small.fresh
  wb := ⟨.s_invalid, ⟨0, 0, 0, 0, fun _ => false, false⟩, false, false, 0, 0, 0, fun _ _ => 0, false⟩
  prober := ⟨.s_invalid, ⟨0, 0, 0⟩, fun _ => false, 0⟩
  s3_type := .t_replay
  probes := []
  answers := []
  evicted := []
  releases := []

/-- Everything is taken at once, and nothing asked for. -/
def quiet : CacheIn 1 2 0 where
  lsu_req_valid := false
  lsu_valid _ := false
  lsu_req _ := nullReq 0
  s1_kill _ := false
  brupdate := ⟨fun _ => false, fun _ => false⟩
  exception := false
  force_order := false
  lsu_release_ready := true
  prefetch := none
  replaced_way w := w = 1
  acquire_ready := true
  probe := none
  release_ready := true
  rep_ready := true
  grant := none
  finish_ready := true
  undriven := false

/-- The line is asked for. -/
def probe : CacheIn 1 2 0 := { quiet with probe := some ⟨7, 160, 2⟩ }

/-- A load of another line of the set. -/
def load : CacheIn 1 2 0 :=
  { quiet with
    lsu_req_valid := true
    lsu_valid := fun _ => true
    lsu_req := fun _ => ⟨{ nullMicroOp with mem_size := 3, uses_ldq := true }, 192, 0, false⟩ }

/-- A beat of the line that MSHR 0 acquires. -/
def beat (x : BitVec 64) : CacheIn 1 2 0 :=
  { quiet with grant := some ⟨0, 0, true, true, 5, fun _ => x⟩ }

/-- The promises of the surroundings, as a test: requests are loads, and grants have data. -/
def keeps (_ : Cache 1 2 2 2 2 2 1 0) (i : CacheIn 1 2 0) : Bool :=
  (i.lsu_req 0).uop.mem_cmd = .M_XRD && !i.s1_kill 0 && i.prefetch.isNone &&
    (i.grant.all fun d => d.hasData && d.isRequest) && !i.replaced_way 0 && i.replaced_way 1

theorem ok_of_keeps (s : Cache 1 2 2 2 2 2 1 0) (i : CacheIn 1 2 0) (h : keeps s i = true) :
    s.Ok cfg i := by
  unfold keeps at h
  simp only [Bool.and_eq_true, Bool.not_eq_true', decide_eq_true_eq, Option.isNone_iff_eq_none] at h
  obtain ⟨⟨⟨⟨⟨hc, hk⟩, hp⟩, hg⟩, h0⟩, h1⟩ := h
  have hc : ∀ w, (i.lsu_req w).uop.mem_cmd = .M_XRD := fun w => by
    rw [Fin.eq_zero w]
    exact hc
  have hk : ∀ w, i.s1_kill w ≠ true := fun w => by
    rw [Fin.eq_zero w, hk]
    exact Bool.false_ne_true
  have hg : ∀ d, i.grant = some d → d.hasData = true ∧ d.isRequest = true := fun d hd => by
    rw [hd] at hg
    exact Bool.and_eq_true_iff.1 hg
  have hno : ∀ d, i.grant = some d → d.hasData ≠ false := fun d hd => by
    rw [(hg d hd).1]
    exact Bool.true_eq_false_eq_False
  refine ⟨fun w h => absurd h (hk w), fun w _ hw => ?_, fun w _ => ?_, fun q h => ?_,
    ⟨1, fun way => ?_⟩, fun d _ hd _ _ => (hg d hd).1, fun d _ hd _ => (hg d hd).2,
    fun d _ hd _ hn => absurd hn (hno d hd), fun d _ hd _ hn => absurd hn (hno d hd)⟩
  · rw [hc w] at hw
    cases hw
  · rw [hc w]
    rfl
  · rw [hp] at h
    cases h
  · rcases Fin.exists_fin_two.1 ⟨way, rfl⟩ with rfl | rfl
    · simp [h0]
    · simp [h1]

theorem reset_warm : warm.Reset cfg := by
  refine ⟨fun _ => rfl, fun _ => rfl, rfl, rfl, Misses.Small.reset_fresh, rfl, rfl, rfl, rfl,
    fun idx tag way way' h h' => ?_, rfl, rfl, rfl, rfl⟩
  -- way 0 has no line
  have hone : ∀ a : Fin 2, warm.has cfg idx tag a = true → a = 1 := by
    intro a ha
    by_contra hne
    simp [Cache.has, Cache.found, warm, hne, cfg, client] at ha
  rw [hone way h, hone way' h']

/-- The state of the cache some cycles after the probe, -/
def after (k : ℕ) : Cache 1 2 2 2 2 2 1 0 :=
  (dcache cfg).run warm (probe :: List.replicate k quiet)

/-- and some cycles after the load got its line. -/
def missed (k : ℕ) : Cache 1 2 2 2 2 2 1 0 :=
  (dcache cfg).run warm ([load, quiet, quiet, quiet, beat 11, beat 12] ++ List.replicate k quiet)

theorem passes_quiet (k : ℕ) (s : Cache 1 2 2 2 2 2 1 0) :
    (dcache cfg).passes keeps s (List.replicate k quiet) = true := by
  induction k generalizing s with
  | zero => rfl
  | succ k ih => exact ih _

theorem reach_after (k : ℕ) : (dcache cfg).Reach (after k) :=
  Machine.reach_run _ (.start reset_warm)
    (Machine.accepts_of_passes ok_of_keeps _ _ (passes_quiet k _))

theorem reach_missed (k : ℕ) : (dcache cfg).Reach (missed k) :=
  Machine.reach_run _ (.start reset_warm)
    (Machine.accepts_of_passes ok_of_keeps _ _ (passes_quiet k _))

end Small

end BoomStop.Coherence
