/-
  The fetch pipeline (`frontend.scala`): s0 chooses what to fetch next, s1
  translates, s2 takes what the instruction cache returns, f3 holds a packet
  and f4 a parsed one.  Each of s1, s2 and f3 guesses the next address, and a
  later one overrules the earlier.

  * `Front.next`: a cycle, with predictors, TLB and cache answering anything;
  * `Event`: a redirect of the core, a fetch packet that leaves f4, and the
    cycles that stop fetching;
  * `fetch_chains`: every packet starts where the one before it goes on, none
    leaves twice, and none that was killed leaves at all.

  What the predictors store of the global history is left out: that a history
  has to be corrected is an input.
-/
import BoomStop.FetchParse
import Mathlib.Data.List.Chain

namespace BoomStop.Ifu

open Sync

variable {p : Params}

/-! ## The registers -/

/-- What the predictor says about a slot. -/
structure BranchPrediction (p : Params) where
  predicted_pc_valid : Bool
  predicted_pc : BitVec p.va
  is_jal : Bool
  is_br : Bool
  taken : Bool

/-- The faults of a translation. -/
structure Fault where
  pf_inst : Bool
  ae_inst : Bool

/-- The access faults. -/
def Fault.any (f : Fault) : Bool := f.ae_inst || f.pf_inst

/-- The registers of s1.  Every fetch has a number. -/
structure S1 (p : Params) where
  valid : Bool
  vpc : BitVec p.va
  is_replay : Bool
  replay_resp : Fault
  id : ℕ

/-- The registers of s2. -/
structure S2 (p : Params) where
  valid : Bool
  vpc : BitVec p.va
  is_replay : Bool
  tlb_resp : Fault
  tlb_miss : Bool
  id : ℕ

/-- A packet in f3. -/
structure FrontendResp (p : Params) where
  pc : BitVec p.va
  data : ℕ → BitVec 16
  xcpt : Fault
  id : ℕ

/-- A packet in f4: what the pipeline uses of a `FetchBundle`. -/
structure F4Packet (p : Params) where
  pc : BitVec p.va
  next_pc : BitVec p.va
  xcpt : Fault
  id : ℕ

/-- What happens to the stream of packets. -/
inductive Event (p : Params) where
  /-- the core sends the frontend to an address -/
  | redirect (pc : BitVec p.va)
  /-- the core stops it -/
  | stop
  /-- a packet leaves for the fetch buffer and the fetch target queue -/
  | fire (b : F4Packet p)

/-- The pipeline.  Ghosts: what has happened, the numbers of the fetches that
    were killed, and the next number. -/
structure Front (p : Params) where
  s1 : S1 p
  s2 : S2 p
  /-- `s1_valid`, `s2_valid` of the cache -/
  icache_s1_valid : Bool
  icache_s2_valid : Bool
  f3 : Option (FrontendResp p)
  f4 : Option (F4Packet p)
  regs : F3Regs
  log : List (Event p)
  killed : List ℕ
  count : ℕ

/-- The inputs of a cycle. -/
structure FrontCycle (p : Params) where
  f1_preds : ℕ → BranchPrediction p
  f2_preds : ℕ → BranchPrediction p
  tlb_miss : Bool
  tlb_resp : Fault
  icache_ready : Bool
  icache_hit : Bool
  icache_data : ℕ → BitVec 16
  f2_correct_f1_ghist : Bool
  f3_correct_f1_ghist : Bool
  f3_correct_f2_ghist : Bool
  f3_preds_taken : ℕ → Bool
  f3_preds_predicted_pc : ℕ → BitVec p.va
  ras_read_addr : BitVec p.va
  fb_ready : Bool
  ftq_ready : Bool
  f4_delay : Bool
  sfence : Option (BitVec p.va)
  redirect_flush : Bool
  redirect_val : Bool
  redirect_pc : BitVec p.va

/-- What s0 sends to the cache. -/
structure S0 (p : Params) where
  valid : Bool
  vpc : BitVec p.va
  is_replay : Bool

/-- `f1_predicted_target`, `f2_predicted_target`. -/
def predicted_target (cfg : F3Cfg) (valid : Bool) (vpc : BitVec p.va)
    (preds : ℕ → BranchPrediction p) : BitVec p.va :=
  let redirects i := valid && (fetchMask p vpc).getLsbD i && (preds i).predicted_pc_valid &&
    ((preds i).is_jal || ((preds i).is_br && (preds i).taken))
  match (List.range p.fetchWidth).find? redirects with
  | some i => if cfg.useBPD then (preds i).predicted_pc else nextFetch p vpc
  | none => nextFetch p vpc

/-! ## A cycle -/

namespace Front

variable (cfg : F3Cfg) (s : Front p) (i : FrontCycle p)

/-- The core stops or redirects the frontend. -/
def cancel : Bool := i.sfence.isSome || i.redirect_flush

/-! ### Handshakes -/

/-- `f4.io.deq.ready`: both queues behind have room. -/
def f4_deq_ready : Bool := i.fb_ready && i.ftq_ready && !i.f4_delay

/-- `f4.io.enq.ready`. -/
def f4_ready : Bool := s.f4.isNone || f4_deq_ready i

/-- `f3_ready`: a queue of one entry that passes on and takes in one cycle. -/
def f3_ready : Bool := s.f3.isNone || s.f4_ready i

/-- The instruction cache has the packet of s2. -/
def icache_resp_valid : Bool := s.icache_s2_valid && i.icache_hit

/-! ### Stage 3 -/

/-- What f3 decodes. -/
def f3_in (q : FrontendResp p) : F3In p where
  pc := q.pc
  data := q.data
  preds_taken := i.f3_preds_taken
  preds_predicted_pc := i.f3_preds_predicted_pc
  ras_read_addr := i.ras_read_addr

/-- The packet that goes to f4. -/
def f3_fetch_bundle (q : FrontendResp p) : F4Packet p where
  pc := q.pc
  next_pc := f3_predicted_target cfg (f3_in i q) s.regs
  xcpt := q.xcpt
  id := q.id

/-- The packet that goes from f3 to f4. -/
def f3_fire : Option (F4Packet p) :=
  if s.f4_ready i then s.f3.map (s.f3_fetch_bundle cfg i) else none

/-- The packet in f3 goes on, and what is behind it is not what follows it. -/
def f3_redirect : Bool :=
  (s.f3_fire cfg i).any fun b =>
    (s.s2.valid && (s.s2.vpc != b.next_pc || i.f3_correct_f2_ghist)) ||
      (!s.s2.valid && s.s1.valid && (s.s1.vpc != b.next_pc || i.f3_correct_f1_ghist)) ||
      (!s.s2.valid && !s.s1.valid)

/-! ### Stages 1 and 2 -/

/-- The TLB misses; a replay does not ask it again. -/
def s1_tlb_miss : Bool := !s.s1.is_replay && i.tlb_miss

/-- The faults of s1; a replay brings those of its first try along. -/
def s1_tlb_resp : Fault := if s.s1.is_replay then s.s1.replay_resp else i.tlb_resp

/-- The packet of s2 is a replay. -/
def s2_is_replay : Bool := s.s2.is_replay && s.s2.valid

/-- Where f2 goes on. -/
def f2_predicted_target : BitVec p.va := predicted_target cfg s.s2.valid s.s2.vpc i.f2_preds

/-- The packet in s2 has to be fetched again. -/
def replay : Bool :=
  (s.s2.valid && !s.icache_resp_valid i) ||
    (s.s2.valid && s.icache_resp_valid i && !s.f3_ready i)

/-- What is in s1 is not what follows the packet in s2. -/
def f2_redirect : Bool :=
  !s.replay i && s.s2.valid && s.f3_ready i &&
    ((s.s1.valid && (s.s1.vpc != s.f2_predicted_target cfg i || i.f2_correct_f1_ghist)) ||
      !s.s1.valid)

/-- The packet of s1 is dropped. -/
def f1_clear : Bool :=
  s.replay i || s.f2_redirect cfg i || s.f3_redirect cfg i || cancel i

/-- The packet of s2 is dropped. -/
def f2_clear : Bool := s.f3_redirect cfg i || cancel i

/-! ### Stage 0: a later statement wins -/

/-- Where s0 goes on after s1. -/
def s0_f1 : S0 p :=
  if s.s1.valid && !s.s1_tlb_miss i then
    ⟨!(s.s1_tlb_resp i).any, predicted_target cfg s.s1.valid s.s1.vpc i.f1_preds, false⟩
  else ⟨false, 0, false⟩

/-- The same, after s2, which goes before s1. -/
def s0_f2 : S0 p :=
  if s.replay i then
    ⟨!s.s2.tlb_resp.any || s.s2_is_replay || s.s2.tlb_miss, s.s2.vpc,
      s.s2.valid && s.icache_resp_valid i⟩
  else if s.f2_redirect cfg i then
    ⟨!(s.s2.tlb_resp.any && !s.s2_is_replay), s.f2_predicted_target cfg i, false⟩
  else s.s0_f1 cfg i

/-- The same, after f3, which goes before s2. -/
def s0_f3 : S0 p :=
  match s.f3_fire cfg i with
  | some b =>
    if s.f3_redirect cfg i then ⟨!b.xcpt.any, b.next_pc, false⟩ else s.s0_f2 cfg i
  | none => s.s0_f2 cfg i

/-- What s0 fetches; the core goes before all stages. -/
def s0 : S0 p :=
  match i.sfence with
  | some addr => ⟨false, addr, false⟩
  | none =>
    if i.redirect_flush then ⟨i.redirect_val, i.redirect_pc, false⟩ else s.s0_f3 cfg i

/-! ### The queues -/

/-- The packet that goes from s2 to f3. -/
def f3_enq : Option (FrontendResp p) :=
  if s.s2.valid && !s.f2_clear cfg i &&
      (s.icache_resp_valid i || (s.s2.tlb_resp.any && !s.s2.tlb_miss)) && s.f3_ready i then
    some
      { pc := s.s2.vpc
        data := if s.s2.tlb_resp.any && !s.s2_is_replay then fun _ => 0 else i.icache_data
        xcpt := s.s2.tlb_resp
        id := s.s2.id }
  else none

/-- The queue `f3`, in the next cycle. -/
def nextF3 : Option (FrontendResp p) :=
  if cancel i then none
  else match s.f3_enq cfg i with
    | some q => some q
    | none => if s.f4_ready i then none else s.f3

/-- The packet that leaves f4. -/
def f4_fire : Option (F4Packet p) := if f4_deq_ready i then s.f4 else none

/-- The queue `f4`, in the next cycle. -/
def nextF4 : Option (F4Packet p) :=
  if cancel i then none
  else match s.f3_fire cfg i with
    | some b => some b
    | none => if f4_deq_ready i then none else s.f4

/-- The half that f3 keeps, in the next cycle. -/
def nextRegs : F3Regs :=
  let r := match s.f3 with
    | some q => if s.f4_ready i then F3Regs.fire cfg (f3_in i q) s.regs else s.regs
    | none => s.regs
  if cancel i then r.clear else r

/-- What the core does. -/
def orders : Option (Event p) :=
  if i.sfence.isSome then some .stop
  else if i.redirect_flush then
    if i.redirect_val then some (.redirect i.redirect_pc) else some .stop
  else none

/-- What happens in the cycle. -/
def events : List (Event p) := ((s.f4_fire i).map .fire).toList ++ (orders i).toList

/-- The packets that are dropped. -/
def kills : List ℕ :=
  (if s.f1_clear cfg i && s.s1.valid then [s.s1.id] else []) ++
    if s.f2_clear cfg i && s.s2.valid then [s.s2.id] else []

/-- One cycle. -/
def next : Front p where
  s1 := ⟨(s.s0 cfg i).valid, (s.s0 cfg i).vpc, (s.s0 cfg i).is_replay, s.s2.tlb_resp, s.count⟩
  s2 := ⟨s.s1.valid && !s.f1_clear cfg i, s.s1.vpc, s.s1.is_replay, s.s1_tlb_resp i,
    s.s1_tlb_miss i, s.s1.id⟩
  icache_s1_valid := (s.s0 cfg i).valid && i.icache_ready
  icache_s2_valid := s.icache_s1_valid && !(i.tlb_miss || s.f1_clear cfg i)
  f3 := s.nextF3 cfg i
  f4 := s.nextF4 cfg i
  regs := s.nextRegs cfg i
  log := s.log ++ s.events i
  killed := s.killed ++ s.kills cfg i
  count := s.count + 1

end Front

/-- The frontend after reset, which starts at the reset vector. -/
def frontend (cfg : F3Cfg) : Machine (Front p) (FrontCycle p) where
  start s := s.s1.valid = true ∧ s.s1.is_replay = false ∧ s.s2.valid = false ∧
    s.icache_s2_valid = false ∧ s.f3 = none ∧ s.f4 = none ∧ s.log = [.redirect s.s1.vpc] ∧
    s.killed = [] ∧ s.s1.id < s.count
  ok _ _ := True
  next s i := s.next cfg i

/-! ## The chain -/

/-- Where the packet after an event starts; `none` if there is none. -/
def Event.expects : Event p → Option (BitVec p.va)
  | redirect pc => some pc
  | stop => none
  | fire b => if b.xcpt.any then none else some b.next_pc

/-- A packet starts where the event before it goes on. -/
def Follows (e e' : Event p) : Prop := ∀ b, e' = .fire b → e.expects = some b.pc

/-! ## The invariant -/

namespace Front

variable {cfg : F3Cfg} {s : Front p} {i : FrontCycle p}

/-- The last event. -/
def last (s : Front p) : Event p := s.log.getLast?.getD .stop

/-- The last packet that has been parsed, or the redirect since. -/
def passed (s : Front p) : Event p := (s.f4.map .fire).getD s.last

/-- The invariant: each stage starts where the older one goes on. -/
structure Inv (s : Front p) : Prop where
  chain : s.log.IsChain Follows
  head : ∃ pc, s.log.head? = some (.redirect pc)
  f4 : ∀ b, s.f4 = some b → s.last.expects = some b.pc
  f3 : ∀ q, s.f3 = some q → s.passed.expects = some q.pc
  /-- behind a fault nothing is fetched -/
  f3_fault : ∀ q, s.f3 = some q → q.xcpt.any = true → s.s2.valid = false ∧ s.s1.valid = false
  s2_fault : s.s2.valid = true → s.s2.tlb_resp.any = true → s.s2.is_replay = false →
    s.s2.tlb_miss = false → s.s1.valid = false
  /-- what is next is in the oldest stage that holds anything -/
  s2 : s.f3 = none → s.s2.valid = true → s.passed.expects = some s.s2.vpc
  s1 : s.f3 = none → s.s2.valid = false → s.s1.valid = true →
    s.passed.expects = some s.s1.vpc
  /-- only what was translated is replayed -/
  s1_replay : s.s1.valid = true → s.s1.is_replay = true → s.s1.replay_resp.any = false
  s2_replay : s.s2.valid = true → s.s2.is_replay = true → s.s2.tlb_resp.any = false
  miss : s.icache_s2_valid = true → s.s2.tlb_miss = false

theorem inv_of_start (h : (frontend cfg).start s) : s.Inv := by
  obtain ⟨h1, hr, h2, hc, h3, h4, hl, -⟩ := h
  have hlast : s.passed = .redirect s.s1.vpc := by
    rw [passed, h4, last, hl]
    rfl
  constructor
  · rw [hl]
    exact List.isChain_singleton _
  · exact ⟨s.s1.vpc, by rw [hl]; rfl⟩
  · intro b hb
    rw [h4] at hb
    contradiction
  · intro q hq
    rw [h3] at hq
    contradiction
  · intro q hq
    rw [h3] at hq
    contradiction
  · intro hv
    rw [h2] at hv
    contradiction
  · intro _ hv
    rw [h2] at hv
    contradiction
  · intro _ _ _
    rw [hlast]
    rfl
  · intro _ hv
    rw [hr] at hv
    contradiction
  · intro hv
    rw [h2] at hv
    contradiction
  · intro hv
    rw [hc] at hv
    contradiction

/-! ### What a cycle does to the log -/

theorem last_append (s : Front p) {l : List (Event p)} {e : Event p} (h : l.getLast? = some e) :
    (s.log ++ l).getLast?.getD .stop = e := by
  rw [List.getLast?_append, h]
  rfl

theorem orders_of_not_cancel (hc : cancel i = false) : orders i = none := by
  rw [cancel, Bool.or_eq_false_iff] at hc
  rw [orders, hc.1, hc.2]
  rfl

theorem orders_ne_fire {e : Event p} (h : orders i = some e) (b : F4Packet p) : e ≠ .fire b := by
  rintro rfl
  rw [orders] at h
  split_ifs at h <;> cases h

/-- What is appended in a cycle that the core does not cancel. -/
theorem events_of_not_cancel (hc : cancel i = false) :
    s.events i = ((s.f4_fire i).map .fire).toList := by
  rw [events, orders_of_not_cancel hc]
  exact List.append_nil _

theorem last_next (hc : cancel i = false) :
    (s.next cfg i).last = ((s.f4_fire i).map .fire).getD s.last := by
  rw [last, next, events_of_not_cancel hc]
  cases s.f4_fire i with
  | none => rw [Option.map_none, Option.toList_none, List.append_nil]; rfl
  | some b => exact last_append s rfl

/-- The packet in f4 leaves before another comes. -/
theorem f4_fire_of_f4_ready (hr : s.f4_ready i = true) : s.f4_fire i = s.f4 := by
  rw [f4_ready, Bool.or_eq_true, Option.isNone_iff_eq_none] at hr
  rcases hr with hn | hd
  · rw [f4_fire, hn, ite_self]
  · rw [f4_fire, if_pos hd]

theorem f3_fire_eq_some {b : F4Packet p} (h : s.f3_fire cfg i = some b) :
    s.f4_ready i = true ∧ ∃ q, s.f3 = some q ∧ b = s.f3_fetch_bundle cfg i q := by
  rw [f3_fire] at h
  split_ifs at h with hr
  obtain ⟨q, hq, rfl⟩ := Option.map_eq_some_iff.1 h
  exact ⟨hr, q, hq, rfl⟩

theorem passed_next_of_fire (hc : cancel i = false) {b : F4Packet p}
    (hb : s.f3_fire cfg i = some b) : (s.next cfg i).passed = .fire b := by
  have h4 : (s.next cfg i).f4 = some b := by
    rw [next, nextF4, hc, hb]
    rfl
  rw [passed, h4]
  rfl

theorem passed_next_of_hold (hc : cancel i = false) (hb : s.f3_fire cfg i = none) :
    (s.next cfg i).passed = s.passed := by
  have h4 : (s.next cfg i).f4 = if f4_deq_ready i then none else s.f4 := by
    rw [next, nextF4, hc, hb]
    rfl
  rw [passed, passed, h4, last_next hc, f4_fire]
  split_ifs with hd
  · rfl
  · rfl

theorem isChain_concat {l : List (Event p)} {e : Event p} (h : l.IsChain Follows)
    (he : Follows (l.getLast?.getD .stop) e) : (l ++ [e]).IsChain Follows := by
  refine h.append (List.isChain_singleton e) fun x hx y hy => ?_
  rw [List.head?_cons, Option.mem_some_iff] at hy
  rw [Option.mem_def.1 hx] at he
  exact hy ▸ he

theorem Inv.chain_next (h : s.Inv) : (s.next cfg i).log.IsChain Follows := by
  have hfire : (s.log ++ ((s.f4_fire i).map Event.fire).toList).IsChain Follows := by
    cases hf : s.f4_fire i with
    | none => exact (List.append_nil s.log).symm ▸ h.chain
    | some b =>
      refine isChain_concat h.chain fun b' hb' => ?_
      cases hb'
      refine h.f4 b ?_
      rw [f4_fire] at hf
      split_ifs at hf
      exact hf
  show (s.log ++ s.events i).IsChain Follows
  rw [events, ← List.append_assoc]
  cases ho : orders i with
  | none => exact (List.append_nil _).symm ▸ hfire
  | some e => exact isChain_concat hfire fun b hb => absurd hb (orders_ne_fire ho b)

theorem Inv.head_next (h : s.Inv) : ∃ pc, (s.next cfg i).log.head? = some (.redirect pc) := by
  obtain ⟨pc, hpc⟩ := h.head
  refine ⟨pc, ?_⟩
  show (s.log ++ s.events i).head? = _
  rw [List.head?_append, hpc]
  rfl

/-! ### A cycle that the core cancels -/

theorem s0_of_cancel (hc : cancel i = true) (hv : (s.s0 cfg i).valid = true) :
    orders i = some (.redirect (s.s0 cfg i).vpc) ∧ (s.s0 cfg i).is_replay = false := by
  rw [cancel, Bool.or_eq_true] at hc
  rw [s0] at hv ⊢
  cases hsf : i.sfence with
  | some addr =>
    rw [hsf] at hv
    contradiction
  | none =>
    rw [hsf] at hv hc
    have hflush := hc.resolve_left Bool.false_ne_true
    simp only [hflush, if_true] at hv ⊢
    rw [orders, hsf, hflush, hv]
    exact ⟨rfl, trivial⟩

theorem f1_clear_of_cancel (hc : cancel i = true) : s.f1_clear cfg i = true := by
  rw [f1_clear, hc, Bool.or_true]

variable (cfg s) in
/-- Nothing is left behind s1 when the core cancels. -/
theorem empty_of_cancel (hc : cancel i = true) :
    (s.next cfg i).f3 = none ∧ (s.next cfg i).f4 = none ∧ (s.next cfg i).s2.valid = false := by
  refine ⟨if_pos hc, if_pos hc, ?_⟩
  rw [next, f1_clear_of_cancel hc, Bool.not_true]
  exact Bool.and_false _

theorem Inv.next_of_cancel (h : s.Inv) (hc : cancel i = true) : (s.next cfg i).Inv := by
  obtain ⟨h3, h4, h2⟩ := empty_of_cancel cfg s hc
  have hi : (s.next cfg i).icache_s2_valid = false := by
    rw [next, f1_clear_of_cancel hc, Bool.or_true, Bool.not_true]
    exact Bool.and_false _
  refine ⟨h.chain_next, h.head_next, ?_, ?_, ?_, ?_, ?_, ?_, ?_, ?_, ?_⟩
  · intro b hb
    rw [h4] at hb
    contradiction
  · intro q hq
    rw [h3] at hq
    contradiction
  · intro q hq
    rw [h3] at hq
    contradiction
  · intro hv
    rw [h2] at hv
    contradiction
  · intro _ hv
    rw [h2] at hv
    contradiction
  · intro _ _ hv
    have ho := (s0_of_cancel hc hv).1
    have hl : (s.next cfg i).last = .redirect (s.s0 cfg i).vpc := by
      rw [last, next]
      refine last_append s ?_
      rw [events, ho]
      exact List.getLast?_concat
    rw [passed, h4, Option.map_none, Option.getD_none, hl]
    rfl
  · intro hv hr
    rw [show (s.next cfg i).s1.is_replay = false from (s0_of_cancel hc hv).2] at hr
    contradiction
  · intro hv
    rw [h2] at hv
    contradiction
  · intro hv
    rw [hi] at hv
    contradiction

/-! ### Any other cycle -/

/-- What s1 passes on to s2, if it is not cleared. -/
theorem s2_valid_next (hv : (s.next cfg i).s2.valid = true) :
    s.s1.valid = true ∧ s.f1_clear cfg i = false := by
  simpa [next] using hv

theorem f1_clear_eq_false (hf : s.f1_clear cfg i = false) : s.replay i = false ∧
    s.f2_redirect cfg i = false ∧ s.f3_redirect cfg i = false ∧ cancel i = false := by
  simpa [f1_clear, and_assoc] using hf

theorem s0_of_not_cancel (hc : cancel i = false) : s.s0 cfg i = s.s0_f3 cfg i := by
  rw [cancel, Bool.or_eq_false_iff, Option.isSome_eq_false_iff, Option.isNone_iff_eq_none] at hc
  rw [s0, hc.1, hc.2]
  rfl

/-- A cycle in which f3 does not redirect is left to s2. -/
theorem s0_f3_of_not_redirect (h3 : s.f3_redirect cfg i = false) :
    s.s0_f3 cfg i = s.s0_f2 cfg i := by
  rw [s0_f3]
  split
  · exact if_neg (by rw [h3]; exact Bool.false_ne_true)
  · rfl

/-- When nothing is cleared, s0 is what s1 asks for. -/
theorem s0_of_not_clear (hf : s.f1_clear cfg i = false) : s.s0 cfg i = s.s0_f1 cfg i := by
  obtain ⟨hr, h2, h3, hc⟩ := f1_clear_eq_false hf
  rw [s0_of_not_cancel hc, s0_f3_of_not_redirect h3, s0_f2, hr, h2]
  rfl

theorem s2_fault_next (hv : (s.next cfg i).s2.valid = true)
    (hx : (s.next cfg i).s2.tlb_resp.any = true) (hm : (s.next cfg i).s2.tlb_miss = false) :
    (s.next cfg i).s1.valid = false := by
  obtain ⟨h1, hf⟩ := s2_valid_next hv
  have hx' : (s.s1_tlb_resp i).any = true := hx
  have hm' : s.s1_tlb_miss i = false := hm
  show (s.s0 cfg i).valid = false
  rw [s0_of_not_clear hf, s0_f1, h1, hm', hx']
  rfl

theorem miss_next (hv : (s.next cfg i).icache_s2_valid = true) :
    (s.next cfg i).s2.tlb_miss = false := by
  have hm : i.tlb_miss = false := by
    simp only [next, Bool.and_eq_true, Bool.not_eq_true', Bool.or_eq_false_iff] at hv
    exact hv.2.1
  show (!s.s1.is_replay && i.tlb_miss) = false
  rw [hm, Bool.and_false]

theorem Inv.s2_replay_next (h : s.Inv) (hv : (s.next cfg i).s2.valid = true)
    (hr : (s.next cfg i).s2.is_replay = true) : (s.next cfg i).s2.tlb_resp.any = false := by
  have hr' : s.s1.is_replay = true := hr
  show (s.s1_tlb_resp i).any = false
  rw [s1_tlb_resp, if_pos hr']
  exact h.s1_replay (s2_valid_next hv).1 hr'

/-- What the cache answers was translated. -/
theorem Inv.miss_of_resp (h : s.Inv) (hr : s.icache_resp_valid i = true) : s.s2.tlb_miss = false := by
  rw [icache_resp_valid, Bool.and_eq_true] at hr
  exact h.miss hr.1

/-- Only a packet that was translated without a fault is replayed. -/
theorem Inv.s1_replay_next (h : s.Inv) (hc : cancel i = false)
    (hv : (s.next cfg i).s1.valid = true) (hr : (s.next cfg i).s1.is_replay = true) :
    (s.next cfg i).s1.replay_resp.any = false := by
  have hv' : (s.s0 cfg i).valid = true := hv
  have hr' : (s.s0 cfg i).is_replay = true := hr
  show s.s2.tlb_resp.any = false
  have h2 : s.s0 cfg i = s.s0_f2 cfg i := by
    rw [s0_of_not_cancel hc, s0_f3] at hr' ⊢
    split at hr' <;> try rfl
    split_ifs at hr' ⊢
    rfl
  rw [h2, s0_f2] at hv' hr'
  split_ifs at hv' hr' with hrep hred
  · simp only [Bool.and_eq_true, Bool.or_eq_true, Bool.not_eq_true'] at hv' hr'
    rcases hv' with (hx | hrp) | hm
    · exact hx
    · rw [s2_is_replay, Bool.and_eq_true] at hrp
      exact h.s2_replay hrp.2 hrp.1
    · rw [h.miss_of_resp hr'.2] at hm
      contradiction
  · rw [s0_f1] at hr'
    split_ifs at hr'

/-! ### What goes on to f3 and f4 -/

theorem f3_enq_eq_some {q : FrontendResp p} (h : s.f3_enq cfg i = some q) :
    s.s2.valid = true ∧ s.f3_redirect cfg i = false ∧ s.f3_ready i = true ∧
      q.pc = s.s2.vpc ∧ q.xcpt = s.s2.tlb_resp ∧
      (s.icache_resp_valid i = true ∨ s.s2.tlb_miss = false) := by
  rw [f3_enq, Option.ite_none_right_eq_some] at h
  obtain ⟨hc, hq⟩ := h
  cases hq
  simp only [f2_clear, Bool.and_eq_true, Bool.or_eq_true, Bool.not_eq_true',
    Bool.or_eq_false_iff] at hc
  exact ⟨hc.1.1.1, hc.1.1.2.1, hc.2, rfl, rfl, hc.1.2.imp id And.right⟩

/-- What f3 could take and does not get is fetched again. -/
theorem replay_of_f3_enq (hc : cancel i = false) (hv : s.s2.valid = true)
    (h3 : s.f3_redirect cfg i = false) (hr : s.f3_ready i = true)
    (he : s.f3_enq cfg i = none) : s.replay i = true := by
  have hresp : s.icache_resp_valid i = false := by
    rw [f3_enq] at he
    split_ifs at he with hno
    rw [f2_clear, h3, hc, hv, hr] at hno
    simp only [Bool.or_self, Bool.not_false, Bool.and_self, Bool.true_and, Bool.and_true,
      Bool.or_eq_true, not_or, Bool.not_eq_true] at hno
    exact hno.1
  rw [replay, hv, hresp]
  rfl

theorem s0_of_replay (hc : cancel i = false) (h3 : s.f3_redirect cfg i = false)
    (hr : s.replay i = true) : (s.s0 cfg i).vpc = s.s2.vpc := by
  rw [s0_of_not_cancel hc, s0_f3_of_not_redirect h3, s0_f2, if_pos hr]

/-- The packet that goes on, what follows it, and that what is behind it
    follows it unless f3 redirects. -/
theorem f3_redirect_eq_false {b : F4Packet p} (hb : s.f3_fire cfg i = some b)
    (h : s.f3_redirect cfg i = false) : (s.s2.valid = true → s.s2.vpc = b.next_pc) ∧
      (s.s2.valid = false → s.s1.valid = true ∧ s.s1.vpc = b.next_pc) := by
  rw [f3_redirect, hb, Option.any_some] at h
  constructor
  · intro hv
    simp only [hv, Bool.true_and, Bool.not_true, Bool.false_and, Bool.or_false,
      Bool.or_eq_false_iff, bne_eq_false_iff_eq] at h
    exact h.1
  · intro hv
    cases h1 : s.s1.valid with
    | false =>
      rw [hv, h1] at h
      contradiction
    | true =>
      simp only [hv, h1, Bool.false_and, Bool.not_false, Bool.true_and, Bool.not_true,
        Bool.false_or, Bool.or_false, Bool.or_eq_false_iff, bne_eq_false_iff_eq] at h
      exact ⟨rfl, h.1⟩

theorem f3_redirect_of_none (h : s.f3_fire cfg i = none) : s.f3_redirect cfg i = false := by
  rw [f3_redirect, h]
  rfl

theorem f3_ready_of_fire {b : F4Packet p} (h : s.f3_fire cfg i = some b) :
    s.f3_ready i = true := by
  rw [f3_ready, (f3_fire_eq_some h).1, Bool.or_true]

/-- A packet that goes on without a fault is followed by what it says. -/
theorem Inv.expects_of_fire (h : s.Inv) (hc : cancel i = false) {b : F4Packet p}
    (hb : s.f3_fire cfg i = some b) (hv : s.s2.valid = true ∨ s.s1.valid = true) :
    (s.next cfg i).passed.expects = some b.next_pc := by
  obtain ⟨-, q, hq, rfl⟩ := f3_fire_eq_some hb
  have hx : q.xcpt.any = false := by
    rw [← Bool.not_eq_true]
    intro hx
    obtain ⟨h2, h1⟩ := h.f3_fault q hq hx
    rw [h2, h1] at hv
    exact hv.elim Bool.noConfusion Bool.noConfusion
  rw [passed_next_of_fire hc hb]
  exact if_neg (by rw [show (s.f3_fetch_bundle cfg i q).xcpt = q.xcpt from rfl, hx]
                   exact Bool.false_ne_true)

/-- f3 is empty after a cycle in which nothing leaves it only if it was
    empty. -/
theorem f3_of_nextF3 (hc : cancel i = false) (h3 : s.nextF3 cfg i = none) :
    s.f3_enq cfg i = none ∧ (s.f3_fire cfg i = none → s.f3 = none) := by
  rw [nextF3, hc, if_neg Bool.false_ne_true] at h3
  cases he : s.f3_enq cfg i with
  | some q =>
    rw [he] at h3
    contradiction
  | none =>
    refine ⟨rfl, fun hf => ?_⟩
    simp only [he] at h3
    rw [f3_fire] at hf
    split_ifs at h3 hf with hr
    · exact Option.map_eq_none_iff.1 hf
    · exact h3

theorem f3_ready_of_none (h : s.f3 = none) : s.f3_ready i = true := by
  rw [f3_ready, h]
  rfl

/-- What is in f3 after a cycle came from s2, or stays. -/
theorem nextF3_eq_some (hc : cancel i = false) {q : FrontendResp p}
    (h : s.nextF3 cfg i = some q) :
    s.f3_enq cfg i = some q ∨
      s.f3_enq cfg i = none ∧ s.f4_ready i = false ∧ s.f3 = some q := by
  rw [nextF3, hc, if_neg Bool.false_ne_true] at h
  cases he : s.f3_enq cfg i with
  | some q' =>
    simp only [he, Option.some.injEq] at h
    exact .inl (congrArg some h)
  | none =>
    simp only [he] at h
    split_ifs at h with hr
    exact .inr ⟨rfl, Bool.eq_false_iff.2 hr, h⟩

/-- What is in f4 after a cycle came from f3, or stays. -/
theorem nextF4_eq_some (hc : cancel i = false) {b : F4Packet p}
    (h : s.nextF4 cfg i = some b) :
    s.f3_fire cfg i = some b ∨
      s.f3_fire cfg i = none ∧ f4_deq_ready i = false ∧ s.f4 = some b := by
  rw [nextF4, hc, if_neg Bool.false_ne_true] at h
  cases hf : s.f3_fire cfg i with
  | some b' =>
    simp only [hf, Option.some.injEq] at h
    exact .inl (congrArg some h)
  | none =>
    simp only [hf] at h
    split_ifs at h with hd
    exact .inr ⟨rfl, Bool.eq_false_iff.2 hd, h⟩

/-- What comes from s2 finds f3 empty, or sees its packet leave. -/
theorem f3_of_f3_enq {q : FrontendResp p} (he : s.f3_enq cfg i = some q)
    (hf : s.f3_fire cfg i = none) : s.f3 = none := by
  have hr := (f3_enq_eq_some he).2.2.1
  rw [f3_ready, Bool.or_eq_true, Option.isNone_iff_eq_none] at hr
  refine hr.elim id fun hr => ?_
  rw [f3_fire, if_pos hr] at hf
  exact Option.map_eq_none_iff.1 hf

/-- Nothing is left in s2 without being fetched again. -/
theorem s2_of_not_replay (hc : cancel i = false) (hred : s.f3_redirect cfg i = false)
    (hrep : s.replay i = false) (he : s.f3_enq cfg i = none) (hr : s.f3_ready i = true) :
    s.s2.valid = false := by
  rw [← Bool.not_eq_true]
  intro h2
  rw [replay_of_f3_enq hc h2 hred hr he] at hrep
  contradiction

/-- With s2 empty, what is in s1 goes on. -/
theorem s1_of_s2_next (hc : cancel i = false) (hred : s.f3_redirect cfg i = false)
    (hs2 : s.s2.valid = false) (h2 : (s.next cfg i).s2.valid = false) : s.s1.valid = false := by
  have hclear : s.f1_clear cfg i = false := by
    rw [f1_clear, replay, f2_redirect, hs2, hred, hc]
    simp
  have h2' : (s.s1.valid && !s.f1_clear cfg i) = false := h2
  rwa [hclear, Bool.not_false, Bool.and_true] at h2'

/-- With s1 and s2 empty, nothing is asked for. -/
theorem s0_of_empty (hc : cancel i = false) (hred : s.f3_redirect cfg i = false)
    (h1 : s.s1.valid = false) (h2 : s.s2.valid = false) : (s.s0 cfg i).valid = false := by
  rw [s0_of_not_cancel hc, s0_f3_of_not_redirect hred, s0_f2, replay, f2_redirect, h2, s0_f1, h1]
  simp

/-! ### The stages after the cycle -/

theorem Inv.f4_next (h : s.Inv) (hc : cancel i = false) {b : F4Packet p}
    (hb : (s.next cfg i).f4 = some b) : (s.next cfg i).last.expects = some b.pc := by
  rw [last_next hc]
  rcases nextF4_eq_some hc hb with hf | ⟨-, hd, hb⟩
  · obtain ⟨hr, q, hq, rfl⟩ := f3_fire_eq_some hf
    rw [f4_fire_of_f4_ready hr]
    exact h.f3 q hq
  · rw [f4_fire, hd, if_neg Bool.false_ne_true]
    exact h.f4 b hb

theorem Inv.f3_next (h : s.Inv) (hc : cancel i = false) {q : FrontendResp p}
    (hq : (s.next cfg i).f3 = some q) : (s.next cfg i).passed.expects = some q.pc := by
  rcases nextF3_eq_some hc hq with he | ⟨-, hr, hq⟩
  · obtain ⟨hv, h3, hr, hpc, -⟩ := f3_enq_eq_some he
    rw [hpc]
    cases hf : s.f3_fire cfg i with
    | some b => rw [h.expects_of_fire hc hf (.inl hv), (f3_redirect_eq_false hf h3).1 hv]
    | none =>
      rw [passed_next_of_hold hc hf]
      exact h.s2 (f3_of_f3_enq he hf) hv
  · rw [passed_next_of_hold hc (if_neg (Bool.eq_false_iff.1 hr))]
    exact h.f3 q hq

theorem Inv.f3_fault_next (h : s.Inv) (hc : cancel i = false) {q : FrontendResp p}
    (hq : (s.next cfg i).f3 = some q) (hx : q.xcpt.any = true) :
    (s.next cfg i).s2.valid = false ∧ (s.next cfg i).s1.valid = false := by
  show (s.s1.valid && !s.f1_clear cfg i) = false ∧ (s.s0 cfg i).valid = false
  rcases nextF3_eq_some hc hq with he | ⟨-, hr, hq⟩
  · -- the fault was in s2: s1 is empty, and s2 asks for nothing
    obtain ⟨hv, h3, hr, -, hxe, hm⟩ := f3_enq_eq_some he
    rw [hxe] at hx
    have hrep : s.s2.is_replay = false := by
      rw [← Bool.not_eq_true]
      intro hrep
      rw [h.s2_replay hv hrep] at hx
      contradiction
    have hmiss : s.s2.tlb_miss = false := hm.elim h.miss_of_resp id
    have h1 := h.s2_fault hv hx hrep hmiss
    refine ⟨by rw [h1, Bool.false_and], ?_⟩
    rw [s0_of_not_cancel hc, s0_f3_of_not_redirect h3, s0_f2]
    split_ifs with hre hred
    · rw [s2_is_replay, hx, hrep, hmiss]
      rfl
    · rw [s2_is_replay, hx, hrep]
      rfl
    · rw [f2_redirect, hv, hr, h1, Bool.eq_false_iff.2 hre] at hred
      exact absurd rfl hred
  · obtain ⟨h2, h1⟩ := h.f3_fault q hq hx
    have hred : s.f3_redirect cfg i = false :=
      f3_redirect_of_none (if_neg (Bool.eq_false_iff.1 hr))
    exact ⟨by rw [h1, Bool.false_and], s0_of_empty hc hred h1 h2⟩

theorem Inv.s2_next (h : s.Inv) (h3 : (s.next cfg i).f3 = none)
    (hv : (s.next cfg i).s2.valid = true) :
    (s.next cfg i).passed.expects = some (s.next cfg i).s2.vpc := by
  obtain ⟨h1, hclear⟩ := s2_valid_next hv
  obtain ⟨hrep, -, hred, hc⟩ := f1_clear_eq_false hclear
  obtain ⟨he, hnone⟩ := f3_of_nextF3 hc h3
  have h2 := s2_of_not_replay hc hred hrep he
  show _ = some s.s1.vpc
  cases hf : s.f3_fire cfg i with
  | some b =>
    rw [h.expects_of_fire hc hf (.inr h1),
      ((f3_redirect_eq_false hf hred).2 (h2 (f3_ready_of_fire hf))).2]
  | none =>
    rw [passed_next_of_hold hc hf]
    exact h.s1 (hnone hf) (h2 (f3_ready_of_none (hnone hf))) h1

theorem Inv.s1_next (h : s.Inv) (hc : cancel i = false) (h3 : (s.next cfg i).f3 = none)
    (h2 : (s.next cfg i).s2.valid = false) (hv : (s.next cfg i).s1.valid = true) :
    (s.next cfg i).passed.expects = some (s.next cfg i).s1.vpc := by
  obtain ⟨he, hnone⟩ := f3_of_nextF3 hc h3
  have hv' : (s.s0 cfg i).valid = true := hv
  show _ = some (s.s0 cfg i).vpc
  cases hf : s.f3_fire cfg i with
  | some b =>
    cases hred : s.f3_redirect cfg i with
    | true =>
      have h0 : s.s0 cfg i = ⟨!b.xcpt.any, b.next_pc, false⟩ := by
        rw [s0_of_not_cancel hc, s0_f3, hf]
        exact if_pos hred
      rw [h0, Bool.not_eq_true'] at hv'
      rw [h0, passed_next_of_fire hc hf]
      exact if_neg (by rw [hv']; exact Bool.false_ne_true)
    | false =>
      obtain ⟨hs2, hs1⟩ := f3_redirect_eq_false hf hred
      cases hval : s.s2.valid with
      | true =>
        rw [h.expects_of_fire hc hf (.inl hval), ← hs2 hval,
          s0_of_replay hc hred (replay_of_f3_enq hc hval hred (f3_ready_of_fire hf) he)]
      | false =>
        rw [s1_of_s2_next hc hred hval h2] at hs1
        exact absurd (hs1 hval).1 Bool.false_ne_true
  | none =>
    have hred := f3_redirect_of_none hf
    rw [passed_next_of_hold hc hf]
    cases hval : s.s2.valid with
    | true =>
      rw [h.s2 (hnone hf) hval,
        s0_of_replay hc hred (replay_of_f3_enq hc hval hred (f3_ready_of_none (hnone hf)) he)]
    | false =>
      rw [s0_of_empty hc hred (s1_of_s2_next hc hred hval h2) hval] at hv'
      cases hv'

theorem Inv.next (h : s.Inv) : (s.next cfg i).Inv := by
  cases hc : cancel i with
  | true => exact h.next_of_cancel hc
  | false =>
    exact ⟨h.chain_next, h.head_next, fun _ => h.f4_next hc, fun _ => h.f3_next hc,
      fun _ => h.f3_fault_next hc, fun hv hx _ hm => s2_fault_next hv hx hm, h.s2_next,
      h.s1_next hc, h.s1_replay_next hc, h.s2_replay_next, miss_next⟩

theorem inv_of_reach (h : (frontend cfg).Reach s) : s.Inv :=
  h.inv (fun _ => inv_of_start) fun _ _ h _ => h.next

/-! ## The numbers of the fetches -/

/-- The number of the fetch in s1, if there is one. -/
def s1_id (s : Front p) : List ℕ := if s.s1.valid then [s.s1.id] else []

/-- The number of the packet in s2. -/
def s2_id (s : Front p) : List ℕ := if s.s2.valid then [s.s2.id] else []

/-- The number of a packet in f3. -/
def f3_id (q : Option (FrontendResp p)) : List ℕ := (q.map FrontendResp.id).toList

/-- The number of a packet in f4. -/
def f4_id (b : Option (F4Packet p)) : List ℕ := (b.map F4Packet.id).toList

/-- The fetches that have left f4. -/
def fired (s : Front p) : List ℕ :=
  s.log.flatMap fun e => match e with
    | .fire b => [b.id]
    | _ => []

/-- The fetches in the pipeline, the oldest first. -/
def flight (s : Front p) : List ℕ := f4_id s.f4 ++ (f3_id s.f3 ++ (s.s2_id ++ s.s1_id))

/-- What of the pipeline is not killed, and the new fetch. -/
def kept (cfg : F3Cfg) (s : Front p) (i : FrontCycle p) : List ℕ :=
  f4_id s.f4 ++ (f3_id s.f3 ++
    (((if s.f2_clear cfg i then [] else s.s2_id) ++ if s.f1_clear cfg i then [] else s.s1_id) ++
      [s.count]))

/-- Packets are numbered in order, and a killed one is gone. -/
structure Numbered (s : Front p) : Prop where
  sorted : (s.fired ++ s.flight).Pairwise (· < ·)
  lt : ∀ k ∈ s.fired ++ s.flight, k < s.count
  killed_lt : ∀ k ∈ s.killed, k < s.count
  killed : ∀ k ∈ s.killed, k ∉ s.fired ++ s.flight

theorem numbered_of_start (h : (frontend cfg).start s) : s.Numbered := by
  obtain ⟨h1, -, h2, -, h3, h4, hl, hk, hlt⟩ := h
  have hall : s.fired ++ s.flight = [s.s1.id] := by
    rw [fired, hl, flight, h4, h3, s2_id, h2, s1_id, h1]
    rfl
  refine ⟨?_, ?_, ?_, ?_⟩
  · rw [hall]
    exact List.pairwise_singleton _ _
  · rw [hall]
    intro k hmem
    rw [List.mem_singleton.1 hmem]
    exact hlt
  · rw [hk]
    exact fun k hmem => absurd hmem List.not_mem_nil
  · rw [hk]
    exact fun k hmem => absurd hmem List.not_mem_nil

theorem sublist_shift {a b c d e r : List ℕ} (h : (a ++ b).Sublist (c ++ d))
    (hr : (d ++ e).Sublist r) : (a ++ (b ++ e)).Sublist (c ++ r) := by
  rw [← List.append_assoc]
  refine (h.append_right e).trans ?_
  rw [List.append_assoc]
  exact hr.append_left c

theorem fired_next : (s.next cfg i).fired = s.fired ++ f4_id (s.f4_fire i) := by
  show (s.log ++ s.events i).flatMap _ = _
  rw [List.flatMap_append, events, List.flatMap_append]
  have ho : (orders i).toList.flatMap (fun e => match e with
      | Event.fire b => [b.id]
      | _ => []) = [] := by
    rw [orders]
    split_ifs <;> rfl
  rw [ho, List.append_nil]
  cases s.f4_fire i <;> rfl

theorem f4_fire_sublist : (f4_id (s.f4_fire i)).Sublist (f4_id s.f4) := by
  rw [f4_fire]
  split_ifs
  · exact .refl _
  · exact List.nil_sublist _

theorem f4_sublist (hc : cancel i = false) :
    (f4_id (s.f4_fire i) ++ f4_id (s.nextF4 cfg i)).Sublist
      (f4_id s.f4 ++ f4_id (s.f3_fire cfg i)) := by
  rw [nextF4, hc, if_neg Bool.false_ne_true]
  cases hf : s.f3_fire cfg i with
  | some b => rw [f4_fire_of_f4_ready (f3_fire_eq_some hf).1]
  | none =>
    rw [f4_fire]
    split_ifs
    · exact .refl _
    · exact List.sublist_append_left _ _

theorem f3_sublist (hc : cancel i = false) :
    (f4_id (s.f3_fire cfg i) ++ f3_id (s.nextF3 cfg i)).Sublist
      (f3_id s.f3 ++ f3_id (s.f3_enq cfg i)) := by
  have hfire : (f4_id (s.f3_fire cfg i)).Sublist (f3_id s.f3) := by
    rw [f3_fire]
    split_ifs
    · cases s.f3 <;> exact .refl _
    · exact List.nil_sublist _
  rw [nextF3, hc, if_neg Bool.false_ne_true]
  cases he : s.f3_enq cfg i with
  | some q => exact hfire.append_right _
  | none =>
    by_cases hr : s.f4_ready i = true
    · simp only [hr, if_true]
      exact hfire.append_right _
    · simp only [f3_fire, hr]
      exact List.sublist_append_left _ _

theorem s2_sublist : (f3_id (s.f3_enq cfg i) ++ (s.next cfg i).s2_id).Sublist
    ((if s.f2_clear cfg i then [] else s.s2_id) ++ if s.f1_clear cfg i then [] else s.s1_id) := by
  refine List.Sublist.append ?_ ?_
  · cases he : s.f3_enq cfg i with
    | none => exact List.nil_sublist _
    | some q =>
      rw [f3_enq, Option.ite_none_right_eq_some] at he
      obtain ⟨hc, hq⟩ := he
      cases hq
      simp only [Bool.and_eq_true, Bool.not_eq_true'] at hc
      rw [hc.1.1.2, s2_id, hc.1.1.1]
      exact .refl _
  · show (if (s.s1.valid && !s.f1_clear cfg i) = true then [s.s1.id] else []).Sublist _
    cases s.f1_clear cfg i with
    | true => rw [Bool.not_true, Bool.and_false]; exact .refl _
    | false => rw [Bool.not_false, Bool.and_true]; exact .refl _

theorem s1_sublist : (s.next cfg i).s1_id.Sublist [s.count] := by
  rw [s1_id]
  split_ifs
  · exact .refl _
  · exact List.nil_sublist _

/-- What is in the pipeline was there or is new, and was not killed. -/
theorem flight_next : ((s.next cfg i).fired ++ (s.next cfg i).flight).Sublist
    (s.fired ++ s.kept cfg i) := by
  rw [fired_next, List.append_assoc]
  refine List.Sublist.append_left ?_ _
  cases hc : cancel i with
  | true =>
    have h4 : (s.next cfg i).f4 = none := if_pos hc
    have h3 : (s.next cfg i).f3 = none := if_pos hc
    have h2 : (s.next cfg i).s2_id = [] := by
      rw [s2_id, if_neg]
      show ¬ (s.s1.valid && !s.f1_clear cfg i) = true
      rw [f1_clear_of_cancel hc, Bool.not_true, Bool.and_false]
      exact Bool.false_ne_true
    rw [flight, h4, h3, h2]
    refine f4_fire_sublist.append ?_
    refine List.sublist_append_of_sublist_right (List.sublist_append_of_sublist_right ?_)
    exact s1_sublist
  | false =>
    refine sublist_shift (f4_sublist hc) (sublist_shift (f3_sublist hc) ?_)
    rw [← List.append_assoc]
    exact s2_sublist.append s1_sublist

theorem kept_sublist : (s.kept cfg i).Sublist (s.flight ++ [s.count]) := by
  simp only [kept, flight, List.append_assoc]
  refine List.Sublist.append_left (List.Sublist.append_left ?_ _) _
  refine List.Sublist.append ?_ (List.Sublist.append_right ?_ _)
  · split_ifs
    · exact List.nil_sublist _
    · exact .refl _
  · split_ifs
    · exact List.nil_sublist _
    · exact .refl _

theorem f1_clear_of_f2_clear (h : s.f2_clear cfg i = true) : s.f1_clear cfg i = true := by
  rw [f2_clear, Bool.or_eq_true] at h
  rw [f1_clear, Bool.or_eq_true, Bool.or_eq_true]
  exact h.imp .inr id

theorem kills_cases {k : ℕ} (h : k ∈ s.kills cfg i) :
    (s.f1_clear cfg i = true ∧ s.s1.valid = true ∧ k = s.s1.id) ∨
      (s.f2_clear cfg i = true ∧ s.s2.valid = true ∧ k = s.s2.id) := by
  rw [kills, List.mem_append] at h
  refine h.imp (fun h => ?_) fun h => ?_
  all_goals
    split_ifs at h with hc
    · rw [Bool.and_eq_true] at hc
      exact ⟨hc.1, hc.2, List.mem_singleton.1 h⟩
    · exact absurd h List.not_mem_nil

/-- What is killed is younger than all that is kept, but for the new fetch. -/
theorem Numbered.kill (h : s.Numbered) {k : ℕ} (hk : k ∈ s.kills cfg i) :
    k < s.count ∧ k ∉ s.fired ++ s.kept cfg i := by
  have hs := h.sorted
  rw [flight, ← List.append_assoc (f4_id s.f4), ← List.append_assoc s.fired,
    List.pairwise_append] at hs
  obtain ⟨-, hs, hlt⟩ := hs
  rw [List.pairwise_append] at hs
  have hmem {k : ℕ} (hk : k ∈ s.s2_id ++ s.s1_id) : k < s.count := by
    refine h.lt k (List.mem_append_right _ ?_)
    rw [flight]
    exact List.mem_append_right _ (List.mem_append_right _ hk)
  rcases kills_cases hk with ⟨h1, hv, rfl⟩ | ⟨h2, hv, rfl⟩
  · have hk1 : s.s1.id ∈ s.s1_id := by
      rw [s1_id, if_pos hv]
      exact List.mem_singleton_self _
    have hc := hmem (List.mem_append_right _ hk1)
    refine ⟨hc, fun hin => ?_⟩
    rw [kept, h1, if_pos rfl, List.append_nil, ← List.append_assoc (f4_id s.f4),
      ← List.append_assoc s.fired] at hin
    rcases List.mem_append.1 hin with hin | hin
    · exact absurd (hlt _ hin _ (List.mem_append_right _ hk1)) (Nat.lt_irrefl _)
    · rcases List.mem_append.1 hin with hin | hin
      · split_ifs at hin
        · exact absurd hin List.not_mem_nil
        · exact absurd (hs.2.2 _ hin _ hk1) (Nat.lt_irrefl _)
      · exact absurd (List.mem_singleton.1 hin) (Nat.ne_of_lt hc)
  · have hk2 : s.s2.id ∈ s.s2_id := by
      rw [s2_id, if_pos hv]
      exact List.mem_singleton_self _
    have hc := hmem (List.mem_append_left _ hk2)
    refine ⟨hc, fun hin => ?_⟩
    rw [kept, h2, f1_clear_of_f2_clear h2, if_pos rfl, List.nil_append, if_pos rfl,
      List.nil_append, ← List.append_assoc (f4_id s.f4), ← List.append_assoc s.fired] at hin
    rcases List.mem_append.1 hin with hin | hin
    · exact absurd (hlt _ hin _ (List.mem_append_left _ hk2)) (Nat.lt_irrefl _)
    · exact absurd (List.mem_singleton.1 hin) (Nat.ne_of_lt hc)

theorem Numbered.next (h : s.Numbered) : (s.next cfg i).Numbered := by
  have hkept : (s.fired ++ s.kept cfg i).Sublist ((s.fired ++ s.flight) ++ [s.count]) := by
    rw [List.append_assoc]
    exact kept_sublist.append_left _
  have hsub : ((s.next cfg i).fired ++ (s.next cfg i).flight).Sublist (s.fired ++ s.kept cfg i) :=
    flight_next
  have hle {k : ℕ} (hk : k ∈ s.fired ++ s.kept cfg i) : k ∈ s.fired ++ s.flight ∨ k = s.count := by
    have := hkept.mem hk
    rwa [List.mem_append, List.mem_singleton] at this
  have hall : ((s.fired ++ s.flight) ++ [s.count]).Pairwise (· < ·) := by
    refine List.pairwise_append.2 ⟨h.sorted, List.pairwise_singleton _ _, fun a ha b hb => ?_⟩
    rw [List.mem_singleton.1 hb]
    exact h.lt a ha
  refine ⟨hall.sublist (hsub.trans hkept), fun k hk => ?_, fun k hk => ?_, fun k hk hin => ?_⟩
  · show k < s.count + 1
    rcases hle (hsub.mem hk) with hk | rfl
    · exact Nat.lt_succ_of_lt (h.lt k hk)
    · exact Nat.lt_succ_self _
  · show k < s.count + 1
    rcases List.mem_append.1 hk with hk | hk
    · exact Nat.lt_succ_of_lt (h.killed_lt k hk)
    · exact Nat.lt_succ_of_lt (h.kill hk).1
  · rcases List.mem_append.1 hk with hk | hk
    · rcases hle (hsub.mem hin) with hin | rfl
      · exact h.killed k hk hin
      · exact Nat.lt_irrefl _ (h.killed_lt _ hk)
    · exact (h.kill hk).2 (hsub.mem hin)

theorem numbered_of_reach (h : (frontend cfg).Reach s) : s.Numbered :=
  h.inv (fun _ => numbered_of_start) fun _ _ h _ => h.next

/-- **The frontend chains its packets**: after a redirect the first packet that
    leaves starts where the core has said, every other where the one before it
    goes on, and after a fault or a stop none leaves before the next redirect;
    none leaves twice, and none whose fetch was killed. -/
theorem fetch_chains (h : (frontend cfg).Reach s) :
    (∃ pc, s.log.head? = some (.redirect pc)) ∧ s.log.IsChain Follows ∧
      s.fired.Pairwise (· < ·) ∧ ∀ k ∈ s.killed, k ∉ s.fired := by
  have hi := inv_of_reach h
  have hn := numbered_of_reach h
  exact ⟨hi.head, hi.chain, (List.pairwise_append.1 hn.sorted).1,
    fun k hk hin => hn.killed k hk (List.mem_append_left _ hin)⟩

end Front

/-! ### A run -/

/-- The frontend after reset. -/
def resetFront : Front wideFetch where
  s1 := ⟨true, 0x1000, false, ⟨false, false⟩, 0⟩
  s2 := ⟨false, 0, false, ⟨false, false⟩, false, 0⟩
  icache_s1_valid := true
  icache_s2_valid := false
  f3 := none
  f4 := none
  regs := ⟨0, false⟩
  log := [.redirect 0x1000]
  killed := []
  count := 1

/-- Everything hits, and nothing is predicted. -/
def hitCycle : FrontCycle wideFetch where
  f1_preds _ := ⟨false, 0, false, false, false⟩
  f2_preds _ := ⟨false, 0, false, false, false⟩
  tlb_miss := false
  tlb_resp := ⟨false, false⟩
  icache_ready := true
  icache_hit := true
  icache_data _ := 1
  f2_correct_f1_ghist := false
  f3_correct_f1_ghist := false
  f3_correct_f2_ghist := false
  f3_preds_taken _ := false
  f3_preds_predicted_pc _ := 0
  ras_read_addr := 0
  fb_ready := true
  ftq_ready := true
  f4_delay := false
  sfence := none
  redirect_flush := false
  redirect_val := false
  redirect_pc := 0

/-- Five cycles, in the second of which the TLB misses. -/
def hitRun : Front wideFetch :=
  (frontend nopCfg).run resetFront
    [hitCycle, { hitCycle with tlb_miss := true }, hitCycle, hitCycle, hitCycle]

theorem fetch_chains_hitRun : hitRun.fired = [0] ∧
    (∃ pc, hitRun.log.head? = some (.redirect pc)) ∧ hitRun.log.IsChain Follows ∧
      hitRun.fired.Pairwise (· < ·) ∧ ∀ k ∈ hitRun.killed, k ∉ hitRun.fired :=
  ⟨by decide +kernel, Front.fetch_chains (Machine.reach_run _
    (.start ⟨rfl, rfl, rfl, rfl, rfl, rfl, rfl, rfl, Nat.one_pos⟩)
    ⟨trivial, trivial, trivial, trivial, trivial, trivial⟩)⟩

end BoomStop.Ifu
