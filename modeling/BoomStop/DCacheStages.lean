/-
  What is in the pipeline of the data cache: who reads the arrays, a probe on its
  way to the probe unit, and replays on their way to the data array.

  * `Cache.grant_replay`, ...: whom the arbiters serve;
  * `Typed`: stores are from the LSU or replayed;
  * `Probing`: the read of the probe unit arrives, and while a probe is under way
    nothing else of its set does;
  * `Replaying`: a replay is one of an MSHR that has not left its set yet.
-/
import BoomStop.DCacheTop
import BoomStop.MshrStores

namespace BoomStop.Coherence

open Sync
open DCache (MemCmd Meta Params Row ReqType DataWrite mux1H)
open Misses (FileIn Fields ReqBits Grant Mshr MshrState)
open Issue (BrUpdate getNewBrMask isKilledByBranch)

variable {T n S R B N K M : ℕ}

/-! ## Addresses -/

section

variable {g : Cfg B}

theorem Cfg.blockBytes_pos [NeZero B] (g : Cfg B) : 0 < g.params.blockBytes := by
  rw [g.blockBytes]
  exact Nat.mul_pos (Nat.pos_of_neZero B) (Nat.mul_pos (by decide) g.rowWords)

theorem Cfg.idx_lt (g : Cfg B) (addr : ℕ) : g.params.idx addr < g.params.nSets :=
  Nat.mod_lt _ g.nSets

theorem Cfg.block_lineAddr [NeZero B] (tag idx : ℕ) :
    g.lineAddr tag idx / g.params.blockBytes = tag * g.params.nSets + idx :=
  Nat.mul_div_cancel _ g.blockBytes_pos

theorem Cfg.idx_lineAddr [NeZero B] {tag idx : ℕ} (h : idx < g.params.nSets) :
    g.params.idx (g.lineAddr tag idx) = idx := by
  rw [Params.idx, Cfg.block_lineAddr, Nat.mul_add_mod_of_lt h]

theorem Cfg.tag_lineAddr [NeZero B] {tag idx : ℕ} (h : idx < g.params.nSets) :
    g.params.tag (g.lineAddr tag idx) = tag := by
  rw [Params.tag, Cfg.block_lineAddr, Nat.mul_comm, Nat.mul_add_div g.nSets,
    Nat.div_eq_of_lt h, Nat.add_zero]

end

namespace Cache

variable [NeZero S] [NeZero B] [NeZero R] [NeZero N]
variable {g : Cfg B} {s : Cache T n S R B N K M} {i : CacheIn T n M} {w : Fin (M + 1)} {t : ReqType}

/-! ## The arbiters -/

omit [NeZero R] [NeZero N] in
theorem meta_free_of_grant (h : s.grant g i = some t) : s.meta_free g = true := by
  unfold grant at h
  by_contra hf
  rw [Bool.not_eq_true] at hf
  rw [hf] at h
  cases h

omit [NeZero R] [NeZero N] in
theorem grant_replay : s.grant g i = some .t_replay ↔
    s.meta_free g = true ∧ (s.replay g i).isSome = true := by
  unfold grant
  cases s.meta_free g <;> cases (s.replay g i).isSome <;> simp
  repeat' split
  all_goals simp

omit [NeZero R] [NeZero N] in
/-- The read of the probe unit fires. -/
theorem grant_probe : s.grant g i = some .t_probe ↔
    s.prober.reads = true ∧ (s.proberIn g i).meta_read_ready = true := by
  unfold grant proberIn
  cases s.meta_free g <;> cases (s.replay g i).isSome <;> cases s.prober.reads <;> simp
  repeat' split
  all_goals simp

omit [NeZero R] [NeZero N] in
/-- The read of the writeback unit fires. -/
theorem grant_wb : s.grant g i = some .t_wb ↔ s.wb.data_fires (s.wbIn g i) B = true := by
  unfold grant Wb.data_fires wbIn
  cases s.meta_free g <;> cases (s.replay g i).isSome <;> cases s.prober.reads <;>
    cases s.wb.reads B <;> simp
  repeat' split
  all_goals simp

omit [NeZero R] [NeZero N] in
theorem grant_prefetch (h : s.grant g i = some .t_prefetch) : ∃ q, i.prefetch = some q := by
  unfold grant at h
  split_ifs at h with _ _ _ _ _ _ hp
  all_goals try cases h
  exact Option.isSome_iff_exists.1 hp

/-! ## The stages -/

theorem s1_valid (h : (s.next g i).pipe.s1.valid w = true) :
    ∃ t, s.grant g i = some t ∧ (s.next g i).pipe.s1.type = t ∧ (t ≠ .t_lsu → w = 0) ∧
      (t = .t_lsu → i.lsu_valid w = true) := by
  have h0 : DCache.State.s0_valid (s.pipeIn g i) w = true := by
    have h : (s.pipe.s1_next g.params g.client.toRocket (s.pipeIn g i)).valid w = true := h
    simp only [DCache.State.s1_next, Bool.and_eq_true] at h
    exact h.1.1.1
  have htype : (s.next g i).pipe.s1.type = (s.grant g i).getD .t_replay := rfl
  unfold DCache.State.s0_valid at h0
  have hg : (s.pipeIn g i).grant = s.grant g i := rfl
  rw [hg] at h0
  rw [htype]
  cases hgr : s.grant g i with
  | none => simp [hgr] at h0
  | some t =>
    refine ⟨t, rfl, rfl, fun ht => ?_, fun ht => ?_⟩
    · rw [hgr] at h0
      cases t <;> first | exact absurd rfl ht | exact of_decide_eq_true h0
    · rw [hgr, ht] at h0
      exact h0

theorem s2_valid (h : (s.next g i).pipe.s2.valid w = true) : s.pipe.s1.valid w = true := by
  have h : (s.pipe.s2_next g.params g.client.toRocket (s.pipeIn g i)).valid w = true := h
  simp only [DCache.State.s2_next, Bool.and_eq_true] at h
  exact h.1.1.1.1

/-- Only the LSU uses the pipes after the first one, and asks for an answer; stores are from
    the LSU or replayed. -/
structure Typed (g : Cfg B) (x : DCache.Stage T (M + 1)) : Prop where
  first : ∀ w, x.valid w = true → x.type ≠ .t_lsu → w = 0
  send : ∀ w, x.valid w = true → x.type = .t_lsu → x.send_resp_or_nack w = true
  write : ∀ w, x.valid w = true → (x.req w).uop.mem_cmd.isWrite = true →
    x.type = .t_lsu ∨ x.type = .t_replay
  store : ∀ w, x.valid w = true → x.type = .t_lsu → (x.req w).uop.mem_cmd.isWrite = true →
    (∀ t, (x.req w).uop.br_mask t = false) ∧ (x.req w).uop.uses_ldq = false
  demand : ∀ w, x.valid w = true → x.type = .t_lsu → (x.req w).uop.mem_cmd.isPrefetch = false
  prefetch : ∀ w, x.valid w = true → x.type = .t_prefetch → g.cacheable (x.req w).addr = true

theorem typed_s1_next (hok : s.Ok g i) : Typed g (s.next g i).pipe.s1 := by
  have hreq : ∀ w, (s.next g i).pipe.s1.req w =
      DCache.State.updateMask (s.pipeIn g i) (s.s0_req g i w) := fun _ => rfl
  constructor
  · intro w hv ht
    obtain ⟨t, -, hty, h0, -⟩ := s1_valid hv
    exact h0 (hty ▸ ht)
  · intro w hv ht
    obtain ⟨t, hg, hty, -, hl⟩ := s1_valid hv
    have hs : (s.next g i).pipe.s1.send_resp_or_nack w =
      DCache.State.s0_send_resp_or_nack (s.pipeIn g i) w := rfl
    have hg' : (s.pipeIn g i).grant = some .t_lsu := hg.trans (congrArg some (hty.symm.trans ht))
    rw [hs, DCache.State.s0_send_resp_or_nack, hg']
    exact hl (hty.symm.trans ht)
  · intro w hv hw
    obtain ⟨t, hg, hty, -, -⟩ := s1_valid hv
    rw [hty]
    rw [hreq] at hw
    have hw : (s.s0_req g i w).uop.mem_cmd.isWrite = true := hw
    unfold s0_req at hw
    rw [hg] at hw
    cases t with
    | t_lsu => exact .inl rfl
    | t_replay => exact .inr rfl
    | t_prefetch =>
      obtain ⟨q, hq⟩ := grant_prefetch hg
      have hp := (hok.prefetch q hq).1
      simp only [hq, Option.getD_some] at hw
      cases hc : q.uop.mem_cmd <;> rw [hc] at hw hp <;> simp [MemCmd.isWrite, MemCmd.isPrefetch,
        MemCmd.isAMO] at hw hp
    | t_mshr_meta_read =>
      simp only at hw
      split at hw <;> simp [nullReq, nullMicroOp, MemCmd.isWrite, MemCmd.isAMO] at hw
    | _ => simp [nullReq, nullMicroOp, MemCmd.isWrite, MemCmd.isAMO] at hw
  · intro w hv ht hw
    obtain ⟨t, hg, hty, -, hl⟩ := s1_valid hv
    obtain rfl := hty.symm.trans ht
    have hq : s.s0_req g i w = i.lsu_req w := by rw [s0_req, hg]
    rw [hreq, hq] at hw ⊢
    obtain ⟨hm, hu⟩ := hok.store w (hl rfl) hw
    exact ⟨fun t => by simp [DCache.State.updateMask, getNewBrMask, hm], hu⟩
  · intro w hv ht
    obtain ⟨t, hg, hty, -, hl⟩ := s1_valid hv
    obtain rfl := hty.symm.trans ht
    have hq : s.s0_req g i w = i.lsu_req w := by rw [s0_req, hg]
    rw [hreq, hq]
    exact hok.demand w (hl rfl)
  · intro w hv ht
    obtain ⟨t, hg, hty, -, -⟩ := s1_valid hv
    obtain rfl := hty.symm.trans ht
    obtain ⟨q, hq⟩ := grant_prefetch hg
    have hq' : s.s0_req g i w = q := by rw [s0_req, hg, hq]; rfl
    rw [hreq, hq']
    exact (hok.prefetch q hq).2

theorem typed_s2_next (h : Typed g s.pipe.s1) : Typed g (s.next g i).pipe.s2 where
  first w hv := h.first w (s2_valid hv)
  send w hv := h.send w (s2_valid hv)
  write w hv := h.write w (s2_valid hv)
  store w hv ht hw := by
    obtain ⟨hm, hu⟩ := h.store w (s2_valid hv) ht hw
    refine ⟨fun t => ?_, hu⟩
    change (getNewBrMask _ (s.pipe.s1.req w).uop.br_mask) t = false
    simp [getNewBrMask, hm]
  demand w hv := h.demand w (s2_valid hv)
  prefetch w hv := h.prefetch w (s2_valid hv)

theorem typed_of_reach (h : (dcache g).Reach s) : Typed g s.pipe.s1 ∧ Typed g s.pipe.s2 := by
  induction h with
  | start h0 =>
    constructor
    · constructor <;> intro w hv <;> rw [h0.s1 w] at hv <;> cases hv
    · constructor <;> intro w hv <;> rw [h0.s2 w] at hv <;> cases hv
  | step _ hok ih => exact ⟨typed_s1_next hok, typed_s2_next ih.1⟩

/-! ## The read of the probe unit -/

/-- A request that nothing kills. -/
theorem not_killed_null (addr : ℕ) (p : DCache.In T (M + 1) n) :
    DCache.State.killed p (nullReq addr : DCache.Req T).uop = false := by
  simp [DCache.State.killed, isKilledByBranch, nullReq, nullMicroOp]

theorem updateMask_null (addr : ℕ) (p : DCache.In T (M + 1) n) :
    DCache.State.updateMask p (nullReq addr) = nullReq addr := by
  have hm : getNewBrMask p.brupdate (fun _ => false) = fun _ => false := by
    funext t
    simp [getNewBrMask]
  simp only [DCache.State.updateMask, nullReq, nullMicroOp, hm]

/-- The stage has the read of the probe unit. -/
structure IsProbe (g : Cfg B) (s : Cache T n S R B N K M) (x : DCache.Stage T (M + 1)) : Prop where
  type : x.type = .t_probe
  valid : x.valid 0 = true
  req : x.req 0 = nullReq (g.lineAddr (s.prober.req_tag g) (s.prober.req_idx g))

/-- From the cycle after a probe was accepted its set is nacked, so two cycles later nothing
    of it is in s2. -/
structure Probing (g : Cfg B) (s : Cache T n S R B N K M) : Prop where
  nacked : s.prober.state ≠ .s_invalid → s.prober.state ≠ .s_meta_read →
    ∀ w, g.params.idx (s.pipe.s2.req w).addr = s.prober.req_idx g → s.pipe.s2_nack_hit w = true
  resp : s.prober.state = .s_meta_resp → s.IsProbe g s.pipe.s1
  mshr : s.prober.state = .s_mshr_req → s.IsProbe g s.pipe.s2

omit [NeZero S] [NeZero B] [NeZero R] [NeZero N] in
theorem prober_before {p : Prober n} {j : ProberIn n} (h1 : (p.next g j).state ≠ .s_invalid)
    (h2 : (p.next g j).state ≠ .s_meta_read) : p.state ≠ .s_invalid := by
  intro hp
  have hn : (p.next g j).state = if j.req.isSome then .s_meta_read else .s_invalid := by
    change p.state_next g j = _
    simp [Prober.state_next, hp]
  rw [hn] at h1 h2
  split_ifs at h1 h2
  · exact h2 rfl
  · exact h1 rfl

/-- The probe unit nacks its set. -/
theorem s2_nack_hit_next (hb : s.prober.state ≠ .s_invalid)
    (hi : g.params.idx ((s.next g i).pipe.s2.req w).addr = s.prober.req_idx g) :
    (s.next g i).pipe.s2_nack_hit w = true := by
  have hbusy : (s.pipeIn g i).prober_idx = some (s.prober.req_idx g) := by
    change s.prober.io_state.map g.params.idx = _
    rw [Prober.io_state, Prober.busy, decide_eq_true hb]
    rfl
  have hi : g.params.idx (s.pipe.s1.req w).addr = s.prober.req_idx g := hi
  change s.pipe.s1_nack g.params (s.pipeIn g i) w = true
  rw [DCache.State.s1_nack, hbusy, hi]
  exact decide_eq_true rfl

theorem isProbe_s1 (h : s.grant g i = some .t_probe) : s.IsProbe g (s.next g i).pipe.s1 := by
  have hreq : s.s0_req g i 0 =
      nullReq (g.lineAddr (s.prober.req_tag g) (s.prober.req_idx g)) := by
    rw [s0_req, h]
  have hg : (s.pipeIn g i).grant = some .t_probe := h
  have hq : (s.pipeIn g i).s0_req 0 = s.s0_req g i 0 := rfl
  refine ⟨?_, ?_, ?_⟩
  · change DCache.State.s0_type (s.pipeIn g i) = _
    rw [DCache.State.s0_type, hg]
    rfl
  · change (s.pipe.s1_next g.params g.client.toRocket (s.pipeIn g i)).valid 0 = true
    simp only [DCache.State.s1_next]
    rw [hq, hreq, not_killed_null, DCache.State.s0_valid, hg]
    simp [nullReq, nullMicroOp]
  · change DCache.State.updateMask (s.pipeIn g i) (s.s0_req g i 0) = _
    rw [hreq, updateMask_null]

theorem isProbe_s2 (hok : s.Ok g i) (h : s.IsProbe g s.pipe.s1) :
    s.IsProbe g (s.next g i).pipe.s2 := by
  have hkill : i.s1_kill 0 = false := by
    rw [Bool.eq_false_iff]
    intro hk
    have := hok.kill 0 hk
    rw [h.type] at this
    cases this
  refine ⟨h.type, ?_, ?_⟩
  · change (s.pipe.s2_next g.params g.client.toRocket (s.pipeIn g i)).valid 0 = true
    have hk : (s.pipeIn g i).s1_kill 0 = i.s1_kill 0 := rfl
    simp only [DCache.State.s2_next]
    rw [h.valid, h.req, h.type, hk, hkill, not_killed_null]
    simp [nullReq, nullMicroOp]
  · change DCache.State.updateMask (s.pipeIn g i) (s.pipe.s1.req 0) = _
    rw [h.req, updateMask_null]

theorem Probing.next (hok : s.Ok g i) (h : s.Probing g) : (s.next g i).Probing g := by
  have hst : (s.next g i).prober.state = s.prober.state_next g (s.proberIn g i) := rfl
  -- the probe is the same one, so that a stage has its read before and after the cycle
  have hsame : s.prober.state ≠ .s_invalid → ∀ {x : DCache.Stage T (M + 1)},
      s.IsProbe g x → (s.next g i).IsProbe g x := by
    intro hb x hx
    have hreq : (s.next g i).prober.req = s.prober.req := Prober.req_next hb
    refine ⟨hx.type, hx.valid, ?_⟩
    unfold Prober.req_tag Prober.req_idx
    rw [hreq]
    exact hx.req
  refine ⟨fun h1 h2 w hi => ?_, fun hs => ?_, fun hs => ?_⟩
  · have hb : s.prober.state ≠ .s_invalid := prober_before h1 h2
    have hreq : (s.next g i).prober.req = s.prober.req := Prober.req_next hb
    unfold Prober.req_idx at hi
    rw [hreq] at hi
    exact s2_nack_hit_next hb hi
  · obtain ⟨hp, hr⟩ := Prober.of_meta_resp_next (hst.symm.trans hs)
    exact hsame (by simp [hp]) (isProbe_s1 (grant_probe.2 ⟨by simp [Prober.reads, hp], hr⟩))
  · have hp := Prober.of_mshr_req_next (hst.symm.trans hs)
    exact hsame (by simp [hp]) (isProbe_s2 hok (h.resp hp))

theorem probing_of_reach (h : (dcache g).Reach s) : s.Probing g := by
  refine h.inv (fun s h0 => ?_) fun s i hs hok => hs.next hok
  have h0 : s.prober.state = .s_invalid := h0.prober
  refine ⟨fun hp => absurd h0 hp, fun hp => ?_, fun hp => ?_⟩ <;>
    · rw [h0] at hp
      cases hp

/-! ## Replays -/

/-- An MSHR of the set, with its ways. -/
structure OfSet (g : Cfg B) (m : Mshr T n S R B) (idx : ℕ) (way_en : Fin n → Bool) : Prop where
  idx : m.req_idx g.params = idx
  way_en : m.req.data.way_en = way_en

omit [NeZero S] in
theorem OfSet.next {m : Mshr T n S R B} {idx : ℕ} {way_en : Fin n → Bool} {j : Misses.MshrIn T n S}
    {e : Bool} (h : OfSet g m idx way_en) (hh : m.handles g.client j = false) :
    OfSet g (m.next g.params g.client j e) idx way_en := by
  have hd : (m.next g.params g.client j e).req.data = m.req.data := Mshr.addr_req_next hh
  refine ⟨?_, ?_⟩
  · rw [← h.idx, Mshr.req_idx, hd]
    rfl
  · rw [hd]
    exact h.way_en

/-- What is replayed is of an MSHR that has not told the metadata yet, or has just done
    so. -/
structure Replaying (g : Cfg B) (s : Cache T n S R B N K M) : Prop where
  s1 : s.pipe.s1.valid 0 = true → s.pipe.s1.type = .t_replay →
    ∃ j, (s.mshrs.mshrs j).state = .s_drain_rpq ∧
      OfSet g (s.mshrs.mshrs j) (g.params.idx (s.pipe.s1.req 0).addr) s.pipe.s1_way_en
  s2 : s.pipe.s2.valid 0 = true → s.pipe.s2.type = .t_replay →
    ∃ j, ((s.mshrs.mshrs j).state = .s_drain_rpq ∨ (s.mshrs.mshrs j).state = .s_meta_write_req) ∧
      OfSet g (s.mshrs.mshrs j) (g.params.idx (s.pipe.s2.req 0).addr) (s.pipe.s2_tag_match_way 0)
  s3 : s.pipe.s3.valid = true → s.s3_type = .t_replay →
    ∃ j, ((s.mshrs.mshrs j).state = .s_drain_rpq ∨ (s.mshrs.mshrs j).state = .s_meta_write_req ∨
        ((s.mshrs.mshrs j).state = .s_mem_finish_1 ∧ (s.mshrs.mshrs j).meta_hazard = 1)) ∧
      OfSet g (s.mshrs.mshrs j) (g.params.idx s.pipe.s3.addr) s.pipe.s3.way

/-- A replay is of an MSHR that drains its queue, and goes on with it. -/
theorem replay_from (hi : s.mshrs.Inv g.toCfg) (h : s.grant g i = some .t_replay) :
    ∃ j q, s.replay g i = some q ∧ (s.mshrs.mshrs j).state = .s_drain_rpq ∧
      ((s.next g i).mshrs.mshrs j).state = .s_drain_rpq ∧
      OfSet g (s.mshrs.mshrs j) (g.params.idx q.data.addr) q.data.way_en := by
  obtain ⟨hfree, hq⟩ := grant_replay.1 h
  obtain ⟨q, hq⟩ := Option.isSome_iff_exists.1 hq
  have hrep : s.mshrs.replayed g.toCfg (s.fileIn g i) = some q := by
    have hready : (s.fileIn g i).replay_ready = true := hfree
    rw [Misses.File.replayed, hready]
    exact hq
  obtain ⟨j, r, hr, hd, -, hdata⟩ := Misses.File.replayed_from hrep
  obtain ⟨hv, -, hrd⟩ := Mshr.replay_eq_some hr
  obtain ⟨tag, rest, hw⟩ := Mshr.waiting_of_deq_valid (hi.ring j) hv
  have hst : (s.mshrs.mshrs j).state = .s_drain_rpq := by
    unfold Mshr.replay at hr
    split_ifs at hr with hs
    exact of_decide_eq_true (Bool.and_eq_true_iff.1 hs).1
  have hempty : (s.mshrs.mshrs j).rpq.q.empty = false := by
    unfold Mshr.deq_valid at hv
    simp only [Bool.and_eq_true, Bool.not_eq_true'] at hv
    exact hv.1.1
  refine ⟨j, q, hq, hst, ?_, ?_, ?_⟩
  · change (s.mshrs.mshrs j).state_next g.params g.client (s.mshrs.mshrIn g.toCfg (s.fileIn g i) j) = _
    simp [Mshr.state_next, hst, hempty]
  · have hhead : (⟨tag, (s.mshrs.mshrs j).rpq.q.out⟩ : KillableQueue.Item T Fields (Misses.Req n S)) ∈
        (s.mshrs.mshrs j).rpq.waiting := by
      rw [hw]
      exact List.mem_cons_self
    have hblock := hi.line j _ hhead
    rw [hdata, hrd]
    change _ = g.params.idx ((s.mshrs.mshrs j).lineAddr g.params (s.mshrs.mshrs j).rpq.q.out.data.addr)
    rw [Mshr.lineAddr_eq hblock]
    exact (Mshr.idx_of_block hblock).symm
  · rw [hdata, hrd]

omit [NeZero S] [NeZero B] [NeZero R] in
theorem not_handles {m : Mshr T n S R B} {j : Misses.MshrIn T n S} (h1 : m.state ≠ .s_invalid)
    (h2 : m.state ≠ .s_prefetch) : m.handles g.client j = false := by
  unfold Mshr.handles
  split
  · exact absurd (by assumption) h1
  · exact absurd (by assumption) h2
  · rfl

theorem Replaying.next (hi : s.mshrs.Inv g.toCfg) (h : s.Replaying g) : (s.next g i).Replaying g := by
  have hst : ∀ j, ((s.next g i).mshrs.mshrs j).state = (s.mshrs.mshrs j).state_next g.params g.client
      (s.mshrs.mshrIn g.toCfg (s.fileIn g i) j) := fun _ => rfl
  refine ⟨fun hv ht => ?_, fun hv ht => ?_, fun hv ht => ?_⟩
  · obtain ⟨t, hg, hty, -, -⟩ := s1_valid hv
    obtain rfl := hty.symm.trans ht
    obtain ⟨j, q, hq, hs, hnext, hset⟩ := replay_from hi hg
    refine ⟨j, hnext, ?_⟩
    have hreq : g.params.idx ((s.next g i).pipe.s1.req 0).addr = g.params.idx q.data.addr := by
      change g.params.idx (s.s0_req g i 0).addr = _
      rw [s0_req, hg]
      simp only [hq]
    have hway : (s.next g i).pipe.s1_way_en = q.data.way_en := by
      change s.way_en g i = _
      funext way
      rw [way_en, hg]
      simp only [hq, Option.any_some]
    rw [hreq, hway]
    exact hset.next (not_handles (by simp [hs]) (by simp [hs]))
  · have ht : s.pipe.s1.type = .t_replay := ht
    obtain ⟨j, hs, hset⟩ := h.s1 (s2_valid hv) ht
    refine ⟨j, ?_, ?_⟩
    · rw [hst, Mshr.state_next, hs]
      simp only
      split_ifs
      · exact .inr rfl
      · exact .inl rfl
    · have hway : (s.next g i).pipe.s2_tag_match_way 0 = s.pipe.s1_way_en := by
        change s.pipe.s1_tag_match_way g.params g.client.toRocket 0 = _
        funext way
        rw [DCache.State.s1_tag_match_way, ht]
      rw [hway]
      exact hset.next (not_handles (by simp [hs]) (by simp [hs]))
  · have ht : s.pipe.s2.type = .t_replay := ht
    have hv : s.pipe.s2.valid 0 = true := by
      have hv : s.pipe.s3_valid_next g.params g.client.toRocket (s.pipeIn g i) = true := hv
      simp only [DCache.State.s3_valid_next, Bool.and_eq_true] at hv
      exact hv.1.1.1.1
    obtain ⟨j, hs, hset⟩ := h.s2 hv ht
    refine ⟨j, ?_, ?_⟩
    · rw [hst]
      rcases hs with hs | hs
      · rw [Mshr.state_next, hs]
        simp only
        split_ifs
        · exact .inr (.inl rfl)
        · exact .inl rfl
      · cases hr : (s.mshrs.mshrIn g.toCfg (s.fileIn g i) j).meta_write_ready with
        | true =>
          refine .inr (.inr ⟨?_, ?_⟩)
          · simp [Mshr.state_next, hs, hr]
          · change (s.mshrs.mshrs j).meta_hazard_next g.params g.client _ = 1
            simp [Mshr.meta_hazard_next, Mshr.meta_write, hs, hr]
        | false =>
          refine .inr (.inl ?_)
          simp [Mshr.state_next, hs, hr]
    · rcases hs with hs | hs <;> exact hset.next (not_handles (by simp [hs]) (by simp [hs]))

theorem file_of_reach (h : (dcache g).Reach s) : s.mshrs.Inv g.toCfg :=
  h.inv (fun _ h0 => Misses.File.inv_of_reset h0.mshrs) fun _ _ hs _ => hs.next

theorem replaying_of_reach (h : (dcache g).Reach s) : s.Replaying g := by
  induction h with
  | start h0 =>
    refine ⟨fun hv => ?_, fun hv => ?_, fun hv => ?_⟩
    · rw [h0.s1 0] at hv
      cases hv
    · rw [h0.s2 0] at hv
      cases hv
    · rw [h0.s3] at hv
      cases hv
  | step hr _ ih => exact ih.next (file_of_reach hr)

end Cache

end BoomStop.Coherence
