/-
  A probe and the MSHRs of its set: when the probe unit goes on, no MSHR of the set
  is between the read and the write of the metadata, and none gets there before the
  probe is over, but for those that got permission for a line that is there.

  * `Owned`: what an MSHR knows of its grant;
  * `Calm`, `Upgrades`: the MSHRs that a probe may find;
  * `Safe`: what it finds in its set (`safe_of_reach`).
-/
import BoomStop.DCacheStages
import BoomStop.MshrRefill

namespace BoomStop.Coherence

open Sync
open DCache (MemCmd Meta Params Row ReqType)
open Misses (FileIn Fields ReqBits Grant Mshr MshrIn MshrState Client)

variable {T n S R B N K M : ℕ}

/-! ## One MSHR -/

section Mshr

variable {c : Params} {k : Client} {m : Mshr T n S R B} {i : MshrIn T n S} {e : Bool}

/-- What an MSHR knows of its grant: a line that was not there has no permission before
    it comes, and the grant is to be acknowledged. -/
structure Owned (k : Client) (m : Mshr T n S R B) : Prop where
  burst : m.Burst k
  fresh : m.state = .s_refill_req ∨ m.state = .s_refill_resp → m.req.data.tag_match = false →
    m.new_coh = k.onReset
  ack : m.state = .s_drain_rpq_loads → m.grantack.isSome = true

/-- What memory promises to an MSHR. -/
structure Granted (k : Client) (m : Mshr T n S R B) (i : MshrIn T n S) : Prop where
  answers : m.Answers k i
  ack : ∀ d, i.mem_grant = some d → d.isRequest = true

/-- The last message of a grant is without data if the first one was. -/
theorem hasData_of_done (hB : 1 < B) (hm : m.Burst k) {d : Grant} (h : m.refill_done k i = some d)
    (hh : m.grant_had_data = false) : d.hasData = false ∧ i.mem_grant = some d := by
  obtain ⟨hg, hd⟩ := Mshr.of_done h
  have hb : m.burst = 0 := by
    by_contra hb
    rw [hm.mid hb] at hh
    cases hh
  refine ⟨?_, (Mshr.grant_eq_some hg).2⟩
  cases hdata : d.hasData with
  | false => rfl
  | true =>
    rw [hb, hdata, if_pos rfl] at hd
    omega

theorem of_drain_loads_next (h : m.state_next c k i = .s_drain_rpq_loads) :
    m.state = .s_drain_rpq_loads ∨ (m.state = .s_refill_resp ∧ (m.refill_done k i).isSome = true) := by
  unfold Mshr.state_next at h
  cases hst : m.state with
  | s_drain_rpq_loads => exact .inl rfl
  | s_refill_resp =>
    refine .inr ⟨rfl, ?_⟩
    by_contra hd
    simp [hst, hd] at h
  | _ =>
    exfalso
    revert h
    simp only [hst, Mshr.pri_state]
    repeat' split
    all_goals simp

theorem Owned.fresh_next [NeZero R] [NeZero B] (hm : Owned k m)
    (hst : (m.next c k i e).state = .s_refill_req ∨ (m.next c k i e).state = .s_refill_resp)
    (ht : (m.next c k i e).req.data.tag_match = false) : (m.next c k i e).new_coh = k.onReset := by
  change m.new_coh_next k i = k.onReset
  -- an MSHR that keeps its line has not got permission for it
  have hkeep : (m.state = .s_refill_req ∨ (m.state = .s_refill_resp ∧ m.refill_done k i = none)) →
      m.new_coh_next k i = k.onReset := by
    intro hs
    have hh : m.handles k i = false := by
      rcases hs with hs | ⟨hs, -⟩ <;> simp [Mshr.handles, hs]
    have hd : (m.next c k i e).req.data = m.req.data := Mshr.addr_req_next hh
    rw [hd] at ht
    exact Mshr.new_coh_next_onReset (hm.fresh (hs.imp_right And.left) ht) hs
  rcases hst with hst | hst
  · rcases Mshr.of_refill_req_next hst with hh | ⟨hs, hc, hsec, hit⟩ | ⟨hs, -⟩
    · have hreq : (m.next c k i e).req = i.req := Mshr.req_next_of_handles hh
      rw [hreq] at ht
      have hpri : Mshr.pri_coh k i = k.onReset := by
        rw [Mshr.pri_coh, ht, if_neg Bool.false_ne_true]
      rw [← hpri]
      unfold Mshr.handles at hh
      cases hs : m.state <;> simp only [hs, Bool.false_eq_true] at hh
      · simp [Mshr.new_coh_next, Mshr.handles, hs, hh]
      · simp only [Bool.and_eq_true, Bool.not_eq_true'] at hh
        simp [Mshr.new_coh_next, Mshr.handles, hs, hh]
    · simp [Mshr.new_coh_next, hs, hc, hsec, hit]
    · exact hkeep (.inl hs)
  · rcases Mshr.of_refill_resp_next hst with ⟨hs, -⟩ | hs
    · exact hkeep (.inl hs)
    · exact hkeep (.inr hs)

theorem Owned.next [NeZero R] [NeZero B] (hm : Owned k m) (hi : Granted k m i) :
    Owned k (m.next c k i e) where
  burst := hm.burst.next hi.answers
  fresh := hm.fresh_next
  ack hst := by
    change (m.grantack_next k i).isSome = true
    rcases of_drain_loads_next hst with hs | ⟨hs, hd⟩
    · simpa [Mshr.grantack_next, Mshr.handles, hs] using hm.ack hs
    · obtain ⟨d, hd⟩ := Option.isSome_iff_exists.1 hd
      have hreq := hi.ack d (Mshr.grant_eq_some (Mshr.of_done hd).1).2
      simp [Mshr.grantack_next, hs, hd, hreq]

/-- The MSHRs that a probe may find in its set: they have no line yet, wait for the probe
    unit before they touch the metadata, or are done. -/
inductive Calm (m : Mshr T n S R B) : Prop
  | free : m.state = .s_invalid → Calm m
  | req : m.state = .s_refill_req → Calm m
  | resp : m.state = .s_refill_resp → Calm m
  | loads : m.state = .s_drain_rpq_loads → Calm m
  | read : m.state = .s_meta_read → m.grantack.isSome = true → Calm m
  | finish_1 : m.state = .s_mem_finish_1 → m.meta_hazard ≠ 1 → Calm m
  | finish_2 : m.state = .s_mem_finish_2 → Calm m
  | prefetch : m.state = .s_prefetch → Calm m

/-- An MSHR that got permission for a line that is there, up to the cycle after it wrote the
    metadata. -/
def Upgrades (m : Mshr T n S R B) : Prop :=
  m.req.data.tag_match = true ∧ (m.state = .s_drain_rpq ∨ m.state = .s_meta_write_req ∨
    (m.state = .s_mem_finish_1 ∧ m.meta_hazard = 1))

theorem hazard_next_ne_one (h : m.meta_write c k = none) : m.meta_hazard_next c k i ≠ 1 := by
  rw [Mshr.meta_hazard_next, h]
  simp only [Option.isSome_none, Bool.false_and, Bool.false_eq_true, if_false]
  split_ifs with h0
  · simp
  · omega

theorem calm_of_probe_rdy (h : m.probe_rdy = true) : Calm m := by
  unfold Mshr.probe_rdy at h
  simp only [Bool.and_eq_true, Bool.or_eq_true, decide_eq_true_eq] at h
  obtain ⟨-, (((hs | hs) | hs) | hs) | ⟨hs, ha⟩⟩ := h
  · exact .free hs
  · exact .req hs
  · exact .resp hs
  · exact .loads hs
  · exact .read hs ha

/-- While a probe of its set is under way an MSHR stays calm, or it got permission without
    data. -/
theorem Calm.next [NeZero R] [NeZero B] (hB : 1 < B) (hm : Owned k m) (hi : Granted k m i) {a : ℕ}
    (hp : i.prober_state = some a) (ha : c.idx a = m.req_idx c) (hh : m.handles k i = false)
    (hs : m.sec_fires k i = false) (h : Calm m) : Calm (m.next c k i e) ∨
      (Upgrades (m.next c k i e) ∧ ∃ d, i.mem_grant = some d ∧ d.hasData = false) := by
  have hst : (m.next c k i e).state = m.state_next c k i := rfl
  have hdata : (m.next c k i e).req.data = m.req.data := Mshr.addr_req_next hh
  cases h with
  | free hf =>
    refine .inl (.free ?_)
    rw [hst]
    simp [Mshr.state_next, hf, hh]
  | req hf =>
    cases hr : i.mem_acquire_ready with
    | true => exact .inl (.resp (by rw [hst]; simp [Mshr.state_next, hf, hr]))
    | false => exact .inl (.req (by rw [hst]; simp [Mshr.state_next, hf, hr]))
  | resp hf =>
    cases hd : m.refill_done k i with
    | none => exact .inl (.resp (by rw [hst]; simp [Mshr.state_next, hf, hd]))
    | some d =>
      cases hhad : m.grant_had_data with
      | true => exact .inl (.loads (by rw [hst]; simp [Mshr.state_next, hf, hd, hhad]))
      | false =>
        obtain ⟨hno, hg⟩ := hasData_of_done hB hm.burst hd hhad
        refine .inr ⟨⟨?_, .inl (by rw [hst]; simp [Mshr.state_next, hf, hd, hhad])⟩, d, hg, hno⟩
        rw [hdata]
        by_contra ht
        exact hi.answers.upgrade d hg hno (hm.fresh (.inr hf) (by simpa using ht))
  | loads hf =>
    have hack := hm.ack hf
    have hack' : (m.next c k i e).grantack = m.grantack := by
      change m.grantack_next k i = _
      simp [Mshr.grantack_next, Mshr.handles, hf]
    have hnext := hst
    rw [Mshr.state_next, hf] at hnext
    simp only at hnext
    split_ifs at hnext
    · exact .inl (.loads hnext)
    · exact .inl (.loads hnext)
    · exact .inl (.finish_1 hnext (hazard_next_ne_one (by simp [Mshr.meta_write, hf])))
    · exact .inl (.read hnext (hack' ▸ hack))
    · exact .inl (.loads hnext)
  | read hf hack =>
    -- it waits for the probe unit
    have hno : m.meta_read c i = none := by
      obtain ⟨sink, hack⟩ := Option.isSome_iff_exists.1 hack
      simp [Mshr.meta_read, hp, ha, hack]
    refine .inl (.read (by rw [hst]; simp [Mshr.state_next, hf, hno]) ?_)
    change (m.grantack_next k i).isSome = true
    simpa [Mshr.grantack_next, Mshr.handles, hf] using hack
  | finish_1 hf hz =>
    have hz' := hazard_next_ne_one (c := c) (k := k) (i := i) (m := m) (by simp [Mshr.meta_write, hf])
    cases hr : i.mem_finish_ready || m.grantack.isNone with
    | true => exact .inl (.finish_2 (by rw [hst]; simp [Mshr.state_next, hf, hr]))
    | false => exact .inl (.finish_1 (by rw [hst]; simp [Mshr.state_next, hf, hr]) hz')
  | finish_2 hf =>
    cases hr : m.finish_to_prefetch with
    | true => exact .inl (.prefetch (by rw [hst]; simp [Mshr.state_next, hf, hr]))
    | false => exact .inl (.free (by rw [hst]; simp [Mshr.state_next, hf, hr]))
  | prefetch hf =>
    cases hr : m.clears k i with
    | true => exact .inl (.free (by rw [hst]; simp [Mshr.state_next, hf, hr]))
    | false => exact .inl (.prefetch (by rw [hst]; simp [Mshr.state_next, hf, hr, hs, hh]))

theorem Upgrades.next [NeZero R] [NeZero B] (h : Upgrades m) :
    Calm (m.next c k i e) ∨ Upgrades (m.next c k i e) := by
  have hst : (m.next c k i e).state = m.state_next c k i := rfl
  have hhaz : (m.next c k i e).meta_hazard = m.meta_hazard_next c k i := rfl
  obtain ⟨ht, hs⟩ := h
  have hh : m.handles k i = false := by
    rcases hs with hs | hs | ⟨hs, -⟩ <;> simp [Mshr.handles, hs]
  have hdata : (m.next c k i e).req.data = m.req.data := Mshr.addr_req_next hh
  rcases hs with hs | hs | ⟨hs, hz⟩
  · refine .inr ⟨by rw [hdata, ht], ?_⟩
    rw [hst, Mshr.state_next, hs]
    simp only
    split_ifs
    · exact .inr (.inl rfl)
    · exact .inl rfl
  · cases hr : i.meta_write_ready with
    | true =>
      refine .inr ⟨by rw [hdata, ht], .inr (.inr ⟨?_, ?_⟩)⟩
      · rw [hst]
        simp [Mshr.state_next, hs, hr]
      · rw [hhaz]
        simp [Mshr.meta_hazard_next, Mshr.meta_write, hs, hr]
    | false =>
      exact .inr ⟨by rw [hdata, ht], .inr (.inl (by rw [hst]; simp [Mshr.state_next, hs, hr]))⟩
  · have hz' := hazard_next_ne_one (c := c) (k := k) (i := i) (m := m) (by simp [Mshr.meta_write, hs])
    cases hr : i.mem_finish_ready || m.grantack.isNone with
    | true => exact .inl (.finish_2 (by rw [hst]; simp [Mshr.state_next, hs, hr]))
    | false => exact .inl (.finish_1 (by rw [hst]; simp [Mshr.state_next, hs, hr]) hz')

end Mshr

/-! ## The cache -/

namespace Cache

variable [NeZero S] [NeZero B] [NeZero R] [NeZero N]
variable {g : Cfg B} {s : Cache T n S R B N K M} {i : CacheIn T n M} {j : Fin N}

omit [NeZero R] [NeZero N] in
/-- What memory sends to an MSHR. -/
theorem mem_grant_eq_some {d : Grant} (h : (s.mshrs.mshrIn g.toCfg (s.fileIn g i) j).mem_grant = some d) :
    i.grant = some d ∧ d.source = j.val := by
  have h : (Option.filter (fun d => decide (d.source = j.val))
      (i.grant.filter fun d => decide (d.source ≠ N))) = some d := h
  obtain ⟨h, hj⟩ := Option.filter_eq_some_iff.1 h
  exact ⟨(Option.filter_eq_some_iff.1 h).1, of_decide_eq_true hj⟩

omit [NeZero R] [NeZero N] in
theorem granted_of_ok (hok : s.Ok g i) (j : Fin N) :
    Granted g.client (s.mshrs.mshrs j) (s.mshrs.mshrIn g.toCfg (s.fileIn g i) j) where
  answers := {
    burst := fun d hd hb => hok.burst d j (mem_grant_eq_some hd).1 (mem_grant_eq_some hd).2 hb
    upgrade := fun d hd hn => hok.upgrade d j (mem_grant_eq_some hd).1 (mem_grant_eq_some hd).2 hn }
  ack d hd := hok.ack d j (mem_grant_eq_some hd).1 (mem_grant_eq_some hd).2

theorem owned_of_reach (h : (dcache g).Reach s) (j : Fin N) : Owned g.client (s.mshrs.mshrs j) := by
  induction h with
  | start h0 =>
    have hst := h0.mshrs.state j
    refine ⟨Mshr.burst_of_free hst (h0.mshrs.burst j), fun hs => ?_, fun hs => ?_⟩
    · rw [hst] at hs
      rcases hs with hs | hs <;> cases hs
    · rw [hst] at hs
      cases hs
  | step _ hok ih => exact ih.next (granted_of_ok hok j)

omit [NeZero R] [NeZero N] in
/-- A request of the set that is probed does not get to the miss file. -/
theorem request_apart (hp : s.Probing g) (h1 : s.prober.state ≠ .s_invalid)
    (h2 : s.prober.state ≠ .s_meta_read) (hv : Misses.File.req_val (s.fileIn g i) = true) :
    g.params.idx (Misses.File.req (s.fileIn g i)).data.addr ≠ s.prober.req_idx g := by
  intro hi
  have hv : s.pipe.mshr_valid g.params g.client.toRocket (s.missed g i)
    (Misses.File.req_idx (s.fileIn g i)) = true := hv
  have hn := hp.nacked h1 h2 (Misses.File.req_idx (s.fileIn g i)) hi
  unfold DCache.State.mshr_valid at hv
  rw [hn] at hv
  simp at hv

/-- An MSHR of the set that is probed takes no request, and is of the set before. -/
theorem kept_of_probed (hp : s.Probing g) (h1 : s.prober.state ≠ .s_invalid)
    (h2 : s.prober.state ≠ .s_meta_read)
    (hi : ((s.next g i).mshrs.mshrs j).req_idx g.params = s.prober.req_idx g) :
    (s.mshrs.mshrs j).handles g.client (s.mshrs.mshrIn g.toCfg (s.fileIn g i) j) = false ∧
    (s.mshrs.mshrs j).sec_fires g.client (s.mshrs.mshrIn g.toCfg (s.fileIn g i) j) = false ∧
    (s.mshrs.mshrs j).req_idx g.params = s.prober.req_idx g := by
  have hh : (s.mshrs.mshrs j).handles g.client (s.mshrs.mshrIn g.toCfg (s.fileIn g i) j) = false := by
    rw [Bool.eq_false_iff]
    intro hh
    have hreq : ((s.next g i).mshrs.mshrs j).req_idx g.params =
        g.params.idx (Misses.File.req (s.fileIn g i)).data.addr :=
      (congrArg (fun q : ReqBits T n S => g.params.idx q.data.addr)
        (Mshr.req_next_of_handles hh)).trans rfl
    rw [Misses.File.handles_eq] at hh
    obtain ⟨-, -, hv, -⟩ := Misses.File.of_pri_fires hh
    exact request_apart hp h1 h2 hv (hreq ▸ hi)
  have hsame : (s.mshrs.mshrs j).req_idx g.params = s.prober.req_idx g := by
    rw [← hi]
    exact (congrArg (fun d : Misses.Req n S => g.params.idx d.addr) (Mshr.addr_req_next hh)).symm
  refine ⟨hh, ?_, hsame⟩
  rw [Bool.eq_false_iff]
  intro hs
  obtain ⟨hv, -, -, hm, -⟩ := Misses.File.of_sec_val (Misses.File.of_sec_fires hs).1
  have hm := of_decide_eq_true (Bool.and_eq_true_iff.1 hm).2
  exact request_apart hp h1 h2 hv (hm.symm.trans hsame)

/-- What a probe that goes on finds in its set. -/
def Safe (g : Cfg B) (s : Cache T n S R B N K M) : Prop :=
  s.prober.holds = true → ∀ j, (s.mshrs.mshrs j).req_idx g.params = s.prober.req_idx g →
    Calm (s.mshrs.mshrs j) ∨ (Upgrades (s.mshrs.mshrs j) ∧ (s.prober.owes = true →
      g.params.block (s.mshrs.mshrs j).req.data.addr ≠ g.params.block s.prober.req.address))

omit [NeZero R] [NeZero N] in
/-- The probe unit is ready to go on. -/
theorem calm_of_mshr_rdy (hp : s.Probing g) (hs : s.prober.state = .s_mshr_req)
    (hr : s.mshrs.probe_rdy g.toCfg (s.asked g i) = true)
    (hi : (s.mshrs.mshrs j).req_idx g.params = s.prober.req_idx g)
    (hv : (s.mshrs.mshrs j).valid = true) : (s.mshrs.mshrs j).probe_rdy = true := by
  have hprobe := hp.mshr hs
  unfold Misses.File.probe_rdy at hr
  have hr := List.all_eq_true.1 (List.all_eq_true.1 hr j (List.mem_finRange j)) 0 (List.mem_finRange 0)
  have hreq : (s.asked g i).req_is_probe 0 = true := by
    change (decide (s.pipe.s2.type = .t_probe) && s.pipe.s2.valid 0) = true
    rw [hprobe.type, hprobe.valid]
    rfl
  have haddr : ((s.asked g i).req 0).data.addr = (s.pipe.s2.req 0).addr := rfl
  have hmatch : s.mshrs.idx_matches g.toCfg (s.asked g i) 0 j = true := by
    rw [Misses.File.idx_matches, hv, haddr, hprobe.req, hi]
    refine decide_eq_true ?_
    exact (Cfg.idx_lineAddr (g.idx_lt _)).symm
  rw [hmatch, hreq] at hr
  simpa using hr

theorem Safe.next (hok : s.Ok g i) (hp : s.Probing g) (ho : ∀ j, Owned g.client (s.mshrs.mshrs j))
    (h : s.Safe g) : (s.next g i).Safe g := by
  intro hh j hi
  have hfrom := Prober.of_holds_next (g := g) (s := s.prober) (i := s.proberIn g i) hh
  obtain ⟨h1, h2⟩ : s.prober.state ≠ .s_invalid ∧ s.prober.state ≠ .s_meta_read := by
    rcases hfrom with ⟨hold, -⟩ | ⟨hs, -⟩
    · exact ⟨(Prober.ne_of_holds hold).1, (Prober.ne_of_holds hold).2.1⟩
    · simp [hs]
  have hreq : (s.next g i).prober.req = s.prober.req := Prober.req_next h1
  unfold Prober.req_idx at hi
  rw [hreq] at hi ⊢
  obtain ⟨hha, hse, hidx⟩ := kept_of_probed hp h1 h2 hi
  have hdata : ((s.next g i).mshrs.mshrs j).req.data = (s.mshrs.mshrs j).req.data :=
    Mshr.addr_req_next hha
  have howes : (s.next g i).prober.owes = true → s.prober.owes = true :=
    Prober.of_owes_next h1
  have hstate : (s.mshrs.mshrIn g.toCfg (s.fileIn g i) j).prober_state = some s.prober.req.address := by
    change s.prober.io_state = _
    rw [Prober.io_state, Prober.busy, decide_eq_true h1]
    rfl
  have hcalm : Calm (s.mshrs.mshrs j) → Calm ((s.next g i).mshrs.mshrs j) ∨
      (Upgrades ((s.next g i).mshrs.mshrs j) ∧ ((s.next g i).prober.owes = true →
        g.params.block ((s.next g i).mshrs.mshrs j).req.data.addr ≠
          g.params.block s.prober.req.address)) := by
    intro hc
    refine (hc.next g.beats (ho j) (granted_of_ok hok j) hstate hidx.symm hha hse).imp_right ?_
    rintro ⟨hu, d, hd, hno⟩
    refine ⟨hu, fun hw => ?_⟩
    rw [hdata]
    exact hok.probed d j (mem_grant_eq_some hd).1 (mem_grant_eq_some hd).2 hno (howes hw)
  rcases hfrom with ⟨hold, -⟩ | ⟨hs, hr, -⟩
  · rcases h hold j hidx with hc | ⟨hu, hb⟩
    · exact hcalm hc
    · refine hu.next.imp_right fun hu => ⟨hu, fun hw => ?_⟩
      rw [hdata]
      exact hb (howes hw)
  · by_cases hv : (s.mshrs.mshrs j).valid = true
    · exact hcalm (calm_of_probe_rdy (calm_of_mshr_rdy hp hs hr hidx hv))
    · exact hcalm (.free (by simpa [Mshr.valid] using hv))

theorem safe_of_reach (h : (dcache g).Reach s) : s.Safe g := by
  induction h with
  | start h0 =>
    intro hh
    simp [Prober.holds, h0.prober] at hh
  | step hr hok ih => exact ih.next hok (probing_of_reach hr) (owned_of_reach hr)

end Cache

end BoomStop.Coherence
