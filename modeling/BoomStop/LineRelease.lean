/-
  The writeback unit among the others: it serves the probe unit and the MSHRs one at
  a time, its response is for the MSHR that waits, and while a line is released no
  probe of its set is answered and no line of its set is acquired, as TileLink wants
  of a release that is not acknowledged.

  * `Serving`: whom the writeback unit serves;
  * `Evicting`, `Releasing`: the set of a line that an MSHR has given up;
  * `writeback_own`, `release_apart`: the results.
-/
import BoomStop.LineWays

namespace BoomStop.Coherence

open Sync
open DCache (MemCmd Meta Params Row ReqType)
open Misses (FileIn Fields ReqBits Grant Mshr MshrIn MshrState WritebackReq Client)

variable {T n S R B N K M : ℕ}

/-! ## One MSHR -/

section Mshr

variable {c : Params} {k : Client} {m : Mshr T n S R B} {i : MshrIn T n S} {e : Bool}

theorem of_wb_resp_next (h : m.state_next c k i = .s_wb_resp) :
    (m.state = .s_wb_req ∧ i.wb_req_ready = true) ∨ (m.state = .s_wb_resp ∧ i.wb_resp = false) := by
  unfold Mshr.state_next at h
  cases hst : m.state with
  | s_wb_req =>
    cases hr : i.wb_req_ready with
    | true => exact .inl ⟨rfl, rfl⟩
    | false => simp [hst, hr] at h
  | s_wb_resp =>
    cases hr : i.wb_resp with
    | true => simp [hst, hr] at h
    | false => exact .inr ⟨rfl, rfl⟩
  | _ =>
    exfalso
    revert h
    simp only [hst, Mshr.pri_state]
    repeat' split
    all_goals simp

/-- An MSHR that has given its victim up and puts its line there. -/
inductive Evicting (m : Mshr T n S R B) : Prop
  | resp : m.state = .s_wb_resp → Evicting m
  | commit : m.state = .s_commit_line → Evicting m
  | drain : m.state = .s_drain_rpq → Evicting m
  | write : m.state = .s_meta_write_req → Evicting m
  | finish : m.state = .s_mem_finish_1 ∨ m.state = .s_mem_finish_2 → m.finish_to_prefetch = false →
    Evicting m

theorem Evicting.next [NeZero R] [NeZero B] (h : Evicting m) :
    Evicting (m.next c k i e) ∨ (m.next c k i e).valid = false := by
  have hst : (m.next c k i e).state = m.state_next c k i := rfl
  have hf : (m.next c k i e).finish_to_prefetch = m.finish_to_prefetch_next k i e := rfl
  cases h with
  | resp hs =>
    cases hr : i.wb_resp with
    | true => exact .inl (.commit (by rw [hst]; simp [Mshr.state_next, hs, hr]))
    | false => exact .inl (.resp (by rw [hst]; simp [Mshr.state_next, hs, hr]))
  | commit hs =>
    rw [Mshr.state_next, hs] at hst
    simp only at hst
    split_ifs at hst
    · exact .inl (.drain hst)
    · exact .inl (.commit hst)
  | drain hs =>
    rw [Mshr.state_next, hs] at hst
    simp only at hst
    split_ifs at hst
    · exact .inl (.write hst)
    · exact .inl (.drain hst)
  | write hs =>
    cases hr : i.meta_write_ready with
    | true =>
      refine .inl (.finish (.inl ?_) ?_)
      · rw [hst]
        simp [Mshr.state_next, hs, hr]
      · rw [hf]
        simp [Mshr.finish_to_prefetch_next, hs, hr]
    | false => exact .inl (.write (by rw [hst]; simp [Mshr.state_next, hs, hr]))
  | finish hs hno =>
    have hf : (m.next c k i e).finish_to_prefetch = false := by
      rw [hf]
      rcases hs with hs | hs <;> simp [Mshr.finish_to_prefetch_next, hs, hno]
    rcases hs with hs | hs
    · rw [Mshr.state_next, hs] at hst
      simp only at hst
      split_ifs at hst
      · exact .inl (.finish (.inr hst) hf)
      · exact .inl (.finish (.inl hst) hf)
    · right
      rw [Mshr.valid, hst]
      simp [Mshr.state_next, hs, hno]

end Mshr

/-! ## Whom the unit serves -/

/-- The line that an MSHR gives up. -/
def victim (g : Cfg B) (m : Mshr T n S R B) (id : ℕ) : WritebackReq n :=
  ⟨m.req.data.old_meta.tag, m.req_idx g.params, id, (g.client.onFlush m.req.data.old_meta.coh).2.1,
    m.req.data.way_en, true⟩

namespace Cache

variable [NeZero S] [NeZero B] [NeZero R] [NeZero N]
variable {g : Cfg B} {s : Cache T n S R B N K M} {i : CacheIn T n M} {j : Fin N}

/-- The writeback unit serves the probe unit or an MSHR, whoever waits for it. -/
structure Serving (g : Cfg B) (s : Cache T n S R B N K M) : Prop where
  probe : s.wb.state ≠ .s_invalid → s.wb.req.voluntary = false → s.prober.state = .s_writeback_resp
  resp : s.prober.state = .s_writeback_resp → s.wb.state ≠ .s_invalid → s.wb.req = s.prober.wb_bits g
  evict : s.wb.state = .s_fill_buffer → s.wb.req.voluntary = true →
    ∃ j, (s.mshrs.mshrs j).state = .s_wb_resp
  mshr : ∀ j, (s.mshrs.mshrs j).state = .s_wb_resp →
    s.wb.state = .s_fill_buffer ∧ s.wb.req = victim g (s.mshrs.mshrs j) j

/-- What the writeback unit is asked for. -/
theorem wb_req_cases {q : WritebackReq n} (hs : s.wb.state = .s_invalid) (h : s.wb_req g i = some q) :
    (s.prober.state = .s_writeback_req ∧ q = s.prober.wb_bits g) ∨
      ∃ j, (s.mshrs.mshrs j).state = .s_wb_req ∧
        ((s.next g i).mshrs.mshrs j).state = .s_wb_resp ∧ q = victim g (s.mshrs.mshrs j) j := by
  unfold wb_req at h
  cases hp : s.prober.wb_req g with
  | some y =>
    rw [hp] at h
    obtain rfl := Option.some.inj h
    unfold Prober.wb_req at hp
    split_ifs at hp with hst
    exact .inl ⟨hst, (Option.some.inj hp).symm⟩
  | none =>
    rw [hp, Option.none_or] at h
    have htaken : Priority.taken (s.mshrs.wbReqs g.toCfg (s.asked g i)) true = some q := h
    obtain ⟨j, hj⟩ := Priority.exists_given htaken
    have hready : Priority.ready (s.mshrs.wbReqs g.toCfg (s.asked g i)) true j = true := by
      unfold Priority.given at hj
      split_ifs at hj with hr
      exact hr
    have hx := (Priority.given_eq_some.1 hj).2.2
    unfold Misses.File.wbReqs Mshr.wb_req at hx
    split_ifs at hx with hst
    have hin : (s.mshrs.mshrIn g.toCfg (s.fileIn g i) j).wb_req_ready = true := by
      have hout : (s.fileIn g i).wb_req_ready = true := by
        change (s.wb.req_ready && (s.prober.wb_req g).isNone) = true
        rw [hp, Wb.req_ready, hs]
        rfl
      change Priority.ready (s.mshrs.wbReqs g.toCfg (s.asked g i)) (s.fileIn g i).wb_req_ready j = true
      rw [hout]
      exact hready
    refine .inr ⟨j, hst, ?_, (Option.some.inj hx).symm⟩
    change (s.mshrs.mshrs j).state_next g.params g.client (s.mshrs.mshrIn g.toCfg (s.fileIn g i) j) = _
    simp [Mshr.state_next, hst, hin]

omit [NeZero R] [NeZero N] in
/-- An MSHR that is heard is served. -/
theorem wb_req_of_ready (hst : (s.mshrs.mshrs j).state = .s_wb_req)
    (hr : (s.mshrs.mshrIn g.toCfg (s.fileIn g i) j).wb_req_ready = true) :
    s.wb.state = .s_invalid ∧ s.wb_req g i = some (victim g (s.mshrs.mshrs j) j) := by
  have hr : Priority.ready (s.mshrs.wbReqs g.toCfg (s.asked g i))
      (s.wb.req_ready && (s.prober.wb_req g).isNone) j = true := hr
  obtain ⟨hout, hfree⟩ := Bool.and_eq_true_iff.1 hr
  obtain ⟨hs, hp⟩ := Bool.and_eq_true_iff.1 hout
  have hj : s.mshrs.wbReqs g.toCfg (s.asked g i) j = some (victim g (s.mshrs.mshrs j) j) := by
    unfold Misses.File.wbReqs Mshr.wb_req
    rw [if_pos hst]
    rfl
  refine ⟨of_decide_eq_true hs, ?_⟩
  rw [wb_req, Option.isNone_iff_eq_none.1 hp, Option.none_or]
  exact Priority.chosen_eq (Priority.free_iff.1 hfree) hj

theorem victim_next {id : ℕ} (hh : (s.mshrs.mshrs j).handles g.client (s.mshrs.mshrIn g.toCfg (s.fileIn g i) j) =
    false) : victim g ((s.next g i).mshrs.mshrs j) id = victim g (s.mshrs.mshrs j) id := by
  have hd : ((s.next g i).mshrs.mshrs j).req.data = (s.mshrs.mshrs j).req.data := Mshr.addr_req_next hh
  unfold victim Mshr.req_idx
  rw [hd]

/-- The unit takes a request when it is free, -/
theorem wb_of_free (hs : s.wb.state = .s_invalid) (hn : (s.next g i).wb.state ≠ .s_invalid) :
    ∃ q, s.wb_req g i = some q ∧ (s.next g i).wb.state = .s_fill_buffer ∧
      (s.next g i).wb.req = q := by
  have hst : (s.next g i).wb.state = s.wb.state_next (s.wbIn g i) B := rfl
  have hreq : (s.wbIn g i).req = s.wb_req g i := rfl
  rw [Wb.state_next, hs, hreq] at hst
  cases hq : s.wb_req g i with
  | none =>
    rw [hq] at hst
    exact absurd hst hn
  | some q =>
    rw [hq] at hst
    refine ⟨q, rfl, hst, ?_⟩
    change (if s.wb.state = .s_invalid then (s.wbIn g i).req.getD s.wb.req else s.wb.req) = q
    rw [if_pos hs, hreq, hq]
    rfl

/-- and keeps it. -/
theorem wb_of_busy (hs : s.wb.state ≠ .s_invalid) : (s.next g i).wb.req = s.wb.req := if_neg hs

theorem Serving.next (h : s.Serving g) : (s.next g i).Serving g := by
  have hwst : (s.next g i).wb.state = s.wb.state_next (s.wbIn g i) B := rfl
  have hpst : (s.next g i).prober.state = s.prober.state_next g (s.proberIn g i) := rfl
  have hready : (s.proberIn g i).wb_req_ready = s.wb.req_ready := rfl
  refine ⟨fun hb hv => ?_, fun hp hb => ?_, fun hf hv => ?_, fun j hj => ?_⟩
  · by_cases hs : s.wb.state = .s_invalid
    · obtain ⟨q, hq, -, hreq⟩ := wb_of_free hs hb
      rcases wb_req_cases hs hq with ⟨hst, -⟩ | ⟨j, -, -, hvic⟩
      · rw [hpst]
        simp [Prober.state_next, hst, hready, Wb.req_ready, hs]
      · rw [hreq, hvic] at hv
        cases hv
    · rw [wb_of_busy hs] at hv
      rw [hpst]
      simp [Prober.state_next, h.probe hs hv, hready, Wb.req_ready, hs]
  · rcases Prober.of_writeback_resp_next (g := g) (i := s.proberIn g i) hp with ⟨hst, hr⟩ | ⟨hst, hr⟩
    · have hs : s.wb.state = .s_invalid := of_decide_eq_true hr
      obtain ⟨q, hq, -, hreq⟩ := wb_of_free hs hb
      have hwq : s.wb_req g i = some (s.prober.wb_bits g) := by
        rw [wb_req, Prober.wb_req, if_pos hst, Option.some_or]
      rw [hreq, Option.some.inj (hq.symm.trans hwq)]
      exact (Prober.wb_bits_next (by simp [hst]) (by simp [hst])).symm
    · have hs : s.wb.state ≠ .s_invalid := of_decide_eq_false hr
      rw [wb_of_busy hs, h.resp hst hs]
      exact (Prober.wb_bits_next (by simp [hst]) (by simp [hst])).symm
  · by_cases hs : s.wb.state = .s_invalid
    · obtain ⟨q, hq, -, hreq⟩ := wb_of_free hs (by rw [hf]; simp)
      rcases wb_req_cases hs hq with ⟨-, hbits⟩ | ⟨j, -, hnext, -⟩
      · rw [hreq, hbits] at hv
        cases hv
      · exact ⟨j, hnext⟩
    · rw [wb_of_busy hs] at hv
      rw [hwst] at hf
      have hfill : s.wb.state = .s_fill_buffer ∧ s.wb.resp B = false := by
        cases hst : s.wb.state <;> simp only [Wb.state_next, hst] at hf <;> (try split_ifs at hf) <;>
          simp_all
      obtain ⟨j, hj⟩ := h.evict hfill.1 hv
      refine ⟨j, ?_⟩
      change (s.mshrs.mshrs j).state_next g.params g.client (s.mshrs.mshrIn g.toCfg (s.fileIn g i) j) = _
      have hresp : (s.mshrs.mshrIn g.toCfg (s.fileIn g i) j).wb_resp = false := hfill.2
      simp [Mshr.state_next, hj, hresp]
  · have hj : (s.mshrs.mshrs j).state_next g.params g.client (s.mshrs.mshrIn g.toCfg (s.fileIn g i) j) =
      .s_wb_resp := hj
    rcases of_wb_resp_next hj with ⟨hst, hr⟩ | ⟨hst, hr⟩
    · obtain ⟨hs, hq⟩ := wb_req_of_ready hst hr
      have hreq : (s.wbIn g i).req = s.wb_req g i := rfl
      have hb : (s.next g i).wb.state ≠ .s_invalid := by
        rw [hwst]
        simp [Wb.state_next, hs, hreq, hq]
      obtain ⟨q, hq', hf, hreq⟩ := wb_of_free hs hb
      refine ⟨hf, ?_⟩
      rw [hreq, victim_next (not_handles (by simp [hst]) (by simp [hst]))]
      exact Option.some.inj (hq'.symm.trans hq)
    · obtain ⟨hf, hvic⟩ := h.mshr j hst
      have hresp : s.wb.resp B = false := hr
      refine ⟨?_, ?_⟩
      · rw [hwst]
        simp [Wb.state_next, hf, hresp]
      · rw [wb_of_busy (by simp [hf]), victim_next (not_handles (by simp [hst]) (by simp [hst]))]
        exact hvic

theorem serving_of_reach (h : (dcache g).Reach s) : s.Serving g := by
  induction h with
  | start h0 =>
    refine ⟨fun hb => absurd h0.wb hb, fun _ hb => absurd h0.wb hb, fun hf => ?_, fun j hj => ?_⟩
    · rw [h0.wb] at hf
      cases hf
    · rw [h0.mshrs.state j] at hj
      cases hj
  | step _ _ ih => exact ih.next

/-! ## The set of a line that is released -/

/-- A line that an MSHR has given up and that is not acknowledged yet: no probe of its set goes
    on, no other line of the set is acquired, and requests of the set find the MSHR or are
    nacked. -/
structure Releasing (g : Cfg B) (s : Cache T n S R B N K M) : Prop where
  answer : s.wb.state ≠ .s_invalid → s.wb.req.voluntary = true → s.prober.holds = true →
    s.prober.req_idx g ≠ s.wb.req.idx
  set : s.wb.state ≠ .s_invalid → s.wb.req.voluntary = true → ∀ j, (s.mshrs.mshrs j).valid = true →
    (s.mshrs.mshrs j).req_idx g.params = s.wb.req.idx → Evicting (s.mshrs.mshrs j)
  seen : s.wb.state ≠ .s_invalid → ∀ w, g.params.idx (s.pipe.s2.req w).addr = s.wb.req.idx →
    s.pipe.s2_nack_hit w = true ∨ s.pipe.s2_wb_idx_matches w = true ∨
      ∃ j, (s.mshrs.mshrs j).valid = true ∧ (s.mshrs.mshrs j).req_idx g.params = s.wb.req.idx

/-- An MSHR that is served, after the cycle. -/
theorem served_next (hst : (s.mshrs.mshrs j).state = .s_wb_req)
    (hn : ((s.next g i).mshrs.mshrs j).state = .s_wb_resp) :
    ((s.next g i).mshrs.mshrs j).valid = true ∧
      ((s.next g i).mshrs.mshrs j).req_idx g.params = (s.mshrs.mshrs j).req_idx g.params := by
  constructor
  · simp [Mshr.valid, hn]
  · exact congrArg (fun d : Misses.Req n S => g.params.idx d.addr)
      (Mshr.addr_req_next (not_handles (by simp [hst]) (by simp [hst])))

theorem answer_next (hpr : s.Probing g) (hsafe : s.Safe g) (h : s.Releasing g)
    (hb : (s.next g i).wb.state ≠ .s_invalid) (hv : (s.next g i).wb.req.voluntary = true)
    (hh : (s.next g i).prober.holds = true) :
    (s.next g i).prober.req_idx g ≠ (s.next g i).wb.req.idx := by
  have hfrom := Prober.of_holds_next (g := g) (s := s.prober) (i := s.proberIn g i) hh
  have hreq : (s.next g i).prober.req = s.prober.req := by
    refine Prober.req_next ?_
    rcases hfrom with ⟨hold, -⟩ | ⟨hs, -⟩
    · exact (Prober.ne_of_holds hold).1
    · simp [hs]
  rw [Prober.req_idx, hreq]
  by_cases hs : s.wb.state = .s_invalid
  · obtain ⟨q, hq, -, hwr⟩ := wb_of_free hs hb
    rw [hwr] at hv ⊢
    rcases wb_req_cases hs hq with ⟨-, rfl⟩ | ⟨j, hst, -, rfl⟩
    · cases hv
    · -- the probe would have found the MSHR in its set
      intro hidx
      have hidx : (s.mshrs.mshrs j).req_idx g.params = s.prober.req_idx g := hidx.symm
      rcases hfrom with ⟨hold, -⟩ | ⟨hp, hr, -⟩
      · rcases hsafe hold j hidx with hc | ⟨⟨-, hu⟩, -⟩
        · cases hc <;> simp_all
        · rcases hu with hu | hu | ⟨hu, -⟩ <;> simp [hst] at hu
      · have hrdy := calm_of_mshr_rdy hpr hp hr hidx (by simp [Mshr.valid, hst])
        simp [Mshr.probe_rdy, hst] at hrdy
  · rw [wb_of_busy hs] at hv ⊢
    rcases hfrom with ⟨hold, -⟩ | ⟨-, -, hr, -⟩
    · exact h.answer hs hv hold
    · have hr : s.wb.idx ≠ some (s.prober.req_idx g) := of_decide_eq_true hr
      rw [Wb.idx, if_neg hs] at hr
      exact fun he => hr (congrArg some he.symm)

theorem set_next (hi : s.mshrs.Inv g.toCfg) (hf : s.Fresh g) (hpr : s.Probing g) (h : s.Releasing g)
    (hb : (s.next g i).wb.state ≠ .s_invalid) (hv : (s.next g i).wb.req.voluntary = true)
    (hj : ((s.next g i).mshrs.mshrs j).valid = true)
    (hidx : ((s.next g i).mshrs.mshrs j).req_idx g.params = (s.next g i).wb.req.idx) :
    Evicting ((s.next g i).mshrs.mshrs j) := by
  by_cases hs : s.wb.state = .s_invalid
  · obtain ⟨q, hq, -, hwr⟩ := wb_of_free hs hb
    rw [hwr] at hv hidx
    rcases wb_req_cases hs hq with ⟨-, rfl⟩ | ⟨l, hst, hn, rfl⟩
    · cases hv
    · -- the set has one MSHR
      obtain ⟨hvl, hil⟩ := served_next hst hn
      obtain rfl := hi.next.apart l j hvl hj (hil.trans hidx.symm)
      exact .resp hn
  · rw [wb_of_busy hs] at hv hidx
    cases hh : (s.mshrs.mshrs j).handles g.client (s.mshrs.mshrIn g.toCfg (s.fileIn g i) j) with
    | true =>
      obtain ⟨w, hw⟩ := taken_of_handles hf hpr hh
      have haddr : g.params.idx (s.pipe.s2.req w).addr = s.wb.req.idx := by
        rw [← hidx, Mshr.req_idx, hw.addr]
      rcases h.seen hs w haddr with hn | hn | ⟨l, hl, hil⟩
      · rw [hw.nack_hit] at hn
        cases hn
      · rw [hw.nack_wb] at hn
        cases hn
      · exact absurd (hil.trans haddr.symm) (hw.alone l hl)
    | false =>
      obtain ⟨hvj, hd⟩ := kept_of_valid hh hj
      rw [Mshr.req_idx, hd] at hidx
      refine ((h.set hs hv j hvj hidx).next).resolve_right ?_
      rw [← Bool.not_eq_true]
      exact not_not_intro hj

theorem seen_next {w : Fin (M + 1)} (hb : (s.next g i).wb.state ≠ .s_invalid)
    (hw : g.params.idx ((s.next g i).pipe.s2.req w).addr = (s.next g i).wb.req.idx) :
    (s.next g i).pipe.s2_nack_hit w = true ∨ (s.next g i).pipe.s2_wb_idx_matches w = true ∨
      ∃ j, ((s.next g i).mshrs.mshrs j).valid = true ∧
        ((s.next g i).mshrs.mshrs j).req_idx g.params = (s.next g i).wb.req.idx := by
  by_cases hs : s.wb.state = .s_invalid
  · obtain ⟨q, hq, -, hwr⟩ := wb_of_free hs hb
    rw [hwr] at hw ⊢
    rcases wb_req_cases hs hq with ⟨hst, rfl⟩ | ⟨l, hst, hn, rfl⟩
    · exact .inl (s2_nack_hit_next (by simp [hst]) hw)
    · obtain ⟨hv, hidx⟩ := served_next hst hn
      exact .inr (.inr ⟨l, hv, hidx⟩)
  · rw [wb_of_busy hs] at hw ⊢
    refine .inr (.inl ?_)
    have hw : g.params.idx (s.pipe.s1.req w).addr = s.wb.req.idx := hw
    change decide (s.wb.idx = some (g.params.idx (s.pipe.s1.req w).addr)) = true
    rw [Wb.idx, if_neg hs, hw]
    exact decide_eq_true rfl

theorem releasing_of_reach (h : (dcache g).Reach s) : s.Releasing g := by
  induction h with
  | start h0 =>
    exact ⟨fun hb => absurd h0.wb hb, fun hb => absurd h0.wb hb, fun hb => absurd h0.wb hb⟩
  | step hr _ ih =>
    obtain ⟨-, hf, -⟩ := lines_of_reach hr
    have hpr := probing_of_reach hr
    exact ⟨answer_next hpr (safe_of_reach hr) ih,
      fun hb hv _ => set_next (file_of_reach hr) hf hpr ih hb hv, fun hb _ => seen_next hb⟩

/-! ## The results -/

/-- **Each response of the writeback unit is for the one that waits**: an MSHR that waits
    for it is the one whose line the unit reads, so there is one, and while the probe unit
    waits and the unit is busy, the unit has its request. -/
theorem writeback_own (h : (dcache g).Reach s) :
    (∀ j, (s.mshrs.mshrs j).state = .s_wb_resp →
      s.wb.state = .s_fill_buffer ∧ s.wb.req = victim g (s.mshrs.mshrs j) j) ∧
    (∀ j l, (s.mshrs.mshrs j).state = .s_wb_resp → (s.mshrs.mshrs l).state = .s_wb_resp → j = l) ∧
    (s.wb.state = .s_fill_buffer → s.wb.req.voluntary = true →
      ∃ j, (s.mshrs.mshrs j).state = .s_wb_resp) ∧
    (s.prober.state = .s_writeback_resp → s.wb.state ≠ .s_invalid →
      s.wb.req = s.prober.wb_bits g) := by
  have hs := serving_of_reach h
  refine ⟨hs.mshr, fun j l hj hl => ?_, hs.evict, hs.resp⟩
  have hsame := (hs.mshr j hj).2.symm.trans (hs.mshr l hl).2
  exact Fin.ext (congrArg WritebackReq.source hsame)

/-- **A release that is not acknowledged** keeps its set: no probe of the set is answered, and
    no line of it is asked for. -/
theorem release_apart (h : (dcache g).Reach s) (hb : s.wb.state ≠ .s_invalid)
    (hv : s.wb.req.voluntary = true) :
    (s.prober.holds = true → s.prober.req_idx g ≠ s.wb.req.idx) ∧
      ∀ j, (s.mshrs.mshrs j).state = .s_refill_req ∨ (s.mshrs.mshrs j).state = .s_refill_resp →
        (s.mshrs.mshrs j).req_idx g.params ≠ s.wb.req.idx := by
  have hr := releasing_of_reach h
  refine ⟨hr.answer hb hv, fun j hj hidx => ?_⟩
  have hev := hr.set hb hv j (by rcases hj with hj | hj <;> simp [Mshr.valid, hj]) hidx
  rcases hj with hj | hj <;> cases hev <;> simp_all

end Cache

/-- MSHR 0 waits for its dirty line to be read. -/
theorem writeback_own_missed :
    ((Small.missed 8).mshrs.mshrs 0).state = .s_wb_resp ∧
      (Small.missed 8).wb.state = .s_fill_buffer ∧
      (Small.missed 8).wb.req = victim Small.cfg ((Small.missed 8).mshrs.mshrs 0) 0 :=
  ⟨by decide +kernel, (Cache.writeback_own (Small.reach_missed 8)).1 0 (by decide +kernel)⟩

namespace Small

/-- A load of a line of the other set. -/
def otherLoad : CacheIn 1 2 0 :=
  { quiet with
    lsu_req_valid := true
    lsu_valid := fun _ => true
    lsu_req := fun _ => ⟨{ nullMicroOp with mem_size := 3, uses_ldq := true }, 208, 0, false⟩ }

/-- Two loads miss, one in each set; the first gets its line, and while the victim
    is released the victim is asked for. -/
def contention : List (CacheIn 1 2 0) :=
  [load, quiet, otherLoad, quiet, beat 11, beat 12] ++ List.replicate 8 quiet ++
    probe :: List.replicate 5 quiet

/-- The victim is on its way. -/
def contended : Cache 1 2 2 2 2 2 1 0 := (dcache cfg).run warm contention

theorem reach_contended : (dcache cfg).Reach contended :=
  Machine.reach_run _ (.start reset_warm) (Machine.accepts_of_passes ok_of_keeps _ _ (by decide))

end Small

/-- The probe waits, and the other MSHR waits for its line. -/
theorem release_apart_contended :
    (Small.contended.prober.state = .s_mshr_req ∧
      (Small.contended.mshrs.mshrs 1).state = .s_refill_resp) ∧
    (Small.contended.prober.holds = true →
      Small.contended.prober.req_idx Small.cfg ≠ Small.contended.wb.req.idx) ∧
      ∀ j, (Small.contended.mshrs.mshrs j).state = .s_refill_req ∨
          (Small.contended.mshrs.mshrs j).state = .s_refill_resp →
        (Small.contended.mshrs.mshrs j).req_idx Small.cfg.params ≠ Small.contended.wb.req.idx :=
  ⟨by decide +kernel,
    Cache.release_apart Small.reach_contended (by decide +kernel) (by decide +kernel)⟩

end BoomStop.Coherence
