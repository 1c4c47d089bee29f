/-
  What is said about the lines that are given up: each probe that was accepted is answered
  once, in order, and so is each line released that an MSHR gave up; the LSU is told first,
  the rows of a line leave in order, and the metadata change last.

  * `lineScript`, `Prober.script`: what is said for a line and for a probe;
  * `sendsOn`, `prober_goesOn`: a cycle of the writeback unit goes on with its line, and one of
    the probe unit with its answer;
  * `releases_sent`, `probes_answered`: the results.
-/
import BoomStop.LineData

namespace BoomStop.Coherence

open Sync
open DCache (Meta Params Row)
open Misses (MetaWrite WritebackReq)

variable {T n S R B N K M : ℕ}

/-! ## What is to be said -/

/-- A row of a line that is given up. -/
def rowMessage (g : Cfg B) (id : ℕ) (q : WritebackReq n) (row : Row) : Release :=
  if q.voluntary then .releaseData id (g.lineAddr q.tag q.idx) q.param row
  else .probeAckData id (g.lineAddr q.tag q.idx) q.param row

/-- A line that is given up, up to a row. -/
def lineScript (g : Cfg B) (id : ℕ) (q : WritebackReq n) (rows : ℕ → Row) (k : ℕ) :
    List (Event n) :=
  .announce (.probeAckData id (g.lineAddr q.tag q.idx) q.param (rows 0)) ::
    (List.range k).map fun j => .send (rowMessage g id q (rows j))

theorem lineScript_succ {g : Cfg B} {id : ℕ} {q : WritebackReq n} {rows : ℕ → Row} {k : ℕ} :
    lineScript g id q rows (k + 1) =
      lineScript g id q rows k ++ [.send (rowMessage g id q (rows k))] := by
  simp [lineScript, List.range_succ]

theorem lineScript_prefix {g : Cfg B} {id : ℕ} {q : WritebackReq n} {rows : ℕ → Row} {k l : ℕ}
    (h : k ≤ l) : lineScript g id q rows k <+: lineScript g id q rows l := by
  induction l, h using Nat.le_induction with
  | base => exact List.prefix_rfl
  | succ l _ ih =>
    rw [lineScript_succ]
    exact ih.trans (List.prefix_append _ _)

namespace Prober

variable (g : Cfg B) (s : Prober n)

/-- The answer to a probe, -/
def reply (id : ℕ) (rows : ℕ → Row) : List (Event n) :=
  if s.writes_back g then lineScript g id (s.wb_bits g) rows B
  else [.announce (s.probeAck g), .send (s.probeAck g)]

/-- and what follows it. -/
def script (id : ℕ) (rows : ℕ → Row) : List (Event n) :=
  s.reply g id rows ++
    if s.tag_matches then [.update ⟨s.req_idx g, s.way_en, ⟨s.req_tag g, s.new_coh g⟩⟩] else []

/-- What has been said for the probe that is under way. -/
def said (id : ℕ) (rows : ℕ → Row) (sent : Option (List (Event n))) : List (Event n) :=
  match s.state with
  | .s_release => [.announce (s.probeAck g)]
  | .s_writeback_resp => sent.getD (lineScript g id (s.wb_bits g) rows B)
  | .s_meta_write => s.reply g id rows
  | .s_meta_write_resp => s.script g id rows
  | _ => []

end Prober

namespace Wb

variable (g : Cfg B) (s : Wb n)

/-- What the writeback unit has said for its line. -/
def sent (id : ℕ) : List (Event n) :=
  match s.state with
  | .s_active => lineScript g id s.req s.wb_buffer s.data_req_cnt
  | .s_grant => lineScript g id s.req s.wb_buffer B
  | _ => []

/-- The unit begins to send with the first row, and stops after the last. -/
structure Counts (B : ℕ) (s : Wb n) : Prop where
  first : s.state = .s_lsu_release → s.data_req_cnt = 0
  active : s.state = .s_active → s.data_req_cnt < B

variable {g s} {i : WbIn n}

theorem Counts.next (hB : 0 < B) (h : s.Counts B) : (s.next i B).Counts B := by
  have hst : (s.next i B).state = s.state_next i B := rfl
  have hcnt : (s.next i B).data_req_cnt = s.data_req_cnt_next i B := rfl
  refine ⟨fun hn => ?_, fun hn => ?_⟩
  · rw [hst] at hn
    rw [hcnt]
    cases hs : s.state <;> simp only [state_next, hs] at hn <;> (try split_ifs at hn with hr)
    · simp [data_req_cnt_next, hs, hr]
    · simpa [data_req_cnt_next, hs] using h.first hs
  · rw [hst] at hn
    rw [hcnt]
    cases hs : s.state <;> simp only [state_next, hs] at hn <;> (try split_ifs at hn with hr)
    · simp [data_req_cnt_next, hs, h.first hs, hB]
    · have hlt := h.active hs
      simp only [data_req_cnt_next, hs]
      split_ifs with hf
      · have hne : s.data_req_cnt ≠ B - 1 := by
          intro he
          simp [all_sent, hf, he] at hr
        omega
      · exact hlt

end Wb

namespace Cache

variable [NeZero S] [NeZero B] [NeZero R] [NeZero N]
variable {g : Cfg B} {s : Cache T n S R B N K M} {i : CacheIn T n M}

/-! ## The writeback unit -/

theorem counts_of_reach (h : (dcache g).Reach s) : s.wb.Counts B := by
  induction h with
  | @start s h0 =>
    have h0 : s.wb.state = .s_invalid := h0.wb
    exact ⟨fun hs => by simp [h0] at hs, fun hs => by simp [h0] at hs⟩
  | step _ _ ih => exact ih.next (Nat.zero_lt_of_lt g.beats)

omit [NeZero R] [NeZero N] in
theorem wb_events_of_free (hs : s.wb.state = .s_invalid) : s.wb_events g i = [] := by
  simp [wb_events, Wb.lsu_release, Wb.release, hs]

/-- A cycle of the writeback unit: it goes on with its line, or the line is done. -/
def SendsOn (g : Cfg B) (s : Cache T n S R B N K M) (i : CacheIn T n M) : Prop :=
  ((s.next g i).wb.state ≠ .s_invalid ∧
    (s.next g i).wb.sent g N = s.wb.sent g N ++ s.wb_events g i) ∨
  ((s.next g i).wb.state = .s_invalid ∧
    s.wb.sent g N ++ s.wb_events g i = lineScript g N s.wb.req s.wb.wb_buffer B)

theorem wb_buffer_next (hf : s.wb.state ≠ .s_fill_buffer) :
    (s.next g i).wb.wb_buffer = s.wb.wb_buffer := by
  change (if s.wb.state = .s_fill_buffer && s.wb.r2_data_req_fired then _ else s.wb.wb_buffer) = _
  simp [hf]

/-- A row is sent, or waits for memory; after the last one the unit is done with a probe. -/
theorem active_sendsOn (hc : s.wb.Counts B) (hw : s.wb.state = .s_active) : s.SendsOn g i := by
  have hst : (s.next g i).wb.state = s.wb.state_next (s.wbIn g i) B := rfl
  have hcnt : (s.next g i).wb.data_req_cnt = s.wb.data_req_cnt_next (s.wbIn g i) B := rfl
  have hreq : (s.next g i).wb.req = s.wb.req := wb_of_busy (by simp [hw])
  have hbuf : (s.next g i).wb.wb_buffer = s.wb.wb_buffer := wb_buffer_next (by simp [hw])
  have hlt := hc.active hw
  have hsent : s.wb.sent g N = lineScript g N s.wb.req s.wb.wb_buffer s.wb.data_req_cnt := by
    rw [Wb.sent, hw]
  cases hr : i.release_ready with
  | false =>
    have hfire : s.wb.release_fires (s.wbIn g i) B = false := by
      simp [Wb.release_fires, wbIn, hr]
    have hn : (s.next g i).wb.state = .s_active := by
      rw [hst]
      simp [Wb.state_next, Wb.all_sent, hw, hfire]
    have hev : s.wb_events g i = [] := by simp [wb_events, Wb.lsu_release, hw, hr]
    have hc' : (s.next g i).wb.data_req_cnt = s.wb.data_req_cnt := by
      rw [hcnt]
      simp [Wb.data_req_cnt_next, hw, hfire]
    left
    refine ⟨by simp [hn], ?_⟩
    rw [hsent, Wb.sent, hn, hev, hc', hreq, hbuf, List.append_nil]
  | true =>
    have hfire : s.wb.release_fires (s.wbIn g i) B = true := by
      simp [Wb.release_fires, wbIn, hr, hw, hlt]
    have hev : s.wb_events g i =
        [.send (rowMessage g N s.wb.req (s.wb.wb_buffer s.wb.data_req_cnt))] := by
      have hrel : s.wb.release g (s.wbIn g i) =
          some (rowMessage g N s.wb.req (s.wb.wb_buffer s.wb.data_req_cnt)) := by
        rw [Wb.release, hw, decide_eq_true hlt]
        rfl
      simp [wb_events, Wb.lsu_release, hw, hr, hrel]
    unfold SendsOn
    rw [hsent, hev, ← lineScript_succ]
    by_cases hlast : s.wb.data_req_cnt = B - 1
    · have hall : s.wb.all_sent (s.wbIn g i) B = true := by
        simp [Wb.all_sent, hfire, hlast]
      have hB : s.wb.data_req_cnt + 1 = B := by omega
      rw [hB]
      cases hv : s.wb.req.voluntary with
      | true =>
        have hn : (s.next g i).wb.state = .s_grant := by
          rw [hst]
          simp [Wb.state_next, hw, hall, hv]
        left
        refine ⟨by simp [hn], ?_⟩
        rw [Wb.sent, hn, hreq, hbuf]
      | false =>
        have hn : (s.next g i).wb.state = .s_invalid := by
          rw [hst]
          simp [Wb.state_next, hw, hall, hv]
        exact .inr ⟨hn, rfl⟩
    · have hn : (s.next g i).wb.state = .s_active := by
        rw [hst]
        simp [Wb.state_next, Wb.all_sent, hw, hlast]
      have hc' : (s.next g i).wb.data_req_cnt = s.wb.data_req_cnt + 1 := by
        rw [hcnt]
        simp [Wb.data_req_cnt_next, hw, hfire]
      left
      refine ⟨by simp [hn], ?_⟩
      rw [Wb.sent, hn, hc', hreq, hbuf]

theorem sendsOn (hc : s.wb.Counts B) (hs : s.wb.state ≠ .s_invalid) : s.SendsOn g i := by
  have hst : (s.next g i).wb.state = s.wb.state_next (s.wbIn g i) B := rfl
  have hcnt : (s.next g i).wb.data_req_cnt = s.wb.data_req_cnt_next (s.wbIn g i) B := rfl
  have hreq : (s.next g i).wb.req = s.wb.req := wb_of_busy hs
  cases hw : s.wb.state with
  | s_invalid => exact absurd hw hs
  | s_fill_buffer =>
    have hev : s.wb_events g i = [] := by simp [wb_events, Wb.lsu_release, Wb.release, hw]
    have hnext : (s.next g i).wb.state = .s_lsu_release ∨ (s.next g i).wb.state = .s_fill_buffer := by
      rw [hst, Wb.state_next, hw]
      simp only
      split_ifs
      · exact .inl rfl
      · exact .inr rfl
    left
    rcases hnext with hn | hn <;> simp [Wb.sent, hn, hw, hev]
  | s_lsu_release =>
    left
    cases hr : i.lsu_release_ready with
    | false =>
      have hn : (s.next g i).wb.state = .s_lsu_release := by
        rw [hst]
        simp [Wb.state_next, hw, wbIn, hr]
      have hev : s.wb_events g i = [] := by simp [wb_events, Wb.release, hw, hr]
      simp [Wb.sent, hn, hw, hev]
    | true =>
      have hn : (s.next g i).wb.state = .s_active := by
        rw [hst]
        simp [Wb.state_next, hw, wbIn, hr]
      have hev : s.wb_events g i = [.announce (s.wb.probeResponse g (s.wbIn g i))] := by
        simp [wb_events, Wb.lsu_release, Wb.release, hw, hr]
      have hc0 : (s.next g i).wb.data_req_cnt = 0 := by
        rw [hcnt]
        simpa [Wb.data_req_cnt_next, hw] using hc.first hw
      refine ⟨by simp [hn], ?_⟩
      rw [Wb.sent, hn, Wb.sent, hw, hev, hc0, hreq, wb_buffer_next (by simp [hw])]
      rw [List.nil_append, Wb.probeResponse, hc.first hw]
      rfl
  | s_active => exact active_sendsOn hc hw
  | s_grant =>
    have hev : s.wb_events g i = [] := by simp [wb_events, Wb.lsu_release, Wb.release, hw]
    have hsent : s.wb.sent g N = lineScript g N s.wb.req s.wb.wb_buffer B := by rw [Wb.sent, hw]
    cases ha : s.wb.acked with
    | true =>
      have hn : (s.next g i).wb.state = .s_invalid := by
        rw [hst]
        simp [Wb.state_next, hw, ha]
      exact .inr ⟨hn, by rw [hsent, hev, List.append_nil]⟩
    | false =>
      have hn : (s.next g i).wb.state = .s_grant := by
        rw [hst]
        simp [Wb.state_next, hw, ha]
      left
      refine ⟨by simp [hn], ?_⟩
      rw [hsent, hev, List.append_nil, Wb.sent, hn, hreq, wb_buffer_next (by simp [hw])]

/-! ## The lines of the MSHRs -/

/-- The lines that were given up are released one after the other. -/
def ReleasesSaid (g : Cfg B) (s : Cache T n S R B N K M) : Prop :=
  ∃ past : List (WritebackReq n × (ℕ → Row)),
    s.evicted = past.map Prod.fst ++
      (if s.wb.state ≠ .s_invalid ∧ s.wb.req.voluntary = true then [s.wb.req] else []) ∧
    s.releases = (past.flatMap fun x => lineScript g N x.1 x.2 B) ++
      (if s.wb.state ≠ .s_invalid ∧ s.wb.req.voluntary = true then s.wb.sent g N else [])

theorem ReleasesSaid.next (hc : s.wb.Counts B) (h : s.ReleasesSaid g) : (s.next g i).ReleasesSaid g := by
  obtain ⟨past, hev, hrel⟩ := h
  have hev' : (s.next g i).evicted = s.evicted ++ (s.evicts g i).toList := rfl
  have hrel' : (s.next g i).releases =
      s.releases ++ if s.wb.req.voluntary then s.wb_events g i else [] := rfl
  by_cases hs : s.wb.state = .s_invalid
  · have hquiet : (if s.wb.req.voluntary then s.wb_events g i else []) = [] := by
      rw [wb_events_of_free hs, ite_self]
    have hno : ¬(s.wb.state ≠ .s_invalid ∧ s.wb.req.voluntary = true) := fun hb => hb.1 hs
    rw [if_neg hno, List.append_nil] at hev hrel
    refine ⟨past, ?_, ?_⟩
    · rw [hev', hev]
      congr 1
      have hready : s.wb.req_ready = true := decide_eq_true hs
      by_cases hb : (s.next g i).wb.state = .s_invalid
      · -- no request came
        have hq : s.wb_req g i = none := by
          by_contra hq
          have hst : (s.next g i).wb.state = s.wb.state_next (s.wbIn g i) B := rfl
          have hreq : (s.wbIn g i).req = s.wb_req g i := rfl
          rw [hst, Wb.state_next, hs, hreq] at hb
          simp [Option.isSome_iff_ne_none.2 hq] at hb
        rw [if_neg fun hb' => hb'.1 hb, evicts, hready, hq]
        rfl
      · obtain ⟨q, hq, -, hwr⟩ := wb_of_free hs hb
        rw [evicts, hready, hq, hwr]
        cases hv : q.voluntary <;> simp [hb, hv]
    · rw [hrel', hrel, hquiet]
      have hsent : (if (s.next g i).wb.state ≠ .s_invalid ∧ (s.next g i).wb.req.voluntary = true
          then (s.next g i).wb.sent g N else []) = [] := by
        by_cases hb : (s.next g i).wb.state = .s_invalid
        · rw [if_neg fun hb' => hb'.1 hb]
        · obtain ⟨q, -, hf, -⟩ := wb_of_free hs hb
          simp [Wb.sent, hf]
      rw [hsent]
  · have hnone : (s.evicts g i).toList = [] := by
      have hready : s.wb.req_ready = false := decide_eq_false hs
      rw [evicts, hready]
      rfl
    have hreq : (s.next g i).wb.req = s.wb.req := wb_of_busy hs
    rw [hnone, List.append_nil] at hev'
    cases hv : s.wb.req.voluntary with
    | false =>
      rw [hv] at hev hrel hrel'
      refine ⟨past, ?_, ?_⟩
      · rw [hev', hev, hreq, hv]
        simp
      · rw [hrel', hrel, hreq, hv]
        simp
    | true =>
      rw [if_pos ⟨hs, hv⟩] at hev hrel
      rw [hv, if_pos rfl] at hrel'
      rcases sendsOn (g := g) (i := i) hc hs with ⟨hb, hsent⟩ | ⟨hb, hdone⟩
      · refine ⟨past, ?_, ?_⟩
        · rw [hev', hev, hreq, if_pos ⟨hb, hv⟩]
        · rw [hrel', hrel, hreq, if_pos ⟨hb, hv⟩, hsent, List.append_assoc]
      · refine ⟨past ++ [(s.wb.req, s.wb.wb_buffer)], ?_, ?_⟩
        · rw [hev', hev, if_neg fun hb' => hb'.1 hb]
          simp
        · rw [hrel', hrel, if_neg fun hb' => hb'.1 hb, List.append_assoc, hdone]
          simp

/-- **Each line that an MSHR gives up is released once**, in the order in which they were
    given up: the LSU is told, and all rows are sent, in order. -/
theorem releases_sent (h : (dcache g).Reach s) :
    ∃ past : List (WritebackReq n × (ℕ → Row)),
      s.evicted = past.map Prod.fst ++
        (if s.wb.state ≠ .s_invalid ∧ s.wb.req.voluntary = true then [s.wb.req] else []) ∧
      s.releases = (past.flatMap fun x => lineScript g N x.1 x.2 B) ++
        (if s.wb.state ≠ .s_invalid ∧ s.wb.req.voluntary = true then s.wb.sent g N else []) := by
  have hinv : s.ReleasesSaid g := by
    induction h with
    | @start s h0 =>
      have hs : s.wb.state = .s_invalid := h0.wb
      refine ⟨[], ?_, ?_⟩
      · simp [h0.evicted, hs]
      · simp [h0.releases, hs]
    | step hr _ ih => exact ReleasesSaid.next (counts_of_reach hr) ih
  exact hinv

/-! ## The probes -/

/-- The probe that is under way. -/
def current (s : Cache T n S R B N K M) : List Probe :=
  if s.prober.state = .s_invalid then [] else [s.prober.req]

/-- What the writeback unit has said for the probe unit, as long as it is busy. -/
def sending (g : Cfg B) (s : Cache T n S R B N K M) : Option (List (Event n)) :=
  if s.wb.state = .s_invalid then none else some (s.wb.sent g N)

/-- The probes that were accepted are answered one after the other. -/
def ProbesAnswered (g : Cfg B) (s : Cache T n S R B N K M) : Prop :=
  ∃ (past : List (Prober n × (ℕ → Row))) (rows : ℕ → Row),
    s.probes = past.map (fun x => x.1.req) ++ s.current ∧
    s.answers = (past.flatMap fun x => x.1.script g N x.2) ++
      s.prober.said g N rows (s.sending g)

omit [NeZero R] [NeZero N] in
theorem prober_events_of_quiet (h1 : s.prober.state ≠ .s_lsu_release)
    (h2 : s.prober.state ≠ .s_release) (h3 : s.prober.state ≠ .s_meta_write) :
    s.prober_events g i = [] := by
  simp [prober_events, Prober.lsu_release, Prober.rep, Prober.meta_write, h1, h2, h3]

omit [NeZero R] [NeZero N] in
/-- The writeback unit says nothing for a probe unit that does not wait for it. -/
theorem quiet_of_not_resp (hv : s.Serving g) (hs : s.prober.state ≠ .s_writeback_resp) :
    (if s.wb.req.voluntary then [] else s.wb_events g i) = [] := by
  by_cases hw : s.wb.state = .s_invalid
  · rw [wb_events_of_free hw, ite_self]
  · cases hvol : s.wb.req.voluntary with
    | true => rfl
    | false => exact absurd (hv.probe hw hvol) hs

/-- What is said in a cycle, by state of the probe unit. -/
theorem answers_next (hv : s.Serving g) (hs : s.prober.state ≠ .s_writeback_resp) :
    (s.next g i).answers = s.answers ++ s.prober_events g i := by
  change s.answers ++ s.prober_events g i ++ (if s.wb.req.voluntary then [] else s.wb_events g i) = _
  rw [quiet_of_not_resp hv hs, List.append_nil]

/-- The answer does not change while it is given. -/
theorem reply_next (h1 : s.prober.state ≠ .s_invalid) (h2 : s.prober.state ≠ .s_mshr_req) :
    (s.next g i).prober.probeAck g = s.prober.probeAck g ∧
      (∀ rows, (s.next g i).prober.reply g N rows = s.prober.reply g N rows) ∧
      ∀ rows, (s.next g i).prober.script g N rows = s.prober.script g N rows := by
  have hreq : (s.next g i).prober.req = s.prober.req := Prober.req_next h1
  have hway : (s.next g i).prober.way_en = s.prober.way_en := Prober.way_en_next h2
  have hcoh : (s.next g i).prober.old_coh = s.prober.old_coh := Prober.old_coh_next h2
  have hbits : (s.next g i).prober.wb_bits g = s.prober.wb_bits g := Prober.wb_bits_next h1 h2
  unfold Prober.script Prober.reply Prober.writes_back Prober.is_dirty Prober.probeAck
    Prober.report_param Prober.new_coh Prober.req_idx Prober.req_tag Prober.reply_coh
    Prober.tag_matches
  rw [hbits, hreq, hway, hcoh]
  exact ⟨rfl, fun _ => rfl, fun _ => rfl⟩

/-- In a cycle `now` is said for the probe under way: its answer goes on so, or ends so. -/
def GoesOn (g : Cfg B) (s : Cache T n S R B N K M) (i : CacheIn T n M) (rows rows' : ℕ → Row)
    (now : List (Event n)) : Prop :=
  ((s.next g i).prober.state ≠ .s_invalid ∧
    (s.next g i).prober.said g N rows' ((s.next g i).sending g) =
      s.prober.said g N rows (s.sending g) ++ now) ∨
  ((s.next g i).prober.state = .s_invalid ∧
    s.prober.said g N rows (s.sending g) ++ now = s.prober.script g N rows)

/-- A line that is clean: the LSU is told, then memory. -/
theorem clean_goesOn (hd : s.prober.Decided g)
    (hs : s.prober.state = .s_lsu_release ∨ s.prober.state = .s_release) (rows : ℕ → Row) :
    s.GoesOn g i rows rows (s.prober_events g i) := by
  have hst : (s.next g i).prober.state = s.prober.state_next g (s.proberIn g i) := rfl
  have hclean := hd.clean hs
  obtain ⟨hack, hreply, -⟩ := reply_next (s := s) (g := g) (i := i)
    (by rcases hs with hs | hs <;> simp [hs]) (by rcases hs with hs | hs <;> simp [hs])
  have hrep : s.prober.reply g N rows =
      [.announce (s.prober.probeAck g), .send (s.prober.probeAck g)] := by
    rw [Prober.reply, hclean, if_neg Bool.false_ne_true]
  rcases hs with hs | hs
  · left
    have hsaid : s.prober.said g N rows (s.sending g) = [] := by rw [Prober.said, hs]
    cases hr : (s.proberIn g i).lsu_release_ready with
    | true =>
      have hn : (s.next g i).prober.state = .s_release := by
        rw [hst]
        simp [Prober.state_next, hs, hr]
      have hev : s.prober_events g i = [.announce (s.prober.probeAck g)] := by
        simp [prober_events, Prober.lsu_release, Prober.rep, Prober.meta_write, hs, hr]
      refine ⟨by simp [hn], ?_⟩
      rw [hsaid, hev, Prober.said, hn]
      simp only
      rw [hack]
      rfl
    | false =>
      have hn : (s.next g i).prober.state = .s_lsu_release := by
        rw [hst]
        simp [Prober.state_next, hs, hr]
      have hev : s.prober_events g i = [] := by
        simp [prober_events, Prober.rep, Prober.meta_write, hs, hr]
      refine ⟨by simp [hn], ?_⟩
      rw [hsaid, hev, Prober.said, hn]
      rfl
  · have hsaid : s.prober.said g N rows (s.sending g) = [.announce (s.prober.probeAck g)] := by
      rw [Prober.said, hs]
    cases hr : i.rep_ready with
    | true =>
      have hev : s.prober_events g i = [.send (s.prober.probeAck g)] := by
        simp [prober_events, Prober.lsu_release, Prober.rep, Prober.meta_write, hs, hr]
      cases ht : s.prober.tag_matches with
      | true =>
        have hn : (s.next g i).prober.state = .s_meta_write := by
          rw [hst]
          simp [Prober.state_next, hs, proberIn, hr, ht]
        refine .inl ⟨by simp [hn], ?_⟩
        rw [hsaid, hev, Prober.said, hn]
        simp only
        rw [hreply, hrep]
        rfl
      | false =>
        have hn : (s.next g i).prober.state = .s_invalid := by
          rw [hst]
          simp [Prober.state_next, hs, proberIn, hr, ht]
        refine .inr ⟨hn, ?_⟩
        rw [hsaid, hev, Prober.script, hrep, ht]
        rfl
    | false =>
      have hn : (s.next g i).prober.state = .s_release := by
        rw [hst]
        simp [Prober.state_next, hs, proberIn, hr]
      have hev : s.prober_events g i = [] := by
        simp [prober_events, Prober.lsu_release, Prober.meta_write, hs, hr]
      refine .inl ⟨by simp [hn], ?_⟩
      rw [hsaid, hev, Prober.said, hn]
      simp only
      rw [hack]
      rfl

/-- A line that is dirty is given to the writeback unit, -/
theorem request_goesOn (hs : s.prober.state = .s_writeback_req) (rows : ℕ → Row) :
    s.GoesOn g i rows rows (s.prober_events g i) := by
  have hst : (s.next g i).prober.state = s.prober.state_next g (s.proberIn g i) := rfl
  have hev : s.prober_events g i = [] :=
    prober_events_of_quiet (by simp [hs]) (by simp [hs]) (by simp [hs])
  have hsaid : s.prober.said g N rows (s.sending g) = [] := by rw [Prober.said, hs]
  have hready : (s.proberIn g i).wb_req_ready = s.wb.req_ready := rfl
  left
  by_cases hw : s.wb.state = .s_invalid
  · -- the unit takes the request
    have hn : (s.next g i).prober.state = .s_writeback_resp := by
      rw [hst]
      simp [Prober.state_next, hs, hready, Wb.req_ready, hw]
    have hq : (s.wbIn g i).req = some (s.prober.wb_bits g) := by
      change s.wb_req g i = _
      rw [wb_req, Prober.wb_req, if_pos hs, Option.some_or]
    have hwn : (s.next g i).wb.state = .s_fill_buffer := by
      change s.wb.state_next (s.wbIn g i) B = _
      simp [Wb.state_next, hw, hq]
    refine ⟨by simp [hn], ?_⟩
    rw [hsaid, hev, Prober.said, hn, sending, if_neg (by simp [hwn]), Wb.sent, hwn]
    rfl
  · have hn : (s.next g i).prober.state = .s_writeback_req := by
      rw [hst]
      simp [Prober.state_next, hs, hready, Wb.req_ready, hw]
    refine ⟨by simp [hn], ?_⟩
    rw [hsaid, hev, Prober.said, hn]
    rfl

/-- which answers for the probe unit. -/
theorem writeback_goesOn (hc : s.wb.Counts B) (hv : s.Serving g) (hd : s.prober.Decided g)
    (hs : s.prober.state = .s_writeback_resp) (rows : ℕ → Row) :
    ∃ rows', s.GoesOn g i rows rows' (if s.wb.req.voluntary then [] else s.wb_events g i) := by
  have hst : (s.next g i).prober.state = s.prober.state_next g (s.proberIn g i) := rfl
  have hb : s.prober.state ≠ .s_invalid := by simp [hs]
  obtain ⟨-, hreply, -⟩ := reply_next (g := g) (i := i) hb (by simp [hs])
  have hready : (s.proberIn g i).wb_req_ready = s.wb.req_ready := rfl
  by_cases hw : s.wb.state = .s_invalid
  · have hn : (s.next g i).prober.state = .s_meta_write := by
      rw [hst]
      simp [Prober.state_next, hs, hready, Wb.req_ready, hw]
    have hsaid : s.prober.said g N rows (s.sending g) = lineScript g N (s.prober.wb_bits g) rows B := by
      rw [Prober.said, hs, sending, if_pos hw]
      rfl
    refine ⟨rows, .inl ⟨by simp [hn], ?_⟩⟩
    rw [wb_events_of_free hw, ite_self, List.append_nil, hsaid, Prober.said, hn]
    simp only
    rw [hreply, Prober.reply, hd.dirty (.inr hs), if_pos rfl]
  · have hwb := hv.resp hs hw
    have hvol : s.wb.req.voluntary = false := by
      rw [hwb]
      rfl
    have hbits : (s.next g i).prober.wb_bits g = s.prober.wb_bits g :=
      Prober.wb_bits_next hb (by simp [hs])
    have hn : (s.next g i).prober.state = .s_writeback_resp := by
      rw [hst]
      simp [Prober.state_next, hs, hready, Wb.req_ready, hw]
    have hsaid : s.prober.said g N rows (s.sending g) = s.wb.sent g N := by
      rw [Prober.said, hs, sending, if_neg hw]
      rfl
    unfold GoesOn
    rw [hvol, if_neg Bool.false_ne_true, hsaid]
    rcases sendsOn (g := g) (i := i) hc hw with ⟨hwn, hsent⟩ | ⟨hwn, hlast⟩
    · refine ⟨rows, .inl ⟨by simp [hn], ?_⟩⟩
      rw [← hsent, Prober.said, hn, sending, if_neg hwn]
      rfl
    · refine ⟨s.wb.wb_buffer, .inl ⟨by simp [hn], ?_⟩⟩
      rw [hlast, Prober.said, hn, sending, if_pos hwn]
      simp only [Option.getD_none]
      rw [hbits, hwb]

/-- The metadata of a line that was found come last. -/
theorem meta_goesOn (hd : s.prober.Decided g)
    (hs : s.prober.state = .s_meta_write ∨ s.prober.state = .s_meta_write_resp) (rows : ℕ → Row) :
    s.GoesOn g i rows rows (s.prober_events g i) := by
  have hst : (s.next g i).prober.state = s.prober.state_next g (s.proberIn g i) := rfl
  have hfound := hd.found hs
  obtain ⟨-, hreply, hscript⟩ := reply_next (s := s) (g := g) (i := i)
    (by rcases hs with hs | hs <;> simp [hs]) (by rcases hs with hs | hs <;> simp [hs])
  rcases hs with hs | hs
  · left
    have hsaid : s.prober.said g N rows (s.sending g) = s.prober.reply g N rows := by
      rw [Prober.said, hs]
    cases hr : (s.proberIn g i).meta_write_ready with
    | true =>
      have hn : (s.next g i).prober.state = .s_meta_write_resp := by
        rw [hst]
        simp [Prober.state_next, hs, hr]
      have hev : s.prober_events g i =
          [.update ⟨s.prober.req_idx g, s.prober.way_en, ⟨s.prober.req_tag g, s.prober.new_coh g⟩⟩] := by
        simp [prober_events, Prober.lsu_release, Prober.rep, Prober.meta_write, hs, hr]
      refine ⟨by simp [hn], ?_⟩
      rw [hsaid, hev, Prober.said, hn]
      simp only
      rw [hscript, Prober.script, hfound, if_pos rfl]
    | false =>
      have hn : (s.next g i).prober.state = .s_meta_write := by
        rw [hst]
        simp [Prober.state_next, hs, hr]
      have hev : s.prober_events g i = [] := by
        simp [prober_events, Prober.lsu_release, Prober.rep, hs, hr]
      refine ⟨by simp [hn], ?_⟩
      rw [hsaid, hev, Prober.said, hn, List.append_nil]
      simp only
      rw [hreply]
  · have hev : s.prober_events g i = [] :=
      prober_events_of_quiet (by simp [hs]) (by simp [hs]) (by simp [hs])
    have hn : (s.next g i).prober.state = .s_invalid := by
      rw [hst]
      simp [Prober.state_next, hs]
    refine .inr ⟨hn, ?_⟩
    rw [hev, List.append_nil, Prober.said, hs]

/-- A cycle of the probe unit, unless it waits for the writeback unit. -/
theorem prober_goesOn (hd : s.prober.Decided g) (hb : s.prober.state ≠ .s_invalid)
    (hr : s.prober.state ≠ .s_writeback_resp) (rows : ℕ → Row) :
    s.GoesOn g i rows rows (s.prober_events g i) := by
  have hst : (s.next g i).prober.state = s.prober.state_next g (s.proberIn g i) := rfl
  cases hs : s.prober.state with
  | s_invalid => exact absurd hs hb
  | s_writeback_resp => exact absurd hs hr
  | s_writeback_req => exact request_goesOn hs rows
  | s_lsu_release => exact clean_goesOn hd (.inl hs) rows
  | s_release => exact clean_goesOn hd (.inr hs) rows
  | s_meta_write => exact meta_goesOn hd (.inl hs) rows
  | s_meta_write_resp => exact meta_goesOn hd (.inr hs) rows
  | _ =>
    -- the line is looked for
    have hev : s.prober_events g i = [] :=
      prober_events_of_quiet (by simp [hs]) (by simp [hs]) (by simp [hs])
    have hsaid : s.prober.said g N rows (s.sending g) = [] := by rw [Prober.said, hs]
    left
    rw [hsaid, hev]
    unfold Prober.said
    rw [hst, Prober.state_next, hs]
    simp only
    try split_ifs
    all_goals simp

/-- The probe unit is free: it takes a probe, or stays free, and nothing is said. -/
theorem of_prober_free (hv : s.Serving g) (hs : s.prober.state = .s_invalid) (rows : ℕ → Row) :
    (s.accepts g i).toList = (s.next g i).current ∧ (s.next g i).answers = s.answers ∧
      (s.next g i).prober.said g N rows ((s.next g i).sending g) = [] := by
  have hst : (s.next g i).prober.state = s.prober.state_next g (s.proberIn g i) := rfl
  have hev : s.prober_events g i = [] :=
    prober_events_of_quiet (by simp [hs]) (by simp [hs]) (by simp [hs])
  have hans := answers_next (i := i) hv (by simp [hs])
  rw [hev, List.append_nil] at hans
  have hacc : s.accepts g i = (s.proberIn g i).req := by
    rw [accepts, Prober.req_ready, hs]
    rfl
  cases hq : (s.proberIn g i).req with
  | none =>
    have hn : (s.next g i).prober.state = .s_invalid := by
      rw [hst]
      simp [Prober.state_next, hs, hq]
    refine ⟨?_, hans, by rw [Prober.said, hn]⟩
    rw [hacc, hq, current, if_pos hn]
    rfl
  | some p =>
    have hn : (s.next g i).prober.state = .s_meta_read := by
      rw [hst]
      simp [Prober.state_next, hs, hq]
    have hreq : (s.next g i).prober.req = p := by
      change (if s.prober.state = .s_invalid then (s.proberIn g i).req.getD s.prober.req
        else s.prober.req) = p
      rw [if_pos hs, hq]
      rfl
    refine ⟨?_, hans, by rw [Prober.said, hn]⟩
    rw [hacc, hq, current, hn, hreq]
    rfl

theorem ProbesAnswered.next (hc : s.wb.Counts B) (hv : s.Serving g) (hd : s.prober.Decided g)
    (h : s.ProbesAnswered g) : (s.next g i).ProbesAnswered g := by
  obtain ⟨past, rows, hp, ha⟩ := h
  have hp' : (s.next g i).probes = s.probes ++ (s.accepts g i).toList := rfl
  by_cases hb : s.prober.state = .s_invalid
  · obtain ⟨hacc, hans, hsaid⟩ := of_prober_free (i := i) hv hb rows
    refine ⟨past, rows, ?_, ?_⟩
    · rw [hp', hp, current, if_pos hb, List.append_nil, hacc]
    · rw [hans, ha, hsaid, Prober.said, hb]
  · have hnone : (s.accepts g i).toList = [] := by
      have hready : s.prober.req_ready = false := decide_eq_false hb
      rw [accepts, hready]
      rfl
    have hreq : (s.next g i).prober.req = s.prober.req := Prober.req_next hb
    have hgoes : ∃ now rows', (s.next g i).answers = s.answers ++ now ∧ s.GoesOn g i rows rows' now := by
      by_cases hr : s.prober.state = .s_writeback_resp
      · obtain ⟨rows', hgo⟩ := writeback_goesOn (i := i) hc hv hd hr rows
        refine ⟨_, rows', ?_, hgo⟩
        have hev : s.prober_events g i = [] :=
          prober_events_of_quiet (by simp [hr]) (by simp [hr]) (by simp [hr])
        change s.answers ++ s.prober_events g i ++ _ = _
        rw [hev, List.append_nil]
      · exact ⟨_, rows, answers_next hv hr, prober_goesOn hd hb hr rows⟩
    obtain ⟨now, rows', hans, hgo⟩ := hgoes
    rw [hp, hnone, current, if_neg hb] at hp'
    rcases hgo with ⟨hn, hsaid⟩ | ⟨hn, hdone⟩
    · -- the same probe goes on
      refine ⟨past, rows', ?_, ?_⟩
      · rw [hp', List.append_nil, current, if_neg hn, hreq]
      · rw [hans, ha, hsaid, List.append_assoc]
    · refine ⟨past ++ [(s.prober, rows)], rows, ?_, ?_⟩
      · rw [hp', current, if_pos hn]
        simp
      · rw [hans, ha, List.append_assoc, hdone, Prober.said, hn]
        simp

theorem answered_of_reach (h : (dcache g).Reach s) : s.ProbesAnswered g := by
  induction h with
  | @start s h0 =>
    have hs : s.prober.state = .s_invalid := h0.prober
    refine ⟨[], fun _ _ => 0, ?_, ?_⟩
    · simp [h0.probes, current, hs]
    · simp [h0.answers, Prober.said, hs]
  | step hr _ ih => exact ih.next (counts_of_reach hr) (serving_of_reach hr) (decided_of_reach hr)

omit [NeZero S] [NeZero B] [NeZero R] [NeZero N] in
/-- What is said for a probe under way is the beginning of its answer. -/
theorem said_prefix (hc : s.wb.Counts B) (hv : s.Serving g) (hd : s.prober.Decided g)
    (rows : ℕ → Row) :
    ∃ rows', s.prober.said g N rows (s.sending g) <+: s.prober.script g N rows' := by
  unfold Prober.said
  cases hs : s.prober.state with
  | s_release =>
    refine ⟨rows, ?_⟩
    rw [Prober.script, Prober.reply, hd.clean (.inr hs), if_neg Bool.false_ne_true]
    exact ⟨_, rfl⟩
  | s_writeback_resp =>
    have hscript : ∀ rows', lineScript g N (s.prober.wb_bits g) rows' B <+:
        s.prober.script g N rows' := fun rows' => by
      rw [Prober.script, Prober.reply, hd.dirty (.inr hs), if_pos rfl]
      exact List.prefix_append _ _
    by_cases hw : s.wb.state = .s_invalid
    · rw [sending, if_pos hw]
      exact ⟨rows, hscript rows⟩
    · rw [sending, if_neg hw]
      refine ⟨s.wb.wb_buffer, List.IsPrefix.trans ?_ (hscript s.wb.wb_buffer)⟩
      rw [← hv.resp hs hw]
      simp only [Option.getD_some]
      unfold Wb.sent
      cases hst : s.wb.state with
      | s_active => exact lineScript_prefix (hc.active hst).le
      | s_grant => exact List.prefix_rfl
      | _ => exact List.nil_prefix
  | s_meta_write => exact ⟨rows, List.prefix_append _ _⟩
  | s_meta_write_resp => exact ⟨rows, List.prefix_rfl⟩
  | _ => exact ⟨rows, List.nil_prefix⟩

/-- **Each probe is answered once**, in the order in which they were accepted: the LSU is told,
    then memory, with every row of the line if it is dirty, and then the metadata are written;
    what was said for the probe under way is the beginning of such an answer. -/
theorem probes_answered (h : (dcache g).Reach s) :
    ∃ (past : List (Prober n × (ℕ → Row))) (now : List (Event n)) (rows : ℕ → Row),
      s.probes = past.map (fun x => x.1.req) ++ s.current ∧
      s.answers = (past.flatMap fun x => x.1.script g N x.2) ++ now ∧
      now <+: s.prober.script g N rows ∧ (s.prober.state = .s_invalid → now = []) := by
  obtain ⟨past, rows, hp, ha⟩ := answered_of_reach h
  obtain ⟨rows', hpre⟩ :=
    said_prefix (counts_of_reach h) (serving_of_reach h) (decided_of_reach h) rows
  refine ⟨past, _, rows', hp, ha, hpre, fun hs => ?_⟩
  rw [Prober.said, hs]

end Cache

/-- The dirty line is released, and waits for its acknowledgement. -/
theorem releases_sent_missed : (Small.missed 16).releases.length = 3 ∧
    ∃ past : List (WritebackReq 2 × (ℕ → Row)),
      (Small.missed 16).evicted = past.map Prod.fst ++
        (if (Small.missed 16).wb.state ≠ .s_invalid ∧ (Small.missed 16).wb.req.voluntary = true then
          [(Small.missed 16).wb.req] else []) ∧
      (Small.missed 16).releases = (past.flatMap fun x => lineScript Small.cfg 2 x.1 x.2 2) ++
        (if (Small.missed 16).wb.state ≠ .s_invalid ∧ (Small.missed 16).wb.req.voluntary = true then
          (Small.missed 16).wb.sent Small.cfg 2 else []) :=
  ⟨by decide +kernel, Cache.releases_sent (Small.reach_missed 16)⟩

/-- The probe is answered with the dirty line. -/
theorem probes_answered_probed : (Small.after 15).answers.length = 4 ∧
    ∃ (past : List (Prober 2 × (ℕ → Row))) (now : List (Event 2)) (rows : ℕ → Row),
      (Small.after 15).probes = past.map (fun x => x.1.req) ++ (Small.after 15).current ∧
      (Small.after 15).answers = (past.flatMap fun x => x.1.script Small.cfg 2 x.2) ++ now ∧
      now <+: (Small.after 15).prober.script Small.cfg 2 rows ∧
      ((Small.after 15).prober.state = .s_invalid → now = []) :=
  ⟨by decide +kernel, Cache.probes_answered (Small.reach_after 15)⟩

end BoomStop.Coherence
