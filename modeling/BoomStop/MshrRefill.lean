/-
  The line of an MSHR: what memory grants goes to the line buffer, and from there,
  row by row, to the data array and to the loads that wait.

  * `Mshr.Line`: what the line buffer holds of the line, and how much of it;
    `line_next`: a cycle keeps it, if memory answers as TileLink promises
    (`Mshr.Answers`);
  * `Traced`: the file beside the beats that were granted and the rows that were
    written;
  * `refill_exact`, `load_exact`: the results.
-/
import BoomStop.MshrStores

namespace BoomStop.Misses

open Sync
open DCache (MemCmd Params Row DataWrite)
open KillableQueue (MicroOp Bits)

variable {T n S R B N K M : ℕ}

namespace Mshr

variable {c : Params} {k : Client} {m : Mshr T n S R B} {i : MshrIn T n S}

/-- What TileLink promises about the message that comes: a burst has data up to its
    end, and only for a line that is held already no data are sent. -/
structure Answers (k : Client) (m : Mshr T n S R B) (i : MshrIn T n S) : Prop where
  burst : ∀ d, i.mem_grant = some d → m.burst ≠ 0 → d.hasData = true
  upgrade : ∀ d, i.mem_grant = some d → d.hasData = false → m.new_coh ≠ k.onReset

/-- The line is in the line buffer. -/
def hasLine (m : Mshr T n S R B) : Bool :=
  m.state.filled || (m.state = .s_mem_finish_1 || m.state = .s_mem_finish_2) && m.finish_to_prefetch

/-- The beats that were granted since the last acquire, after a cycle. -/
def granted_next [NeZero B] (k : Client) (m : Mshr T n S R B) (i : MshrIn T n S)
    (granted : List Row) : List Row :=
  if m.state = .s_refill_req && i.mem_acquire_ready then []
  else granted ++ (m.lb_write k i).toList.map (·.2)

/-- The burst that is under way. -/
structure Burst (k : Client) (m : Mshr T n S R B) : Prop where
  lt : m.state = .s_refill_resp → m.burst < B
  idle : m.state ≠ .s_refill_resp → m.burst = 0
  /-- data that came before were of this burst, unless the whole line is asked for -/
  had : m.state = .s_refill_req ∨ m.state = .s_refill_resp → m.burst = 0 → m.grant_had_data = true →
    m.new_coh = k.onReset
  mid : m.burst ≠ 0 → m.grant_had_data = true

/-- What the line buffer has of the beats that were granted. -/
structure Line (k : Client) (m : Mshr T n S R B) (granted : List Row) (lb : Fin B → Row) : Prop
    extends Burst k m where
  held : ∀ r row, granted[r.val]? = some row → lb r = row
  count : m.state = .s_refill_resp → granted.length = if m.burst = 0 then 0 else B - m.burst
  whole : m.hasLine = true → granted.length = B
  ctr : m.state ≠ .s_invalid → m.state ≠ .s_commit_line → m.refill_ctr.val = 0

theorem grant_eq_some {d : Grant} (h : m.grant i = some d) :
    m.state = .s_refill_resp ∧ i.mem_grant = some d := by
  unfold grant at h
  split_ifs at h with hs
  exact ⟨hs, (Option.filter_eq_some_iff.1 h).1⟩

theorem grant_none (h : m.state ≠ .s_refill_resp) : m.grant i = none := if_neg h

theorem lb_write_none [NeZero B] (h : m.state ≠ .s_refill_resp) : m.lb_write k i = none := by
  rw [lb_write, grant_none h]
  rfl

/-! ### Where a state comes from -/

theorem of_refill_resp_next (h : m.state_next c k i = .s_refill_resp) :
    (m.state = .s_refill_req ∧ i.mem_acquire_ready = true) ∨
      (m.state = .s_refill_resp ∧ m.refill_done k i = none) := by
  unfold state_next at h
  cases hst : m.state with
  | s_refill_req =>
    cases ha : i.mem_acquire_ready with
    | true => exact .inl ⟨rfl, rfl⟩
    | false => simp [hst, ha] at h
  | s_refill_resp =>
    cases hd : m.refill_done k i with
    | none => exact .inr ⟨rfl, rfl⟩
    | some d => cases hg : m.grant_had_data <;> simp [hst, hd, hg] at h
  | _ =>
    exfalso
    revert h
    simp only [hst, pri_state]
    repeat' split
    all_goals simp

theorem of_refill_req_next (h : m.state_next c k i = .s_refill_req) :
    m.handles k i = true ∨ (m.state = .s_prefetch ∧ m.clears k i = false ∧ m.sec_fires k i = true ∧
      (k.onAccess m.new_coh i.req.uop.fields.mem_cmd).1 = false) ∨
      (m.state = .s_refill_req ∧ i.mem_acquire_ready = false) := by
  unfold state_next at h
  cases hst : m.state with
  | s_invalid =>
    cases hh : m.handles k i with
    | true => exact .inl rfl
    | false => simp [hst, hh] at h
  | s_prefetch =>
    cases hh : m.handles k i with
    | true => exact .inl rfl
    | false =>
      refine .inr (.inl ⟨rfl, ?_⟩)
      simp only [hst, hh, Bool.false_eq_true, if_false] at h
      split_ifs at h with h1 h2 h3
      exact ⟨by simpa using h1, h2, by simpa using h3⟩
  | s_refill_req =>
    cases ha : i.mem_acquire_ready with
    | true => simp [hst, ha] at h
    | false => exact .inr (.inr ⟨rfl, rfl⟩)
  | _ =>
    exfalso
    revert h
    simp only [hst]
    repeat' split
    all_goals simp

/-- The line is in the line buffer, or it comes in with the last beat. -/
theorem of_hasLine_next [NeZero R] [NeZero B] {e : Bool} (h : (m.next c k i e).hasLine = true) :
    m.hasLine = true ∨ (m.state = .s_refill_resp ∧ (m.refill_done k i).isSome = true ∧
      m.grant_had_data = true) := by
  have hnext : (m.next c k i e).hasLine = ((m.state_next c k i).filled ||
      (m.state_next c k i = .s_mem_finish_1 || m.state_next c k i = .s_mem_finish_2) &&
        m.finish_to_prefetch_next k i e) := rfl
  rw [hnext] at h
  unfold hasLine
  cases hst : m.state with
  | s_invalid =>
    simp only [state_next, hst, pri_state, finish_to_prefetch_next] at h
    split_ifs at h <;> simp [MshrState.filled] at h
  | s_refill_req =>
    cases ha : i.mem_acquire_ready <;> simp [state_next, hst, ha, MshrState.filled] at h
  | s_refill_resp =>
    refine .inr ⟨rfl, ?_⟩
    cases hd : (m.refill_done k i).isSome <;> cases hg : m.grant_had_data <;>
      simp [state_next, hst, hd, hg, MshrState.filled] at h
    exact ⟨rfl, rfl⟩
  | s_drain_rpq =>
    cases he : m.rpq.q.empty && (m.enq k i).isNone <;>
      simp [state_next, hst, he, MshrState.filled] at h
  | s_meta_write_req =>
    cases hr : i.meta_write_ready <;>
      simp [state_next, hst, hr, MshrState.filled, finish_to_prefetch_next] at h
  | s_mem_finish_1 =>
    refine .inl ?_
    cases hf : m.finish_to_prefetch with
    | true => rfl
    | false =>
      cases hr : i.mem_finish_ready || m.grantack.isNone <;>
        simp [state_next, hst, hr, MshrState.filled, finish_to_prefetch_next, hf] at h
  | s_mem_finish_2 =>
    refine .inl ?_
    cases hf : m.finish_to_prefetch with
    | true => rfl
    | false => simp [state_next, hst, hf, MshrState.filled] at h
  | s_wb_meta_read => simp [state_next, hst, MshrState.filled] at h
  | s_prefetched => simp [state_next, hst, MshrState.filled] at h
  | _ => exact .inl rfl

/-! ### A cycle -/

theorem burst_next_of_grant {d : Grant} (hg : m.grant i = some d) :
    m.burst_next k i = if m.burst = 0 then (if d.hasData then B - 1 else 0) else m.burst - 1 := by
  rw [burst_next, hg]
  exact k.counter_eq B d m.burst

/-- A message that is taken and is not the last one. -/
theorem burst_of_not_done {d : Grant} (hg : m.grant i = some d) (hd : m.refill_done k i = none) :
    d.hasData = true ∧ m.burst ≠ 1 ∧ B - 1 ≠ 0 := by
  have hlast : ¬(m.burst = 1 ∨ d.numBeats1 B = 0) := by
    rw [← k.last_iff]
    unfold refill_done at hd
    rw [hg, Option.filter_some] at hd
    intro h
    rw [if_pos h] at hd
    cases hd
  unfold Grant.numBeats1 at hlast
  cases hdata : d.hasData with
  | false => simp [hdata] at hlast
  | true =>
    rw [hdata, if_pos rfl, not_or] at hlast
    exact ⟨rfl, hlast⟩

/-- The last one. -/
theorem of_done {d : Grant} (hd : m.refill_done k i = some d) :
    m.grant i = some d ∧ (m.burst = 1 ∨ (if d.hasData then B - 1 else 0) = 0) := by
  obtain ⟨hg, h⟩ := Option.filter_eq_some_iff.1 hd
  exact ⟨hg, (k.last_iff B d m.burst).1 h⟩

theorem Burst.lt_next [NeZero R] [NeZero B] {e : Bool} (h : m.Burst k)
    (hs : (m.next c k i e).state = .s_refill_resp) : (m.next c k i e).burst < B := by
  have hB := Nat.pos_of_neZero B
  change m.burst_next k i < B
  rcases of_refill_resp_next hs with ⟨hst, -⟩ | ⟨hst, hd⟩
  · rw [burst_next, grant_none (by rw [hst]; simp), h.idle (by rw [hst]; simp)]
    exact hB
  · have hlt := h.lt hst
    cases hg : m.grant i with
    | none =>
      rw [burst_next, hg]
      exact hlt
    | some d =>
      obtain ⟨hdata, -, -⟩ := burst_of_not_done hg hd
      rw [burst_next_of_grant hg]
      simp only [hdata, if_true]
      split_ifs <;> omega

theorem Burst.idle_next [NeZero R] [NeZero B] {e : Bool} (h : m.Burst k)
    (ha : m.Answers k i) (hs : (m.next c k i e).state ≠ .s_refill_resp) :
    (m.next c k i e).burst = 0 := by
  change m.burst_next k i = 0
  by_cases hst : m.state = .s_refill_resp
  · cases hd : m.refill_done k i with
    | none =>
      refine absurd ?_ hs
      change m.state_next c k i = _
      simp [state_next, hst, hd]
    | some d =>
      obtain ⟨hg, hlast⟩ := of_done hd
      have hlt := h.lt hst
      have hburst := ha.burst d (grant_eq_some hg).2
      rw [burst_next_of_grant hg]
      split_ifs with h0 h1
      · rw [h0, if_pos h1] at hlast
        exact hlast.resolve_left (by simp)
      · rfl
      · rw [hburst h0, if_pos rfl] at hlast
        omega
  · rw [burst_next, grant_none hst]
    exact h.idle hst

/-- While a line is asked for that is not there, nothing hits in it. -/
theorem new_coh_next_onReset (h : m.new_coh = k.onReset)
    (hs : m.state = .s_refill_req ∨ (m.state = .s_refill_resp ∧ m.refill_done k i = none)) :
    m.new_coh_next k i = k.onReset := by
  have hboth : (if m.sec_fires k i && (m.second k i).2.1 then (m.second k i).2.2.1 else m.new_coh) =
      k.onReset := by
    have hmiss : (m.second k i).2.1 = false := by
      rw [second, h]
      exact k.miss_onReset _ _
    rw [hmiss, Bool.and_false, if_neg Bool.false_ne_true, h]
  rcases hs with hst | ⟨hst, hd⟩
  · have hh : m.handles k i = false := by simp [handles, hst]
    simp only [new_coh_next, hst, hh]
    exact hboth
  · simp only [new_coh_next, hst, hd]
    exact hboth

theorem Burst.had_next [NeZero R] [NeZero B] {e : Bool} (h : m.Burst k)
    (hs : (m.next c k i e).state = .s_refill_req ∨ (m.next c k i e).state = .s_refill_resp)
    (hb : (m.next c k i e).burst = 0) (hg : (m.next c k i e).grant_had_data = true) :
    (m.next c k i e).new_coh = k.onReset := by
  change m.burst_next k i = 0 at hb
  change m.grant_had_data_next k i = true at hg
  change m.new_coh_next k i = k.onReset
  have hidle : m.state = .s_refill_req → m.burst = 0 := fun hst => h.idle (by rw [hst]; simp)
  rcases hs with hs | hs
  · rcases of_refill_req_next hs with hh | ⟨hst, hc, hsec, hit⟩ | ⟨hst, -⟩
    · exfalso
      unfold handles at hh
      cases hst : m.state <;> simp [hst, grant_had_data_next] at hh hg
      simp [handles, hst, hh] at hg
    · simp [new_coh_next, hst, hc, hsec, hit]
    · refine new_coh_next_onReset (h.had (.inl hst) (hidle hst) ?_) (.inl hst)
      simpa [grant_had_data_next, hst] using hg
  · rcases of_refill_resp_next hs with ⟨hst, -⟩ | ⟨hst, hd⟩
    · refine new_coh_next_onReset (h.had (.inl hst) (hidle hst) ?_) (.inl hst)
      simpa [grant_had_data_next, hst] using hg
    · cases hgr : m.grant i with
      | none =>
        rw [burst_next, hgr] at hb
        refine new_coh_next_onReset (h.had (.inr hst) hb ?_) (.inr ⟨hst, hd⟩)
        simpa [grant_had_data_next, hst, hgr] using hg
      | some d =>
        -- a burst goes on
        obtain ⟨hdata, hne, hB1⟩ := burst_of_not_done hgr hd
        simp only [burst_next_of_grant hgr, hdata, if_true] at hb
        split_ifs at hb <;> omega

theorem Burst.mid_next [NeZero R] [NeZero B] {e : Bool} (h : m.Burst k)
    (ha : m.Answers k i) (hb : (m.next c k i e).burst ≠ 0) :
    (m.next c k i e).grant_had_data = true := by
  change m.burst_next k i ≠ 0 at hb
  change m.grant_had_data_next k i = true
  have hst : m.state = .s_refill_resp := by
    by_contra hst
    rw [burst_next, grant_none hst] at hb
    exact hb (h.idle hst)
  cases hg : m.grant i with
  | none =>
    rw [burst_next, hg] at hb
    simpa [grant_had_data_next, hst, hg] using h.mid hb
  | some d =>
    simp only [grant_had_data_next, hst, hg]
    by_cases h0 : m.burst = 0
    · by_contra hdata
      simp [burst_next_of_grant hg, h0, hdata] at hb
    · exact ha.burst d (grant_eq_some hg).2 h0

theorem Burst.next [NeZero R] [NeZero B] {e : Bool} (h : m.Burst k) (ha : m.Answers k i) :
    (m.next c k i e).Burst k where
  lt := h.lt_next
  idle := h.idle_next ha
  had := h.had_next
  mid := h.mid_next ha

/-- No burst is under way after reset. -/
theorem burst_of_free (hst : m.state = .s_invalid) (hb : m.burst = 0) : m.Burst k := by
  refine ⟨fun hs => ?_, fun _ => hb, fun hs => ?_, fun hs => absurd hb hs⟩
  · rw [hst] at hs
    cases hs
  · rw [hst] at hs
    rcases hs with hs | hs <;> cases hs

theorem granted_next_of_none [NeZero B] {granted : List Row} (h : m.state ≠ .s_refill_req)
    (hw : m.lb_write k i = none) : m.granted_next k i granted = granted := by
  rw [granted_next, hw, if_neg (by simp [h])]
  exact List.append_nil _

theorem granted_next_of_grant [NeZero B] {granted : List Row} {d : Grant}
    (hg : m.grant i = some d) (hd : d.hasData = true) :
    m.granted_next k i granted = granted ++ [d.data] ∧
      m.lb_write k i = some (m.beat k d, d.data) := by
  have hw : m.lb_write k i = some (m.beat k d, d.data) := by
    rw [lb_write, hg, Option.filter_some, hd]
    rfl
  refine ⟨?_, hw⟩
  rw [granted_next, hw, if_neg (by simp [(grant_eq_some hg).1])]
  rfl

variable {granted : List Row} {lb : Fin B → Row}

/-- A beat goes to its place in the line. -/
theorem Line.beat_eq [NeZero B] (h : m.Line k granted lb) {d : Grant} (hg : m.grant i = some d)
    (hd : d.hasData = true) : (m.beat k d).val = granted.length := by
  have hs := (grant_eq_some hg).1
  have hlt := h.lt hs
  change (k.addr_inc B d m.burst).count % B = _
  rw [h.count hs, k.count_eq B d m.burst hd hlt]
  split_ifs with h0
  · exact Nat.zero_mod B
  · exact Nat.mod_eq_of_lt (by omega)

/-- The entry of the line buffer after a cycle. -/
def lb_line_next [NeZero B] (k : Client) (m : Mshr T n S R B) (i : MshrIn T n S) (lb : Fin B → Row)
    (r : Fin B) : Row :=
  match m.lb_write k i with
  | some (o, row) => if o = r then row else lb r
  | none => lb r

theorem Line.held_next [NeZero B] (h : m.Line k granted lb) (r : Fin B) (row : Row)
    (hr : (m.granted_next k i granted)[r.val]? = some row) : m.lb_line_next k i lb r = row := by
  by_cases hacq : (m.state = .s_refill_req && i.mem_acquire_ready) = true
  · rw [granted_next, if_pos hacq] at hr
    cases hr
  · rw [granted_next, if_neg hacq] at hr
    unfold lb_line_next
    cases hw : m.lb_write k i with
    | none =>
      rw [hw] at hr
      exact h.held r row (by simpa using hr)
    | some x =>
      have hlen : x.1.val = granted.length := by
        rw [lb_write] at hw
        obtain ⟨d, hfilter, rfl⟩ := Option.map_eq_some_iff.1 hw
        obtain ⟨hg, hd⟩ := Option.filter_eq_some_iff.1 hfilter
        exact h.beat_eq hg hd
      rw [hw, Option.toList_some, List.map_singleton] at hr
      simp only
      rcases Nat.lt_trichotomy r.val granted.length with hlt | heq | hgt
      · rw [List.getElem?_append_left hlt] at hr
        have hne : x.1 ≠ r := by
          rintro rfl
          rw [hlen] at hlt
          exact Nat.lt_irrefl _ hlt
        rw [if_neg hne]
        exact h.held r row hr
      · rw [heq, List.getElem?_append_right le_rfl, Nat.sub_self] at hr
        have hx : x.1 = r := Fin.ext (by rw [hlen, heq])
        rw [if_pos hx]
        exact Option.some.inj hr
      · have hend : (granted ++ [x.2]).length ≤ r.val := by
          rw [List.length_append]
          exact hgt
        rw [List.getElem?_eq_none hend] at hr
        cases hr

theorem Line.count_next [NeZero R] [NeZero B] {e : Bool} (h : m.Line k granted lb)
    (hs : (m.next c k i e).state = .s_refill_resp) : (m.granted_next k i granted).length =
      if (m.next c k i e).burst = 0 then 0 else B - (m.next c k i e).burst := by
  change _ = if m.burst_next k i = 0 then 0 else B - m.burst_next k i
  rcases of_refill_resp_next hs with ⟨hst, ha⟩ | ⟨hst, hd⟩
  · have hb : m.burst_next k i = 0 := by
      rw [burst_next, grant_none (by rw [hst]; simp)]
      exact h.idle (by rw [hst]; simp)
    rw [hb, granted_next, hst, ha]
    rfl
  · have hlt := h.lt hst
    have hlen := h.count hst
    cases hg : m.grant i with
    | none =>
      have hw : m.lb_write k i = none := by
        rw [lb_write, hg]
        rfl
      rw [burst_next, hg, granted_next_of_none (by rw [hst]; simp) hw]
      exact hlen
    | some d =>
      obtain ⟨hdata, hne, hB1⟩ := burst_of_not_done hg hd
      rw [burst_next_of_grant hg, (granted_next_of_grant hg hdata).1, List.length_append, hlen]
      simp only [hdata, if_true, List.length_singleton]
      split_ifs <;> omega

theorem Line.whole_next [NeZero R] [NeZero B] {e : Bool} (h : m.Line k granted lb)
    (ha : m.Answers k i) (hs : (m.next c k i e).hasLine = true) :
    (m.granted_next k i granted).length = B := by
  have hB := Nat.pos_of_neZero B
  rcases of_hasLine_next hs with hl | ⟨hst, hd, hhad⟩
  · have hreq : m.state ≠ .s_refill_req := by
      intro hst
      simp [hasLine, hst, MshrState.filled] at hl
    have hresp : m.state ≠ .s_refill_resp := by
      intro hst
      simp [hasLine, hst, MshrState.filled] at hl
    rw [granted_next_of_none hreq (lb_write_none hresp)]
    exact h.whole hl
  · obtain ⟨d, hd⟩ := Option.isSome_iff_exists.1 hd
    obtain ⟨hg, hlast⟩ := of_done hd
    have hlt := h.lt hst
    have hlen := h.count hst
    have hmem := (grant_eq_some hg).2
    cases hdata : d.hasData with
    | true =>
      rw [hdata, if_pos rfl] at hlast
      rw [(granted_next_of_grant hg hdata).1, List.length_append, hlen, List.length_singleton]
      split_ifs <;> omega
    | false =>
      have hzero : m.burst = 0 := by
        by_contra hne
        rw [ha.burst d hmem hne] at hdata
        cases hdata
      exact absurd (h.had (.inr hst) hzero hhad) (ha.upgrade d hmem hdata)

theorem refill_fires_state (h : m.refill_fires i = true) : m.state = .s_commit_line := by
  unfold refill_fires at h
  simp only [Bool.and_eq_true, decide_eq_true_eq] at h
  exact h.1.1

theorem of_commit_left (hst : m.state = .s_commit_line) (h : m.state_next c k i ≠ .s_commit_line) :
    m.refill_fires i = true ∧ m.refill_ctr.val = B - 1 := by
  simp only [state_next, hst] at h
  split_ifs at h with hl
  · obtain ⟨hf, hc⟩ := Bool.and_eq_true_iff.1 hl
    exact ⟨hf, of_decide_eq_true hc⟩
  · exact absurd rfl h

theorem Line.ctr_next [NeZero R] [NeZero B] {e : Bool} (h : m.Line k granted lb)
    (h1 : (m.next c k i e).state ≠ .s_invalid) (h2 : (m.next c k i e).state ≠ .s_commit_line) :
    (m.next c k i e).refill_ctr.val = 0 := by
  have hB := Nat.pos_of_neZero B
  change (m.refill_ctr_next k i).val = 0
  unfold refill_ctr_next
  cases hh : m.handles k i with
  | true => rfl
  | false =>
    rw [if_neg Bool.false_ne_true]
    by_cases hst : m.state = .s_commit_line
    · obtain ⟨hf, hc⟩ := of_commit_left hst h2
      rw [if_pos hf, Fin.val_add, hc]
      rcases Nat.lt_or_ge B 2 with hlt | hge
      · obtain rfl : B = 1 := by omega
        exact Nat.mod_one _
      · rw [show ((1 : Fin B) : ℕ) = 1 % B from Fin.val_one' B, Nat.mod_eq_of_lt (a := 1) hge,
          Nat.sub_add_cancel hB, Nat.mod_self]
    · rw [if_neg fun hf => hst (refill_fires_state hf)]
      refine h.ctr (fun hinv => h1 ?_) hst
      change m.state_next c k i = _
      simp [state_next, hinv, hh]

/-- A line is committed from its first row on. -/
theorem Line.ctr_enter [NeZero B] (h : m.Line k granted lb) (hst : m.state ≠ .s_commit_line)
    (hn : m.state_next c k i = .s_commit_line) : (m.refill_ctr_next k i).val = 0 := by
  unfold refill_ctr_next
  cases hh : m.handles k i with
  | true => rfl
  | false =>
    rw [if_neg Bool.false_ne_true, if_neg fun hf => hst (refill_fires_state hf)]
    refine h.ctr (fun hinv => ?_) hst
    simp [state_next, hinv, hh] at hn

/-- **A cycle keeps the line.** -/
theorem Line.next [NeZero R] [NeZero B] {e : Bool} (h : m.Line k granted lb) (ha : m.Answers k i) :
    (m.next c k i e).Line k (m.granted_next k i granted) (m.lb_line_next k i lb) where
  toBurst := h.toBurst.next ha
  held := h.held_next
  count := h.count_next
  whole := h.whole_next ha
  ctr := h.ctr_next

end Mshr

/-! ## The file -/

/-- The file; the beats that were granted for the line of each MSHR, and the rows that
    it has written since it commits its line. -/
structure Traced (T n S R B N K : ℕ) where
  file : File T n S R B N K
  granted : Fin N → List Row
  committed : Fin N → List (DataWrite n)

namespace Traced

variable [NeZero S] [NeZero R] [NeZero B] [NeZero N]

/-- The row that an MSHR writes. -/
def written (g : Cfg) (s : File T n S R B N K) (i : FileIn T n S M) (j : Fin N) :
    Option (DataWrite n) := Priority.given (s.refills g i) i.refill_ready j

/-- One cycle, with the history. -/
def next (g : Cfg) (t : Traced T n S R B N K) (i : FileIn T n S M) : Traced T n S R B N K where
  file := t.file.next g i
  granted j := (t.file.mshrs j).granted_next g.client (t.file.mshrIn g i j) (t.granted j)
  committed j :=
    if (t.file.mshrs j).state = .s_commit_line then
      t.committed j ++ (written g t.file i j).toList
    else []

/-- What the surroundings of the file promise in a cycle. -/
structure Ok (g : Cfg) (t : Traced T n S R B N K) (i : FileIn T n S M) : Prop where
  file : t.file.Ok g i
  answers : ∀ j, (t.file.mshrs j).Answers g.client (t.file.mshrIn g i j)

/-- After reset; nothing was granted. -/
structure Reset (t : Traced T n S R B N K) : Prop where
  file : t.file.Reset
  granted : ∀ j, t.granted j = []

end Traced

open Traced in
/-- The miss file with its memory. -/
def tracedFile [NeZero S] [NeZero R] [NeZero B] [NeZero N] (g : Cfg) :
    Machine (Traced T n S R B N K) (FileIn T n S M) where
  start t := t.Reset
  ok t i := t.Ok g i
  next t i := t.next g i

namespace Traced

variable [NeZero S] [NeZero R] [NeZero B] [NeZero N] {g : Cfg} {t : Traced T n S R B N K}
  {i : FileIn T n S M} {j : Fin N}

/-- The row of a line, with its address. -/
def rowOf (c : Params) (m : Mshr T n S R B) (lb : Fin B → Row) (r : Fin B) : DataWrite n :=
  ⟨m.req_block_addr c + r.val * (8 * c.rowWords), m.req.data.way_en, fun _ => true, lb r⟩

/-- The invariant: the rows of the line buffer are those that were granted. -/
structure Inv (g : Cfg) (t : Traced T n S R B N K) : Prop where
  line : ∀ j, (t.file.mshrs j).Line g.client (t.granted j) (t.file.lb j)
  rows : ∀ j, (t.file.mshrs j).state = .s_commit_line → t.committed j =
    ((List.finRange B).take (t.file.mshrs j).refill_ctr).map
      (rowOf g.params (t.file.mshrs j) (t.file.lb j))

theorem reach_file (h : (tracedFile g (M := M)).Reach t) : (missFile g (M := M)).Reach t.file := by
  induction h with
  | start h0 => exact .start h0.file
  | step _ hok ih => exact ih.step hok.file

omit [NeZero R] [NeZero N] in
/-- Who reads the line buffer gets its own row. -/
theorem lb_resp_eq {offset : Fin B}
    (hr : (t.file.mshrs j).lb_read g.params (t.file.offered g i j) = some offset)
    (hready : (t.file.mshrIn g i j).lb_read_ready = true) :
    (t.file.mshrIn g i j).lb_resp = t.file.lb j offset := by
  have hgiven : Priority.given (t.file.lbReads g i) (t.file.lb_read_ready g i) j = some (j, offset) := by
    have hready : Priority.ready (t.file.lbReads g i) (t.file.lb_read_ready g i) j = true := hready
    rw [Priority.given, if_pos hready, File.lbReads, hr]
    rfl
  change t.file.lb_read_data g i = _
  rw [File.lb_read_data, Priority.taken_of_given hgiven]

omit [NeZero R] [NeZero N] in
/-- A row that is written is that of the counter. -/
theorem written_eq (hst : (t.file.mshrs j).state = .s_commit_line) : written g t.file i j =
    if (t.file.mshrs j).refill_fires (t.file.mshrIn g i j) then
      some (rowOf g.params (t.file.mshrs j) (t.file.lb j) (t.file.mshrs j).refill_ctr)
    else none := by
  have hfires : (t.file.mshrs j).refill_fires (t.file.mshrIn g i j) =
      ((t.file.mshrIn g i j).lb_read_ready && Priority.ready (t.file.refills g i) i.refill_ready j) := by
    rw [Mshr.refill_fires, hst]
    rfl
  have hrefill : t.file.refills g i j = if (t.file.mshrIn g i j).lb_read_ready then
      some ⟨(t.file.mshrs j).req_block_addr g.params +
        (t.file.mshrs j).refill_ctr * (8 * g.params.rowWords), (t.file.mshrs j).req.data.way_en,
        fun _ => true, (t.file.mshrIn g i j).lb_resp⟩ else none := by
    rw [File.refills, Mshr.refill, hst]
    rfl
  rw [written, Priority.given, hrefill, hfires]
  cases hready : (t.file.mshrIn g i j).lb_read_ready with
  | false => simp
  | true =>
    have hread : (t.file.mshrs j).lb_read g.params (t.file.offered g i j) =
        some (t.file.mshrs j).refill_ctr := by
      rw [Mshr.lb_read, hst]
    rw [lb_resp_eq hread hready]
    simp only [Bool.true_and, if_true]
    rfl

theorem Inv.next (h : t.Inv g) (hok : t.Ok g i) : (t.next g i).Inv g where
  line j := (h.line j).next (hok.answers j)
  rows j hst := by
    change (t.file.mshrs j).state_next g.params g.client (t.file.mshrIn g i j) = _ at hst
    by_cases hold : (t.file.mshrs j).state = .s_commit_line
    · have hlb : (t.next g i).file.lb j = t.file.lb j := by
        funext r
        change File.lb_next g t.file i j r = _
        rw [File.lb_next, Mshr.lb_write_none (by rw [hold]; simp)]
      have hh : (t.file.mshrs j).handles g.client (t.file.mshrIn g i j) = false := by
        simp [Mshr.handles, hold]
      have hrow : rowOf g.params ((t.next g i).file.mshrs j) ((t.next g i).file.lb j) =
          rowOf g.params (t.file.mshrs j) (t.file.lb j) := by
        have hd : ((t.next g i).file.mshrs j).req.data = (t.file.mshrs j).req.data :=
          Mshr.addr_req_next hh
        funext r
        unfold rowOf Mshr.req_block_addr
        rw [hlb, hd]
      have hctr : ((t.next g i).file.mshrs j).refill_ctr =
          if (t.file.mshrs j).refill_fires (t.file.mshrIn g i j) then
            (t.file.mshrs j).refill_ctr + 1 else (t.file.mshrs j).refill_ctr := by
        change (t.file.mshrs j).refill_ctr_next g.client (t.file.mshrIn g i j) = _
        rw [Mshr.refill_ctr_next, hh, if_neg Bool.false_ne_true]
      have hcom : (t.next g i).committed j = t.committed j ++ (written g t.file i j).toList :=
        if_pos hold
      rw [hrow, hcom, h.rows j hold, written_eq hold, hctr]
      by_cases hf : (t.file.mshrs j).refill_fires (t.file.mshrIn g i j) = true
      · -- the last row ends the state, so there is one more
        have hne : (t.file.mshrs j).refill_ctr.val ≠ B - 1 := by
          intro hlast
          simp [Mshr.state_next, hold, hf, hlast] at hst
        have hlt := (t.file.mshrs j).refill_ctr.isLt
        have hval : ((t.file.mshrs j).refill_ctr + 1).val = (t.file.mshrs j).refill_ctr.val + 1 := by
          rw [Fin.val_add, Fin.val_one', Nat.mod_eq_of_lt (a := 1) (by omega),
            Nat.mod_eq_of_lt (by omega)]
        rw [if_pos hf, if_pos hf, hval, List.take_add_one, List.map_append]
        simp
      · rw [if_neg hf, if_neg hf]
        exact List.append_nil _
    · have hzero : ((t.next g i).file.mshrs j).refill_ctr.val = 0 := (h.line j).ctr_enter hold hst
      have hcom : (t.next g i).committed j = [] := if_neg hold
      rw [hcom, hzero]
      rfl

omit [NeZero S] [NeZero B] in
theorem inv_of_reset (h : t.Reset) : t.Inv g where
  line j := by
    have hst := h.file.state j
    refine ⟨Mshr.burst_of_free hst (h.file.burst j), fun r row hr => ?_, fun hs => ?_, fun hs => ?_,
      fun hs => absurd hst hs⟩
    · rw [h.granted j] at hr
      cases hr
    · rw [hst] at hs
      cases hs
    · simp [Mshr.hasLine, hst, MshrState.filled] at hs
  rows j hs := by
    rw [h.file.state j] at hs
    cases hs

theorem inv_of_reach (h : (tracedFile g (M := M)).Reach t) : t.Inv g :=
  h.inv (fun _ h0 => inv_of_reset h0) fun _ _ hs hok => hs.next hok

omit [NeZero S] [NeZero R] [NeZero B] [NeZero N] in
/-- A row of a line that is in the line buffer was granted. -/
theorem Inv.granted (h : t.Inv g) (hl : (t.file.mshrs j).hasLine = true) (r : Fin B) :
    (t.granted j)[r.val]? = some (t.file.lb j r) := by
  have hlen := (h.line j).whole hl
  have hget : (t.granted j)[r.val]? = some ((t.granted j).get ⟨r, by omega⟩) := by
    simp [List.getElem?_eq_getElem (show r.val < (t.granted j).length by omega)]
  rw [(h.line j).held r _ hget]
  exact hget

/-- **The refill**: when a line is committed, all its rows were written, in order and each
    once, in the way and at the address of the line, as they were granted. -/
theorem refill_exact (h : (tracedFile g (M := M)).Reach t)
    (hst : (t.file.mshrs j).state = .s_commit_line)
    (hn : ((t.next g i).file.mshrs j).state ≠ .s_commit_line) :
    ∃ row : Fin B → Row, (∀ r, (t.granted j)[r.val]? = some (row r)) ∧
      (t.granted j).length = B ∧ (t.next g i).committed j = (List.finRange B).map fun r =>
        ⟨(t.file.mshrs j).req_block_addr g.params + r.val * (8 * g.params.rowWords),
          (t.file.mshrs j).req.data.way_en, fun _ => true, row r⟩ := by
  have hi := inv_of_reach h
  have hl : (t.file.mshrs j).hasLine = true := by simp [Mshr.hasLine, hst, MshrState.filled]
  refine ⟨t.file.lb j, hi.granted hl, (hi.line j).whole hl, ?_⟩
  obtain ⟨hf, hlast⟩ := Mshr.of_commit_left hst hn
  have hB := Nat.pos_of_neZero B
  have hcom : (t.next g i).committed j = t.committed j ++ (written g t.file i j).toList := if_pos hst
  have hall : (List.finRange B).take (t.file.mshrs j).refill_ctr ++ [(t.file.mshrs j).refill_ctr] =
      List.finRange B := by
    have hget : (List.finRange B)[(t.file.mshrs j).refill_ctr.val]? = some (t.file.mshrs j).refill_ctr := by
      simp
    have hend : (List.finRange B).take ((t.file.mshrs j).refill_ctr.val + 1) = List.finRange B :=
      List.take_of_length_le (by rw [List.length_finRange, hlast]; omega)
    rw [List.take_add_one, hget] at hend
    exact hend
  have hmap : ∀ f : Fin B → DataWrite n, (List.finRange B).map f =
      ((List.finRange B).take (t.file.mshrs j).refill_ctr).map f ++ [f (t.file.mshrs j).refill_ctr] := by
    intro f
    rw [← List.map_singleton, ← List.map_append, hall]
  rw [hcom, hi.rows j hst, written_eq hst, if_pos hf, hmap]
  rfl

/-- **Loads** that miss are answered with the bytes of their own address, in the line that
    was granted. -/
theorem load_exact (h : (tracedFile g (M := M)).Reach t) {x : Bits T Fields Resp}
    (hx : Priority.given (t.file.resps g i) t.file.resp_ready j = some x) :
    ∃ a ∈ t.file.accepted, a.uop.fields = x.uop.fields ∧ ∃ row,
      (t.granted j)[(Mshr.rowOffset g.params a.data.addr : Fin B).val]? = some row ∧
      x.data.data = DCache.bytesAt a.uop.fields.mem_size a.uop.fields.mem_signed a.data.addr
        (row (g.params.wordIdx a.data.addr)) := by
  have hi := inv_of_reach h
  have hfile := reach_file h
  have hsets := File.inv_of_reach hfile
  have hx : (t.file.mshrs j).resp g.params g.client (t.file.buffered g i j) = some x :=
    (Priority.given_eq_some.1 hx).2.2
  unfold Mshr.resp at hx
  split_ifs at hx with hr
  simp only [Bool.and_eq_true, decide_eq_true_eq] at hr
  obtain ⟨⟨hst, hread⟩, hready⟩ := hr
  obtain ⟨offset, hread⟩ := Option.isSome_iff_exists.1 hread
  have hfull := hread
  simp only [Mshr.lb_read, hst] at hfull
  split_ifs at hfull with hv
  obtain ⟨tag, rest, hw⟩ := Mshr.waiting_of_deq_valid (hsets.ring j) (Bool.and_eq_true_iff.1 hv).1
  have hhead : (⟨tag, (t.file.mshrs j).rpq.q.out⟩ : KillableQueue.Item T Fields (Req n S)) ∈
      (t.file.mshrs j).rpq.waiting := by
    rw [hw]
    exact List.mem_cons_self
  obtain ⟨a, ha, hf, hd⟩ := (File.entries_of_reach hfile).known j _ hhead
  have haddr : (t.file.mshrs j).lineAddr g.params (t.file.mshrs j).rpq.q.out.data.addr = a.data.addr := by
    rw [hd]
    exact Mshr.lineAddr_eq (hsets.line j _ hhead)
  have hl : (t.file.mshrs j).hasLine = true := by simp [Mshr.hasLine, hst, MshrState.filled]
  have hoff : Mshr.rowOffset g.params a.data.addr = offset := by
    rw [hd]
    exact Option.some.inj hfull
  refine ⟨a, ha, ?_, t.file.lb j offset, hoff ▸ hi.granted hl _, ?_⟩
  · rw [hf, ← Option.some.inj hx]
    rfl
  · have hlb : (t.file.buffered g i j).lb_resp = t.file.lb j offset := lb_resp_eq hread hready
    rw [← Option.some.inj hx, ← g.client.loadGen_eq]
    change g.client.loadGen _ _ ((t.file.mshrs j).lineAddr g.params (t.file.mshrs j).rpq.q.out.data.addr)
      ((t.file.buffered g i j).lb_resp (g.params.wordIdx ((t.file.mshrs j).lineAddr g.params
        (t.file.mshrs j).rpq.q.out.data.addr))) false = _
    rw [haddr, hlb, hf]
    rfl

end Traced

/-! ## The small file -/

namespace Small

/-- The file after reset. -/
def traced : Traced 1 2 2 2 2 2 1 := ⟨fresh, fun _ => [], fun _ => []⟩

/-- What `Traced.Ok` asks of a cycle. -/
def keepsAll (t : Traced 1 2 2 2 2 2 1) (i : FileIn 1 2 2 0) : Bool :=
  keeps t.file i && i.mem_grant.all (·.hasData)

theorem ok_of_keepsAll (t : Traced 1 2 2 2 2 2 1) (i : FileIn 1 2 2 0) (h : keepsAll t i = true) :
    t.Ok cfg i := by
  obtain ⟨hk, hg⟩ := Bool.and_eq_true_iff.1 h
  have hdata : ∀ (j : Fin 2) d, (t.file.mshrIn cfg i j).mem_grant = some d → d.hasData = true := by
    intro j d hd
    have hd : i.mem_grant = some d := (Option.filter_eq_some_iff.1 hd).1
    rw [hd] at hg
    exact hg
  exact ⟨ok_of_keeps _ _ hk, fun j => ⟨fun d hd _ => hdata j d hd, fun d hd hno => by
    rw [hdata j d hd] at hno
    cases hno⟩⟩

/-- The first cycles of the trip. -/
def tracedAfter (k : ℕ) : Traced 1 2 2 2 2 2 1 := (tracedFile cfg).run traced (trip.take k)

theorem reach_tracedAfter (k : ℕ)
    (h : (tracedFile cfg).passes keepsAll traced (trip.take k) = true) :
    (tracedFile cfg (M := 0)).Reach (tracedAfter k) :=
  Machine.reach_run _ (.start ⟨reset_fresh, fun _ => rfl⟩) (Machine.accepts_of_passes ok_of_keepsAll _ _ h)

end Small

theorem refill_exact_trip : ∃ row : Fin 2 → Row,
    (∀ r, ((Small.tracedAfter 10).granted 0)[r.val]? = some (row r)) ∧
      ((Small.tracedAfter 10).granted 0).length = 2 ∧
      ((Small.tracedAfter 10).next Small.cfg Small.quiet).committed 0 =
        (List.finRange 2).map fun r =>
          ⟨((Small.tracedAfter 10).file.mshrs 0).req_block_addr Small.cfg.params + r.val * (8 * 1),
            ((Small.tracedAfter 10).file.mshrs 0).req.data.way_en, fun _ => true, row r⟩ :=
  Traced.refill_exact (Small.reach_tracedAfter 10 (by decide +kernel)) (by decide +kernel)
    (by decide +kernel)

theorem load_exact_trip : ∃ a ∈ (Small.tracedAfter 4).file.accepted,
    a.uop.fields = ((Priority.given ((Small.tracedAfter 4).file.resps Small.cfg Small.quiet)
      (Small.tracedAfter 4).file.resp_ready 0).get (by decide +kernel)).uop.fields ∧
    ∃ row, ((Small.tracedAfter 4).granted 0)[
        (Mshr.rowOffset Small.cfg.params a.data.addr : Fin 2).val]? = some row ∧
      ((Priority.given ((Small.tracedAfter 4).file.resps Small.cfg Small.quiet)
        (Small.tracedAfter 4).file.resp_ready 0).get (by decide +kernel)).data.data =
        DCache.bytesAt a.uop.fields.mem_size a.uop.fields.mem_signed a.data.addr
          (row (Small.cfg.params.wordIdx a.data.addr)) :=
  Traced.load_exact (Small.reach_tracedAfter 4 (by decide +kernel)) (Option.some_get _).symm

end BoomStop.Misses
