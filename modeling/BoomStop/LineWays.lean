/-
  The metadata of the data cache: no line is in two ways of its set, an MSHR has
  the way of its line, a request finds the metadata as they are unless an MSHR of
  its set is there, and a probe answers for the metadata as they are.

  * `Cache.meta_write_cases`, `tags_next`: who writes the metadata;
  * `Ways`, `Fresh`, `Probed`: the invariants of the arrays, of the pipeline and of
    the probe unit, which need each other;
  * `line_in_one_way`, `probe_snapshot`: the results.
-/
import BoomStop.ProbeSafety

namespace BoomStop.Coherence

open Sync
open DCache (MemCmd Meta Params Row ReqType mux1H)
open Misses (FileIn Fields ReqBits Grant Mshr MshrIn MshrState MetaWrite)

variable {T n S R B N K M : ℕ}

namespace Cache

variable [NeZero S] [NeZero B] [NeZero R] [NeZero N]
variable {g : Cfg B} {s : Cache T n S R B N K M} {i : CacheIn T n M} {j : Fin N}

/-! ## Who writes the metadata -/

/-- An MSHR that writes the metadata. -/
structure Writer (g : Cfg B) (s : Cache T n S R B N K M) (i : CacheIn T n M) (x : MetaWrite n)
    (j : Fin N) : Prop where
  state : (s.mshrs.mshrs j).state = .s_meta_clear ∨ (s.mshrs.mshrs j).state = .s_meta_write_req
  ready : (s.mshrs.mshrIn g.toCfg (s.fileIn g i) j).meta_write_ready = true
  idx : x.idx = (s.mshrs.mshrs j).req_idx g.params
  way_en : x.way_en = (s.mshrs.mshrs j).req.data.way_en
  tag : x.data.tag = (s.mshrs.mshrs j).req_tag g.params

omit [NeZero R] [NeZero N] in
theorem meta_write_cases {x : MetaWrite n} (h : s.meta_write g = some x) :
    (∃ j, Writer g s i x j) ∨ (s.prober.state = .s_meta_write ∧ (s.proberIn g i).meta_write_ready = true ∧
      x = ⟨s.prober.req_idx g, s.prober.way_en, ⟨s.prober.req_tag g, s.prober.new_coh g⟩⟩) := by
  unfold meta_write at h
  cases hc : Priority.chosen (s.mshrs.metaWrites g.toCfg) with
  | some y =>
    rw [hc] at h
    obtain rfl := Option.some.inj h
    have htaken : Priority.taken (s.mshrs.metaWrites g.toCfg) true = some y := hc
    obtain ⟨j, hj⟩ := Priority.exists_given htaken
    have hready : Priority.ready (s.mshrs.metaWrites g.toCfg) true j = true := by
      unfold Priority.given at hj
      split_ifs at hj with hr
      exact hr
    have hx := (Priority.given_eq_some.1 hj).2.2
    unfold Misses.File.metaWrites Mshr.meta_write at hx
    split at hx
    · rw [← Option.some.inj hx]
      exact .inl ⟨j, .inl (by assumption), hready, rfl, rfl, rfl⟩
    · rw [← Option.some.inj hx]
      exact .inl ⟨j, .inr (by assumption), hready, rfl, rfl, rfl⟩
    · cases hx
  | none =>
    rw [hc, Option.none_or, Prober.meta_write] at h
    split_ifs at h with hs
    refine .inr ⟨hs, ?_, (Option.some.inj h).symm⟩
    change (Priority.chosen (s.mshrs.metaWrites g.toCfg)).isNone = true
    rw [hc]
    rfl

theorem tags_next (idx : ℕ) (way : Fin n) : (s.next g i).pipe.tags idx way =
    match s.meta_write g with
    | some x => if idx = x.idx && x.way_en way then x.data else s.pipe.tags idx way
    | none => s.pipe.tags idx way := by
  change s.pipe.tags_next (s.pipeIn g i) idx way = _
  have hw : (s.pipeIn g i).meta_write = (s.meta_write g).map fun x => (x.idx, x.way_en, x.data) := rfl
  rw [DCache.State.tags_next, hw]
  cases s.meta_write g <;> rfl

/-- A set that is not written. -/
theorem tags_same {idx : ℕ} (h : ∀ x, s.meta_write g = some x → x.idx ≠ idx) :
    (s.next g i).pipe.tags idx = s.pipe.tags idx := by
  funext way
  rw [tags_next]
  cases hx : s.meta_write g with
  | none => rfl
  | some x =>
    simp only
    rw [decide_eq_false (h x hx).symm, Bool.false_and, if_neg Bool.false_ne_true]

theorem tags_free {idx : ℕ} (h : s.meta_free g = true) :
    (s.next g i).pipe.tags idx = s.pipe.tags idx := by
  refine tags_same fun x hx => ?_
  rw [meta_free, hx] at h
  cases h

omit [NeZero R] [NeZero N] in
theorem Writer.valid {x : MetaWrite n} (h : Writer g s i x j) : (s.mshrs.mshrs j).valid = true := by
  rcases h.state with hs | hs <;> simp [Mshr.valid, hs]

omit [NeZero R] [NeZero N] in
theorem Writer.not_handles {x : MetaWrite n} (h : Writer g s i x j) :
    (s.mshrs.mshrs j).handles g.client (s.mshrs.mshrIn g.toCfg (s.fileIn g i) j) = false := by
  rcases h.state with hs | hs <;> simp [Mshr.handles, hs]

/-- It stays there for a cycle, and a probe sees that. -/
theorem Writer.next {x : MetaWrite n} (h : Writer g s i x j) :
    ((s.next g i).mshrs.mshrs j).valid = true ∧
      ((s.next g i).mshrs.mshrs j).req_idx g.params = (s.mshrs.mshrs j).req_idx g.params ∧
      ((s.next g i).mshrs.mshrs j).meta_hazard ≠ 0 := by
  have hst : ((s.next g i).mshrs.mshrs j).state = (s.mshrs.mshrs j).state_next g.params g.client
      (s.mshrs.mshrIn g.toCfg (s.fileIn g i) j) := rfl
  have hhaz : ((s.next g i).mshrs.mshrs j).meta_hazard = (s.mshrs.mshrs j).meta_hazard_next g.params
      g.client (s.mshrs.mshrIn g.toCfg (s.fileIn g i) j) := rfl
  refine ⟨?_, ?_, ?_⟩
  · rw [Mshr.valid, hst]
    rcases h.state with hs | hs <;> simp [Mshr.state_next, hs, h.ready]
  · exact congrArg (fun d : Misses.Req n S => g.params.idx d.addr) (Mshr.addr_req_next h.not_handles)
  · rw [hhaz]
    rcases h.state with hs | hs <;> simp [Mshr.meta_hazard_next, Mshr.meta_write, hs, h.ready]

/-! ## The invariants -/

/-- A request that looks for its line. -/
def demands (t : ReqType) : Prop := t = .t_lsu ∨ t = .t_prefetch

/-- No line is in two ways; an MSHR has one way, that of its line if it is there. -/
structure Ways (g : Cfg B) (s : Cache T n S R B N K M) : Prop where
  unique : ∀ idx tag way way', s.has g idx tag way = true → s.has g idx tag way' = true → way = way'
  one : ∀ j, (s.mshrs.mshrs j).valid = true →
    ∃ way, ∀ way', (s.mshrs.mshrs j).req.data.way_en way' = true ↔ way' = way
  excl : ∀ j, (s.mshrs.mshrs j).valid = true → ∀ way, s.has g ((s.mshrs.mshrs j).req_idx g.params)
    ((s.mshrs.mshrs j).req_tag g.params) way = true → (s.mshrs.mshrs j).req.data.way_en way = true
  own : ∀ j, (s.mshrs.mshrs j).valid = true → (s.mshrs.mshrs j).req.data.tag_match = true →
    ∀ way, (s.mshrs.mshrs j).req.data.way_en way = true →
      (s.pipe.tags ((s.mshrs.mshrs j).req_idx g.params) way).tag = (s.mshrs.mshrs j).req_tag g.params

/-- What a request has read is still so, unless its set is being changed. -/
structure Fresh (g : Cfg B) (s : Cache T n S R B N K M) : Prop where
  s1 : ∀ w, s.pipe.s1.valid w = true → demands s.pipe.s1.type →
    s.pipe.s1_meta w = s.pipe.tags (g.params.idx (s.pipe.s1.req w).addr)
  s2 : ∀ w, s.pipe.s2.valid w = true → demands s.pipe.s2.type → s.pipe.s2_nack_hit w = true ∨
    (∃ j, (s.mshrs.mshrs j).valid = true ∧
      (s.mshrs.mshrs j).req_idx g.params = g.params.idx (s.pipe.s2.req w).addr) ∨
    s.pipe.s2_meta w = s.pipe.tags (g.params.idx (s.pipe.s2.req w).addr)
  match_way : ∀ w, s.pipe.s2.valid w = true → demands s.pipe.s2.type →
    s.pipe.s2_tag_match_way w = found g (s.pipe.s2_meta w) (g.params.tag (s.pipe.s2.req w).addr)
  most : ∀ w, s.pipe.s2.valid w = true → demands s.pipe.s2.type → ∀ way way',
    s.pipe.s2_tag_match_way w way = true → s.pipe.s2_tag_match_way w way' = true → way = way'
  replaced : ∀ w, s.pipe.s2.valid w = true →
    ∃ way, ∀ way', s.pipe.s2_replaced_way_en way' = true ↔ way' = way

/-- What the probe unit has read is still so, until it writes. -/
structure Probed (g : Cfg B) (s : Cache T n S R B N K M) : Prop where
  resp : s.prober.state = .s_meta_resp → s.pipe.s1_meta 0 = s.pipe.tags (s.prober.req_idx g)
  mshr : s.prober.state = .s_mshr_req →
    (∃ j, (s.mshrs.mshrs j).valid = true ∧ (s.mshrs.mshrs j).req_idx g.params = s.prober.req_idx g ∧
      (s.mshrs.mshrs j).meta_hazard ≠ 0) ∨
    s.pipe.s2_meta 0 = s.pipe.tags (s.prober.req_idx g)
  match_way : s.prober.state = .s_mshr_req →
    s.pipe.s2_tag_match_way 0 = found g (s.pipe.s2_meta 0) (s.prober.req_tag g)
  most : s.prober.held = true → ∀ way way', s.prober.way_en way = true →
    s.prober.way_en way' = true → way = way'
  tag : s.prober.held = true → ∀ way, s.prober.way_en way = true →
    (s.pipe.tags (s.prober.req_idx g) way).tag = s.prober.req_tag g
  /-- another way does not have the line -/
  all : s.prober.held = true → s.prober.tag_matches = true → ∀ way,
    s.has g (s.prober.req_idx g) (s.prober.req_tag g) way = true → s.prober.way_en way = true
  mshrs : s.prober.held = true → ∀ j, (s.mshrs.mshrs j).valid = true →
    (s.mshrs.mshrs j).req_idx g.params = s.prober.req_idx g →
    (s.mshrs.mshrs j).req_tag g.params = s.prober.req_tag g →
    ∀ way, s.prober.way_en way = true → (s.mshrs.mshrs j).req.data.way_en way = true
  snapshot : s.prober.holds = true → s.prober.owes = true →
    s.prober.way_en = s.has g (s.prober.req_idx g) (s.prober.req_tag g) ∧
      s.prober.old_coh =
        mux1H s.prober.way_en fun way => (s.pipe.tags (s.prober.req_idx g) way).coh

/-! ## The arrays -/

/-- A way that is not written. -/
theorem tags_next_of_not {idx : ℕ} {way : Fin n}
    (h : ∀ x, s.meta_write g = some x → x.idx = idx → x.way_en way = false) :
    (s.next g i).pipe.tags idx way = s.pipe.tags idx way := by
  rw [tags_next]
  cases hx : s.meta_write g with
  | none => rfl
  | some x =>
    simp only
    by_cases hi : x.idx = idx
    · rw [h x hx hi, Bool.and_false, if_neg Bool.false_ne_true]
    · rw [decide_eq_false (Ne.symm hi), Bool.false_and, if_neg Bool.false_ne_true]

theorem tags_next_of_write {x : MetaWrite n} {way : Fin n} (h : s.meta_write g = some x)
    (hw : x.way_en way = true) : (s.next g i).pipe.tags x.idx way = x.data := by
  rw [tags_next, h]
  simp [hw]

theorem has_next_of_not {idx tag : ℕ} {way : Fin n}
    (h : ∀ x, s.meta_write g = some x → x.idx = idx → x.way_en way = false) :
    (s.next g i).has g idx tag way = s.has g idx tag way := by
  unfold has found
  rw [tags_next_of_not h]

theorem tag_of_has_next {x : MetaWrite n} {tag : ℕ} {way : Fin n} (h : s.meta_write g = some x)
    (hw : x.way_en way = true) (hh : (s.next g i).has g x.idx tag way = true) : x.data.tag = tag := by
  unfold has found at hh
  rw [tags_next_of_write h hw] at hh
  exact of_decide_eq_true (Bool.and_eq_true_iff.1 hh).1

omit [NeZero R] [NeZero N] in
/-- What is written goes to one way, and no other way has the line. -/
theorem write_spec (hw : s.Ways g) (hp : s.Probed g) (i : CacheIn T n M) {x : MetaWrite n}
    (h : s.meta_write g = some x) :
    (∀ way way', x.way_en way = true → x.way_en way' = true → way = way') ∧
      ∀ way way', x.way_en way = true → s.has g x.idx x.data.tag way' = true → x.way_en way' = true := by
  rcases meta_write_cases (i := i) h with ⟨j, hj⟩ | ⟨hs, -, rfl⟩
  · obtain ⟨way, hone⟩ := hw.one j hj.valid
    rw [hj.way_en, hj.idx, hj.tag]
    refine ⟨fun a b ha hb => ?_, fun a b _ hb => hw.excl j hj.valid b hb⟩
    rw [(hone a).1 ha, (hone b).1 hb]
  · have hheld : s.prober.held = true := by simp [Prober.held, Prober.holds, hs]
    refine ⟨hp.most hheld, fun a b ha hb => hp.all hheld ?_ b hb⟩
    exact List.any_eq_true.2 ⟨a, List.mem_finRange a, ha⟩

theorem unique_next (hw : s.Ways g) (hp : s.Probed g) {idx tag : ℕ} {way way' : Fin n}
    (h : (s.next g i).has g idx tag way = true) (h' : (s.next g i).has g idx tag way' = true) :
    way = way' := by
  by_cases hx : ∃ x, s.meta_write g = some x ∧ x.idx = idx ∧
      (x.way_en way = true ∨ x.way_en way' = true)
  · obtain ⟨x, hx, rfl, hor⟩ := hx
    obtain ⟨hmost, hall⟩ := write_spec hw hp i hx
    -- the other way was written too, since it has the line
    have hkey : ∀ a b, x.way_en a = true → (s.next g i).has g x.idx tag a = true →
        (s.next g i).has g x.idx tag b = true → x.way_en b = true := by
      intro a b ha hna hnb
      by_contra hb
      obtain rfl := tag_of_has_next hx ha hna
      refine hb (hall a b ha ?_)
      rw [← has_next_of_not (i := i) fun y hy _ => ?_]
      · exact hnb
      · obtain rfl := Option.some.inj (hx.symm.trans hy)
        simpa using hb
    rcases hor with ha | hb
    · exact hmost way way' ha (hkey way way' ha h h')
    · exact hmost way way' (hkey way' way hb h' h) hb
  · rw [has_next_of_not fun x hx' hi => ?_] at h h'
    · exact hw.unique idx tag way way' h h'
    · by_contra hway
      exact hx ⟨x, hx', hi, .inr (by simpa using hway)⟩
    · by_contra hway
      exact hx ⟨x, hx', hi, .inl (by simpa using hway)⟩

/-! ## An MSHR that takes a line -/

/-- The request that an MSHR takes, in a pipe. -/
structure Taken (g : Cfg B) (s : Cache T n S R B N K M) (i : CacheIn T n M) (m : Mshr T n S R B)
    (w : Fin (M + 1)) : Prop where
  valid : s.pipe.s2.valid w = true
  type : demands s.pipe.s2.type
  addr : m.req.data.addr = (s.pipe.s2.req w).addr
  tag_match : m.req.data.tag_match = s.pipe.s2_tag_match w
  way_en : m.req.data.way_en =
    if s.pipe.s2_tag_match w then s.pipe.s2_tag_match_way w else s.pipe.s2_replaced_way_en
  found : s.pipe.s2_meta w = s.pipe.tags (g.params.idx (s.pipe.s2.req w).addr)
  kept : (s.next g i).pipe.tags (g.params.idx (s.pipe.s2.req w).addr) =
    s.pipe.tags (g.params.idx (s.pipe.s2.req w).addr)
  /-- nobody else is busy with the set -/
  nack_hit : s.pipe.s2_nack_hit w = false
  nack_wb : s.pipe.s2_wb_idx_matches w = false
  alone : ∀ l, (s.mshrs.mshrs l).valid = true →
    (s.mshrs.mshrs l).req_idx g.params ≠ g.params.idx (s.pipe.s2.req w).addr

omit [NeZero R] [NeZero N] in
theorem of_mshr_valid {w : Fin (M + 1)} (h : (s.fileIn g i).req_valid w = true) :
    s.pipe.s2.valid w = true ∧ s.pipe.s2_nack_hit w = false ∧ demands s.pipe.s2.type ∧
      s.pipe.s2_wb_idx_matches w = false := by
  have h : s.pipe.mshr_valid g.params g.client.toRocket (s.missed g i) w = true := h
  unfold DCache.State.mshr_valid DCache.State.s2_nack_wb at h
  simp only [Bool.and_eq_true, Bool.or_eq_true, Bool.not_eq_true', decide_eq_true_eq] at h
  obtain ⟨⟨⟨⟨⟨⟨⟨⟨⟨hv, hmiss⟩, hn⟩, -⟩, -⟩, hwb⟩, ht⟩, -⟩, -⟩, -⟩ := h
  rw [hv, hmiss] at hwb
  exact ⟨hv, hn, ht, by simpa using hwb⟩

theorem taken_of_handles (hf : s.Fresh g) (hpr : s.Probing g)
    (hh : (s.mshrs.mshrs j).handles g.client (s.mshrs.mshrIn g.toCfg (s.fileIn g i) j) = true) :
    ∃ w, Taken g s i ((s.next g i).mshrs.mshrs j) w := by
  have hreq : ((s.next g i).mshrs.mshrs j).req = s.mshrs.reqIn (s.fileIn g i) :=
    Mshr.req_next_of_handles hh
  rw [Misses.File.handles_eq] at hh
  obtain ⟨-, -, hv, -, -, hno⟩ := Misses.File.of_pri_fires hh
  obtain ⟨h1, h2, h3, h4⟩ := of_mshr_valid hv
  have hno : ¬∃ j, (s.mshrs.mshrs j).valid = true ∧ (s.mshrs.mshrs j).req_idx g.params =
      g.params.idx (s.pipe.s2.req (Misses.File.req_idx (s.fileIn g i))).addr := by
    intro he
    have hm : s.mshrs.idx_match g.toCfg (s.fileIn g i) (Misses.File.req_idx (s.fileIn g i)) = true :=
      Misses.File.idx_match_iff.2 he
    rw [hno] at hm
    cases hm
  refine ⟨Misses.File.req_idx (s.fileIn g i), h1, h3, ?_, ?_, ?_, ?_, ?_, h2, h4,
    fun l hl hi => hno ⟨l, hl, hi⟩⟩
  · rw [hreq]
    rfl
  · rw [hreq]
    rfl
  · rw [hreq]
    rfl
  · rcases hf.s2 _ h1 h3 with hn | he | he
    · rw [h2] at hn
      cases hn
    · exact absurd he hno
    · exact he
  · refine tags_same fun x hx hi => ?_
    rcases meta_write_cases (i := i) hx with ⟨l, hl⟩ | ⟨hs, -, rfl⟩
    · exact hno ⟨l, hl.valid, hl.idx.symm.trans hi⟩
    · have hn := hpr.nacked (by simp [hs]) (by simp [hs]) _ hi.symm
      rw [h2] at hn
      cases hn

omit [NeZero S] [NeZero B] [NeZero R] [NeZero N] in
theorem tag_match_iff {w : Fin (M + 1)} : s.pipe.s2_tag_match w = true ↔
    ∃ way, s.pipe.s2_tag_match_way w way = true := by
  simp [DCache.State.s2_tag_match, List.any_eq_true]

theorem Taken.one {w : Fin (M + 1)} {m : Mshr T n S R B} (h : Taken g s i m w) (hf : s.Fresh g) :
    ∃ way, ∀ way', m.req.data.way_en way' = true ↔ way' = way := by
  rw [h.way_en]
  split_ifs with ht
  · obtain ⟨way, hway⟩ := tag_match_iff.1 ht
    refine ⟨way, fun way' => ⟨fun h' => hf.most w h.valid h.type way' way h' hway, ?_⟩⟩
    rintro rfl
    exact hway
  · exact hf.replaced w h.valid

/-- It finds the line where it is. -/
theorem Taken.excl {w : Fin (M + 1)} {m : Mshr T n S R B} (h : Taken g s i m w) (hf : s.Fresh g)
    {way : Fin n} (hh : (s.next g i).has g (m.req_idx g.params) (m.req_tag g.params) way = true) :
    m.req.data.way_en way = true := by
  unfold has at hh
  rw [Mshr.req_idx, Mshr.req_tag, h.addr, h.kept, ← h.found, ← hf.match_way w h.valid h.type] at hh
  rw [h.way_en, if_pos (tag_match_iff.2 ⟨way, hh⟩)]
  exact hh

theorem Taken.own {w : Fin (M + 1)} {m : Mshr T n S R B} (h : Taken g s i m w) (hf : s.Fresh g)
    (ht : m.req.data.tag_match = true) {way : Fin n} (hw : m.req.data.way_en way = true) :
    ((s.next g i).pipe.tags (m.req_idx g.params) way).tag = m.req_tag g.params := by
  rw [h.tag_match] at ht
  rw [h.way_en, if_pos ht, hf.match_way w h.valid h.type, h.found, Cache.found] at hw
  rw [Mshr.req_idx, Mshr.req_tag, h.addr, h.kept]
  exact of_decide_eq_true (Bool.and_eq_true_iff.1 hw).1

/-- An MSHR that keeps its line. -/
theorem kept_of_valid (hh : (s.mshrs.mshrs j).handles g.client (s.mshrs.mshrIn g.toCfg (s.fileIn g i) j) =
    false) (hv : ((s.next g i).mshrs.mshrs j).valid = true) : (s.mshrs.mshrs j).valid = true ∧
      ((s.next g i).mshrs.mshrs j).req.data = (s.mshrs.mshrs j).req.data :=
  ⟨Mshr.valid_next hh hv, Mshr.addr_req_next hh⟩

theorem excl_next (hi : s.mshrs.Inv g.toCfg) (hw : s.Ways g) (hp : s.Probed g)
    (hv : (s.mshrs.mshrs j).valid = true) {way : Fin n}
    (hh : (s.next g i).has g ((s.mshrs.mshrs j).req_idx g.params) ((s.mshrs.mshrs j).req_tag g.params)
      way = true) : (s.mshrs.mshrs j).req.data.way_en way = true := by
  by_cases hx : ∃ x, s.meta_write g = some x ∧ x.idx = (s.mshrs.mshrs j).req_idx g.params ∧
      x.way_en way = true
  · obtain ⟨x, hx, hidx, hway⟩ := hx
    rcases meta_write_cases (i := i) hx with ⟨l, hl⟩ | ⟨hs, -, rfl⟩
    · obtain rfl := hi.apart l j hl.valid hv (hl.idx.symm.trans hidx)
      rw [← hl.way_en]
      exact hway
    · have hheld : s.prober.held = true := by simp [Prober.held, Prober.holds, hs]
      refine hp.mshrs hheld j hv hidx.symm ?_ way hway
      rw [← hidx] at hh
      exact (tag_of_has_next hx hway hh).symm
  · refine hw.excl j hv way ?_
    rw [← has_next_of_not (i := i) fun x hx' hidx => ?_]
    · exact hh
    · by_contra hway
      exact hx ⟨x, hx', hidx, by simpa using hway⟩

theorem own_next (hi : s.mshrs.Inv g.toCfg) (hw : s.Ways g) (hp : s.Probed g)
    (hv : (s.mshrs.mshrs j).valid = true) (ht : (s.mshrs.mshrs j).req.data.tag_match = true)
    {way : Fin n} (hway : (s.mshrs.mshrs j).req.data.way_en way = true) :
    ((s.next g i).pipe.tags ((s.mshrs.mshrs j).req_idx g.params) way).tag =
      (s.mshrs.mshrs j).req_tag g.params := by
  have hold := hw.own j hv ht way hway
  by_cases hx : ∃ x, s.meta_write g = some x ∧ x.idx = (s.mshrs.mshrs j).req_idx g.params ∧
      x.way_en way = true
  · obtain ⟨x, hx, hidx, hxw⟩ := hx
    rw [← hidx, tags_next_of_write hx hxw]
    rcases meta_write_cases (i := i) hx with ⟨l, hl⟩ | ⟨hs, -, rfl⟩
    · obtain rfl := hi.apart l j hl.valid hv (hl.idx.symm.trans hidx)
      exact hl.tag
    · -- the tag is written as it is
      have hheld : s.prober.held = true := by simp [Prober.held, Prober.holds, hs]
      rw [← hidx] at hold
      exact (hp.tag hheld way hxw).symm.trans hold
  · rw [tags_next_of_not fun x hx' hidx => ?_]
    · exact hold
    · by_contra hxw
      exact hx ⟨x, hx', hidx, by simpa using hxw⟩

theorem Ways.next (hi : s.mshrs.Inv g.toCfg) (hf : s.Fresh g) (hpr : s.Probing g) (hp : s.Probed g)
    (hw : s.Ways g) : (s.next g i).Ways g where
  unique _ _ _ _ h h' := unique_next hw hp h h'
  one j hv := by
    cases hh : (s.mshrs.mshrs j).handles g.client (s.mshrs.mshrIn g.toCfg (s.fileIn g i) j) with
    | true =>
      obtain ⟨w, hw⟩ := taken_of_handles hf hpr hh
      exact hw.one hf
    | false =>
      obtain ⟨hv, hd⟩ := kept_of_valid hh hv
      rw [hd]
      exact hw.one j hv
  excl j hv way h := by
    cases hh : (s.mshrs.mshrs j).handles g.client (s.mshrs.mshrIn g.toCfg (s.fileIn g i) j) with
    | true =>
      obtain ⟨w, hw⟩ := taken_of_handles hf hpr hh
      exact hw.excl hf h
    | false =>
      obtain ⟨hv, hd⟩ := kept_of_valid hh hv
      rw [Mshr.req_idx, Mshr.req_tag, hd] at h
      rw [hd]
      exact excl_next hi hw hp hv h
  own j hv ht way h := by
    cases hh : (s.mshrs.mshrs j).handles g.client (s.mshrs.mshrIn g.toCfg (s.fileIn g i) j) with
    | true =>
      obtain ⟨w, hw⟩ := taken_of_handles hf hpr hh
      exact hw.own hf ht h
    | false =>
      obtain ⟨hv, hd⟩ := kept_of_valid hh hv
      rw [hd] at ht h
      rw [Mshr.req_idx, Mshr.req_tag, hd]
      exact own_next hi hw hp hv ht h

/-! ## The pipeline -/

theorem s1_meta_next (w : Fin (M + 1)) : (s.next g i).pipe.s1_meta w =
    s.pipe.tags (g.params.idx ((s.next g i).pipe.s1.req w).addr) := rfl

theorem Fresh.next (hok : s.Ok g i) (hw : s.Ways g) (hf : s.Fresh g) : (s.next g i).Fresh g := by
  have hway : ∀ w, demands s.pipe.s1.type → (s.next g i).pipe.s2_tag_match_way w =
      found g (s.pipe.s1_meta w) (g.params.tag (s.pipe.s1.req w).addr) := by
    intro w ht
    change s.pipe.s1_tag_match_way g.params g.client.toRocket w = _
    funext way
    rcases ht with ht | ht <;> rw [DCache.State.s1_tag_match_way, ht, found]
  refine ⟨fun w hv ht => ?_, fun w hv ht => ?_, fun w hv ht => ?_, fun w hv ht way way' h h' => ?_,
    fun w hv => ?_⟩
  · obtain ⟨t, hg, -⟩ := s1_valid hv
    rw [s1_meta_next, tags_free (meta_free_of_grant hg)]
  · have ht : demands s.pipe.s1.type := ht
    have hold : (s.next g i).pipe.s2_meta w = s.pipe.tags (g.params.idx (s.pipe.s1.req w).addr) :=
      hf.s1 w (s2_valid hv) ht
    have haddr : ((s.next g i).pipe.s2.req w).addr = (s.pipe.s1.req w).addr := rfl
    rw [hold, haddr]
    by_cases hx : ∃ x, s.meta_write g = some x ∧ x.idx = g.params.idx (s.pipe.s1.req w).addr
    · obtain ⟨x, hx, hidx⟩ := hx
      rcases meta_write_cases (i := i) hx with ⟨l, hl⟩ | ⟨hs, -, rfl⟩
      · obtain ⟨hv, hsame, -⟩ := hl.next
        exact .inr (.inl ⟨l, hv, by rw [hsame, ← hl.idx, hidx]⟩)
      · refine .inl (s2_nack_hit_next (by simp [hs]) ?_)
        rw [haddr]
        exact hidx.symm
    · refine .inr (.inr (tags_same fun x hx' hi => hx ⟨x, hx', hi⟩).symm)
  · have ht : demands s.pipe.s1.type := ht
    rw [hway w ht]
    rfl
  · have ht : demands s.pipe.s1.type := ht
    rw [hway w ht, hf.s1 w (s2_valid hv) ht] at h h'
    exact hw.unique _ _ way way' h h'
  · obtain ⟨way, hone⟩ := hok.replaced
    exact ⟨way, hone⟩

/-! ## The probe unit -/

omit [NeZero R] [NeZero N] in
/-- An MSHR that writes in the set of a probe that is under way has the permission that
    it asked for. -/
theorem upgrades_of_writer {x : MetaWrite n} (hs : s.Safe g) (hh : s.prober.holds = true)
    (hj : Writer g s i x j) (hx : x.idx = s.prober.req_idx g) :
    Upgrades (s.mshrs.mshrs j) ∧ (s.prober.owes = true →
      (s.mshrs.mshrs j).req_tag g.params ≠ s.prober.req_tag g) := by
  have hidx : (s.mshrs.mshrs j).req_idx g.params = s.prober.req_idx g := hj.idx.symm.trans hx
  rcases hs hh j hidx with hc | ⟨hu, hb⟩
  · exfalso
    have hst := hj.state
    cases hc <;> simp_all
  · exact ⟨hu, fun ho ht => hb ho (Mshr.block_eq hidx ht)⟩

/-- A write to the set of a probe that goes on being under way. -/
theorem write_of_held (hs : s.Safe g) (hh : s.prober.held = true) (hn : (s.next g i).prober.held = true)
    {x : MetaWrite n} (hx : s.meta_write g = some x) (hidx : x.idx = s.prober.req_idx g) :
    ∃ j, Writer g s i x j ∧ Upgrades (s.mshrs.mshrs j) ∧ (s.prober.owes = true →
      (s.mshrs.mshrs j).req_tag g.params ≠ s.prober.req_tag g) := by
  rcases meta_write_cases (i := i) hx with ⟨j, hj⟩ | ⟨hst, hr, rfl⟩
  · exact ⟨j, hj, upgrades_of_writer hs (Bool.and_eq_true_iff.1 hh).1 hj hidx⟩
  · exfalso
    have hnext : (s.next g i).prober.state = .s_meta_write_resp := by
      change s.prober.state_next g (s.proberIn g i) = _
      rw [Prober.state_next, hst, hr]
      rfl
    simp [Prober.held, hnext] at hn

/-- The probe unit goes on with the metadata as they are. -/
theorem found_of_mshr_rdy (hpr : s.Probing g) (hp : s.Probed g) (hs : s.prober.state = .s_mshr_req)
    (hr : s.mshrs.probe_rdy g.toCfg (s.asked g i) = true) :
    s.pipe.s2_meta 0 = s.pipe.tags (s.prober.req_idx g) ∧
      (s.next g i).pipe.tags (s.prober.req_idx g) = s.pipe.tags (s.prober.req_idx g) := by
  constructor
  · rcases hp.mshr hs with ⟨j, hv, hidx, hz⟩ | h
    · have hrdy := calm_of_mshr_rdy hpr hs hr hidx hv
      unfold Mshr.probe_rdy at hrdy
      exact absurd (of_decide_eq_true (Bool.and_eq_true_iff.1 hrdy).1) hz
    · exact h
  · refine tags_same fun x hx hidx => ?_
    rcases meta_write_cases (i := i) hx with ⟨j, hj⟩ | ⟨hst, -⟩
    · have hrdy := calm_of_mshr_rdy hpr hs hr (hj.idx.symm.trans hidx) hj.valid
      rcases hj.state with hst | hst <;> simp [Mshr.probe_rdy, hst] at hrdy
    · rw [hs] at hst
      cases hst

/-- The parts of `Probed` about the read. -/
theorem resp_next (hs : (s.next g i).prober.state = .s_meta_resp) :
    (s.next g i).pipe.s1_meta 0 = (s.next g i).pipe.tags (s.prober.req_idx g) := by
  obtain ⟨hp, hr⟩ := Prober.of_meta_resp_next (g := g) (s := s.prober) (i := s.proberIn g i) hs
  have hg : s.grant g i = some .t_probe := grant_probe.2 ⟨by simp [Prober.reads, hp], hr⟩
  rw [tags_free (meta_free_of_grant hg), s1_meta_next, (isProbe_s1 hg).req]
  exact congrArg s.pipe.tags (Cfg.idx_lineAddr (g.idx_lt _))

theorem mshr_next (hp : s.Probed g) (hs : s.prober.state = .s_meta_resp) :
    (∃ j, ((s.next g i).mshrs.mshrs j).valid = true ∧
      ((s.next g i).mshrs.mshrs j).req_idx g.params = s.prober.req_idx g ∧
      ((s.next g i).mshrs.mshrs j).meta_hazard ≠ 0) ∨
    (s.next g i).pipe.s2_meta 0 = (s.next g i).pipe.tags (s.prober.req_idx g) := by
  have hold : (s.next g i).pipe.s2_meta 0 = s.pipe.tags (s.prober.req_idx g) := hp.resp hs
  rw [hold]
  by_cases hx : ∃ x, s.meta_write g = some x ∧ x.idx = s.prober.req_idx g
  · obtain ⟨x, hx, hidx⟩ := hx
    rcases meta_write_cases (i := i) hx with ⟨l, hl⟩ | ⟨hst, -⟩
    · obtain ⟨hv, hsame, hz⟩ := hl.next
      exact .inl ⟨l, hv, by rw [hsame, ← hl.idx, hidx], hz⟩
    · rw [hs] at hst
      cases hst
  · exact .inr (tags_same fun x hx' hi => hx ⟨x, hx', hi⟩).symm

theorem match_way_next (hpr : s.Probing g) (hs : s.prober.state = .s_meta_resp) :
    (s.next g i).pipe.s2_tag_match_way 0 =
      found g ((s.next g i).pipe.s2_meta 0) (s.prober.req_tag g) := by
  have hprobe := hpr.resp hs
  change s.pipe.s1_tag_match_way g.params g.client.toRocket 0 = _
  funext way
  rw [DCache.State.s1_tag_match_way, hprobe.type, hprobe.req, found]
  have ht : g.params.tag (nullReq (T := T) (g.lineAddr (s.prober.req_tag g) (s.prober.req_idx g))).addr =
      s.prober.req_tag g := Cfg.tag_lineAddr (g.idx_lt _)
  rw [ht]
  rfl

/-- When the probe unit goes on, it has what it will answer for. -/
theorem probed_enter (hpr : s.Probing g) (hp : s.Probed g)
    (hs : s.prober.state = .s_mshr_req) (hr : s.mshrs.probe_rdy g.toCfg (s.asked g i) = true) :
    (s.next g i).prober.way_en =
        (s.next g i).has g ((s.next g i).prober.req_idx g) ((s.next g i).prober.req_tag g) ∧
      (s.next g i).prober.old_coh = mux1H (s.next g i).prober.way_en fun way =>
        ((s.next g i).pipe.tags ((s.next g i).prober.req_idx g) way).coh := by
  obtain ⟨hfound, hkept⟩ := found_of_mshr_rdy hpr hp hs hr
  have hreq : (s.next g i).prober.req = s.prober.req := Prober.req_next (by simp [hs])
  have hway : (s.next g i).prober.way_en = s.pipe.s2_tag_match_way 0 := if_pos hs
  have hcoh : (s.next g i).prober.old_coh = s.pipe.s2_hit_state 0 := if_pos hs
  have hhas : (s.next g i).has g = fun idx tag => found g ((s.next g i).pipe.tags idx) tag := rfl
  rw [hway, hcoh, hhas, Prober.req_idx, Prober.req_tag, hreq]
  change _ = found g ((s.next g i).pipe.tags (s.prober.req_idx g)) (s.prober.req_tag g) ∧
    _ = mux1H _ fun way => ((s.next g i).pipe.tags (s.prober.req_idx g) way).coh
  rw [hkept, hp.match_way hs, DCache.State.s2_hit_state, hp.match_way hs, hfound]
  exact ⟨rfl, rfl⟩

section Stay

variable (hsafe : s.Safe g) (hw : s.Ways g) (hh : s.prober.held = true)
  (hn : (s.next g i).prober.held = true)

include hsafe hw hh hn

/-- What is written in the set of a probe that goes on is the tag that is there. -/
theorem tag_stay (hp : s.Probed g) {way : Fin n} (h : s.prober.way_en way = true) :
    ((s.next g i).pipe.tags (s.prober.req_idx g) way).tag = s.prober.req_tag g := by
  have hold := hp.tag hh way h
  by_cases hx : ∃ x, s.meta_write g = some x ∧ x.idx = s.prober.req_idx g ∧ x.way_en way = true
  · obtain ⟨x, hx, hidx, hxw⟩ := hx
    obtain ⟨j, hj, hu, -⟩ := write_of_held (i := i) hsafe hh hn hx hidx
    rw [← hidx, tags_next_of_write hx hxw, hj.tag,
      ← hw.own j hj.valid hu.1 way (hj.way_en ▸ hxw), ← hj.idx, hidx]
    exact hold
  · rw [tags_next_of_not fun x hx' hidx => ?_]
    · exact hold
    · by_contra hxw
      exact hx ⟨x, hx', hidx, by simpa using hxw⟩

theorem all_stay (hp : s.Probed g) (ht : s.prober.tag_matches = true) {way : Fin n}
    (h : (s.next g i).has g (s.prober.req_idx g) (s.prober.req_tag g) way = true) :
    s.prober.way_en way = true := by
  by_cases hx : ∃ x, s.meta_write g = some x ∧ x.idx = s.prober.req_idx g ∧ x.way_en way = true
  · obtain ⟨x, hx, hidx, hxw⟩ := hx
    obtain ⟨j, hj, -, -⟩ := write_of_held (i := i) hsafe hh hn hx hidx
    rw [← hidx] at h
    have htag : (s.mshrs.mshrs j).req_tag g.params = s.prober.req_tag g :=
      hj.tag.symm.trans (tag_of_has_next hx hxw h)
    -- the MSHR has one way, and that of the probe is one of them
    obtain ⟨a, -, ha⟩ := List.any_eq_true.1 ht
    have hja := hp.mshrs hh j hj.valid (hj.idx.symm.trans hidx) htag a ha
    obtain ⟨b, hone⟩ := hw.one j hj.valid
    rw [(hone way).1 (hj.way_en ▸ hxw), ← (hone a).1 hja]
    exact ha
  · refine hp.all hh ht way ?_
    rw [← has_next_of_not (i := i) fun x hx' hidx => ?_]
    · exact h
    · by_contra hxw
      exact hx ⟨x, hx', hidx, by simpa using hxw⟩

/-- Before the probe is answered the line is not written. -/
theorem write_apart (ho : s.prober.owes = true) {x : MetaWrite n} (hx : s.meta_write g = some x)
    (hidx : x.idx = s.prober.req_idx g) {way : Fin n} (hxw : x.way_en way = true) :
    s.has g (s.prober.req_idx g) (s.prober.req_tag g) way = false ∧
      (s.next g i).has g (s.prober.req_idx g) (s.prober.req_tag g) way = false := by
  obtain ⟨j, hj, hu, hne⟩ := write_of_held (i := i) hsafe hh hn hx hidx
  have hne := hne ho
  constructor
  · have hown := hw.own j hj.valid hu.1 way (hj.way_en ▸ hxw)
    rw [← hj.idx, hidx] at hown
    rw [has, found, hown, decide_eq_false hne, Bool.false_and]
  · rw [Bool.eq_false_iff]
    intro hhas
    rw [← hidx] at hhas
    exact hne (hj.tag.symm.trans (tag_of_has_next hx hxw hhas))

theorem has_stay (ho : s.prober.owes = true) :
    (s.next g i).has g (s.prober.req_idx g) (s.prober.req_tag g) =
      s.has g (s.prober.req_idx g) (s.prober.req_tag g) := by
  funext way
  by_cases hx : ∃ x, s.meta_write g = some x ∧ x.idx = s.prober.req_idx g ∧ x.way_en way = true
  · obtain ⟨x, hx, hidx, hxw⟩ := hx
    obtain ⟨h1, h2⟩ := write_apart (i := i) hsafe hw hh hn ho hx hidx hxw
    rw [h1, h2]
  · refine has_next_of_not fun x hx' hidx => ?_
    by_contra hxw
    exact hx ⟨x, hx', hidx, by simpa using hxw⟩

theorem coh_stay (ho : s.prober.owes = true) {way : Fin n}
    (hway : s.has g (s.prober.req_idx g) (s.prober.req_tag g) way = true) :
    (s.next g i).pipe.tags (s.prober.req_idx g) way = s.pipe.tags (s.prober.req_idx g) way := by
  refine tags_next_of_not fun x hx hidx => ?_
  by_contra hxw
  have h := (write_apart (i := i) hsafe hw hh hn ho hx hidx (by simpa using hxw)).1
  rw [hway] at h
  cases h

end Stay

theorem Probed.next (hsafe : s.Safe g) (hw : s.Ways g) (hpr : s.Probing g)
    (hp : s.Probed g) : (s.next g i).Probed g := by
  -- a probe that has the line to itself either had it before, or gets it now
  have hfrom : (s.next g i).prober.held = true → s.prober.held = true ∨
      (s.prober.state = .s_mshr_req ∧ s.mshrs.probe_rdy g.toCfg (s.asked g i) = true) := fun h =>
    (Prober.of_held_next (g := g) (i := s.proberIn g i) h).imp_right fun h => ⟨h.1, h.2.1⟩
  have hkeep : s.prober.held = true → (s.next g i).prober.req = s.prober.req ∧
      (s.next g i).prober.way_en = s.prober.way_en ∧
      (s.next g i).prober.old_coh = s.prober.old_coh := by
    intro hh
    obtain ⟨h1, -, -, h4⟩ := Prober.ne_of_holds (Bool.and_eq_true_iff.1 hh).1
    exact ⟨Prober.req_next h1, Prober.way_en_next h4, Prober.old_coh_next h4⟩
  refine ⟨fun hs => ?_, fun hs => ?_, fun hs => ?_, fun hn a b ha hb => ?_, fun hn way h => ?_,
    fun hn ht way h => ?_, fun hn j hv hidx htag way h => ?_, fun hn ho => ?_⟩
  · have hst := (Prober.of_meta_resp_next (g := g) (i := s.proberIn g i) hs).1
    have hreq : (s.next g i).prober.req = s.prober.req := Prober.req_next (by simp [hst])
    rw [Prober.req_idx, hreq]
    exact resp_next hs
  · have hst := Prober.of_mshr_req_next (g := g) (i := s.proberIn g i) hs
    have hreq : (s.next g i).prober.req = s.prober.req := Prober.req_next (by simp [hst])
    rw [Prober.req_idx, hreq]
    exact mshr_next hp hst
  · have hst := Prober.of_mshr_req_next (g := g) (i := s.proberIn g i) hs
    have hreq : (s.next g i).prober.req = s.prober.req := Prober.req_next (by simp [hst])
    rw [Prober.req_tag, hreq]
    exact match_way_next hpr hst
  · rcases hfrom hn with hh | ⟨hs, hr⟩
    · rw [(hkeep hh).2.1] at ha hb
      exact hp.most hh a b ha hb
    · rw [(probed_enter hpr hp hs hr).1] at ha hb
      exact unique_next hw hp ha hb
  · rcases hfrom hn with hh | ⟨hs, hr⟩
    · obtain ⟨hreq, hway, -⟩ := hkeep hh
      rw [hway] at h
      rw [Prober.req_idx, Prober.req_tag, hreq]
      exact tag_stay hsafe hw hh hn hp h
    · rw [(probed_enter hpr hp hs hr).1] at h
      exact of_decide_eq_true (Bool.and_eq_true_iff.1 h).1
  · rcases hfrom hn with hh | ⟨hs, hr⟩
    · obtain ⟨hreq, hway, -⟩ := hkeep hh
      rw [Prober.tag_matches, hway] at ht
      rw [Prober.req_idx, Prober.req_tag, hreq] at h
      rw [hway]
      exact all_stay hsafe hw hh hn hp ht h
    · rw [(probed_enter hpr hp hs hr).1]
      exact h
  · have hst : s.prober.state ≠ .s_invalid ∧ s.prober.state ≠ .s_meta_read := by
      rcases hfrom hn with hh | ⟨hs, -⟩
      · obtain ⟨h1, h2, -⟩ := Prober.ne_of_holds (Bool.and_eq_true_iff.1 hh).1
        exact ⟨h1, h2⟩
      · simp [hs]
    have hreq : (s.next g i).prober.req = s.prober.req := Prober.req_next hst.1
    have hidx' : ((s.next g i).mshrs.mshrs j).req_idx g.params = s.prober.req_idx g := by
      rw [hidx, Prober.req_idx, hreq]
      rfl
    obtain ⟨hha, -, hsame⟩ := kept_of_probed hpr hst.1 hst.2 hidx'
    obtain ⟨hv, hd⟩ := kept_of_valid hha hv
    rw [Mshr.req_tag, hd, Prober.req_tag, hreq] at htag
    rw [hd]
    rcases hfrom hn with hh | ⟨hs, hr⟩
    · rw [(hkeep hh).2.1] at h
      exact hp.mshrs hh j hv hsame htag way h
    · rw [(probed_enter hpr hp hs hr).1, Prober.req_idx, Prober.req_tag, hreq] at h
      have htags := (found_of_mshr_rdy (i := i) hpr hp hs hr).2
      refine hw.excl j hv way ?_
      have h : found g ((s.next g i).pipe.tags (s.prober.req_idx g)) (s.prober.req_tag g) way = true := h
      rw [htags] at h
      rw [hsame]
      exact (congrArg (fun tag => found g (s.pipe.tags (s.prober.req_idx g)) tag way) htag).trans h
  · rcases hfrom (Prober.held_of_owes hn ho) with hh | ⟨hs, hr⟩
    · obtain ⟨hreq, hway, hcoh⟩ := hkeep hh
      obtain ⟨h1, -⟩ := Prober.ne_of_holds (Bool.and_eq_true_iff.1 hh).1
      have hheld := Prober.held_of_owes hn ho
      have hold := Prober.of_owes_next (g := g) (i := s.proberIn g i) h1 ho
      obtain ⟨hsnap, hsc⟩ := hp.snapshot (Bool.and_eq_true_iff.1 hh).1 hold
      rw [hway, hcoh, Prober.req_idx, Prober.req_tag, hreq]
      refine ⟨hsnap.trans (has_stay hsafe hw hh hheld hold).symm, hsc.trans ?_⟩
      refine DCache.State.mux1H_congr (fun _ => rfl) fun way hwe => ?_
      rw [hsnap] at hwe
      exact congrArg Meta.coh (coh_stay hsafe hw hh hheld hold hwe).symm
    · exact probed_enter hpr hp hs hr

/-! ## The results -/

theorem lines_of_reach (h : (dcache g).Reach s) : s.Ways g ∧ s.Fresh g ∧ s.Probed g := by
  induction h with
  | start h0 =>
    have hmshrs := h0.mshrs
    refine ⟨⟨h0.unique, fun j hv => ?_, fun j hv => ?_, fun j hv => ?_⟩,
      ⟨fun w hv => ?_, fun w hv => ?_, fun w hv => ?_, fun w hv => ?_, fun w hv => ?_⟩, ?_⟩
    · simp [Mshr.valid, hmshrs.state j] at hv
    · simp [Mshr.valid, hmshrs.state j] at hv
    · simp [Mshr.valid, hmshrs.state j] at hv
    · rw [h0.s1 w] at hv
      cases hv
    · rw [h0.s2 w] at hv
      cases hv
    · rw [h0.s2 w] at hv
      cases hv
    · rw [h0.s2 w] at hv
      cases hv
    · rw [h0.s2 w] at hv
      cases hv
    · constructor <;> intro hs <;> simp [h0.prober, Prober.held, Prober.holds] at hs
  | step hr hok ih =>
    obtain ⟨hw, hf, hp⟩ := ih
    have hpr := probing_of_reach hr
    exact ⟨hw.next (file_of_reach hr) hf hpr hp, hf.next hok hw,
      hp.next (safe_of_reach hr) hw hpr⟩

/-- **A line is in one way**: no two ways of a set have the same line, and while an MSHR is
    busy with a line that is in the array, it has the way of it. -/
theorem line_in_one_way (h : (dcache g).Reach s) :
    (∀ idx tag way way', s.has g idx tag way = true → s.has g idx tag way' = true → way = way') ∧
      ∀ j, (s.mshrs.mshrs j).valid = true → ∀ way, s.has g ((s.mshrs.mshrs j).req_idx g.params)
        ((s.mshrs.mshrs j).req_tag g.params) way = true →
          ∀ way', (s.mshrs.mshrs j).req.data.way_en way' = true ↔ way' = way := by
  obtain ⟨hw, -, -⟩ := lines_of_reach h
  refine ⟨hw.unique, fun j hv way hway way' => ?_⟩
  obtain ⟨a, ha⟩ := hw.one j hv
  obtain rfl := (ha way).1 (hw.excl j hv way hway)
  exact ha way'

omit [NeZero S] [NeZero B] [NeZero R] [NeZero N] in
theorem mux1H_eq {k : ℕ} {sel : Fin n → Bool} (x : Fin n → BitVec k) {way : Fin n}
    (hw : sel way = true) (hf : ∀ way', sel way' = true → way' = way) : mux1H sel x = x way := by
  have hop : ∀ a b : BitVec k, (a ||| b) ||| b = a ||| b := fun a b => by
    rw [BitVec.or_assoc, BitVec.or_self]
  rw [mux1H, OneHot.foldl_select hop hw hf, if_pos (List.mem_finRange way)]
  simp

/-- What the cache may do with a line. -/
def permission (g : Cfg B) (s : Cache T n S R B N K M) (addr : ℕ) : BitVec 2 :=
  match Fin.find? (s.has g (g.params.idx addr) (g.params.tag addr)) with
  | some way => (s.pipe.tags (g.params.idx addr) way).coh
  | none => g.client.onReset

/-- **A probe is answered for the line as it is**: from when the probe unit goes on to when
    it has answered, the state that it answers for is that of the line in the metadata. -/
theorem probe_snapshot (h : (dcache g).Reach s) (hh : s.prober.holds = true)
    (ho : s.prober.owes = true) : s.prober.reply_coh g = s.permission g s.prober.req.address := by
  obtain ⟨hw, -, hp⟩ := lines_of_reach h
  obtain ⟨hway, hcoh⟩ := hp.snapshot hh ho
  unfold Prober.reply_coh permission
  have hfind : s.has g (g.params.idx s.prober.req.address) (g.params.tag s.prober.req.address) =
      s.prober.way_en := hway.symm
  rw [hfind]
  cases hf : Fin.find? s.prober.way_en with
  | none =>
    have hno : s.prober.tag_matches = false := by
      rw [Prober.tag_matches, List.any_eq_false]
      intro way _
      rw [Fin.find?_eq_none_iff.1 hf way]
      exact Bool.false_ne_true
    rw [hno, if_neg Bool.false_ne_true]
  | some way =>
    have hyes := Fin.eq_true_of_find?_eq_some hf
    have hmatch : s.prober.tag_matches = true := List.any_eq_true.2 ⟨way, List.mem_finRange way, hyes⟩
    rw [hmatch, if_pos rfl, hcoh, mux1H_eq _ hyes fun way' h' => ?_]
    · rfl
    · exact hp.most (Prober.held_of_owes hh ho) way' way h' hyes

end Cache

/-- An MSHR has written the metadata of its line, and is still busy with it. -/
theorem line_in_one_way_missed :
    (((Small.missed 15).mshrs.mshrs 0).valid = true ∧
      (Small.missed 15).has Small.cfg 0 6 1 = true) ∧
      (∀ idx tag way way', (Small.missed 15).has Small.cfg idx tag way = true →
        (Small.missed 15).has Small.cfg idx tag way' = true → way = way') ∧
      ∀ j, ((Small.missed 15).mshrs.mshrs j).valid = true → ∀ way,
        (Small.missed 15).has Small.cfg (((Small.missed 15).mshrs.mshrs j).req_idx Small.cfg.params)
          (((Small.missed 15).mshrs.mshrs j).req_tag Small.cfg.params) way = true →
        ∀ way', ((Small.missed 15).mshrs.mshrs j).req.data.way_en way' = true ↔ way' = way :=
  ⟨by decide +kernel, Cache.line_in_one_way (Small.reach_missed 15)⟩

/-- The probe unit goes on. -/
theorem probe_snapshot_probed : (Small.after 4).prober.reply_coh Small.cfg =
    (Small.after 4).permission Small.cfg (Small.after 4).prober.req.address :=
  Cache.probe_snapshot (Small.reach_after 4) (by decide +kernel) (by decide +kernel)

end BoomStop.Coherence
