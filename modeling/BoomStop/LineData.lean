/-
  The line that is written back is the line in the data array: while the writeback unit
  reads its rows, no store and no refill gets to them.

  * `Cfg.idx_of_place`, `lineRow_next`: rows of different sets are in different places;
  * `Prober.Decided`: what a probe under way knows of its line;
  * `Stored`: no store of the LSU is on its way to a line that is given up;
  * `Filling`: which rows the buffer of the writeback unit has;
  * `release_data`: the result.
-/
import Mathlib.Tactic.Ring
import BoomStop.LineRelease

namespace BoomStop.Coherence

open Sync
open DCache (MemCmd Meta Params Row ReqType DataWrite DataRead DataRegs mux1H)
open Misses (FileIn Fields ReqBits Grant Mshr MshrIn MshrState WritebackReq)

variable {T n S R B N K M : ℕ}

/-! ## Where a row is -/

section

variable {g : Cfg B}

/-- Rows in the same place are of the same set. -/
theorem Cfg.idx_of_place {a b : ℕ} (hb : g.params.bank a = g.params.bank b)
    (hi : g.params.bankIdx a = g.params.bankIdx b) : g.params.idx a = g.params.idx b := by
  have hplace : ∀ x, g.params.row x % (g.params.nSets * B) =
      g.params.bank x + g.params.numDCacheBanks * g.params.bankIdx x := by
    intro x
    rw [← g.rows, Nat.mod_mul]
    rfl
  have hidx : ∀ x, g.params.idx x = g.params.row x % (g.params.nSets * B) / B := by
    intro x
    rw [Nat.mul_comm g.params.nSets, Nat.mod_mul_right_div_self, Params.row, Nat.div_div_eq_div_mul,
      Params.idx, g.blockBytes, Nat.mul_comm B]
  rw [hidx a, hidx b, hplace a, hplace b, hb, hi]

theorem Cfg.block_row [NeZero B] {a k : ℕ} (hk : k < B) :
    (a * g.params.blockBytes + k * (8 * g.params.rowWords)) / g.params.blockBytes = a := by
  have hlt : k * (8 * g.params.rowWords) < g.params.blockBytes := by
    rw [g.blockBytes]
    exact Nat.mul_lt_mul_of_pos_right hk (Nat.mul_pos (by decide) g.rowWords)
  rw [Nat.mul_comm, Nat.mul_add_div g.blockBytes_pos, Nat.div_eq_of_lt hlt, Nat.add_zero]

/-- The address of a row of a line that is written back. -/
def Cfg.rowAddr (g : Cfg B) (q : WritebackReq n) (k : ℕ) : ℕ :=
  q.tag * (g.params.nSets * g.params.blockBytes) + (q.idx * B + k) * (8 * g.params.rowWords)

theorem Cfg.idx_rowAddr [NeZero B] {q : WritebackReq n} {k : ℕ} (hq : q.idx < g.params.nSets)
    (hk : k < B) : g.params.idx (g.rowAddr q k) = q.idx := by
  have haddr : g.rowAddr q k =
      (q.tag * g.params.nSets + q.idx) * g.params.blockBytes + k * (8 * g.params.rowWords) := by
    rw [Cfg.rowAddr, g.blockBytes]
    ring
  rw [Params.idx, haddr, Cfg.block_row hk, Nat.mul_add_mod_of_lt hq]

end

/-! ## A probe that has found its line -/

namespace Prober

variable (g : Cfg B) (s : Prober n)

/-- The line is dirty, and is written back. -/
def writes_back : Bool := s.tag_matches && s.is_dirty g

/-- What a probe under way knows of its line. -/
structure Decided : Prop where
  clean : s.state = .s_lsu_release ∨ s.state = .s_release → s.writes_back g = false
  dirty : s.state = .s_writeback_req ∨ s.state = .s_writeback_resp → s.writes_back g = true
  found : s.state = .s_meta_write ∨ s.state = .s_meta_write_resp → s.tag_matches = true

variable {g s} {i : ProberIn n}

theorem Decided.next (h : s.Decided g) : (s.next g i).Decided g := by
  have hst : (s.next g i).state = s.state_next g i := rfl
  -- the line is decided on in `s_mshr_resp`, and does not change any more
  have hkeep : s.state ≠ .s_invalid → s.state ≠ .s_mshr_req →
      (s.next g i).writes_back g = s.writes_back g ∧ (s.next g i).tag_matches = s.tag_matches := by
    intro h1 h2
    unfold writes_back is_dirty reply_coh tag_matches
    rw [req_next h1, way_en_next h2, old_coh_next h2]
    exact ⟨rfl, rfl⟩
  have hclean := h.clean
  have hdirty := h.dirty
  have hfound := h.found
  refine ⟨fun hn => ?_, fun hn => ?_, fun hn => ?_⟩
  · have hfrom : s.state ≠ .s_invalid ∧ s.state ≠ .s_mshr_req ∧ s.writes_back g = false := by
      rw [hst] at hn
      cases hs : s.state <;> simp only [state_next, hs] at hn <;> (try split_ifs at hn) <;>
        simp_all [writes_back]
    rw [(hkeep hfrom.1 hfrom.2.1).1]
    exact hfrom.2.2
  · have hfrom : s.state ≠ .s_invalid ∧ s.state ≠ .s_mshr_req ∧ s.writes_back g = true := by
      rw [hst] at hn
      cases hs : s.state <;> simp only [state_next, hs] at hn <;> (try split_ifs at hn) <;>
        simp_all [writes_back]
    rw [(hkeep hfrom.1 hfrom.2.1).1]
    exact hfrom.2.2
  · have hfrom : s.state ≠ .s_invalid ∧ s.state ≠ .s_mshr_req ∧ s.tag_matches = true := by
      rw [hst] at hn
      cases hs : s.state <;> simp only [state_next, hs] at hn <;> (try split_ifs at hn) <;>
        simp_all [writes_back]
    rw [(hkeep hfrom.1 hfrom.2.1).2]
    exact hfrom.2.2

end Prober

namespace Cache

variable [NeZero S] [NeZero B] [NeZero R] [NeZero N]
variable {g : Cfg B} {s : Cache T n S R B N K M} {i : CacheIn T n M} {j : Fin N}

/-- A row of a line in the array. -/
def lineRow (g : Cfg B) (s : Cache T n S R B N K M) (q : WritebackReq n) (k : ℕ) (way : Fin n) : Row :=
  s.pipe.data way (g.params.bank (g.rowAddr q k)) (g.params.bankIdx (g.rowAddr q k))

/-- A way of a set that nothing is written to. -/
theorem lineRow_next {q : WritebackReq n} {k : ℕ} {way : Fin n} (hq : q.idx < g.params.nSets)
    (hk : k < B) (h : ∀ x, s.pipe.dataWrite g.params (s.pipeIn g i) = some x → x.way_en way = true →
      g.params.idx x.addr ≠ q.idx) : (s.next g i).lineRow g q k way = s.lineRow g q k way := by
  change s.pipe.data_next g.params (s.pipeIn g i) way _ _ = s.pipe.data way _ _
  unfold DCache.State.data_next
  cases hx : s.pipe.dataWrite g.params (s.pipeIn g i) with
  | none => rfl
  | some x =>
    funext w
    refine if_neg fun hc => ?_
    simp only [Bool.and_eq_true, decide_eq_true_eq] at hc
    obtain ⟨⟨⟨hway, hb⟩, hi⟩, -⟩ := hc
    exact h x hx hway ((Cfg.idx_of_place hb.symm hi.symm).trans (Cfg.idx_rowAddr hq hk))

omit [NeZero R] [NeZero N] in
/-- Who writes the data array. -/
theorem dataWrite_cases {x : DataWrite n} (h : s.pipe.dataWrite g.params (s.pipeIn g i) = some x) :
    (s.pipe.s3.valid = true ∧ x.addr = s.pipe.s3.addr ∧ x.way_en = s.pipe.s3.way) ∨
      ∃ j, (s.mshrs.mshrs j).state = .s_commit_line ∧
        g.params.idx x.addr = (s.mshrs.mshrs j).req_idx g.params ∧
        x.way_en = (s.mshrs.mshrs j).req.data.way_en := by
  unfold DCache.State.dataWrite at h
  split_ifs at h with hv
  · obtain rfl := Option.some.inj h
    exact .inl ⟨hv, rfl, rfl⟩
  · have htaken : Priority.taken (s.mshrs.refills g.toCfg (s.asked g i)) true = some x := h
    obtain ⟨j, hj⟩ := Priority.exists_given htaken
    have hx := (Priority.given_eq_some.1 hj).2.2
    unfold Misses.File.refills Mshr.refill at hx
    split_ifs at hx with hst
    obtain rfl := Option.some.inj hx
    refine .inr ⟨j, of_decide_eq_true (Bool.and_eq_true_iff.1 hst).1, ?_, rfl⟩
    change (_ * g.params.blockBytes + _) / g.params.blockBytes % _ = _
    rw [Cfg.block_row (Fin.isLt _)]
    rfl

/-! ## Stores of the LSU -/

/-- No store of the LSU is on its way to the set of a probe that goes on, nor to the way that
    an MSHR gives up. -/
structure Stored (g : Cfg B) (s : Cache T n S R B N K M) : Prop where
  type : s.pipe.s3.valid = true → s.s3_type = .t_lsu ∨ s.s3_type = .t_replay
  probe : s.pipe.s3.valid = true → s.s3_type = .t_lsu → s.prober.holds = true →
    g.params.idx s.pipe.s3.addr ≠ s.prober.req_idx g
  victim : s.pipe.s3.valid = true → s.s3_type = .t_lsu → ∀ j,
    (s.mshrs.mshrs j).state = .s_wb_resp →
    (s.mshrs.mshrs j).req_idx g.params = g.params.idx s.pipe.s3.addr →
    ∀ way, s.pipe.s3.way way = true → (s.mshrs.mshrs j).req.data.way_en way = false

theorem of_s3_valid (h : (s.next g i).pipe.s3.valid = true) :
    s.pipe.s2.valid 0 = true ∧ s.pipe.s2_hit g.client.toRocket (s.pipeIn g i) 0 = true ∧
      (s.pipe.s2.req 0).uop.mem_cmd.isWrite = true ∧
      (s.pipe.s2.send_resp_or_nack 0 = true →
        s.pipe.s2_nack g.params g.client.toRocket (s.pipeIn g i) 0 = false) := by
  have h : s.pipe.s3_valid_next g.params g.client.toRocket (s.pipeIn g i) = true := h
  simp only [DCache.State.s3_valid_next, DCache.State.s2_send_nack, Bool.and_eq_true,
    Bool.not_eq_true'] at h
  obtain ⟨⟨⟨⟨hv, hh⟩, hw⟩, -⟩, hn⟩ := h
  refine ⟨hv, hh, hw, fun hs => ?_⟩
  rw [hs, Bool.true_and, Bool.and_self] at hn
  exact hn

omit [NeZero R] [NeZero N] in
/-- A store of the LSU that goes on is nacked for nothing. -/
theorem of_not_nack (ht : s.pipe.s2.type = .t_lsu)
    (h : s.pipe.s2_nack g.params g.client.toRocket (s.pipeIn g i) 0 = false) :
    s.pipe.s2_nack_hit 0 = false ∧
      s.pipe.s2_nack_victim g.client.toRocket (s.pipeIn g i) 0 = false := by
  unfold DCache.State.s2_nack at h
  rw [ht] at h
  simp only [ne_eq, reduceCtorEq, not_false_eq_true, decide_true, Bool.and_true,
    Bool.or_eq_false_iff] at h
  exact ⟨h.1.1.1.2, h.1.1.2⟩

omit [NeZero R] [NeZero N] in
/-- A hit of the way of an MSHR of its set is nacked. -/
theorem nack_victim_of_way (hf : s.Fresh g) (hw : s.Ways g) (hv : s.pipe.s2.valid 0 = true)
    (ht : s.pipe.s2.type = .t_lsu) (hh : s.pipe.s2_hit g.client.toRocket (s.pipeIn g i) 0 = true)
    (hj : (s.mshrs.mshrs j).way_valid = true) (hvj : (s.mshrs.mshrs j).valid = true)
    (hidx : (s.mshrs.mshrs j).req_idx g.params = g.params.idx (s.pipe.s2.req 0).addr) {way : Fin n}
    (hway : s.pipe.s2_tag_match_way 0 way = true)
    (hjw : (s.mshrs.mshrs j).req.data.way_en way = true) :
    s.pipe.s2_nack_victim g.client.toRocket (s.pipeIn g i) 0 = true := by
  have hmatch : s.mshrs.idx_match g.toCfg (s.looked i) 0 = true :=
    Misses.File.idx_match_iff.2 ⟨j, hvj, hidx⟩
  -- a hit is not of the line of the MSHR
  have hother : s.mshrs.tag_match g.toCfg (s.looked i) 0 = false := by
    have hb : s.mshrs.block_hit g.toCfg (s.looked i) 0 = false := by
      unfold DCache.State.s2_hit at hh
      rw [ht] at hh
      simp only [reduceCtorEq, decide_false, Bool.or_false, Bool.and_eq_true,
        Bool.not_eq_true'] at hh
      exact hh.2
    unfold Misses.File.block_hit at hb
    rwa [hmatch, Bool.true_and] at hb
  have hsame : s.mshrs.way_match g.toCfg (s.looked i) 0 = true := by
    have htag : s.pipe.s2_tag_match 0 = true := tag_match_iff.2 ⟨way, hway⟩
    have hen : ((s.looked i).req 0).data.way_en = s.pipe.s2_tag_match_way 0 := if_pos htag
    obtain ⟨a, ha⟩ := hw.one j hvj
    obtain rfl := (ha way).1 hjw
    refine List.any_eq_true.2 ⟨j, List.mem_finRange j, Bool.and_eq_true_iff.2 ⟨?_, ?_⟩⟩
    · exact Bool.and_eq_true_iff.2 ⟨hvj, decide_eq_true hidx⟩
    · refine Bool.and_eq_true_iff.2 ⟨hj, List.all_eq_true.2 fun way' _ => ?_⟩
      rw [hen, beq_iff_eq, Bool.eq_iff_iff, ha way']
      constructor
      · rintro rfl
        exact hway
      · exact fun h => hf.most 0 hv (.inl ht) way' way h hway
  have hmiss : (s.pipeIn g i).secondary_miss 0 = true := by
    change s.mshrs.secondary_miss g.toCfg (s.looked i) 0 = true
    rw [Misses.File.secondary_miss, hmatch, hsame, hother]
    rfl
  rw [DCache.State.s2_nack_victim, hv, hh, hmiss]
  rfl

theorem Stored.next (ht : Typed g s.pipe.s2) (hpr : s.Probing g) (hf : s.Fresh g) (hw : s.Ways g) :
    (s.next g i).Stored g := by
  refine ⟨fun hv => ?_, fun hv hty hh => ?_, fun hv hty j hj hidx way hway => ?_⟩
  · obtain ⟨h2, -, hwr, -⟩ := of_s3_valid hv
    exact ht.write 0 h2 hwr
  · obtain ⟨h2, -, -, hn⟩ := of_s3_valid hv
    have hty : s.pipe.s2.type = .t_lsu := hty
    obtain ⟨hno, -⟩ := of_not_nack hty (hn (ht.send 0 h2 hty))
    obtain ⟨h1, h3⟩ : s.prober.state ≠ .s_invalid ∧ s.prober.state ≠ .s_meta_read := by
      rcases Prober.of_holds_next (g := g) (i := s.proberIn g i) hh with ⟨hold, -⟩ | ⟨hs, -⟩
      · exact ⟨(Prober.ne_of_holds hold).1, (Prober.ne_of_holds hold).2.1⟩
      · simp [hs]
    have hreq : (s.next g i).prober.req = s.prober.req := Prober.req_next h1
    intro hidx
    rw [Prober.req_idx, hreq] at hidx
    have hnack := hpr.nacked h1 h3 0 hidx
    rw [hno] at hnack
    cases hnack
  · obtain ⟨h2, hh, -, hn⟩ := of_s3_valid hv
    have hty : s.pipe.s2.type = .t_lsu := hty
    obtain ⟨-, hno⟩ := of_not_nack hty (hn (ht.send 0 h2 hty))
    have hst : (s.mshrs.mshrs j).state = .s_wb_req ∨ (s.mshrs.mshrs j).state = .s_wb_resp :=
      (of_wb_resp_next (show (s.mshrs.mshrs j).state_next g.params g.client
        (s.mshrs.mshrIn g.toCfg (s.fileIn g i) j) = .s_wb_resp from hj)).imp And.left And.left
    have hkeep : (s.mshrs.mshrs j).handles g.client (s.mshrs.mshrIn g.toCfg (s.fileIn g i) j) =
        false := by
      rcases hst with hst | hst <;> exact not_handles (by simp [hst]) (by simp [hst])
    have hd : ((s.next g i).mshrs.mshrs j).req.data = (s.mshrs.mshrs j).req.data :=
      Mshr.addr_req_next hkeep
    rw [Mshr.req_idx, hd] at hidx
    rw [hd, Bool.eq_false_iff]
    intro hjw
    have hvic := nack_victim_of_way (i := i) hf hw h2 hty hh
      (by rcases hst with hst | hst <;> simp [Mshr.way_valid, hst])
      (by rcases hst with hst | hst <;> simp [Mshr.valid, hst]) hidx hway hjw
    rw [hno] at hvic
    cases hvic

theorem stored_of_reach (h : (dcache g).Reach s) : s.Stored g := by
  induction h with
  | start h0 =>
    refine ⟨fun hv => ?_, fun hv => ?_, fun hv => ?_⟩ <;>
      · rw [h0.s3] at hv
        cases hv
  | step hr _ _ =>
    obtain ⟨hw, hf, -⟩ := lines_of_reach hr
    exact Stored.next (typed_of_reach hr).2 (probing_of_reach hr) hf hw

/-! ## While the line is read -/

/-- The unit has the line of an MSHR or of the probe unit. -/
theorem filling_for (h : (dcache g).Reach s) (hf : s.wb.state = .s_fill_buffer) :
    (∃ l, (s.mshrs.mshrs l).state = .s_wb_resp ∧ s.wb.req = victim g (s.mshrs.mshrs l) l) ∨
      (s.prober.state = .s_writeback_resp ∧ s.wb.req = s.prober.wb_bits g) := by
  have hs := serving_of_reach h
  have hb : s.wb.state ≠ .s_invalid := by simp [hf]
  cases hv : s.wb.req.voluntary with
  | true =>
    obtain ⟨l, hl⟩ := hs.evict hf hv
    exact .inl ⟨l, hl, (hs.mshr l hl).2⟩
  | false =>
    have hp := hs.probe hb hv
    exact .inr ⟨hp, hs.resp hp hb⟩

theorem req_idx_lt (h : (dcache g).Reach s) (hf : s.wb.state = .s_fill_buffer) :
    s.wb.req.idx < g.params.nSets := by
  rcases filling_for h hf with ⟨l, -, hq⟩ | ⟨-, hq⟩ <;> rw [hq] <;> exact g.idx_lt _

/-- **Nothing is written to the line** while its rows are read. -/
theorem apart_of_filling (h : (dcache g).Reach s) (hf : s.wb.state = .s_fill_buffer) {x : DataWrite n}
    (hx : s.pipe.dataWrite g.params (s.pipeIn g i) = some x) {way : Fin n}
    (hw : s.wb.req.way_en way = true) (hxw : x.way_en way = true) :
    g.params.idx x.addr ≠ s.wb.req.idx := by
  have hst := stored_of_reach h
  intro hidx
  rcases filling_for h hf with ⟨l, hl, hq⟩ | ⟨hp, hq⟩
  · -- an MSHR that waits has the set for itself
    have hvl : (s.mshrs.mshrs l).valid = true := by simp [Mshr.valid, hl]
    have hlw : (s.mshrs.mshrs l).req.data.way_en way = true := by
      rw [hq] at hw
      exact hw
    have hlidx : (s.mshrs.mshrs l).req_idx g.params = g.params.idx x.addr := by
      rw [hidx, hq]
      rfl
    have halone : ∀ j, (s.mshrs.mshrs j).valid = true →
        (s.mshrs.mshrs j).req_idx g.params = g.params.idx x.addr → j = l := fun j hj he =>
      (file_of_reach h).apart j l hj hvl (he.trans hlidx.symm)
    rcases dataWrite_cases hx with ⟨hv, haddr, hway⟩ | ⟨j, hj, hji, -⟩
    · rw [haddr] at hlidx halone
      rw [hway] at hxw
      rcases hst.type hv with hty | hty
      · have hno := hst.victim hv hty l hl hlidx way hxw
        rw [hlw] at hno
        cases hno
      · obtain ⟨j, hj, hset⟩ := (replaying_of_reach h).s3 hv hty
        obtain rfl := halone j (by rcases hj with hj | hj | ⟨hj, -⟩ <;> simp [Mshr.valid, hj]) hset.idx
        simp [hl] at hj
    · obtain rfl := halone j (by simp [Mshr.valid, hj]) hji.symm
      simp [hl] at hj
  · have hh : s.prober.holds = true := by simp [Prober.holds, hp]
    have ho : s.prober.owes = true := by simp [Prober.owes, hp]
    have hpidx : g.params.idx x.addr = s.prober.req_idx g := by
      rw [hidx, hq]
      rfl
    have hpw : s.prober.way_en way = true := by
      rw [hq] at hw
      exact hw
    have hsafe := safe_of_reach h hh
    rcases dataWrite_cases hx with ⟨hv, haddr, hway⟩ | ⟨j, hj, hji, -⟩
    · rw [haddr] at hpidx
      rw [hway] at hxw
      rcases hst.type hv with hty | hty
      · exact hst.probe hv hty hh hpidx
      · -- a replay is of another line, in another way
        obtain ⟨j, hj, hset⟩ := (replaying_of_reach h).s3 hv hty
        have hjidx := hset.idx.trans hpidx
        rcases hsafe j hjidx with hc | ⟨hu, hne⟩
        · cases hc <;> simp_all
        · obtain ⟨hways, -, hprobed⟩ := lines_of_reach h
          have hvj : (s.mshrs.mshrs j).valid = true := by
            rcases hj with hj | hj | ⟨hj, -⟩ <;> simp [Mshr.valid, hj]
          have hjw : (s.mshrs.mshrs j).req.data.way_en way = true := by
            rw [hset.way_en]
            exact hxw
          have hjtag := hways.own j hvj hu.1 way hjw
          have hptag := hprobed.tag (Prober.held_of_owes hh ho) way hpw
          rw [hjidx] at hjtag
          exact hne ho (Mshr.block_eq hjidx (hjtag.symm.trans hptag))
    · rcases hsafe j (hji.symm.trans hpidx) with hc | ⟨⟨-, hu⟩, -⟩
      · cases hc <;> simp_all
      · rcases hu with hu | hu | ⟨hu, -⟩ <;> simp [hj] at hu

/-- What the buffer has: the rows that came are those of the line, and so are those that are
    on their way. -/
structure Filling (g : Cfg B) (s : Cache T n S R B N K M) : Prop where
  idle : s.wb.state ≠ .s_fill_buffer →
    s.wb.r1_data_req_fired = false ∧ s.wb.r2_data_req_fired = false
  most : s.wb.state = .s_fill_buffer → s.wb.data_req_cnt ≤ B
  r1 : s.wb.state = .s_fill_buffer → s.wb.r1_data_req_fired = true →
    s.wb.r1_data_req_cnt + 1 = s.wb.data_req_cnt ∧ s.pipe.s1.type = .t_wb ∧
      s.pipe.s1_way_en = s.wb.req.way_en ∧
      ∀ way, s.wb.req.way_en way = true → ∀ a rd,
        (DataRegs.next g.params a rd s.pipe.data_regs).resp g.params 0 way =
          s.lineRow g s.wb.req s.wb.r1_data_req_cnt way
  r2 : s.wb.state = .s_fill_buffer → s.wb.r2_data_req_fired = true →
    s.wb.r2_data_req_cnt + 1 + s.wb.r1_data_req_fired.toNat = s.wb.data_req_cnt ∧
      s.pipe.s2_tag_match_way 0 = s.wb.req.way_en ∧
      ∀ way, s.wb.req.way_en way = true →
        s.pipe.data_regs.resp g.params 0 way = s.lineRow g s.wb.req s.wb.r2_data_req_cnt way
  rows : s.wb.state = .s_fill_buffer → ∀ k,
    k + s.wb.r1_data_req_fired.toNat + s.wb.r2_data_req_fired.toNat < s.wb.data_req_cnt →
      ∀ w, s.wb.wb_buffer k w = mux1H s.wb.req.way_en fun way => s.lineRow g s.wb.req k way w

/-- The rows that have come at the end of the cycle. -/
theorem Filling.rows_next (h : s.Filling g) (hf : s.wb.state = .s_fill_buffer) {k : ℕ}
    (hk : k + s.wb.r1_data_req_fired.toNat < s.wb.data_req_cnt) (w : ℕ) :
    (s.next g i).wb.wb_buffer k w = mux1H s.wb.req.way_en fun way => s.lineRow g s.wb.req k way w := by
  have hbuf : (s.next g i).wb.wb_buffer =
      if s.wb.state = .s_fill_buffer && s.wb.r2_data_req_fired then
        Function.update s.wb.wb_buffer s.wb.r2_data_req_cnt (s.wbIn g i).data_resp
      else s.wb.wb_buffer := rfl
  rw [hbuf, hf]
  cases h2 : s.wb.r2_data_req_fired with
  | false =>
    refine h.rows hf k ?_ w
    simpa [h2] using hk
  | true =>
    obtain ⟨hcnt, hway, hresp⟩ := h.r2 hf h2
    by_cases hlast : k = s.wb.r2_data_req_cnt
    · subst hlast
      simp only [decide_true, Bool.and_self, if_true, Function.update_self]
      change mux1H (s.pipe.s2_tag_match_way 0) (fun way => s.pipe.data_regs.resp g.params 0 way w) = _
      rw [hway]
      exact DCache.State.mux1H_congr (fun _ => rfl) fun way hen => congrFun (hresp way hen) w
    · simp only [decide_true, Bool.and_self, if_true, Function.update_of_ne hlast]
      refine h.rows hf k ?_ w
      rw [h2, Bool.toNat_true]
      omega

/-- The read of a row. -/
theorem resp_of_data_fires (hfire : s.wb.data_fires (s.wbIn g i) B = true) {way : Fin n}
    (hway : s.wb.req.way_en way = true) (a : DCache.DataArray n)
    (rd : Fin (M + 1) → Option (DataRead n)) :
    (DataRegs.next g.params a rd (s.next g i).pipe.data_regs).resp g.params 0 way =
      s.lineRow g s.wb.req s.wb.data_req_cnt way := by
  have hg : s.grant g i = some .t_wb := grant_wb.2 hfire
  have hg' : (s.pipeIn g i).grant = some .t_wb := hg
  have hread : DCache.State.s0_data_read (s.pipeIn g i) 0 =
      some ⟨g.rowAddr s.wb.req s.wb.data_req_cnt, s.way_en g i⟩ := by
    have hreq : (s.pipeIn g i).s0_req 0 = nullReq (s.wb.read_addr g) := by
      change s.s0_req g i 0 = _
      rw [s0_req, hg]
    rw [DCache.State.s0_data_read, hg', if_pos rfl, hreq]
    rfl
  have hen : s.way_en g i way = true := by
    rw [way_en, hg]
    exact hway
  refine DataRegs.resp_of_not_nack hread (fun v p hp => ?_) DataRegs.nack_zero
  simp only [DCache.State.s0_data_read, hg', Option.ite_none_right_eq_some, Option.some.injEq] at hp
  rw [← hp.2]
  exact hen

/-- The unit after a cycle in which it goes on reading. -/
theorem of_fill_next (hn : (s.next g i).wb.state = .s_fill_buffer) :
    (s.wb.state = .s_invalid ∧ (s.next g i).wb.data_req_cnt = 0) ∨
      (s.wb.state = .s_fill_buffer ∧ (s.next g i).wb.data_req_cnt =
        s.wb.data_req_cnt + (s.wb.data_fires (s.wbIn g i) B).toNat) := by
  have hst : (s.next g i).wb.state = s.wb.state_next (s.wbIn g i) B := rfl
  have hcnt : (s.next g i).wb.data_req_cnt = s.wb.data_req_cnt_next (s.wbIn g i) B := rfl
  rw [hst] at hn
  rw [hcnt]
  cases hs : s.wb.state with
  | s_invalid =>
    left
    refine ⟨rfl, ?_⟩
    cases hq : (s.wbIn g i).req <;> simp [Wb.state_next, Wb.data_req_cnt_next, hs, hq] at hn ⊢
  | s_fill_buffer =>
    right
    refine ⟨rfl, ?_⟩
    cases hr : s.wb.resp B <;> cases hfire : s.wb.data_fires (s.wbIn g i) B <;>
      simp [Wb.state_next, Wb.data_req_cnt_next, hs, hr, hfire] at hn ⊢
  | _ =>
    exfalso
    simp only [Wb.state_next, hs] at hn
    split_ifs at hn

omit [NeZero S] [NeZero B] [NeZero R] [NeZero N] in
/-- When the last row comes, no other is on its way. -/
theorem Filling.done (h : s.Filling g) (hr : s.wb.resp B = true) :
    s.wb.state = .s_fill_buffer ∧ s.wb.r1_data_req_fired = false ∧ s.wb.data_req_cnt = B := by
  unfold Wb.resp at hr
  simp only [Bool.and_eq_true, decide_eq_true_eq] at hr
  obtain ⟨⟨hf, h2⟩, hlast⟩ := hr
  obtain ⟨hcnt, -⟩ := h.r2 hf h2
  have hmost := h.most hf
  have hB := g.beats
  refine ⟨hf, ?_, by omega⟩
  cases h1 : s.wb.r1_data_req_fired with
  | false => rfl
  | true =>
    rw [h1, Bool.toNat_true] at hcnt
    omega

theorem Filling.next (hs : (dcache g).Reach s) (h : s.Filling g) : (s.next g i).Filling g := by
  have h1 : (s.next g i).wb.r1_data_req_fired =
      if s.wb.state = .s_fill_buffer then s.wb.data_fires (s.wbIn g i) B
      else s.wb.r1_data_req_fired := rfl
  have h2 : (s.next g i).wb.r2_data_req_fired =
      if s.wb.state = .s_fill_buffer then s.wb.r1_data_req_fired else s.wb.r2_data_req_fired := rfl
  have hreq : s.wb.state = .s_fill_buffer → (s.next g i).wb.req = s.wb.req := fun hf =>
    wb_of_busy (by simp [hf])
  have hrow : s.wb.state = .s_fill_buffer → ∀ k, k < B → ∀ way, s.wb.req.way_en way = true →
      (s.next g i).lineRow g s.wb.req k way = s.lineRow g s.wb.req k way := fun hf k hk way hw =>
    lineRow_next (req_idx_lt hs hf) hk fun x hx hxw => apart_of_filling hs hf hx hw hxw
  -- a unit that begins has nothing on its way
  have hbegin : s.wb.state = .s_invalid → (s.next g i).wb.r1_data_req_fired = false ∧
      (s.next g i).wb.r2_data_req_fired = false := by
    intro hi
    have hne : s.wb.state ≠ .s_fill_buffer := by simp [hi]
    rw [h1, h2, if_neg hne, if_neg hne]
    exact h.idle hne
  refine ⟨fun hn => ?_, fun hn => ?_, fun hn hfired => ?_, fun hn hfired => ?_, fun hn k hk w => ?_⟩
  · by_cases hf : s.wb.state = .s_fill_buffer
    · have hr : s.wb.resp B = true := by
        by_contra hr
        refine hn ?_
        change s.wb.state_next (s.wbIn g i) B = _
        simp [Wb.state_next, hf, hr]
      obtain ⟨-, hno, hcnt⟩ := h.done hr
      rw [h1, h2, if_pos hf, if_pos hf, hno]
      refine ⟨?_, rfl⟩
      unfold Wb.data_fires Wb.reads
      simp [hcnt]
    · rw [h1, h2, if_neg hf, if_neg hf]
      exact h.idle hf
  · rcases of_fill_next hn with ⟨-, hcnt⟩ | ⟨hf, hcnt⟩
    · rw [hcnt]
      exact Nat.zero_le B
    · rw [hcnt]
      have hmost := h.most hf
      cases hfire : s.wb.data_fires (s.wbIn g i) B with
      | false => exact hmost
      | true =>
        unfold Wb.data_fires Wb.reads at hfire
        simp only [Bool.and_eq_true, decide_eq_true_eq] at hfire
        exact hfire.1.1.2
  · rcases of_fill_next hn with ⟨hi, -⟩ | ⟨hf, hcnt⟩
    · rw [(hbegin hi).1] at hfired
      cases hfired
    · rw [h1, if_pos hf] at hfired
      have hg : s.grant g i = some .t_wb := grant_wb.2 hfired
      have hlt : s.wb.data_req_cnt < B := by
        have hfired := hfired
        unfold Wb.data_fires Wb.reads at hfired
        simp only [Bool.and_eq_true, decide_eq_true_eq] at hfired
        exact hfired.1.1.2
      have hc1 : (s.next g i).wb.r1_data_req_cnt = s.wb.data_req_cnt := by
        change (if s.wb.state = .s_fill_buffer then
          if s.wb.data_fires (s.wbIn g i) B then s.wb.data_req_cnt else 0 else _) = _
        rw [if_pos hf, if_pos hfired]
      rw [hc1, hcnt, hfired, hreq hf]
      refine ⟨rfl, ?_, ?_, fun way hway a rd => ?_⟩
      · change (s.grant g i).getD .t_replay = _
        rw [hg]
        rfl
      · change s.way_en g i = _
        funext way
        rw [way_en, hg]
      · rw [hrow hf _ hlt way hway]
        exact resp_of_data_fires hfired hway a rd
  · rcases of_fill_next hn with ⟨hi, -⟩ | ⟨hf, hcnt⟩
    · rw [(hbegin hi).2] at hfired
      cases hfired
    · rw [h2, if_pos hf] at hfired
      obtain ⟨hc, hty, hway, hresp⟩ := h.r1 hf hfired
      have hc2 : (s.next g i).wb.r2_data_req_cnt = s.wb.r1_data_req_cnt := if_pos hf
      have hmost := h.most hf
      rw [hc2, h1, if_pos hf, hcnt, hreq hf, ← hc]
      refine ⟨rfl, ?_, fun way hen => ?_⟩
      · rw [← hway]
        change s.pipe.s1_tag_match_way g.params g.client.toRocket 0 = _
        funext way
        rw [DCache.State.s1_tag_match_way, hty]
      · rw [hrow hf _ (by omega) way hen]
        exact hresp way hen _ _
  · rcases of_fill_next hn with ⟨-, hcnt⟩ | ⟨hf, hcnt⟩
    · rw [hcnt] at hk
      exact absurd hk (Nat.not_lt_zero _)
    · rw [hcnt, h1, h2, if_pos hf, if_pos hf] at hk
      have hk : k + s.wb.r1_data_req_fired.toNat < s.wb.data_req_cnt := by omega
      have hmost := h.most hf
      rw [h.rows_next hf hk, hreq hf]
      refine DCache.State.mux1H_congr (fun _ => rfl) fun way hen => ?_
      rw [hrow hf k (by omega) way hen]

theorem filling_of_reach (h : (dcache g).Reach s) : s.Filling g := by
  induction h with
  | @start s h0 =>
    have hne : s.wb.state ≠ .s_fill_buffer := by simp [h0.wb]
    exact ⟨fun _ => ⟨h0.r1_data_req_fired, h0.r2_data_req_fired⟩, fun hf => absurd hf hne,
      fun hf => absurd hf hne, fun hf => absurd hf hne, fun hf => absurd hf hne⟩
  | step hr _ ih => exact ih.next hr

/-! ## The result -/

theorem decided_of_reach (h : (dcache g).Reach s) : s.prober.Decided g := by
  induction h with
  | @start s h0 =>
    have h0 : s.prober.state = .s_invalid := h0.prober
    exact ⟨fun hs => by simp [h0] at hs, fun hs => by simp [h0] at hs, fun hs => by simp [h0] at hs⟩
  | step _ _ ih => exact ih.next

/-- The line has one way. -/
theorem one_way_of_filling (h : (dcache g).Reach s) (hf : s.wb.state = .s_fill_buffer) :
    ∃ way, ∀ way', s.wb.req.way_en way' = true ↔ way' = way := by
  obtain ⟨hways, -, hprobed⟩ := lines_of_reach h
  rcases filling_for h hf with ⟨l, hl, hq⟩ | ⟨hp, hq⟩
  · rw [hq]
    exact hways.one l (by simp [Mshr.valid, hl])
  · rw [hq]
    obtain ⟨way, -, hway⟩ := List.any_eq_true.1
      (Bool.and_eq_true_iff.1 ((decided_of_reach h).dirty (.inr hp))).1
    refine ⟨way, fun way' => ⟨fun h' => ?_, ?_⟩⟩
    · exact hprobed.most (by simp [Prober.held, Prober.holds, hp]) way' way h' hway
    · rintro rfl
      exact hway

/-- **What is written back is the line**: when the writeback unit has read its last row, its
    buffer has each row as the array has it, in the way of the line, and no store is on its way
    there. -/
theorem release_data (h : (dcache g).Reach s) (hr : s.wb.resp B = true) :
    ∃ way, (∀ way', s.wb.req.way_en way' = true ↔ way' = way) ∧
      (∀ k < B, (s.next g i).wb.wb_buffer k = s.pipe.data way (g.params.bank (g.rowAddr s.wb.req k))
        (g.params.bankIdx (g.rowAddr s.wb.req k))) ∧
      (s.pipe.s3.valid = true → s.pipe.s3.way way = true →
        g.params.idx s.pipe.s3.addr ≠ s.wb.req.idx) := by
  have hfill := filling_of_reach h
  obtain ⟨hf, hno, hcnt⟩ := hfill.done hr
  obtain ⟨way, hone⟩ := one_way_of_filling h hf
  have hway := (hone way).2 rfl
  refine ⟨way, hone, fun k hk => ?_, fun hv hs => ?_⟩
  · funext w
    rw [hfill.rows_next hf (by rw [hno, hcnt]; exact hk), mux1H_eq _ hway fun way' => (hone way').1]
    rfl
  · have hx : s.pipe.dataWrite g.params (s.pipeIn g i) =
        some ⟨s.pipe.s3.addr, s.pipe.s3.way, fun k => k = g.params.wordIdx s.pipe.s3.addr,
          fun _ => s.pipe.s3.data⟩ := if_pos hv
    exact apart_of_filling h hf hx hway hs

end Cache

/-- The dirty line is read for MSHR 0. -/
theorem release_data_missed : ∃ way, (∀ way', (Small.missed 10).wb.req.way_en way' = true ↔ way' = way) ∧
    (∀ k < 2, ((Small.missed 10).next Small.cfg Small.quiet).wb.wb_buffer k =
      (Small.missed 10).pipe.data way
        (Small.cfg.params.bank (Small.cfg.rowAddr (Small.missed 10).wb.req k))
        (Small.cfg.params.bankIdx (Small.cfg.rowAddr (Small.missed 10).wb.req k))) ∧
    ((Small.missed 10).pipe.s3.valid = true → (Small.missed 10).pipe.s3.way way = true →
      Small.cfg.params.idx (Small.missed 10).pipe.s3.addr ≠ (Small.missed 10).wb.req.idx) :=
  Cache.release_data (Small.reach_missed 10) (by decide +kernel)

end BoomStop.Coherence
