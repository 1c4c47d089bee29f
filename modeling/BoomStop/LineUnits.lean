/-
  The units of the data cache that give lines up (`dcache.scala`): the writeback
  unit (`BoomWritebackUnit`) reads a line row by row into its buffer, tells the LSU
  and sends the line; the probe unit (`BoomProbeUnit`) reads the metadata of a line
  that memory asks for, answers by itself if the line is clean, or has it written
  back, and takes the permission away.

  * `Wb.next`, `Prober.next`: one cycle, with the outputs;
  * `Prober.owes`, `Prober.holds`: how far a probe is.
-/
import BoomStop.MshrFile

namespace BoomStop.Coherence

open DCache (Meta Params Row)
open Misses (MetaWrite WritebackReq)

variable {n B : ℕ}

/-- What the cache is made for, with `B` rows in a line, more than one. -/
structure Cfg (B : ℕ) extends Misses.Cfg where
  /-- `ClientMetadata.onProbe`: the line is dirty, what is reported, the state -/
  onProbe : BitVec 2 → ℕ → Bool × ℕ × BitVec 2
  blockBytes : params.blockBytes = B * (8 * params.rowWords)
  /-- the banks hold all lines -/
  rows : params.numDCacheBanks * params.bankSize = params.nSets * B
  beats : 1 < B
  rowWords : 0 < params.rowWords
  nSets : 0 < params.nSets

/-- A probe, `TLBundleB`. -/
structure Probe where
  source : ℕ
  address : ℕ
  param : ℕ
  deriving DecidableEq

/-- A message of channel C: the answer to a probe without and with data, and a release. -/
inductive Release
  | probeAck (source addr : ℕ) (reportPermissions : ℕ)
  | probeAckData (source addr : ℕ) (reportPermissions : ℕ) (data : Row)
  | releaseData (source addr : ℕ) (shrinkPermissions : ℕ) (data : Row)

/-! ## The writeback unit -/

/-- The states of `BoomWritebackUnit`. -/
inductive WbState
  | s_invalid | s_fill_buffer | s_lsu_release | s_active | s_grant
  deriving DecidableEq

/-- The registers of `BoomWritebackUnit`. -/
structure Wb (n : ℕ) where
  state : WbState
  req : WritebackReq n
  r1_data_req_fired : Bool
  r2_data_req_fired : Bool
  r1_data_req_cnt : ℕ
  r2_data_req_cnt : ℕ
  data_req_cnt : ℕ
  wb_buffer : ℕ → Row
  acked : Bool

/-- The inputs of a cycle; `id` is the source of its messages. -/
structure WbIn (n : ℕ) where
  id : ℕ
  req : Option (WritebackReq n)
  meta_read_ready : Bool
  data_req_ready : Bool
  data_resp : Row
  mem_grant : Bool
  release_ready : Bool
  lsu_release_ready : Bool

namespace Wb

variable (g : Cfg B) (s : Wb n) (i : WbIn n)

/-- `io.req.ready` -/
def req_ready : Bool := s.state = .s_invalid

/-- `io.idx` -/
def idx : Option ℕ := if s.state = .s_invalid then none else some s.req.idx

/-- The address of the line. -/
def r_address : ℕ := (s.req.tag * g.params.nSets + s.req.idx) * g.params.blockBytes

/-- `io.meta_read.valid` and `io.data_req.valid` -/
def reads (B : ℕ) : Bool := s.state = .s_fill_buffer && s.data_req_cnt < B

/-- `io.data_req`: the address in the set, -/
def data_req_addr : ℕ := (s.req.idx * B + s.data_req_cnt) * (8 * g.params.rowWords)

/-- and `wb_req(0).addr`, with the tag. -/
def read_addr : ℕ :=
  s.req.tag * (g.params.nSets * g.params.blockBytes) + s.data_req_addr g

/-- A row is asked for. -/
def data_fires (B : ℕ) : Bool := s.reads B && i.data_req_ready && i.meta_read_ready

/-- The last row comes in. -/
def resp (B : ℕ) : Bool := s.state = .s_fill_buffer && s.r2_data_req_fired && s.r2_data_req_cnt = B - 1

/-- The answer to a probe, with a row of the line. -/
def probeResponse : Release :=
  .probeAckData i.id (s.r_address g) s.req.param (s.wb_buffer s.data_req_cnt)

/-- The release of a line that is given up, with a row of it. -/
def voluntaryRelease : Release :=
  .releaseData i.id (s.r_address g) s.req.param (s.wb_buffer s.data_req_cnt)

/-- `io.lsu_release` -/
def lsu_release : Option Release :=
  if s.state = .s_lsu_release then some (s.probeResponse g i) else none

/-- `io.release` -/
def release : Option Release :=
  if s.state = .s_active && s.data_req_cnt < B then
    some (if s.req.voluntary then s.voluntaryRelease g i else s.probeResponse g i)
  else none

/-- `io.release.fire()` -/
def release_fires (B : ℕ) : Bool := (s.state = .s_active && s.data_req_cnt < B) && i.release_ready

/-- The last row is sent. -/
def all_sent (B : ℕ) : Bool := s.release_fires i B && s.data_req_cnt = B - 1

/-- `state`, in the next cycle. -/
def state_next (B : ℕ) : WbState :=
  match s.state with
  | .s_invalid => if i.req.isSome then .s_fill_buffer else .s_invalid
  | .s_fill_buffer => if s.resp B then .s_lsu_release else .s_fill_buffer
  | .s_lsu_release => if i.lsu_release_ready then .s_active else .s_lsu_release
  | .s_active =>
    if s.all_sent i B then if s.req.voluntary then .s_grant else .s_invalid else .s_active
  | .s_grant => if s.acked then .s_invalid else .s_grant

/-- `data_req_cnt`, in the next cycle: rows asked for, then rows sent. -/
def data_req_cnt_next (B : ℕ) : ℕ :=
  match s.state with
  | .s_invalid => if i.req.isSome then 0 else s.data_req_cnt
  | .s_fill_buffer =>
    if s.resp B then 0
    else if s.data_fires i B then s.data_req_cnt + 1
    else s.data_req_cnt
  | .s_active => if s.release_fires i B then s.data_req_cnt + 1 else s.data_req_cnt
  | _ => s.data_req_cnt

/-- One cycle. -/
def next (B : ℕ) : Wb n where
  state := s.state_next i B
  req := if s.state = .s_invalid then i.req.getD s.req else s.req
  r1_data_req_fired :=
    if s.state = .s_fill_buffer then s.data_fires i B else s.r1_data_req_fired
  r2_data_req_fired :=
    if s.state = .s_fill_buffer then s.r1_data_req_fired else s.r2_data_req_fired
  r1_data_req_cnt :=
    if s.state = .s_fill_buffer then if s.data_fires i B then s.data_req_cnt else 0
    else s.r1_data_req_cnt
  r2_data_req_cnt := if s.state = .s_fill_buffer then s.r1_data_req_cnt else s.r2_data_req_cnt
  data_req_cnt := s.data_req_cnt_next i B
  wb_buffer :=
    if s.state = .s_fill_buffer && s.r2_data_req_fired then
      Function.update s.wb_buffer s.r2_data_req_cnt i.data_resp
    else s.wb_buffer
  acked :=
    match s.state with
    | .s_invalid => if i.req.isSome then false else s.acked
    | .s_active | .s_grant => i.mem_grant || s.acked
    | _ => s.acked

end Wb

/-! ## The probe unit -/

/-- The states of `BoomProbeUnit`. -/
inductive ProbeState
  | s_invalid | s_meta_read | s_meta_resp | s_mshr_req | s_mshr_resp | s_lsu_release | s_release
  | s_writeback_req | s_writeback_resp | s_meta_write | s_meta_write_resp
  deriving DecidableEq

/-- The registers of `BoomProbeUnit`. -/
structure Prober (n : ℕ) where
  state : ProbeState
  req : Probe
  way_en : Fin n → Bool
  old_coh : BitVec 2

/-- The inputs of a cycle. -/
structure ProberIn (n : ℕ) where
  req : Option Probe
  rep_ready : Bool
  meta_read_ready : Bool
  meta_write_ready : Bool
  wb_req_ready : Bool
  way_en : Fin n → Bool
  wb_rdy : Bool
  mshr_rdy : Bool
  block_state : BitVec 2
  lsu_release_ready : Bool

namespace Prober

variable (g : Cfg B) (s : Prober n) (i : ProberIn n)

/-- The set of the line that is probed. -/
def req_idx : ℕ := g.params.idx s.req.address

/-- The tag of the line that is probed. -/
def req_tag : ℕ := g.params.tag s.req.address

/-- Some way has the line. -/
def tag_matches : Bool := (List.finRange n).any s.way_en

/-- The state of the line before the probe. -/
def reply_coh : BitVec 2 := if s.tag_matches then s.old_coh else g.client.onReset

/-- The line has to be written back. -/
def is_dirty : Bool := (g.onProbe (s.reply_coh g) s.req.param).1

/-- What the answer says of the permissions. -/
def report_param : ℕ := (g.onProbe (s.reply_coh g) s.req.param).2.1

/-- The state of the line after the probe. -/
def new_coh : BitVec 2 := (g.onProbe (s.reply_coh g) s.req.param).2.2

/-- A probe is under way. -/
def busy : Bool := s.state ≠ .s_invalid

/-- The probe is not answered yet. -/
def owes : Bool := !(s.state = .s_invalid || s.state = .s_meta_write || s.state = .s_meta_write_resp)

/-- The probe has the line to itself: it found no MSHR and no writeback in its way. -/
def holds : Bool :=
  !(s.state = .s_invalid || s.state = .s_meta_read || s.state = .s_meta_resp || s.state = .s_mshr_req)

/-- It has not written the metadata yet. -/
def held : Bool := s.holds && s.state ≠ .s_meta_write_resp

/-- `io.state` -/
def io_state : Option ℕ := if s.busy then some s.req.address else none

/-- `io.req.ready` -/
def req_ready : Bool := s.state = .s_invalid

/-- `edge.ProbeAck(req, report_param)` -/
def probeAck : Release := .probeAck s.req.source s.req.address (s.report_param g)

/-- `io.rep` -/
def rep : Option Release := if s.state = .s_release then some (s.probeAck g) else none

/-- `io.meta_read.valid` -/
def reads : Bool := s.state = .s_meta_read

/-- `io.meta_write` -/
def meta_write : Option (MetaWrite n) :=
  if s.state = .s_meta_write then
    some ⟨s.req_idx g, s.way_en, ⟨s.req_tag g, s.new_coh g⟩⟩
  else none

/-- `io.wb_req.bits` -/
def wb_bits : WritebackReq n :=
  ⟨s.req_tag g, s.req_idx g, s.req.source, s.report_param g, s.way_en, false⟩

/-- `io.wb_req` -/
def wb_req : Option (WritebackReq n) :=
  if s.state = .s_writeback_req then some (s.wb_bits g) else none

/-- `io.mshr_wb_rdy`: the MSHRs may use the writeback unit. -/
def mshr_wb_rdy : Bool :=
  !(s.state = .s_release || s.state = .s_writeback_req || s.state = .s_writeback_resp ||
    s.state = .s_meta_write || s.state = .s_meta_write_resp)

/-- `io.lsu_release` -/
def lsu_release : Option Release := if s.state = .s_lsu_release then some (s.probeAck g) else none

/-- `state`, in the next cycle. -/
def state_next : ProbeState :=
  match s.state with
  | .s_invalid => if i.req.isSome then .s_meta_read else .s_invalid
  | .s_meta_read => if i.meta_read_ready then .s_meta_resp else .s_meta_read
  | .s_meta_resp => .s_mshr_req
  | .s_mshr_req => if i.mshr_rdy && i.wb_rdy then .s_mshr_resp else .s_meta_read
  | .s_mshr_resp => if s.tag_matches && s.is_dirty g then .s_writeback_req else .s_lsu_release
  | .s_lsu_release => if i.lsu_release_ready then .s_release else .s_lsu_release
  | .s_release =>
    if i.rep_ready then if s.tag_matches then .s_meta_write else .s_invalid else .s_release
  | .s_writeback_req => if i.wb_req_ready then .s_writeback_resp else .s_writeback_req
  | .s_writeback_resp => if i.wb_req_ready then .s_meta_write else .s_writeback_resp
  | .s_meta_write => if i.meta_write_ready then .s_meta_write_resp else .s_meta_write
  | .s_meta_write_resp => .s_invalid

/-- One cycle. -/
def next : Prober n where
  state := s.state_next g i
  req := if s.state = .s_invalid then i.req.getD s.req else s.req
  way_en := if s.state = .s_mshr_req then i.way_en else s.way_en
  old_coh := if s.state = .s_mshr_req then i.block_state else s.old_coh

/-! ### Where a state comes from -/

variable {g s i}

theorem of_meta_resp_next (h : s.state_next g i = .s_meta_resp) :
    s.state = .s_meta_read ∧ i.meta_read_ready = true := by
  cases hs : s.state <;> simp only [state_next, hs] at h <;> (try split_ifs at h) <;>
    first | exact ⟨rfl, by assumption⟩ | cases h

theorem of_mshr_req_next (h : s.state_next g i = .s_mshr_req) : s.state = .s_meta_resp := by
  cases hs : s.state <;> simp only [state_next, hs] at h <;> (try split_ifs at h) <;>
    first | rfl | cases h

theorem of_writeback_resp_next (h : s.state_next g i = .s_writeback_resp) :
    (s.state = .s_writeback_req ∧ i.wb_req_ready = true) ∨
      (s.state = .s_writeback_resp ∧ i.wb_req_ready = false) := by
  cases hs : s.state <;> simp only [state_next, hs] at h <;> (try split_ifs at h) <;>
    simp_all

theorem of_holds_next (h : (s.next g i).holds = true) :
    (s.holds = true ∧ s.state ≠ .s_meta_write_resp) ∨
      (s.state = .s_mshr_req ∧ i.mshr_rdy = true ∧ i.wb_rdy = true ∧
        (s.next g i).state = .s_mshr_resp) := by
  have hst : (s.next g i).state = s.state_next g i := rfl
  unfold holds at h ⊢
  rw [hst] at h ⊢
  cases hs : s.state <;> simp only [state_next, hs] at h ⊢ <;> (try split_ifs at h ⊢) <;>
    simp_all

theorem of_held_next (h : (s.next g i).held = true) :
    s.held = true ∨ (s.state = .s_mshr_req ∧ i.mshr_rdy = true ∧ i.wb_rdy = true ∧
      (s.next g i).state = .s_mshr_resp) := by
  obtain ⟨hh, -⟩ := Bool.and_eq_true_iff.1 h
  exact (of_holds_next hh).imp_left fun ⟨h1, h2⟩ => Bool.and_eq_true_iff.2 ⟨h1, decide_eq_true h2⟩

theorem held_of_owes (h : s.holds = true) (ho : s.owes = true) : s.held = true := by
  refine Bool.and_eq_true_iff.2 ⟨h, decide_eq_true fun hs => ?_⟩
  simp [owes, hs] at ho

theorem ne_of_holds (h : s.holds = true) :
    s.state ≠ .s_invalid ∧ s.state ≠ .s_meta_read ∧ s.state ≠ .s_meta_resp ∧ s.state ≠ .s_mshr_req := by
  unfold holds at h
  cases hs : s.state <;> simp_all

theorem of_owes_next (hs : s.state ≠ .s_invalid) (h : (s.next g i).owes = true) : s.owes = true := by
  have hst : (s.next g i).state = s.state_next g i := rfl
  unfold owes at h ⊢
  rw [hst] at h
  cases hs' : s.state <;> simp only [state_next, hs'] at h ⊢ <;> (try split_ifs at h) <;>
    simp_all

theorem wb_bits_next (h1 : s.state ≠ .s_invalid) (h2 : s.state ≠ .s_mshr_req) :
    (s.next g i).wb_bits g = s.wb_bits g := by
  have hreq : (s.next g i).req = s.req := if_neg h1
  have hway : (s.next g i).way_en = s.way_en := if_neg h2
  have hcoh : (s.next g i).old_coh = s.old_coh := if_neg h2
  unfold wb_bits req_tag req_idx report_param reply_coh tag_matches
  rw [hreq, hway, hcoh]

theorem req_next (h : s.state ≠ .s_invalid) : (s.next g i).req = s.req := if_neg h

theorem way_en_next (h : s.state ≠ .s_mshr_req) : (s.next g i).way_en = s.way_en := if_neg h

theorem old_coh_next (h : s.state ≠ .s_mshr_req) : (s.next g i).old_coh = s.old_coh := if_neg h

end Prober

end BoomStop.Coherence
