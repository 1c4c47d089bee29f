/-
  The pipeline of the data cache (`BoomNonBlockingDCacheModule` in
  `dcache.scala`): requests read the metadata and the data array in s0, compare
  tags in s1, and hit, miss or are nacked in s2, where a hit answers; stores
  write the array from s3.  The miss file, the probe unit and the writeback unit
  are inputs here.

  * `Rocket`: what the cache takes from the Rocket chip library;
  * `DataRegs`: the data array with its banks (`resp_of_not_nack`: a pipe that is
    not nacked gets its own row, also through the port of another pipe);
  * `State.next`: one cycle of the pipeline, with the reservation of LR/SC;
  * `State.cacheResp`: the answers of s2;
  * `State.s2_data_word_eq`: the word that a pipe reads is the one of its own
    address, in the arrays and the stores in flight.
-/
import Mathlib.Data.BitVec
import BoomStop.Issue

namespace BoomStop.DCache

open Issue (BrUpdate getNewBrMask isKilledByBranch)

variable {T W : ℕ}

/-! ## Requests -/

/-- `MemoryOpConstants`. -/
inductive MemCmd
  | M_XRD | M_XWR | M_PFR | M_PFW | M_XLR | M_XSC | M_XA (op : ℕ) | M_FLUSH_ALL
  deriving DecidableEq

namespace MemCmd

/-- `isAMO` of a command. -/
def isAMO : MemCmd → Bool
  | M_XA _ => true
  | _ => false

/-- `isPrefetch` of a command. -/
def isPrefetch (c : MemCmd) : Bool := c = M_PFR || c = M_PFW

/-- `isRead` of a command. -/
def isRead (c : MemCmd) : Bool := c = M_XRD || c = M_XLR || c = M_XSC || c.isAMO

/-- `isWrite` of a command. -/
def isWrite (c : MemCmd) : Bool := c = M_XWR || c = M_XSC || c.isAMO

end MemCmd

/-- The part of a uop that the cache reads. -/
structure Uop (T : ℕ) where
  mem_cmd : MemCmd
  mem_size : Fin 4
  mem_signed : Bool
  uses_ldq : Bool
  uses_stq : Bool
  br_mask : Fin T → Bool
  rob_idx : ℕ

/-- `BoomDCacheReq`. -/
structure Req (T : ℕ) where
  uop : Uop T
  addr : ℕ
  data : BitVec 64
  is_hella : Bool

/-- Who reads the arrays in s0. -/
inductive ReqType
  | t_replay | t_probe | t_wb | t_mshr_meta_read | t_lsu | t_prefetch
  deriving DecidableEq

/-- `L1Metadata`; the state of `ClientMetadata` has two bits. -/
structure Meta where
  tag : ℕ
  coh : BitVec 2
  deriving DecidableEq

/-- The parameters of the cache. -/
structure Params where
  nSets : ℕ
  blockBytes : ℕ
  /-- `wordBytes * rowWords` -/
  rowWords : ℕ
  numDCacheBanks : ℕ
  /-- the rows of a bank, `nSets * refillCycles / nBanks` -/
  bankSize : ℕ
  lrscCycles : ℕ
  lrscBackoff : ℕ

/-- The bytes of an address in its word, of a size `2 ^ size`, extended. -/
def bytesAt (size : Fin 4) (signed : Bool) (addr : ℕ) (word : BitVec 64) : BitVec 64 :=
  let bytes := 2 ^ size.val
  let x := (word >>> (8 * (addr % 8 / bytes * bytes))).setWidth (8 * bytes)
  if signed then x.signExtend 64 else x.zeroExtend 64

/-- What the cache uses of `ClientMetadata`, `LoadGen` and `AMOALU`. -/
structure Rocket where
  isValid : BitVec 2 → Bool
  /-- `onAccess`: hit, and the new state -/
  onAccess : BitVec 2 → MemCmd → Bool × BitVec 2
  /-- `new LoadGen(typ, signed, addr, dat, zero, wordBytes).data` -/
  loadGen : Fin 4 → Bool → ℕ → BitVec 64 → Bool → BitVec 64
  /-- without `zero` it loads the bytes of the address -/
  loadGen_eq : ∀ typ signed addr dat, loadGen typ signed addr dat false = bytesAt typ signed addr dat
  /-- `StoreGen.mask` and `AMOALU.io.out` -/
  amoalu : Fin 4 → ℕ → MemCmd → BitVec 64 → BitVec 64 → BitVec 64

/-- `addr >> wordOffBits` -/
def wordAddr (addr : ℕ) : ℕ := addr / 8

namespace Params

variable (c : Params)

/-- `addr(untagBits-1, blockOffBits)` -/
def idx (addr : ℕ) : ℕ := addr / c.blockBytes % c.nSets

/-- `addr >> untagBits` -/
def tag (addr : ℕ) : ℕ := addr / c.blockBytes / c.nSets

/-- `addr >> blockOffBits` -/
def block (addr : ℕ) : ℕ := addr / c.blockBytes

/-- `addr >> rowOffBits` -/
def row (addr : ℕ) : ℕ := addr / (8 * c.rowWords)

/-- `s2_word_idx` -/
def wordIdx (addr : ℕ) : ℕ := addr / 8 % c.rowWords

/-- `s0_rbanks` and `s0_wbank` -/
def bank (addr : ℕ) : ℕ := c.row addr % c.numDCacheBanks

/-- `s0_ridxs` and `s0_widx` -/
def bankIdx (addr : ℕ) : ℕ := c.row addr / c.numDCacheBanks % c.bankSize

end Params

/-- `Mux1H`: the selected values, or'ed. -/
def mux1H {n : ℕ} {α : Type} [OrOp α] [Zero α] (sel : Fin n → Bool) (x : Fin n → α) : α :=
  (List.finRange n).foldl (fun a i => if sel i then a ||| x i else a) 0

/-! ## The data array -/

/-- A row of the array, word by word. -/
abbrev Row : Type := ℕ → BitVec 64

/-- The array: way, bank, index. -/
abbrev DataArray (n : ℕ) : Type := Fin n → ℕ → ℕ → Row

/-- `L1DataReadReq`, when it is valid. -/
structure DataRead (n : ℕ) where
  addr : ℕ
  way_en : Fin n → Bool

/-- `L1DataWriteReq`. -/
structure DataWrite (n : ℕ) where
  addr : ℕ
  way_en : Fin n → Bool
  wmask : ℕ → Bool
  data : Row

/-- `array.write` in the ways and the bank of a request. -/
def DataArray.write {n : ℕ} (c : Params) (a : DataArray n) (r : DataWrite n) : DataArray n :=
  fun w b i k =>
    if r.way_en w && b = c.bank r.addr && i = c.bankIdx r.addr && r.wmask k then r.data k
    else a w b i k

/-- The registers of `BoomBankedDataArray`, and with a single bank those of
    `BoomDuplicatedDataArray`, where every pipe has a copy of the array. -/
structure DataRegs (n W : ℕ) where
  s1_rbanks : Fin W → ℕ
  s1_ridxs : Fin W → ℕ
  s1_read_valids : Fin W → Bool
  /-- what the banks read, and the copies of the pipes -/
  s1_bank_reads : ℕ → Fin n → Row
  s1_copy_reads : Fin W → Fin n → Row
  s2_bank_selection : Fin W → ℕ
  s2_nacks : Fin W → Bool
  s2_bank_reads : ℕ → Fin n → Row
  s2_copy_reads : Fin W → Fin n → Row

namespace DataRegs

variable {n : ℕ} (c : Params) (a : DataArray n) (rd : Fin W → Option (DataRead n)) (s : DataRegs n W)

/-- `s0_rbanks`. -/
def rbank (w : Fin W) : ℕ :=
  match rd w with
  | some r => c.bank r.addr
  | none => 0

/-- `s0_ridxs`. -/
def ridx (w : Fin W) : ℕ :=
  match rd w with
  | some r => c.bankIdx r.addr
  | none => 0

/-- `s0_bank_conflicts`: an earlier pipe reads the same bank. -/
def s0_bank_conflict (w : Fin W) : Bool :=
  (List.finRange W).any fun i => i < w && (rd i).isSome && rbank c rd i = rbank c rd w

/-- The pipe that a bank serves (`s0_bank_read_gnts`). -/
def granted (b : ℕ) : Option (Fin W) :=
  Fin.find? fun w => (rd w).isSome && !s0_bank_conflict c rd w && rbank c rd w = b

/-- What a bank reads: the row of the pipe it serves, in the ways that are
    enabled; otherwise it keeps its output. -/
def bankRead (b : ℕ) (w : Fin n) : Row :=
  match granted c rd b with
  | some j =>
    match rd j with
    | some r => if r.way_en w then a w b (c.bankIdx r.addr) else s.s1_bank_reads b w
    | none => s.s1_bank_reads b w
  | none => s.s1_bank_reads b w

/-- What the copy of a pipe reads. -/
def copyRead (j : Fin W) (w : Fin n) : Row :=
  match rd j with
  | some r => if r.way_en w then a w (c.bank r.addr) (c.bankIdx r.addr) else s.s1_copy_reads j w
  | none => s.s1_copy_reads j w

/-- `s1_pipe_selection`, a one-hot vector: the first earlier pipe on the same bank,
    or the pipe itself. -/
def pipeSelection (i : Fin W) : Fin W :=
  (Fin.find? fun j => j < i && s.s1_read_valids j && s.s1_rbanks j = s.s1_rbanks i).getD i

/-- `s1_nacks`: the selected pipe reads another row. -/
def s1_nack (w : Fin W) : Bool :=
  s.s1_read_valids w && s.s1_ridxs (s.pipeSelection w) ≠ s.s1_ridxs w

/-- One cycle of the registers of `BoomBankedDataArray`. -/
def next : DataRegs n W where
  s1_rbanks := rbank c rd
  s1_ridxs := ridx c rd
  s1_read_valids w := (rd w).isSome
  s1_bank_reads := bankRead c a rd s
  s1_copy_reads := copyRead c a rd s
  s2_bank_selection w := s.s1_rbanks (s.pipeSelection w)
  s2_nacks := s.s1_nack
  s2_bank_reads := s.s1_bank_reads
  s2_copy_reads := s.s1_copy_reads

/-- `io.resp`, -/
def resp (w : Fin W) (way : Fin n) : Row :=
  if c.numDCacheBanks = 1 then s.s2_copy_reads w way
  else s.s2_bank_reads (s.s2_bank_selection w) way

/-- and `io.nacks`. -/
def nack (w : Fin W) : Bool := if c.numDCacheBanks = 1 then false else s.s2_nacks w

/-! ### Sharing a bank -/

section
variable {c a rd s} {w : Fin W} {q : DataRead n} {way : Fin n}

theorem rbank_eq (h : rd w = some q) : rbank c rd w = c.bank q.addr := by
  simp [rbank, h]

theorem ridx_eq (h : rd w = some q) : ridx c rd w = c.bankIdx q.addr := by
  simp [ridx, h]

/-- The pipe through which a pipe reads is the one that its bank serves. -/
theorem granted_pipeSelection (h : rd w = some q) :
    granted c rd (rbank c rd w) = some ((next c a rd s).pipeSelection w) := by
  rw [granted, Fin.find?_eq_some_iff, pipeSelection]
  set same : Fin W → Bool := fun j => j < w && (rd j).isSome && rbank c rd j = rbank c rd w
  have hsame : (Fin.find? fun j => j < w && (next c a rd s).s1_read_valids j &&
      (next c a rd s).s1_rbanks j = (next c a rd s).s1_rbanks w) = Fin.find? same := rfl
  rw [hsame]
  cases hf : Fin.find? same with
  | none =>
    -- no earlier pipe reads the bank: the pipe reads for itself
    have hno : ∀ j, same j = false := Fin.find?_eq_none_iff.1 hf
    refine ⟨?_, fun j hj => ?_⟩
    · have hc : s0_bank_conflict c rd w = false := by
        simpa [s0_bank_conflict, same] using hno
      simp [h, hc]
    · have := hno j
      grind
  | some j =>
    obtain ⟨hj, hfirst⟩ := Fin.find?_eq_some_iff.1 hf
    obtain ⟨⟨hlt, hv⟩, hb⟩ : (j < w ∧ (rd j).isSome) ∧ rbank c rd j = rbank c rd w := by
      simpa [same] using hj
    refine ⟨?_, fun k hk => ?_⟩
    · have hc : s0_bank_conflict c rd j = false := by
        simp only [s0_bank_conflict, List.any_eq_false, List.mem_finRange, true_implies]
        intro k hk
        have := hfirst k
        grind
      simp [hv, hc, hb]
    · have := hfirst k hk
      grind

theorem read_of_granted {b : ℕ} {j : Fin W} (h : granted c rd b = some j) :
    (∃ q, rd j = some q) ∧ rbank c rd j = b := by
  have hj := Fin.eq_true_of_find?_eq_some h
  simp only [Bool.and_eq_true, decide_eq_true_eq] at hj
  exact ⟨Option.isSome_iff_exists.1 hj.1.1, hj.2⟩

/-- Pipe 0 is never nacked. -/
theorem nack_zero {M : ℕ} {a' : DataArray n} {rd rd' : Fin (M + 1) → Option (DataRead n)}
    {s : DataRegs n (M + 1)} : nack c (next c a' rd' (next c a rd s)) 0 = false := by
  have hsel : (next c a rd s).pipeSelection 0 = 0 := by
    have : (Fin.find? fun j : Fin (M + 1) => j < 0 && (next c a rd s).s1_read_valids j &&
        (next c a rd s).s1_rbanks j = (next c a rd s).s1_rbanks 0) = none := by
      simp
    rw [pipeSelection, this, Option.getD_none]
  unfold nack
  split_ifs
  · rfl
  · change (next c a rd s).s1_nack 0 = false
    simp [s1_nack, hsel]

/-- **A pipe that is not nacked gets its own row**, two cycles later. -/
theorem resp_of_not_nack {a' : DataArray n} {rd' : Fin W → Option (DataRead n)} (h : rd w = some q)
    (hen : ∀ j p, rd j = some p → p.way_en way = true)
    (hn : nack c (next c a' rd' (next c a rd s)) w = false) :
    resp c (next c a' rd' (next c a rd s)) w way = a way (c.bank q.addr) (c.bankIdx q.addr) := by
  by_cases hone : c.numDCacheBanks = 1
  · simp [resp, hone, next, copyRead, h, hen w q h]
  · have hg := granted_pipeSelection (a := a) (s := s) (c := c) h
    obtain ⟨⟨p, hp⟩, hb⟩ := read_of_granted hg
    have hidx : ridx c rd ((next c a rd s).pipeSelection w) = ridx c rd w := by
      simpa [nack, hone, next, s1_nack, h] using hn
    have hresp : resp c (next c a' rd' (next c a rd s)) w way =
        bankRead c a rd s (rbank c rd ((next c a rd s).pipeSelection w)) way := by
      simp [resp, hone, next]
    rw [hresp, hb, bankRead, hg, rbank_eq h]
    simp only [hp, hen _ p hp, if_true]
    rw [← ridx_eq hp, hidx, ridx_eq h]

end

end DataRegs

/-! ## The pipeline -/

/-- A request with its way of the metadata and data arrays. -/
structure Stage (T W : ℕ) where
  valid : Fin W → Bool
  req : Fin W → Req T
  type : ReqType
  send_resp_or_nack : Fin W → Bool

/-- A store on its way to the array. -/
structure StoreReg (n : ℕ) where
  valid : Bool
  addr : ℕ
  data : BitVec 64
  way : Fin n → Bool

/-- The inputs of a cycle. -/
structure In (T W n : ℕ) where
  /-- whom the read arbiters serve -/
  grant : Option ReqType
  lsu_valid : Fin W → Bool
  s0_req : Fin W → Req T
  /-- the ways of a replay, a writeback or a read of the miss file -/
  way_en : Fin n → Bool
  s1_kill : Fin W → Bool
  exception : Bool
  brupdate : BrUpdate T
  /-- the set of the probe in the probe unit, and that of the line written back -/
  prober_idx : Option ℕ
  wb_idx : Option ℕ
  /-- the miss file: `block_hit`, `secondary_miss`, `req.ready` -/
  block_hit : Fin W → Bool
  secondary_miss : Fin W → Bool
  mshr_ready : Fin W → Bool
  /-- `replacer.way` -/
  replaced_way : Fin n → Bool
  meta_write : Option (ℕ × (Fin n → Bool) × Meta)
  refill : Option (DataWrite n)

/-- The arrays and the registers. -/
structure State (T W n : ℕ) where
  tags : ℕ → Fin n → Meta
  data : DataArray n
  data_regs : DataRegs n W
  s1 : Stage T W
  s1_meta : Fin W → Fin n → Meta
  s1_way_en : Fin n → Bool
  s2 : Stage T W
  s2_meta : Fin W → Fin n → Meta
  s2_tag_match_way : Fin W → Fin n → Bool
  s2_nack_hit : Fin W → Bool
  s2_wb_idx_matches : Fin W → Bool
  s2_replaced_way_en : Fin n → Bool
  s3 : StoreReg n
  s4 : StoreReg n
  s5 : StoreReg n
  lrsc_count : ℕ
  lrsc_addr : ℕ

namespace State

variable {M n : ℕ} (c : Params) (r : Rocket) (s : State T (M + 1) n) (i : In T (M + 1) n)

/-! ### s0 -/

/-- The ports of the pipeline that get a request. -/
def s0_valid (w : Fin (M + 1)) : Bool :=
  match i.grant with
  | some .t_lsu => i.lsu_valid w
  | some _ => w = 0
  | none => false

/-- Whom the pipeline serves. -/
def s0_type : ReqType := i.grant.getD .t_replay

/-- Requests of the LSU answer, and replays that read. -/
def s0_send_resp_or_nack (w : Fin (M + 1)) : Bool :=
  match i.grant with
  | some .t_lsu => i.lsu_valid w
  | some .t_replay => (i.s0_req 0).uop.mem_cmd.isRead && w = 0
  | _ => false

/-- `dataReadArb.io.out`: the LSU reads all ways, a replay and a writeback one way
    through pipe 0, the others no data. -/
def s0_data_read (w : Fin (M + 1)) : Option (DataRead n) :=
  match i.grant with
  | some .t_lsu => if i.lsu_valid w then some ⟨(i.s0_req w).addr, fun _ => true⟩ else none
  | some .t_replay | some .t_wb => if w = 0 then some ⟨(i.s0_req w).addr, i.way_en⟩ else none
  | _ => none

/-! ### s1 -/

/-- `s1_nack`: the probe unit is busy with this set. -/
def s1_nack (w : Fin (M + 1)) : Bool := i.prober_idx = some (c.idx (s.s1.req w).addr)

/-- The ways that hit; a replay, a writeback and a read for an MSHR bring theirs
    along. -/
def s1_tag_match_way (w : Fin (M + 1)) (way : Fin n) : Bool :=
  match s.s1.type with
  | .t_replay | .t_wb | .t_mshr_meta_read => s.s1_way_en way
  | _ => (s.s1_meta w way).tag = c.tag (s.s1.req w).addr && r.isValid (s.s1_meta w way).coh

/-- The writeback unit has a line of the set. -/
def s1_wb_idx_matches (w : Fin (M + 1)) : Bool := i.wb_idx = some (c.idx (s.s1.req w).addr)

/-! ### s2 -/

/-- The command in the third stage. -/
def cmd (w : Fin (M + 1)) : MemCmd := (s.s2.req w).uop.mem_cmd

/-- Some way has the line. -/
def s2_tag_match (w : Fin (M + 1)) : Bool := (List.finRange n).any (s.s2_tag_match_way w)

/-- The state of the line that hits. -/
def s2_hit_state (w : Fin (M + 1)) : BitVec 2 :=
  mux1H (s.s2_tag_match_way w) fun way => (s.s2_meta w way).coh

/-- The line may be used as the command wants. -/
def s2_has_permission (w : Fin (M + 1)) : Bool := (r.onAccess (s.s2_hit_state w) (s.cmd w)).1

/-- The state of the line after the access. -/
def s2_new_hit_state (w : Fin (M + 1)) : BitVec 2 := (r.onAccess (s.s2_hit_state w) (s.cmd w)).2

/-- The access hits, and the state of the line stays. -/
def s2_hit (w : Fin (M + 1)) : Bool :=
  (s.s2_tag_match w && s.s2_has_permission r w && s.s2_hit_state w = s.s2_new_hit_state r w &&
    !i.block_hit w) || s.s2.type = .t_replay || s.s2.type = .t_wb

/-- A reservation is held. -/
def lrsc_valid : Bool := s.lrsc_count > c.lrscBackoff

/-- An LR that was not held up for the hit. -/
def s2_lr : Bool := s.cmd 0 = .M_XLR && (!s.s2_nack_hit 0 || s.s2.type = .t_replay)

/-- An SC that was not held up for the hit. -/
def s2_sc : Bool := s.cmd 0 = .M_XSC && (!s.s2_nack_hit 0 || s.s2.type = .t_replay)

/-- The access is to the reserved line. -/
def s2_lrsc_addr_match (w : Fin (M + 1)) : Bool :=
  s.lrsc_valid c && s.lrsc_addr = c.block (s.s2.req w).addr

/-- The SC fails. -/
def s2_sc_fail : Bool := s.s2_sc && !s.s2_lrsc_addr_match c 0

/-- The line is on its way out. -/
def s2_nack_victim (w : Fin (M + 1)) : Bool :=
  s.s2.valid w && s.s2_hit r i w && i.secondary_miss w

/-- The access misses, and no MSHR takes it. -/
def s2_nack_miss (w : Fin (M + 1)) : Bool := s.s2.valid w && !s.s2_hit r i w && !i.mshr_ready w

/-- The banks did not serve the port. -/
def s2_nack_data (w : Fin (M + 1)) : Bool := s.data_regs.nack c w

/-- The access misses in a set that is being written back. -/
def s2_nack_wb (w : Fin (M + 1)) : Bool :=
  s.s2.valid w && !s.s2_hit r i w && s.s2_wb_idx_matches w

/-- The access has to be tried again; a replay never has. -/
def s2_nack (w : Fin (M + 1)) : Bool :=
  (s.s2_nack_miss r i w || s.s2_nack_hit w || s.s2_nack_victim r i w || s.s2_nack_data c w ||
    s.s2_nack_wb r i w) && s.s2.type ≠ .t_replay

/-- A branch kills the uop in the cycle. -/
def killed (u : Uop T) : Bool := isKilledByBranch i.brupdate u.br_mask

/-- `mshrs.io.req(w).valid` -/
def mshr_valid (w : Fin (M + 1)) : Bool :=
  s.s2.valid w && !s.s2_hit r i w && !s.s2_nack_hit w && !s.s2_nack_victim r i w &&
    !s.s2_nack_data c w && !s.s2_nack_wb r i w && (s.s2.type = .t_lsu || s.s2.type = .t_prefetch) &&
    !killed i (s.s2.req w).uop && !(i.exception && (s.s2.req w).uop.uses_ldq) &&
    ((s.cmd w).isPrefetch || (s.cmd w).isRead || (s.cmd w).isWrite)

/-- The port answers: the access hits, or is a store that an MSHR has taken. -/
def s2_send_resp (w : Fin (M + 1)) : Bool :=
  s.s2.send_resp_or_nack w && !s.s2_nack c r i w &&
    (s.s2_hit r i w ||
      (s.mshr_valid c r i w && i.mshr_ready w && (s.cmd w).isWrite && !(s.cmd w).isRead))

/-- The port says that the access has to be tried again. -/
def s2_send_nack (w : Fin (M + 1)) : Bool := s.s2.send_resp_or_nack w && s.s2_nack c r i w

/-- A store has to be tried again, so that no younger one may pass. -/
def s2_store_failed : Bool :=
  s.s2.valid 0 && s.s2_nack c r i 0 && s.s2_send_nack c r i 0 && (s.s2.req 0).uop.uses_stq

/-- `s2_data_muxed(w) >> Cat(s2_word_idx(w), 0)` -/
def s2_data_word_prebypass (w : Fin (M + 1)) : BitVec 64 :=
  mux1H (s.s2_tag_match_way w) fun way => s.data_regs.resp c w way (c.wordIdx (s.s2.req w).addr)

/-- Bypassing from the stores of the last three cycles. -/
def s2_data_word (w : Fin (M + 1)) : BitVec 64 :=
  let bypass (x : StoreReg n) := x.valid && wordAddr (s.s2.req w).addr = wordAddr x.addr
  if bypass s.s3 then s.s3.data
  else if bypass s.s4 then s.s4.data
  else if bypass s.s5 then s.s5.data
  else s.s2_data_word_prebypass c w

/-- The data of a load; an SC answers whether it failed. -/
def loadgen_data (w : Fin (M + 1)) : BitVec 64 :=
  let q := s.s2.req w
  r.loadGen q.uop.mem_size q.uop.mem_signed q.addr (s.s2_data_word c w) (s.s2_sc && w = 0)

/-- `cache_resp(w)`: the data, when it is valid. -/
def cacheResp (w : Fin (M + 1)) : Option (BitVec 64) :=
  if s.s2.valid w && s.s2_send_resp c r i w then
    some (s.loadgen_data c r w ||| BitVec.ofNat 64 (s.s2_sc_fail c).toNat)
  else none

/-- A store writes the data array in the next stage. -/
def s3_valid_next : Bool :=
  s.s2.valid 0 && s.s2_hit r i 0 && (s.cmd 0).isWrite && !s.s2_sc_fail c &&
    !(s.s2_send_nack c r i 0 && s.s2_nack c r i 0)

/-! ### The reservation -/

/-- A hit or a replay completes in pipe 0. -/
def completes : Bool :=
  s.s2.valid 0 &&
    ((s.s2.type = .t_lsu && s.s2_hit r i 0 && !s.s2_nack c r i 0) ||
      (s.s2.type = .t_replay && s.cmd 0 ≠ .M_FLUSH_ALL))

/-- A pipe misses the reserved line. -/
def missesReserved (w : Fin (M + 1)) : Bool :=
  s.s2.valid w && s.s2.type = .t_lsu && !s.s2_hit r i w &&
    !(s.s2_has_permission r w && s.s2_tag_match w) && s.s2_lrsc_addr_match c w &&
    !s.s2_nack c r i w

/-- The last assignment wins. -/
def lrsc_count_next : ℕ :=
  if (List.finRange (M + 1)).any (s.missesReserved c r i) then 0
  else if s.completes c r i && s.lrsc_count > 0 then 0
  else if s.completes c r i && s.s2_lr then c.lrscCycles - 1
  else s.lrsc_count - 1

/-- `lrsc_addr`, in the next cycle. -/
def lrsc_addr_next : ℕ :=
  if s.completes c r i && s.s2_lr then c.block (s.s2.req 0).addr else s.lrsc_addr

/-! ### A cycle -/

/-- `UpdateBrMask`. -/
def updateMask (q : Req T) : Req T :=
  { q with uop := { q.uop with br_mask := getNewBrMask i.brupdate q.uop.br_mask } }

/-- The second stage, in the next cycle. -/
def s1_next : Stage T (M + 1) where
  valid w :=
    s0_valid i w && !killed i (i.s0_req w).uop && !(i.exception && (i.s0_req w).uop.uses_ldq) &&
      !(s.s2_store_failed c r i && i.grant = some .t_lsu && (i.s0_req w).uop.uses_stq)
  req w := updateMask i (i.s0_req w)
  type := s0_type i
  send_resp_or_nack := s0_send_resp_or_nack i

/-- The third stage, in the next cycle. -/
def s2_next : Stage T (M + 1) where
  valid w :=
    let u := (s.s1.req w).uop
    s.s1.valid w && !i.s1_kill w && !killed i u && !(i.exception && u.uses_ldq) &&
      !(s.s2_store_failed c r i && s.s1.type = .t_lsu && u.uses_stq)
  req w := updateMask i (s.s1.req w)
  type := s.s1.type
  send_resp_or_nack := s.s1.send_resp_or_nack

/-- `s3_req`, with the word that the store leaves. -/
def s3_next : StoreReg n where
  valid := s.s3_valid_next c r i
  addr := (s.s2.req 0).addr
  data :=
    let q := s.s2.req 0
    r.amoalu q.uop.mem_size q.addr q.uop.mem_cmd (s.s2_data_word c 0) q.data
  way := s.s2_tag_match_way 0

/-- `dataWriteArb`: stores before refills. -/
def dataWrite : Option (DataWrite n) :=
  if s.s3.valid then
    some ⟨s.s3.addr, s.s3.way, fun k => k = c.wordIdx s.s3.addr, fun _ => s.s3.data⟩
  else i.refill

/-- The data array, in the next cycle. -/
def data_next : DataArray n :=
  match s.dataWrite c i with
  | some x => s.data.write c x
  | none => s.data

/-- The metadata, in the next cycle. -/
def tags_next : ℕ → Fin n → Meta :=
  match i.meta_write with
  | some (idx, way_en, m) => fun j way => if j = idx && way_en way then m else s.tags j way
  | none => s.tags

/-- One cycle. -/
def next : State T (M + 1) n where
  tags := s.tags_next i
  data := s.data_next c i
  data_regs := s.data_regs.next c s.data (s0_data_read i)
  s1 := s.s1_next c r i
  s1_meta w := s.tags (c.idx (i.s0_req w).addr)
  s1_way_en := i.way_en
  s2 := s.s2_next c r i
  s2_meta := s.s1_meta
  s2_tag_match_way := s.s1_tag_match_way c r
  s2_nack_hit := s.s1_nack c i
  s2_wb_idx_matches := s.s1_wb_idx_matches c i
  s2_replaced_way_en := i.replaced_way
  s3 := s.s3_next c r i
  s4 := s.s3
  s5 := s.s4
  lrsc_count := s.lrsc_count_next c r i
  lrsc_addr := s.lrsc_addr_next c r i

/-! ### The word of a request -/

/-- The arrays that a request reads, and the stores that have not reached them. -/
structure Contents (n : ℕ) where
  tags : ℕ → Fin n → Meta
  data : DataArray n
  stores : List (StoreReg n)

/-- The ways of a request: those of a replay are given, others match the tag. -/
def Contents.ways (x : Contents n) (q : Req T) (grant : Option ReqType) (way_en : Fin n → Bool)
    (way : Fin n) : Bool :=
  if grant = some .t_replay then way_en way
  else (x.tags (c.idx q.addr) way).tag = c.tag q.addr && r.isValid (x.tags (c.idx q.addr) way).coh

/-- The word at an address: that of the last store in flight, or of the array. -/
def Contents.word (x : Contents n) (addr : ℕ) (ways : Fin n → Bool) : BitVec 64 :=
  match x.stores.find? fun e => e.valid && wordAddr addr = wordAddr e.addr with
  | some e => e.data
  | none => mux1H ways fun way => x.data way (c.bank addr) (c.bankIdx addr) (c.wordIdx addr)

/-- What a request of the cycle `i` sees when it answers, two cycles later. -/
def contents (i j : In T (M + 1) n) : Contents n where
  tags := s.tags
  data := s.data
  stores := let t := (s.next c r i).next c r j; [t.s3, t.s4, t.s5]

variable {c r s i} {j k : In T (M + 1) n} {w : Fin (M + 1)}

theorem find_bypass (p : StoreReg n → Bool) (x y z : StoreReg n) (d : BitVec 64) :
    (match [x, y, z].find? p with | some e => e.data | none => d) =
      if p x then x.data else if p y then y.data else if p z then z.data else d := by
  simp only [List.find?]
  cases p x <;> cases p y <;> cases p z <;> rfl

theorem mux1H_congr {α : Type} [OrOp α] [Zero α] {sel sel' : Fin n → Bool} {x y : Fin n → α}
    (hs : ∀ way, sel way = sel' way) (h : ∀ way, sel' way = true → x way = y way) :
    mux1H sel x = mux1H sel' y := by
  obtain rfl : sel = sel' := funext hs
  simp only [mux1H]
  congr 1
  funext a way
  split_ifs with hsel
  · rw [h way hsel]
  · rfl

/-- A request that answers came from the LSU or from the miss file. -/
theorem grant_of_resp {d : BitVec 64} (h : ((s.next c r i).next c r j).cacheResp c r k w = some d) :
    ((i.grant = some .t_lsu ∧ i.lsu_valid w = true) ∨ (i.grant = some .t_replay ∧ w = 0)) ∧
      ((s.next c r i).next c r j).s2.valid w = true := by
  simp only [cacheResp, Option.ite_none_right_eq_some, Bool.and_eq_true, s2_send_resp] at h
  obtain ⟨⟨hv, ⟨hs, -⟩, -⟩, -⟩ := h
  refine ⟨?_, hv⟩
  have hs : s0_send_resp_or_nack i w = true := hs
  unfold s0_send_resp_or_nack at hs
  split at hs
  · exact .inl ⟨by assumption, hs⟩
  · exact .inr ⟨by assumption, of_decide_eq_true (Bool.and_eq_true_iff.1 hs).2⟩
  · exact absurd hs Bool.false_ne_true

/-- An answer is not nacked by the data array. -/
theorem not_nack_of_resp {d : BitVec 64}
    (h : ((s.next c r i).next c r j).cacheResp c r k w = some d) :
    ((s.next c r i).next c r j).data_regs.nack c w = false := by
  obtain ⟨⟨hg, -⟩ | ⟨-, rfl⟩, -⟩ := grant_of_resp h
  · simp only [cacheResp, Option.ite_none_right_eq_some, Bool.and_eq_true, s2_send_resp,
      Bool.not_eq_true', s2_nack, s2_nack_data] at h
    obtain ⟨⟨-, ⟨-, hn⟩, -⟩, -⟩ := h
    have ht : ((s.next c r i).next c r j).s2.type = .t_lsu := by
      change s0_type i = .t_lsu
      simp [s0_type, hg]
    simp [ht] at hn
    exact hn.1.2
  · exact DataRegs.nack_zero

/-- **The word of a request** of the LSU or of the miss file that the data array does not
    nack is the one of its own address. -/
theorem s2_data_word_of_read
    (hg : (i.grant = some .t_lsu ∧ i.lsu_valid w = true) ∨ (i.grant = some .t_replay ∧ w = 0))
    (hn : ((s.next c r i).next c r j).data_regs.nack c w = false) :
    ((s.next c r i).next c r j).s2_data_word c w =
      (s.contents c r i j).word c (i.s0_req w).addr
        ((s.contents c r i j).ways c r (i.s0_req w) i.grant i.way_en) := by
  have hpre : ((s.next c r i).next c r j).s2_data_word_prebypass c w =
      mux1H ((s.contents c r i j).ways c r (i.s0_req w) i.grant i.way_en) fun way =>
        s.data way (c.bank (i.s0_req w).addr) (c.bankIdx (i.s0_req w).addr)
          (c.wordIdx (i.s0_req w).addr) := by
    refine mux1H_congr (fun way => ?_) fun way hway => ?_
    · change (s.next c r i).s1_tag_match_way c r w way = _
      obtain ⟨hg, -⟩ | ⟨hg, -⟩ := hg <;>
        simp [s1_tag_match_way, Contents.ways, contents, next, s1_next, s0_type, hg, updateMask]
    · refine congrFun (DataRegs.resp_of_not_nack (q := ⟨(i.s0_req w).addr, fun way => ?_⟩) ?_ ?_
        hn) _
      · exact i.grant = some .t_lsu || i.way_en way
      · obtain ⟨hg, hv⟩ | ⟨hg, rfl⟩ := hg <;> simp [s0_data_read, *]
      · intro v p hp
        obtain ⟨hg, -⟩ | ⟨hg, rfl⟩ := hg
        · simp only [s0_data_read, hg, Option.ite_none_right_eq_some, Option.some.injEq] at hp
          rw [← hp.2]
        · simp only [s0_data_read, hg, Option.ite_none_right_eq_some, Option.some.injEq] at hp
          rw [← hp.2]
          simpa [Contents.ways, hg] using hway
  rw [s2_data_word, hpre]
  exact (find_bypass (fun x => x.valid && wordAddr (i.s0_req w).addr = wordAddr x.addr) _ _ _ _).symm

/-- **The word of a request that answers** is the one of its own address. -/
theorem s2_data_word_eq {d : BitVec 64}
    (h : ((s.next c r i).next c r j).cacheResp c r k w = some d) :
    ((s.next c r i).next c r j).s2_data_word c w =
      (s.contents c r i j).word c (i.s0_req w).addr
        ((s.contents c r i j).ways c r (i.s0_req w) i.grant i.way_en) :=
  s2_data_word_of_read (grant_of_resp h).1 (not_nack_of_resp h)

end State

end BoomStop.DCache
