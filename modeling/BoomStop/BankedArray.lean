/-
  The two data arrays of the data cache (`dcache.scala`): `BoomDuplicatedDataArray`
  has a copy for every port, `BoomBankedDataArray` has one copy that is cut into
  banks, where ports on the same bank have to share a read.

  * `Params`, `Sram`: the geometry, and a memory with one read and one write port;
  * `Dup.next`, `Banked.next`: one cycle of the arrays;
  * `Agree`: each row is in its bank; `agree_next`: every cycle keeps that;
  * `banked_refines_duplicated`: what is not nacked reads the same;
  * `banked_refines_duplicated_fails`: three ports on a bank, and rows that the
    banks do not hold.
-/
import Mathlib.Data.Nat.Log
import Mathlib.Data.Nat.Bitwise
import Mathlib.Order.WellFounded
import BoomStop.Lib.Machine
import BoomStop.Lib.OneHot

namespace BoomStop.BankedArray

open Sync OneHot

/-! ## Geometry -/

/-- The parameters of the arrays. -/
structure Params where
  nBanks : ℕ
  nSets : ℕ
  refillCycles : ℕ
  rowWords : ℕ
  memWidth : ℕ
  nWays : ℕ
  encDataBits : ℕ
  isPow2 : nBanks = 2 ^ Nat.clog 2 nBanks
  /-- `require (nBanks >= memWidth)` -/
  memWidth_le : memWidth ≤ nBanks
  /-- `require (bankSize > 0)` -/
  bankSize_pos : 0 < nSets * refillCycles / nBanks
  rowWords_pos : 0 < rowWords

/-- The bytes of a word. -/
def wordBytes : ℕ := 8

namespace Params

variable (c : Params)

/-- The rows of a way. -/
def rows : ℕ := c.nSets * c.refillCycles

/-- `bankSize`. -/
def bankSize : ℕ := c.nSets * c.refillCycles / c.nBanks

/-- `log2Up(rowBytes)` -/
def rowOffBits : ℕ := Nat.clog 2 (c.rowWords * wordBytes)

/-- `bankBits`. -/
def bankBits : ℕ := Nat.clog 2 c.nBanks

/-- `bankOffBits`. -/
def bankOffBits : ℕ := Nat.clog 2 c.rowWords + Nat.clog 2 wordBytes

/-- `bidxBits`. -/
def bidxBits : ℕ := Nat.clog 2 c.bankSize

/-- `bidxOffBits`. -/
def bidxOffBits : ℕ := c.bankOffBits + c.bankBits

/-- The addresses of the cache. -/
abbrev Addr : Type := Fin (c.rows * 2 ^ c.rowOffBits)

/-- `addr >> rowOffBits` -/
def row (a : c.Addr) : ℕ := a.val >>> c.rowOffBits

/-- `s0_rbanks` and `s0_wbank` -/
def bank (a : c.Addr) : ℕ :=
  if c.nBanks > 1 then (a.val >>> c.bankOffBits) % 2 ^ c.bankBits else 0

/-- `s0_ridxs` and `s0_widx` -/
def bankIdx (a : c.Addr) : ℕ := (a.val >>> c.bidxOffBits) % 2 ^ c.bidxBits

/-- A row of words. -/
abbrev Row : Type := Fin c.rowWords → BitVec c.encDataBits

end Params

variable {c : Params}

/-- The words of `io.write.bits.data`. -/
def words (data : BitVec (c.encDataBits * c.rowWords)) : c.Row := fun i =>
  data.extractLsb' (c.encDataBits * i) c.encDataBits

/-! ## Memories -/

/-- A memory, and its output register. -/
structure Sram (c : Params) where
  mem : ℕ → c.Row
  out : c.Row

/-- What happens at its ports. -/
structure SramPorts (c : Params) where
  ren : Bool
  ridx : ℕ
  wen : Bool
  widx : ℕ
  data : c.Row
  mask : Fin c.rowWords → Bool

/-- `array.write`, of the words in the mask. -/
def SramPorts.written (p : SramPorts c) (old : c.Row) : c.Row := fun k =>
  if p.mask k then p.data k else old k

/-- One cycle; `collide` is what a read returns of a row that is written in the same
    cycle, from the old row and the new one. -/
def Sram.next (collide : c.Row → c.Row → c.Row) (m : Sram c) (p : SramPorts c) : Sram c where
  mem i := if p.wen && i = p.widx then p.written (m.mem i) else m.mem i
  out :=
    if p.ren then
      if p.wen && p.ridx = p.widx then collide (m.mem p.ridx) (p.written (m.mem p.ridx))
      else m.mem p.ridx
    else m.out

/-! ## The arrays -/

/-- `Valid(new L1DataReadReq)` -/
structure ReadReq (c : Params) where
  valid : Bool
  addr : c.Addr
  way_en : Fin c.nWays → Bool

/-- `Valid(new L1DataWriteReq)` -/
structure WriteReq (c : Params) where
  valid : Bool
  addr : c.Addr
  way_en : Fin c.nWays → Bool
  wmask : Fin c.rowWords → Bool
  data : BitVec (c.encDataBits * c.rowWords)

/-- The inputs of a cycle. -/
structure In (c : Params) where
  read : Fin c.memWidth → ReadReq c
  write : WriteReq c

/-- The registers of `BoomDuplicatedDataArray`: `array_w_j`, and the output. -/
structure Dup (c : Params) where
  array : Fin c.nWays → Fin c.memWidth → Sram c
  resp : Fin c.memWidth → Fin c.nWays → c.Row

namespace Dup

variable (collide : c.Row → c.Row → c.Row) (s : Dup c) (i : In c)

/-- The ports of a memory of `BoomDuplicatedDataArray`. -/
def ports (w : Fin c.nWays) (j : Fin c.memWidth) : SramPorts c where
  ren := (i.read j).way_en w && (i.read j).valid
  ridx := c.row (i.read j).addr
  wen := i.write.way_en w && i.write.valid
  widx := c.row i.write.addr
  data := words i.write.data
  mask := i.write.wmask

/-- One cycle of `BoomDuplicatedDataArray`. -/
def next : Dup c where
  array w j := (s.array w j).next collide (ports i w j)
  resp j w := (s.array w j).out

/-- `io.nacks` -/
def nacks (_ : Dup c) (_ : Fin c.memWidth) : Bool := false

end Dup

/-- The registers of `BoomBankedDataArray`: `array_w_b`, and those of its stages. -/
structure Banked (c : Params) where
  array : Fin c.nWays → ℕ → Sram c
  s1_rbanks : Fin c.memWidth → ℕ
  s1_ridxs : Fin c.memWidth → ℕ
  s1_read_valids : Fin c.memWidth → Bool
  s2_bank_selection : Fin c.memWidth → ℕ
  s2_nacks : Fin c.memWidth → Bool
  s2_bank_reads : Fin c.nWays → ℕ → c.Row

namespace In

variable (i : In c)

/-- `s0_rbanks`. -/
def s0_rbanks (w : Fin c.memWidth) : ℕ := c.bank (i.read w).addr

/-- `s0_ridxs`. -/
def s0_ridxs (w : Fin c.memWidth) : ℕ := c.bankIdx (i.read w).addr

/-- `s0_read_valids`. -/
def s0_read_valids (w : Fin c.memWidth) : Bool := (i.read w).valid

/-- An older port reads the same bank. -/
def s0_bank_conflicts (w : Fin c.memWidth) : Bool :=
  (List.finRange c.memWidth).any fun j =>
    j < w && (i.s0_read_valids j && i.s0_rbanks j = i.s0_rbanks w)

/-- The port reads its bank itself. -/
def s0_do_bank_read (w : Fin c.memWidth) : Bool := i.s0_read_valids w && !i.s0_bank_conflicts w

/-- The port that reads a bank. -/
def s0_bank_read_gnts (b : ℕ) (w : Fin c.memWidth) : Bool :=
  i.s0_rbanks w = b && i.s0_do_bank_read w

/-- The bank is written. -/
def s0_bank_write_gnt (b : ℕ) : Bool := c.bank i.write.addr = b && i.write.valid

end In

namespace Banked

variable (collide : c.Row → c.Row → c.Row) (s : Banked c) (i : In c)

/-- The port whose read serves this one: the first one of the bank. -/
def s1_pipe_selection (w : Fin c.memWidth) : Fin c.memWidth → Bool :=
  priorityEncoderOH fun j =>
    if j < w then s.s1_read_valids j && s.s1_rbanks j = s.s1_rbanks w else j = w

/-- This port wants the row that the other one read. -/
def s1_ridx_match (w j : Fin c.memWidth) : Bool :=
  if j < w then s.s1_ridxs j = s.s1_ridxs w else j = w

/-- The port that serves this one read another row. -/
def s1_nacks (w : Fin c.memWidth) : Bool :=
  s.s1_read_valids w &&
    (List.finRange c.memWidth).any fun j => s.s1_pipe_selection w j && !s.s1_ridx_match w j

/-- The bank that was read for the port. -/
def s1_bank_selection (w : Fin c.memWidth) : ℕ := mux1H (s.s1_pipe_selection w) s.s1_rbanks

/-- The ports of a bank. -/
def ports (w : Fin c.nWays) (b : ℕ) : SramPorts c where
  ren :=
    ((List.finRange c.memWidth).any fun j => i.s0_bank_read_gnts b j && (i.read j).way_en w) &&
      (List.finRange c.memWidth).any (i.s0_bank_read_gnts b)
  ridx := mux1H (i.s0_bank_read_gnts b) i.s0_ridxs
  wen := i.write.way_en w && i.s0_bank_write_gnt b
  widx := c.bankIdx i.write.addr
  data := words i.write.data
  mask := i.write.wmask

/-- One cycle of `BoomBankedDataArray`. -/
def next : Banked c where
  array w b := (s.array w b).next collide (ports i w b)
  s1_rbanks := i.s0_rbanks
  s1_ridxs := i.s0_ridxs
  s1_read_valids := i.s0_read_valids
  s2_bank_selection := s.s1_bank_selection
  s2_nacks := s.s1_nacks
  s2_bank_reads w b := (s.array w b).out

/-- `io.resp` -/
def resp (j : Fin c.memWidth) (w : Fin c.nWays) : c.Row := s.s2_bank_reads w (s.s2_bank_selection j)

/-- `io.nacks` -/
def nacks (w : Fin c.memWidth) : Bool := s.s2_nacks w

end Banked

/-! ## Rows and banks -/

theorem clog_mul_two {m : ℕ} (hm : 0 < m) : Nat.clog 2 (m * 2) = Nat.clog 2 m + 1 := by
  rw [Nat.clog_of_two_le (le_refl 2) (by omega)]
  congr 2
  omega

/-- Both arrays cut off the same bits. -/
theorem bankOffBits_eq (c : Params) : c.bankOffBits = c.rowOffBits := by
  have hpos := c.rowWords_pos
  have hword : Nat.clog 2 wordBytes = 3 := by decide
  rw [Params.bankOffBits, Params.rowOffBits, hword, wordBytes,
    show c.rowWords * 8 = c.rowWords * 2 * 2 * 2 by omega, clog_mul_two (by omega),
    clog_mul_two (by omega), clog_mul_two hpos]

/-- The bank and the place in it of a row. -/
def Params.bankOf (c : Params) (r : ℕ) : ℕ := r % c.nBanks

/-- The place of a row in its bank. -/
def Params.idxOf (c : Params) (r : ℕ) : ℕ := r / c.nBanks % 2 ^ c.bidxBits

theorem bank_eq (a : c.Addr) : c.bank a = c.bankOf (c.row a) := by
  rw [Params.bank, Params.bankOf, Params.row, bankOffBits_eq]
  split_ifs with h
  · rw [Params.bankBits, ← c.isPow2]
  · have hone : c.nBanks = 1 := by
      have hpow := c.isPow2
      have := Nat.two_pow_pos (Nat.clog 2 c.nBanks)
      omega
    rw [hone, Nat.mod_one]

theorem bankIdx_eq (a : c.Addr) : c.bankIdx a = c.idxOf (c.row a) := by
  rw [Params.bankIdx, Params.idxOf, Params.row, Params.bidxOffBits, bankOffBits_eq,
    Nat.shiftRight_add, Nat.shiftRight_eq_div_pow _ c.bankBits, Params.bankBits, ← c.isPow2]

theorem row_lt (a : c.Addr) : c.row a < c.rows := by
  rw [Params.row, Nat.shiftRight_eq_div_pow]
  exact (Nat.div_lt_iff_lt_mul (Nat.two_pow_pos _)).2 a.isLt

/-- Banks that hold all rows hold each in a place of its own. -/
theorem row_inj (hdvd : c.nBanks ∣ c.rows) {r r' : ℕ} (hr : r < c.rows) (hr' : r' < c.rows)
    (hbank : c.bankOf r = c.bankOf r') (hidx : c.idxOf r = c.idxOf r') : r = r' := by
  have hlt : ∀ r < c.rows, r / c.nBanks < 2 ^ c.bidxBits := by
    intro r hr
    refine Nat.lt_of_lt_of_le ?_ (Nat.le_pow_clog Nat.one_lt_two c.bankSize)
    exact Nat.div_lt_div_of_lt_of_dvd hdvd hr
  rw [Params.idxOf, Params.idxOf, Nat.mod_eq_of_lt (hlt r hr), Nat.mod_eq_of_lt (hlt r' hr')] at hidx
  rw [← Nat.div_add_mod r c.nBanks, hidx, ← Params.bankOf, hbank, Params.bankOf, Nat.div_add_mod]

/-- A row is at the place that an address selects if it is the row of the address. -/
theorem place_iff (hdvd : c.nBanks ∣ c.rows) {r : ℕ} (hr : r < c.rows) (a : c.Addr) :
    c.bank a = c.bankOf r ∧ c.idxOf r = c.bankIdx a ↔ r = c.row a := by
  rw [bank_eq, bankIdx_eq]
  constructor
  · rintro ⟨hbank, hidx⟩
    exact row_inj hdvd hr (row_lt a) hbank.symm hidx
  · rintro rfl
    exact ⟨rfl, rfl⟩

/-- Powers of two of sets and beats do, since a bank has a row. -/
theorem dvd_of_isPow2 {a b : ℕ} (ha : c.nSets = 2 ^ a) (hb : c.refillCycles = 2 ^ b) :
    c.nBanks ∣ c.rows := by
  have hpos := c.bankSize_pos
  rw [Params.rows, ha, hb, ← pow_add] at *
  rw [c.isPow2] at hpos ⊢
  refine pow_dvd_pow 2 ?_
  by_contra hlt
  rw [Nat.div_eq_of_lt (Nat.pow_lt_pow_right Nat.one_lt_two (by omega))] at hpos
  exact absurd hpos (Nat.lt_irrefl 0)

/-! ## Sharing a bank -/

/-- The first port on the bank of a port, or the port itself. -/
structure In.Server (i : In c) (w j : Fin c.memWidth) : Prop where
  place : j = w ∨ j < w
  valid : (i.read j).valid = true
  bank : i.s0_rbanks j = i.s0_rbanks w
  first : ∀ k < j, (i.read k).valid = true → i.s0_rbanks k ≠ i.s0_rbanks w

section

variable {collide : c.Row → c.Row → c.Row} {s : Banked c} {d : Dup c} {i i' : In c}
  {w j : Fin c.memWidth} {way : Fin c.nWays}

theorem exists_server (hv : (i.read w).valid = true) : ∃ j, i.Server w j := by
  have hwf : WellFounded fun j k : Fin c.memWidth => j < k := wellFounded_lt
  obtain ⟨j, hj, hmin⟩ := hwf.has_min
    {j | (i.read j).valid = true ∧ i.s0_rbanks j = i.s0_rbanks w} ⟨w, hv, rfl⟩
  refine ⟨j, ?_, hj.1, hj.2, fun k hk hkv hkb => hmin k ⟨hkv, hkb⟩ hk⟩
  rcases lt_trichotomy j w with hlt | heq | hgt
  · exact .inr hlt
  · exact .inl heq
  · exact absurd hgt (hmin w ⟨hv, rfl⟩)

/-- The bank serves that port, and no other. -/
theorem s0_bank_read_gnts_eq (hs : i.Server w j) :
    i.s0_bank_read_gnts (i.s0_rbanks w) = oneHot j := by
  ext k
  rw [Bool.eq_iff_iff, oneHot_eq_true]
  simp only [In.s0_bank_read_gnts, In.s0_do_bank_read, In.s0_bank_conflicts, In.s0_read_valids,
    Bool.and_eq_true, decide_eq_true_eq, Bool.not_eq_true', List.any_eq_false, List.mem_finRange,
    true_implies, not_and]
  constructor
  · rintro ⟨hb, hv, hno⟩
    rcases lt_trichotomy k j with hlt | rfl | hgt
    · exact absurd hb (hs.first k hlt hv)
    · rfl
    · exact absurd (hs.bank.trans hb.symm) (hno j hgt hs.valid)
  · rintro rfl
    exact ⟨hs.bank, hs.valid, fun m hm hv hb => hs.first m hm hv (hb.trans hs.bank)⟩

/-- One cycle later, the port selects it. -/
theorem s1_pipe_selection_next (hs : i.Server w j) :
    (s.next collide i).s1_pipe_selection w = oneHot j := by
  refine priorityEncoderOH_eq ?_ fun k hk => ?_
  · rcases hs.place with rfl | hlt
    · simp
    · simp [hlt, Banked.next, In.s0_read_valids, hs.valid, hs.bank]
  · have hkw : k < w := by
      rcases hs.place with rfl | hlt
      · exact hk
      · exact hk.trans hlt
    rw [if_pos hkw]
    by_contra hno
    simp only [Bool.not_eq_false, Bool.and_eq_true, decide_eq_true_eq] at hno
    exact hs.first k hk hno.1 hno.2

/-- It is nacked if that port reads another row. -/
theorem s1_nacks_next (hs : i.Server w j) (hv : (i.read w).valid = true) :
    (s.next collide i).s1_nacks w = true ↔ i.s0_ridxs j ≠ i.s0_ridxs w := by
  have hmatch : (s.next collide i).s1_ridx_match w j =
      if j < w then decide (i.s0_ridxs j = i.s0_ridxs w) else decide (j = w) := rfl
  have hvalid : (s.next collide i).s1_read_valids w = true := hv
  rw [Banked.s1_nacks, s1_pipe_selection_next hs, any_oneHot, hvalid, Bool.true_and, hmatch]
  rcases hs.place with rfl | hlt
  · simp
  · simp [hlt]

/-- What is shown is what the bank read. -/
theorem resp_next (hs : i.Server w j) : ((s.next collide i).next collide i').resp w way =
    ((s.next collide i).array way (i.s0_rbanks w)).out := by
  have hsel : (s.next collide i).s1_bank_selection w = i.s0_rbanks w := by
    rw [Banked.s1_bank_selection, s1_pipe_selection_next hs, mux1H_oneHot]
    exact hs.bank
  show ((s.next collide i).array way ((s.next collide i).s1_bank_selection w)).out = _
  rw [hsel]

/-! ## The contents -/

/-- Every copy has each row as its bank has it. -/
def Agree (s : Banked c) (d : Dup c) : Prop :=
  ∀ way j r, r < c.rows →
    (d.array way j).mem r = (s.array way (c.bankOf r)).mem (c.idxOf r)

theorem agree_next (hdvd : c.nBanks ∣ c.rows) (h : Agree s d) :
    Agree (s.next collide i) (d.next collide i) := by
  intro way k r hr
  have hplace := place_iff hdvd hr i.write.addr
  show (if i.write.way_en way && i.write.valid && r = c.row i.write.addr then _ else _) =
    if (i.write.way_en way && (c.bank i.write.addr = c.bankOf r && i.write.valid)) &&
      c.idxOf r = c.bankIdx i.write.addr then _ else _
  rw [h way k r hr]
  refine if_congr ?_ rfl rfl
  simp only [Bool.and_eq_true, decide_eq_true_eq, ← hplace]
  tauto

/-- A bank that serves a port reads what the copies read. -/
theorem out_next (hdvd : c.nBanks ∣ c.rows) (h : Agree s d) (hs : i.Server w j)
    (hidx : i.s0_ridxs j = i.s0_ridxs w) (hv : (i.read w).valid = true)
    (hen : (i.read w).way_en way = true) (hshare : (i.read j).way_en way = true) :
    ((s.next collide i).array way (i.s0_rbanks w)).out = ((d.next collide i).array way w).out := by
  have hplace := place_iff hdvd (row_lt (i.read w).addr) i.write.addr
  have hgnts := s0_bank_read_gnts_eq hs
  have hports : Banked.ports i way (i.s0_rbanks w) =
      { Dup.ports i way w with
        ridx := c.bankIdx (i.read w).addr
        wen := i.write.way_en way && (c.bank i.write.addr = i.s0_rbanks w && i.write.valid)
        widx := c.bankIdx i.write.addr } := by
    have hany : ((List.finRange c.memWidth).any fun k => oneHot j k) = true :=
      List.any_eq_true.2 ⟨j, List.mem_finRange j, oneHot_eq_true.2 rfl⟩
    rw [Banked.ports, hgnts, any_oneHot, hany, mux1H_oneHot, hidx, hshare]
    simp [Dup.ports, hen, hv, In.s0_ridxs, In.s0_bank_write_gnt]
  have hrow : (d.array way w).mem (c.row (i.read w).addr) =
      (s.array way (i.s0_rbanks w)).mem (c.bankIdx (i.read w).addr) := by
    rw [h way w _ (row_lt _), ← bank_eq, ← bankIdx_eq]
    rfl
  show ((s.array way (i.s0_rbanks w)).next collide (Banked.ports i way (i.s0_rbanks w))).out =
    ((d.array way w).next collide (Dup.ports i way w)).out
  have hren : (Dup.ports i way w).ren = true := by simp [Dup.ports, hen, hv]
  have hridx : (Dup.ports i way w).ridx = c.row (i.read w).addr := rfl
  have hcollide : (i.write.way_en way && (c.bank i.write.addr = i.s0_rbanks w && i.write.valid) &&
      c.bankIdx (i.read w).addr = c.bankIdx i.write.addr) =
        ((Dup.ports i way w).wen && c.row (i.read w).addr = (Dup.ports i way w).widx) := by
    rw [← bank_eq, ← bankIdx_eq] at hplace
    change c.bank i.write.addr = i.s0_rbanks w ∧ _ ↔ _ at hplace
    rw [Bool.eq_iff_iff]
    simp only [Dup.ports, Bool.and_eq_true, decide_eq_true_eq, ← hplace]
    tauto
  rw [hports, Sram.next, Sram.next]
  simp only [hren, hridx, hcollide, hrow, if_true]
  rfl

end

/-! ## The result -/

/-- Ports that share a row of a bank ask for no way that a lower port of them does not
    ask for. -/
def In.Shares (i : In c) : Prop :=
  ∀ j w : Fin c.memWidth, j < w → (i.read j).valid = true → (i.read w).valid = true →
    i.s0_rbanks j = i.s0_rbanks w → i.s0_ridxs j = i.s0_ridxs w →
      ∀ way, (i.read w).way_en way = true → (i.read j).way_en way = true

/-- The first port on the bank reads another row. -/
def In.Nacked (i : In c) (w : Fin c.memWidth) : Prop :=
  ∃ j < w, (i.read j).valid = true ∧ i.s0_rbanks j = i.s0_rbanks w ∧
    c.row (i.read j).addr ≠ c.row (i.read w).addr ∧
    ∀ k < j, (i.read k).valid = true → i.s0_rbanks k ≠ i.s0_rbanks w

/-- Both arrays, on the same inputs. -/
structure Sys (c : Params) where
  banked : Banked c
  dup : Dup c

/-- From contents that agree. -/
def arrays (collide : c.Row → c.Row → c.Row) : Machine (Sys c) (In c) where
  start s := Agree s.banked s.dup
  ok _ i := i.Shares
  next s i := ⟨s.banked.next collide i, s.dup.next collide i⟩

section

variable {collide : c.Row → c.Row → c.Row} {s : Banked c} {i i' : In c} {w : Fin c.memWidth}

theorem agree_reach (hdvd : c.nBanks ∣ c.rows) {s : Sys c} (h : (arrays collide).Reach s) :
    Agree s.banked s.dup :=
  h.inv (fun _ h0 => h0) fun _ _ hag _ => agree_next hdvd hag

/-- On one bank, other rows are at other places. -/
theorem ridxs_ne_iff (hdvd : c.nBanks ∣ c.rows) {j : Fin c.memWidth}
    (hb : i.s0_rbanks j = i.s0_rbanks w) : i.s0_ridxs j ≠ i.s0_ridxs w ↔
      c.row (i.read j).addr ≠ c.row (i.read w).addr := by
  have hplace := place_iff hdvd (row_lt (i.read j).addr) (i.read w).addr
  rw [← bank_eq, ← bankIdx_eq] at hplace
  exact not_congr ⟨fun e => hplace.1 ⟨hb.symm, e⟩, fun e => (hplace.2 e).2⟩

theorem nacks_iff (hdvd : c.nBanks ∣ c.rows) (hv : (i.read w).valid = true) :
    ((s.next collide i).next collide i').nacks w = true ↔ i.Nacked w := by
  obtain ⟨j, hs⟩ := exists_server hv
  show (s.next collide i).s1_nacks w = true ↔ _
  rw [s1_nacks_next hs hv, ridxs_ne_iff hdvd hs.bank]
  constructor
  · intro hne
    have hlt : j < w := hs.place.resolve_left fun e => hne (by rw [e])
    exact ⟨j, hlt, hs.valid, hs.bank, hne, hs.first⟩
  · rintro ⟨k, -, hkv, hkb, hne, hfirst⟩
    -- the first port on the bank is one
    have hkj : k = j := by
      rcases lt_trichotomy k j with hlt | heq | hgt
      · exact absurd hkb (hs.first k hlt hkv)
      · exact heq
      · exact absurd hs.bank (hfirst j hgt hs.valid)
    exact hkj ▸ hne

/-- With two ports, the lower port is the first. -/
theorem nacked_iff (hw : c.memWidth ≤ 2) : i.Nacked w ↔
    ∃ j < w, (i.read j).valid = true ∧ i.s0_rbanks j = i.s0_rbanks w ∧
      c.row (i.read j).addr ≠ c.row (i.read w).addr := by
  constructor
  · rintro ⟨j, hlt, hv, hb, hne, -⟩
    exact ⟨j, hlt, hv, hb, hne⟩
  · rintro ⟨j, hlt, hv, hb, hne⟩
    refine ⟨j, hlt, hv, hb, hne, fun k hk => ?_⟩
    have : k.val < j.val := hk
    have : j.val < w.val := hlt
    have := w.isLt
    omega

/-- **The banked array refines the duplicated one**: a read is nacked two cycles later
    exactly when the first port on its bank reads another row, and else both arrays
    show the same row in the ways that it enabled. -/
theorem banked_refines_duplicated (r : (arrays collide).Run) (hdvd : c.nBanks ∣ c.rows) (t : ℕ)
    (w : Fin c.memWidth) (hv : ((r.input t).read w).valid = true) :
    ((r.state (t + 2)).banked.nacks w = true ↔ (r.input t).Nacked w) ∧
      (c.memWidth ≤ 2 → ((r.state (t + 2)).banked.nacks w = true ↔
        ∃ j < w, ((r.input t).read j).valid = true ∧
          (r.input t).s0_rbanks j = (r.input t).s0_rbanks w ∧
          c.row ((r.input t).read j).addr ≠ c.row ((r.input t).read w).addr)) ∧
      (r.state (t + 2)).dup.nacks w = false ∧
      ((r.state (t + 2)).banked.nacks w = false → ∀ way,
        ((r.input t).read w).way_en way = true →
          (r.state (t + 2)).banked.resp w way = (r.state (t + 2)).dup.resp w way) := by
  have hagree := agree_reach hdvd (r.reach t)
  have hnacks : (((r.state t).banked.next collide (r.input t)).next collide
      (r.input (t + 1))).nacks w = true ↔ (r.input t).Nacked w := nacks_iff hdvd hv
  have hstate : r.state (t + 2) =
      (arrays collide).next ((arrays collide).next (r.state t) (r.input t)) (r.input (t + 1)) := by
    rw [r.next, r.next]
  rw [hstate]
  refine ⟨hnacks, fun hw => hnacks.trans (nacked_iff hw), rfl, fun hno way hen => ?_⟩
  obtain ⟨j, hs⟩ := exists_server hv
  have hidx : (r.input t).s0_ridxs j = (r.input t).s0_ridxs w := by
    by_contra hne
    exact absurd (hno.symm.trans ((s1_nacks_next hs hv).2 hne)) (by simp)
  have hshare : ((r.input t).read j).way_en way = true := by
    rcases hs.place with rfl | hlt
    · exact hen
    · exact r.ok t j w hlt hs.valid hv hs.bank hidx way hen
  exact (resp_next hs).trans (out_next hdvd hagree hs hidx hv hen hshare)

end

/-! ## Three runs -/

/-- Some ports and banks, with rows of a byte. -/
def params (nBanks nSets memWidth : ℕ) (isPow2 : nBanks = 2 ^ Nat.clog 2 nBanks)
    (hle : memWidth ≤ nBanks) (hpos : 0 < nSets * 1 / nBanks) : Params :=
  ⟨nBanks, nSets, 1, 1, memWidth, 1, 8, isPow2, hle, hpos, Nat.one_pos⟩

/-- All ports read, each at its address; a byte may be written. -/
def input {c : Params} (addr : Fin c.memWidth → c.Addr) (valid : Bool) (write : Option (c.Addr × ℕ))
    (zero : c.Addr) : In c where
  read w := ⟨valid, addr w, fun _ => true⟩
  write :=
    match write with
    | some (a, x) => ⟨true, a, fun _ => true, fun _ => true, BitVec.ofNat _ x⟩
    | none => ⟨false, zero, fun _ => false, fun _ => false, 0⟩

theorem shares_input {c : Params} (addr : Fin c.memWidth → c.Addr) (valid : Bool)
    (write : Option (c.Addr × ℕ)) (zero : c.Addr) : (input addr valid write zero).Shares :=
  fun _ _ _ _ _ _ _ _ _ => rfl

/-- Memories of zeros. -/
def zeros (c : Params) : Sys c where
  banked :=
    { array := fun _ _ => ⟨fun _ _ => 0, fun _ => 0⟩
      s1_rbanks := fun _ => 0
      s1_ridxs := fun _ => 0
      s1_read_valids := fun _ => false
      s2_bank_selection := fun _ => 0
      s2_nacks := fun _ => false
      s2_bank_reads := fun _ _ _ => 0 }
  dup := ⟨fun _ _ => ⟨fun _ _ => 0, fun _ => 0⟩, fun _ _ _ => 0⟩

/-- From them, a read returns the old row. -/
def runOf (c : Params) (i : ℕ → In c) (h : ∀ t, (i t).Shares) :
    (arrays (c := c) fun old _ => old).Run :=
  Machine.Run.of (zeros c) i (fun _ _ _ _ => rfl) h

/-- Two ports and two banks: a byte is written to row 2, and both ports read it. -/
def twoPorts : Params := params 2 4 2 (by decide) (by decide) (by decide)

/-- A row is written, and both ports read it. -/
def twoPortsRun : (arrays (c := twoPorts) fun old _ => old).Run :=
  runOf twoPorts
    (fun t => input (fun _ => ⟨16, by decide⟩) (t = 1)
      (if t = 0 then some (⟨16, by decide⟩, 7) else none) ⟨0, by decide⟩)
    fun _ => shares_input _ _ _ _

theorem banked_refines_duplicated_twoPorts :
    (twoPortsRun.state 3).banked.resp (1 : Fin 2) (0 : Fin 1) =
      (twoPortsRun.state 3).dup.resp (1 : Fin 2) (0 : Fin 1) :=
  (banked_refines_duplicated twoPortsRun (dvd_of_isPow2 (a := 2) (b := 0) rfl rfl) 1 (1 : Fin 2)
    rfl).2.2.2 (by decide +kernel) (0 : Fin 1) rfl

/-- Three ports on bank 0, which read the rows 0, 4 and 0. -/
def threePorts : Params := params 4 8 3 (by decide) (by decide) (by decide)

/-- The second of three ports reads another row. -/
def threePortsRun : (arrays (c := threePorts) fun old _ => old).Run :=
  runOf threePorts
    (fun t => input (fun w => if w.val = 1 then ⟨32, by decide⟩ else ⟨0, by decide⟩) (t = 0)
      none ⟨0, by decide⟩)
    fun _ => shares_input _ _ _ _

/-- Five rows, of which two banks hold four: row 4 is written over row 0, which is
    read. -/
def fiveRows : Params := params 2 5 1 (by decide) (by decide) (by decide)

/-- Row 4 is written, then row 0 is read. -/
def fiveRowsRun : (arrays (c := fiveRows) fun old _ => old).Run :=
  runOf fiveRows
    (fun t => input (fun _ => ⟨0, by decide⟩) (t = 1)
      (if t = 0 then some (⟨32, by decide⟩, 7) else none) ⟨0, by decide⟩)
    fun _ => shares_input _ _ _ _

/-- The third port is not nacked, though the second reads another row of its bank; and
    rows that the banks do not hold are read as others. -/
theorem banked_refines_duplicated_fails :
    ((threePortsRun.state 2).banked.nacks (2 : Fin 3) = false ∧
      ((threePortsRun.input 0).read (2 : Fin 3)).valid = true ∧
      ∃ j < (2 : Fin 3), ((threePortsRun.input 0).read j).valid = true ∧
        (threePortsRun.input 0).s0_rbanks j = (threePortsRun.input 0).s0_rbanks (2 : Fin 3) ∧
        threePorts.row ((threePortsRun.input 0).read j).addr ≠
          threePorts.row ((threePortsRun.input 0).read (2 : Fin 3)).addr) ∧
      ((fiveRowsRun.input 1).read (0 : Fin 1)).valid = true ∧
      (fiveRowsRun.state 3).banked.nacks (0 : Fin 1) = false ∧
      ((fiveRowsRun.input 1).read (0 : Fin 1)).way_en (0 : Fin 1) = true ∧
      (fiveRowsRun.state 3).banked.resp (0 : Fin 1) (0 : Fin 1) ≠
        (fiveRowsRun.state 3).dup.resp (0 : Fin 1) (0 : Fin 1) := by
  refine ⟨⟨by decide +kernel, rfl, 1, by decide, rfl, rfl, by decide +kernel⟩, rfl,
    by decide +kernel, rfl, fun he => ?_⟩
  have hbanked : (fiveRowsRun.state 3).banked.resp (0 : Fin 1) (0 : Fin 1) (0 : Fin 1) = 7 := by
    decide +kernel
  have hdup : (fiveRowsRun.state 3).dup.resp (0 : Fin 1) (0 : Fin 1) (0 : Fin 1) = 0 := by
    decide +kernel
  rw [he, hdup] at hbanked
  exact absurd hbanked (by decide)

end BoomStop.BankedArray
