/-
  The data array in the pipeline of the cache (`dcache.scala`).  The pipeline
  keeps all rows in one array, and the registers of the stages of
  `BoomBankedDataArray` apart from it (`DataRegs`); `BankedArray` has a memory
  for each bank, with an output of its own.

  * `Geometry`: both have the same parameters;
  * `Holds`: the array and the registers have what the banks have;
  * `holds_next`: every cycle keeps that, if a memory reads the old row;
  * `reads_alike`: in every run a read gets the same answer from both.
-/
import BoomStop.BankedArray
import BoomStop.DCachePipe

namespace BoomStop.BankedArray

open Sync OneHot
open DCache (DataArray DataRead DataWrite DataRegs)

variable {c : Params} {p : DCache.Params}

/-- The parameters of the cache are those of the array, which has banks. -/
structure Geometry (c : Params) (p : DCache.Params) : Prop where
  encDataBits : c.encDataBits = 64
  nBanks : p.numDCacheBanks = c.nBanks
  banked : c.nBanks ≠ 1
  rowBytes : 8 * p.rowWords = 2 ^ c.rowOffBits
  bankSize : p.bankSize = 2 ^ c.bidxBits

/-- A row, as the pipeline has it. -/
def rowOf (x : c.Row) : DCache.Row := fun k =>
  if h : k < c.rowWords then (x ⟨k, h⟩).setWidth 64 else 0

namespace In

variable (i : In c)

/-- The reads that the pipeline sends, -/
def reads (w : Fin c.memWidth) : Option (DataRead c.nWays) :=
  if (i.read w).valid then some ⟨(i.read w).addr, (i.read w).way_en⟩ else none

/-- and the write. -/
def writes : Option (DataWrite c.nWays) :=
  if i.write.valid then
    some ⟨i.write.addr, i.write.way_en,
      fun k => if h : k < c.rowWords then i.write.wmask ⟨k, h⟩ else false,
      rowOf (words i.write.data)⟩
  else none

end In

/-- The array and the registers of the pipeline have what the banks have. -/
structure Holds (s : Banked c) (a : DataArray c.nWays) (r : DataRegs c.nWays c.memWidth) :
    Prop where
  array : ∀ way b j, a way b j = rowOf ((s.array way b).mem j)
  out : ∀ way b, r.s1_bank_reads b way = rowOf (s.array way b).out
  valid : r.s1_read_valids = s.s1_read_valids
  bank : ∀ w, s.s1_read_valids w = true → r.s1_rbanks w = s.s1_rbanks w
  idx : ∀ w, s.s1_read_valids w = true → r.s1_ridxs w = s.s1_ridxs w

/-- The array of the pipeline, after a cycle. -/
def nextArray (p : DCache.Params) (a : DataArray c.nWays) (i : In c) : DataArray c.nWays :=
  i.writes.elim a (DataArray.write p a)

/-- A word is written if its bit is set. -/
theorem rowOf_written (x : SramPorts c) (old : c.Row) (k : ℕ) : rowOf (x.written old) k =
    if (if h : k < c.rowWords then x.mask ⟨k, h⟩ else false) then rowOf x.data k else rowOf old k := by
  by_cases hk : k < c.rowWords
  · simp only [rowOf, dif_pos hk, SramPorts.written]
    split_ifs <;> rfl
  · simp [rowOf, dif_neg hk]

/-! ## The requests -/

section

variable {i i' : In c} {s : Banked c} {a : DataArray c.nWays} {r : DataRegs c.nWays c.memWidth}
  {b : ℕ} {w j : Fin c.memWidth} {way : Fin c.nWays}

theorem row_addr (g : Geometry c p) (x : c.Addr) : p.row x = c.row x := by
  rw [DCache.Params.row, g.rowBytes, Params.row, Nat.shiftRight_eq_div_pow]

theorem bank_addr (g : Geometry c p) (x : c.Addr) : p.bank x = c.bank x := by
  rw [DCache.Params.bank, row_addr g, g.nBanks, bank_eq, Params.bankOf]

theorem bankIdx_addr (g : Geometry c p) (x : c.Addr) : p.bankIdx x = c.bankIdx x := by
  rw [DCache.Params.bankIdx, row_addr g, g.nBanks, g.bankSize, bankIdx_eq, Params.idxOf]

theorem reads_eq (hv : (i.read w).valid = true) :
    i.reads w = some ⟨(i.read w).addr, (i.read w).way_en⟩ := if_pos hv

theorem isSome_reads : (i.reads w).isSome = (i.read w).valid := by
  rw [In.reads]
  cases (i.read w).valid <;> rfl

theorem rbank_reads (g : Geometry c p) (hv : (i.read w).valid = true) :
    DataRegs.rbank p i.reads w = i.s0_rbanks w :=
  (DataRegs.rbank_eq (reads_eq hv)).trans (bank_addr g _)

theorem ridx_reads (g : Geometry c p) (hv : (i.read w).valid = true) :
    DataRegs.ridx p i.reads w = i.s0_ridxs w :=
  (DataRegs.ridx_eq (reads_eq hv)).trans (bankIdx_addr g _)

/-- Both serve the same port. -/
theorem grant_eq (g : Geometry c p) : ((i.reads w).isSome &&
    !DataRegs.s0_bank_conflict p i.reads w && DataRegs.rbank p i.reads w = b) =
      i.s0_bank_read_gnts b w := by
  rw [isSome_reads]
  cases hv : (i.read w).valid with
  | false => simp [In.s0_bank_read_gnts, In.s0_do_bank_read, In.s0_read_valids, hv]
  | true =>
    have hconflict : DataRegs.s0_bank_conflict p i.reads w = i.s0_bank_conflicts w := by
      rw [DataRegs.s0_bank_conflict, In.s0_bank_conflicts]
      refine List.any_congr rfl fun j => ?_
      rw [isSome_reads, rbank_reads g hv]
      cases hj : (i.read j).valid with
      | false => simp [In.s0_read_valids, hj]
      | true => simp [In.s0_read_valids, hj, rbank_reads g hj]
    rw [hconflict, rbank_reads g hv, In.s0_bank_read_gnts, In.s0_do_bank_read, In.s0_read_valids, hv]
    simp [Bool.and_comm]

theorem gnts_of_granted (g : Geometry c p) (h : DataRegs.granted p i.reads b = some j) :
    i.s0_bank_read_gnts b = oneHot j := by
  have hj := Fin.eq_true_of_find?_eq_some h
  rw [grant_eq g] at hj
  ext k
  rw [Bool.eq_iff_iff, oneHot_eq_true]
  refine ⟨fun hk => ?_, fun hk => hk ▸ hj⟩
  -- of two ports the later one has a conflict
  simp only [In.s0_bank_read_gnts, In.s0_do_bank_read, In.s0_bank_conflicts, Bool.and_eq_true,
    decide_eq_true_eq, Bool.not_eq_true', List.any_eq_false, List.mem_finRange, true_implies,
    not_and] at hj hk
  obtain ⟨hjb, hjv, hjc⟩ := hj
  obtain ⟨hkb, hkv, hkc⟩ := hk
  rcases lt_trichotomy k j with hlt | heq | hgt
  · exact absurd (hkb.trans hjb.symm) (hjc k hlt hkv)
  · exact heq
  · exact absurd (hjb.trans hkb.symm) (hkc j hgt hjv)

theorem gnts_of_not_granted (g : Geometry c p) (h : DataRegs.granted p i.reads b = none) :
    i.s0_bank_read_gnts b j = false := by
  rw [← grant_eq g]
  exact Fin.find?_eq_none_iff.1 h j

/-! ## A cycle -/

/-- What a bank shows: the row that the pipeline reads for the port that it
    serves. -/
theorem out_eq (g : Geometry c p) (h : Holds s a r) :
    DataRegs.bankRead p a i.reads r b way = rowOf ((s.next (fun old _ => old) i).array way b).out := by
  have hout : ((s.next (fun old _ => old) i).array way b).out =
      if (Banked.ports i way b).ren then (s.array way b).mem (Banked.ports i way b).ridx
      else (s.array way b).out := by
    show ((s.array way b).next _ _).out = _
    rw [Sram.next]
    simp only [ite_self]
  rw [hout, DataRegs.bankRead]
  cases hgr : DataRegs.granted p i.reads b with
  | none =>
    have hren : (Banked.ports i way b).ren = false := by
      simp [Banked.ports, gnts_of_not_granted g hgr]
    rw [hren, if_neg Bool.false_ne_true]
    exact h.out way b
  | some j =>
    have hgnts := gnts_of_granted g hgr
    obtain ⟨⟨q, hq⟩, hb⟩ := DataRegs.read_of_granted hgr
    have hv : (i.read j).valid = true := by rw [← isSome_reads, hq]; rfl
    have hany : ((List.finRange c.memWidth).any (oneHot j)) = true :=
      List.any_eq_true.2 ⟨j, List.mem_finRange j, oneHot_eq_true.2 rfl⟩
    have hren : (Banked.ports i way b).ren = (i.read j).way_en way := by
      rw [Banked.ports, hgnts, any_oneHot, hany, Bool.and_true]
    have hridx : (Banked.ports i way b).ridx = c.bankIdx (i.read j).addr := by
      rw [Banked.ports, hgnts, mux1H_oneHot]
      rfl
    simp only [hren, hridx, reads_eq hv, apply_ite rowOf, bankIdx_addr g, h.array, h.out]

/-- A cycle keeps what both have. -/
theorem holds_next (g : Geometry c p) (h : Holds s a r) :
    Holds (s.next (fun old _ => old) i) (nextArray p a i) (DataRegs.next p a i.reads r) where
  array way b j := by
    have hmem : ((s.next (fun old _ => old) i).array way b).mem j =
        if i.write.way_en way && (c.bank i.write.addr = b && i.write.valid) &&
          j = c.bankIdx i.write.addr then (Banked.ports i way b).written ((s.array way b).mem j)
        else (s.array way b).mem j := rfl
    rw [hmem, nextArray, In.writes]
    cases hv : i.write.valid with
    | false =>
      simp only [Bool.and_false, Bool.false_and, Bool.false_eq_true, if_false]
      exact h.array way b j
    | true =>
      funext k
      simp only [if_true, Option.elim_some, DataArray.write, bank_addr g, bankIdx_addr g, h.array,
        Bool.and_true]
      by_cases hsel : i.write.way_en way = true ∧ c.bank i.write.addr = b ∧
          j = c.bankIdx i.write.addr
      · obtain ⟨hway, rfl, rfl⟩ := hsel
        simp only [hway, decide_true, Bool.and_self, Bool.true_and, if_true, rowOf_written]
        rfl
      · rw [if_neg, if_neg]
        · simpa only [Bool.and_eq_true, decide_eq_true_eq, and_assoc] using hsel
        · simp only [Bool.and_eq_true, decide_eq_true_eq]
          rintro ⟨⟨⟨hway, hbank⟩, hidx⟩, -⟩
          exact hsel ⟨hway, hbank.symm, hidx⟩
  out way b := out_eq g h
  valid := funext fun w => isSome_reads
  bank w hw := rbank_reads g hw
  idx w hw := ridx_reads g hw

/-! ## What a read gets -/

/-- The port that serves a read in the first stage. -/
theorem pipe_selection_eq (h : Holds s a r) (hv : s.s1_read_valids w = true) :
    s.s1_pipe_selection w = oneHot (r.pipeSelection w) := by
  set same : Fin c.memWidth → Bool := fun j => j < w && r.s1_read_valids j &&
    r.s1_rbanks j = r.s1_rbanks w with hsame
  have hlow {j : Fin c.memWidth} (hj : j < w) :
      same j = (s.s1_read_valids j && s.s1_rbanks j = s.s1_rbanks w) := by
    simp only [hsame, hj, h.valid, h.bank w hv]
    cases hjv : s.s1_read_valids j with
    | false => simp
    | true => simp [h.bank j hjv]
  have hsel : r.pipeSelection w = (Fin.find? same).getD w := rfl
  rw [hsel]
  cases hf : Fin.find? same with
  | none =>
    refine priorityEncoderOH_eq (by simp) fun j hj => ?_
    have hno := Fin.find?_eq_none_iff.1 hf j
    rw [Option.getD_none] at hj
    rw [if_pos hj, ← hlow hj, hno]
  | some k =>
    obtain ⟨hk, hfirst⟩ := Fin.find?_eq_some_iff.1 hf
    have hkw : k < w := by
      simp only [hsame, Bool.and_eq_true, decide_eq_true_eq] at hk
      exact hk.1.1
    refine priorityEncoderOH_eq ?_ fun j hj => ?_
    · rw [Option.getD_some, if_pos hkw, ← hlow hkw, hk]
    · rw [Option.getD_some] at hj
      rw [if_pos (hj.trans hkw), ← hlow (hj.trans hkw)]
      simpa using hfirst j hj

/-- A read is served by its own port, or by the read of a lower one. -/
theorem pipeSelection_cases : r.pipeSelection w = w ∨
    r.pipeSelection w < w ∧ r.s1_read_valids (r.pipeSelection w) = true := by
  rw [DataRegs.pipeSelection]
  cases hf : Fin.find? fun j => j < w && r.s1_read_valids j && r.s1_rbanks j = r.s1_rbanks w with
  | none => exact .inl rfl
  | some k =>
    have hk := Fin.eq_true_of_find?_eq_some hf
    simp only [Bool.and_eq_true, decide_eq_true_eq] at hk
    exact .inr hk.1

theorem valid_pipeSelection (h : Holds s a r) (hv : s.s1_read_valids w = true) :
    s.s1_read_valids (r.pipeSelection w) = true := by
  rcases pipeSelection_cases (r := r) (w := w) with heq | ⟨-, hk⟩
  · rw [heq, hv]
  · rw [← h.valid, hk]

/-- A read is nacked by both or by none. -/
theorem nacks_eq (g : Geometry c p) (h : Holds s a r) (hv : s.s1_read_valids w = true) :
    (s.next (fun old _ => old) i).nacks w = (DataRegs.next p a i.reads r).nack p w := by
  have hsv := valid_pipeSelection h hv
  show s.s1_nacks w = _
  rw [DataRegs.nack, if_neg (by rw [g.nBanks]; exact g.banked)]
  show _ = r.s1_nack w
  rw [Banked.s1_nacks, pipe_selection_eq h hv, any_oneHot, DataRegs.s1_nack, h.valid, h.idx w hv,
    h.idx _ hsv, Banked.s1_ridx_match]
  split_ifs with hlt
  · simp
  · have hself := pipeSelection_cases.resolve_right fun hk => hlt hk.1
    simp [hself]

/-- A read that is not nacked gets the same row. -/
theorem resp_eq (g : Geometry c p) (h : Holds s a r) (hv : s.s1_read_valids w = true) :
    (DataRegs.next p a i.reads r).resp p w way = rowOf ((s.next (fun old _ => old) i).resp w way) := by
  have hsel : s.s1_bank_selection w = r.s1_rbanks (r.pipeSelection w) := by
    rw [Banked.s1_bank_selection, pipe_selection_eq h hv, mux1H_oneHot,
      h.bank _ (valid_pipeSelection h hv)]
  rw [DataRegs.resp, if_neg (by rw [g.nBanks]; exact g.banked)]
  show r.s1_bank_reads (r.s1_rbanks (r.pipeSelection w)) way =
    rowOf (s.array way (s.s1_bank_selection w)).out
  rw [hsel, h.out]

/-- The banks, and the array with the registers, with the same requests. -/
def sideBySide (c : Params) (p : DCache.Params) :
    Machine (Banked c × DataArray c.nWays × DataRegs c.nWays c.memWidth) (In c) where
  start x := Holds x.1 x.2.1 x.2.2
  ok _ _ := True
  next x i :=
    (x.1.next (fun old _ => old) i, nextArray p x.2.1 i, DataRegs.next p x.2.1 i.reads x.2.2)

theorem holds_reach (g : Geometry c p)
    {x : Banked c × DataArray c.nWays × DataRegs c.nWays c.memWidth}
    (h : (sideBySide c p).Reach x) : Holds x.1 x.2.1 x.2.2 := by
  refine h.inv (P := fun x => Holds x.1 x.2.1 x.2.2) (fun x h0 => ?_) fun x i hx _ => ?_
  · exact h0
  · exact holds_next g hx

/-- **The pipeline reads what the banks read**: two cycles after a read the same
    reads are nacked, and the others get the same rows. -/
theorem reads_alike (g : Geometry c p)
    {x z : Banked c × DataArray c.nWays × DataRegs c.nWays c.memWidth}
    (h : (sideBySide c p).Reach x) (hv : (i.read w).valid = true)
    (hz : z = (sideBySide c p).next ((sideBySide c p).next x i) i') :
    z.1.nacks w = z.2.2.nack p w ∧ ∀ way, z.2.2.resp p w way = rowOf (z.1.resp w way) := by
  subst hz
  have hnext := holds_next (i := i) g (holds_reach g h)
  exact ⟨nacks_eq g hnext hv, fun way => resp_eq g hnext hv⟩

end

end BoomStop.BankedArray
