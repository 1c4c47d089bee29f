/-
  The write bypass of the predictor's tables (`bim.scala`, `hbim.scala`, and
  class `TageTable` of `tage.scala`).  A table is written lane by lane; beside
  it a few whole rows are kept for the updates that come before a prediction
  has seen the last one.

  * `Bypass.next`: a cycle of a table with its bypass, which all three share;
  * `bim`, `hbim`, `tageTable`: each with its own rows, lanes and counters;
  * `Coherent`: the old counter of a lane is the last that was written there,
    or the update's own;
  * `Trained`: the update that last wrote the entry is the last one that wrote
    the lane;
  * `wrbypass_coherent`: a hit on a lane that was trained so is coherent.
-/
import BoomStop.Predictor
import BoomStop.Lib.Machine
import BoomStop.Lib.RingOrder
import Mathlib.Logic.Function.Basic
import Mathlib.Tactic.IntervalCases

namespace BoomStop.Bpd

open Ifu Sync RingOrder

variable {p : Params} {K V : Type} {N : ℕ}

/-! ## A table with its bypass -/

/-- What a table is made for: its sets, its lanes, the row of a key, and what
    the walk after reset writes. -/
structure Table (K V : Type) where
  nSets : ℕ
  lanes : ℕ
  row : K → ℕ
  resetV : V

/-- What an update asks of a table: `new` is the counter of a lane from its old
    one, in the lanes of `uses`. -/
structure Write (K V : Type) where
  key : K
  writes : Bool
  mask : ℕ → Bool
  uses : ℕ → Bool
  old : ℕ → V
  new : ℕ → V → V

/-- The registers and the memory.  Ghosts: the time; when an update last wrote
    a lane of a row, and what; when one last wrote an entry of the bypass; the
    lanes that updates have written since the entry was taken for its key. -/
structure Bypass (K V : Type) (N : ℕ) where
  doing_reset : Bool
  reset_idx : ℕ
  table : ℕ → ℕ → V
  wrbypass_keys : Fin N → K
  wrbypass : Fin N → ℕ → V
  wrbypass_enq_idx : Fin N
  time : ℕ
  written : ℕ → ℕ → Option (ℕ × V)
  filled : Fin N → Option ℕ
  covered : Fin N → ℕ → Bool

namespace Bypass

variable [DecidableEq K] (c : Table K V) (s : Bypass K V N) (u : Write K V)

/-- `wrbypass_hit` and `wrbypass_hit_idx`. -/
def hit : Option (Fin N) :=
  if s.doing_reset then none
  else (List.finRange N).find? fun i => decide (s.wrbypass_keys i = u.key)

/-- The counter that a lane starts from. -/
def old_value (w : ℕ) : V :=
  match s.hit u with
  | some e => s.wrbypass e w
  | none => u.old w

/-- `update_wdata`. -/
def wdata (w : ℕ) : V := u.new w (s.old_value u w)

/-- The update writes the bypass. -/
def fills : Bool := u.writes && (List.range c.lanes).any u.mask

/-- The entry that it writes. -/
def entry : Fin N := (s.hit u).getD s.wrbypass_enq_idx

/-- The update writes a lane of a row of the table. -/
def stores (r w : ℕ) : Bool := !s.doing_reset && u.writes && decide (r = c.row u.key) && u.mask w

/-- One cycle. -/
def next [NeZero N] : Bypass K V N where
  doing_reset := s.doing_reset && s.reset_idx != c.nSets - 1
  reset_idx := (s.reset_idx + s.doing_reset.toNat) % c.nSets
  table r w := if s.doing_reset then if r = s.reset_idx then c.resetV else s.table r w
    else if s.stores c u r w then s.wdata u w else s.table r w
  wrbypass_keys := if fills c u then Function.update s.wrbypass_keys (s.entry u) u.key
    else s.wrbypass_keys
  wrbypass := if fills c u then Function.update s.wrbypass (s.entry u) (s.wdata u) else s.wrbypass
  wrbypass_enq_idx := if fills c u && (s.hit u).isNone then wrapInc s.wrbypass_enq_idx
    else s.wrbypass_enq_idx
  time := s.time + 1
  written r w := if s.stores c u r w then some (s.time, s.wdata u w) else s.written r w
  filled := if fills c u then
      Function.update s.filled (s.entry u) (if s.doing_reset then none else some s.time)
    else s.filled
  covered := if fills c u then
      Function.update s.covered (s.entry u) fun w =>
        !s.doing_reset && (u.mask w || (s.hit u).isSome && s.covered (s.entry u) w)
    else s.covered

/-- **The old counters are coherent**: where the update hits, it takes what was
    last written to the lane, or, if nothing that the entry covers was, its
    own. -/
def Coherent : Prop :=
  ∀ e, s.hit u = some e → ∀ w < c.lanes, u.uses w = true →
    if s.covered e w then ∃ t, s.written (c.row u.key) w = some (t, s.old_value u w)
    else s.old_value u w = u.old w

/-- Where the update hits, the lanes that it trains were last written by the
    update that last wrote the entry. -/
def Trained : Prop :=
  ∀ e, s.hit u = some e → ∀ w < c.lanes, u.uses w = true →
    ∃ t, s.filled e = some t ∧ (s.written (c.row u.key) w).map Prod.fst = some t

end Bypass

/-- The table on a stream of updates of any form, from its reset on. -/
def bypassed {ι : Type} [DecidableEq K] (N : ℕ) [NeZero N] (c : Table K V) (f : ι → Write K V) :
    Machine (Bypass K V N) ι where
  start s := s.doing_reset = true ∧ s.reset_idx = 0 ∧ s.wrbypass_enq_idx = 0 ∧ s.time = 0 ∧
    (∀ r w, s.written r w = none) ∧ (∀ e, s.filled e = none) ∧ ∀ e w, s.covered e w = false
  ok _ _ := True
  next s i := s.next c (f i)

/-! ## The three tables -/

/-- `nWrBypassEntries`. -/
abbrev nWrBypassEntries : ℕ := 2

/-- `bimWrite`. -/
def bimWrite (v : BitVec 2) (taken : Bool) : BitVec 2 :=
  if v = 3 ∧ taken = true then 3
  else if v = 0 ∧ taken = false then 0
  else if taken then v + 1 else v - 1

/-- The lanes that an update trains. -/
def BankUpdate.trains (u : BankUpdate p) (w : ℕ) : Bool := u.br_mask w || u.cfi_at w

/-- `was_taken`. -/
def BankUpdate.was_taken (u : BankUpdate p) (w : ℕ) : Bool :=
  u.cfi_at w && (u.cfi_is_br && u.br_mask w && u.cfi_taken || u.cfi_is_jal)

/-- `bims` of the metadata. -/
def bims (metadata w : ℕ) : BitVec 2 := BitVec.ofNat 2 (metadata / 4 ^ w)

/-- An update of a table of two-bit counters, and what is in the lanes that it
    does not care about. -/
structure BimUpdate (p : Params) where
  bits : BankUpdate p
  dontCare : ℕ → BitVec 2

/-- An update at an index. -/
def BimUpdate.write (index : ℕ) (u : BimUpdate p) : Write ℕ (BitVec 2) where
  key := index
  writes := u.bits.valid && u.bits.is_commit_update
  mask := u.bits.trains
  uses := u.bits.trains
  old := bims u.bits.metadata
  new w v := if u.bits.trains w then bimWrite v (u.bits.was_taken w) else u.dontCare w

/-- `BIMBranchPredictorBank`; the updates are those of its register
    `s1_update`. -/
def bim (p : Params) (nSets : ℕ) : Machine (Bypass ℕ (BitVec 2) nWrBypassEntries) (BimUpdate p) :=
  bypassed nWrBypassEntries ⟨nSets, p.bankWidth, id, 2⟩
    fun u => u.write (fetchIdx p u.bits.pc % 2 ^ Nat.clog 2 nSets)

/-- `BoomHBIMParams`. -/
structure HBIMParams where
  nSets : ℕ
  useLocal : Bool
  histLength : ℕ

/-- `s1_update_index` of `HBIMBranchPredictorBank`. -/
def hbimIndex (params : HBIMParams) (u : BankUpdate p) : ℕ :=
  (foldedHist params.histLength (Nat.clog 2 params.nSets)
    (if params.useLocal then u.lhist else u.ghist) ^^^ fetchIdx p u.pc) % 2 ^ Nat.clog 2 params.nSets

/-- `HBIMBranchPredictorBank`. -/
def hbim (p : Params) (params : HBIMParams) :
    Machine (Bypass ℕ (BitVec 2) nWrBypassEntries) (BimUpdate p) :=
  bypassed nWrBypassEntries ⟨params.nSets, p.bankWidth, id, 2⟩
    fun u => u.write (hbimIndex params u.bits)

/-- What a `TageTable` is made for. -/
structure TageParams where
  nRows : ℕ
  tagSz : ℕ
  histLength : ℕ

/-- `compute_tag_and_hash`. -/
def tagAndHash (params : TageParams) (unhashed_idx hist : ℕ) : ℕ × ℕ :=
  let idx := (unhashed_idx ^^^ foldedHist params.histLength (Nat.clog 2 params.nRows) hist) %
    2 ^ Nat.clog 2 params.nRows
  let tag := (unhashed_idx / 2 ^ Nat.clog 2 params.nRows ^^^
    foldedHist params.histLength params.tagSz hist) % 2 ^ params.tagSz
  (tag, idx)

/-- `inc_ctr`. -/
def incCtr (ctr : BitVec 3) (taken : Bool) : BitVec 3 :=
  if !taken then if ctr = 0 then 0 else ctr - 1
  else if ctr = 7 then 7 else ctr + 1

/-- The update ports of a `TageTable`, as far as its counters depend on them. -/
structure TageUpdate (p : Params) where
  update_mask : ℕ → Bool
  update_taken : ℕ → Bool
  update_alloc : ℕ → Bool
  update_old_ctr : ℕ → BitVec 3
  update_pc : BitVec p.va
  update_hist : ℕ

/-- The write of a table of TAGE. -/
def TageUpdate.write (params : TageParams) (u : TageUpdate p) : Write (ℕ × ℕ) (BitVec 3) where
  key := tagAndHash params (fetchIdx p u.update_pc) u.update_hist
  writes := true
  mask := u.update_mask
  uses w := u.update_mask w && !u.update_alloc w
  old := u.update_old_ctr
  new w v := if u.update_alloc w then if u.update_taken w then 4 else 3
    else incCtr v (u.update_taken w)

/-- `TageTable`: its counters; the valid bits, the tags and the bits of use that
    stand beside them are left out. -/
def tageTable (p : Params) (params : TageParams) :
    Machine (Bypass (ℕ × ℕ) (BitVec 3) nWrBypassEntries) (TageUpdate p) :=
  bypassed nWrBypassEntries ⟨params.nRows, p.bankWidth, Prod.snd, 0⟩ (TageUpdate.write params)

/-! ## The invariant -/

namespace Bypass

variable [DecidableEq K] {c : Table K V} {s : Bypass K V N} {u : Write K V}

theorem hit_eq_some {e : Fin N} (h : s.hit u = some e) : s.doing_reset = false ∧
    s.wrbypass_keys e = u.key ∧ ∀ e' < e, s.wrbypass_keys e' ≠ u.key := by
  rw [hit] at h
  split_ifs at h with hr
  obtain ⟨hk, as, bs, hl, hno⟩ := List.find?_eq_some_iff_append.1 h
  refine ⟨Bool.not_eq_true _ ▸ hr, of_decide_eq_true hk, fun e' he' heq => ?_⟩
  have hsorted := List.pairwise_lt_finRange N
  have hmem : e' ∈ as := by
    have hin := List.mem_finRange e'
    rw [hl] at hsorted hin
    rcases List.mem_append.1 hin with hin | hin
    · exact hin
    · rcases List.mem_cons.1 hin with rfl | hin
      · exact absurd he' (lt_irrefl _)
      · have hlt := (List.pairwise_cons.1 (List.pairwise_append.1 hsorted).2.1).1 e' hin
        exact absurd he' (lt_asymm hlt)
  have := hno e' hmem
  rw [heq, decide_eq_true rfl] at this
  cases this

theorem hit_eq_none (hr : s.doing_reset = false) (h : s.hit u = none) (e : Fin N) :
    s.wrbypass_keys e ≠ u.key := by
  rw [hit, hr, if_neg Bool.false_ne_true] at h
  intro heq
  have := List.find?_eq_none.1 h e (List.mem_finRange e)
  rw [heq, decide_eq_true rfl] at this
  exact this rfl

/-- What the bypass keeps of the table. -/
structure Inv (c : Table K V) (s : Bypass K V N) : Prop where
  filled : ∀ e t, s.filled e = some t → t < s.time ∧ s.doing_reset = false
  /-- what an update wrote is in the table -/
  written : ∀ r w t v, s.written r w = some (t, v) →
    t < s.time ∧ s.doing_reset = false ∧ s.table r w = v
  /-- an entry that an update wrote is found under its key -/
  first : ∀ e t, s.filled e = some t → ∀ e' < e, s.wrbypass_keys e' ≠ s.wrbypass_keys e
  /-- and holds what this update wrote to the table -/
  holds : ∀ e t, s.filled e = some t → ∀ r w v, s.written r w = some (t, v) →
    r = c.row (s.wrbypass_keys e) ∧ s.wrbypass e w = v ∧ s.covered e w = true

omit [DecidableEq K] in
theorem inv_of_start (hw : ∀ r w, s.written r w = none) (hf : ∀ e, s.filled e = none) :
    Inv c s := by
  refine ⟨fun e t h => ?_, fun r w t v h => ?_, fun e t h => ?_, fun e t h => ?_⟩
  · rw [hf e] at h
    cases h
  · rw [hw r w] at h
    cases h
  · rw [hf e] at h
    cases h
  · rw [hf e] at h
    cases h

omit [DecidableEq K] in
theorem stores_eq_true {r w : ℕ} (h : s.stores c u r w = true) : s.doing_reset = false ∧
    u.writes = true ∧ r = c.row u.key ∧ u.mask w = true := by
  simpa [stores, and_assoc] using h

/-- The entry of an update is the first one with its key afterwards. -/
theorem entry_first (hr : s.doing_reset = false) (e : Fin N) (he : e < s.entry u) :
    s.wrbypass_keys e ≠ u.key := by
  cases hh : s.hit u with
  | some e' =>
    rw [entry, hh, Option.getD_some] at he
    exact (hit_eq_some hh).2.2 e he
  | none => exact hit_eq_none hr hh e

/-- An entry that an update wrote is not taken again before it is given up. -/
theorem entry_eq_of_key (h : Inv c s) (hr : s.doing_reset = false) {e : Fin N} {t : ℕ}
    (ht : s.filled e = some t) (hk : s.wrbypass_keys e = u.key) : s.entry u = e := by
  cases hh : s.hit u with
  | none => exact absurd hk (hit_eq_none hr hh e)
  | some e' =>
    obtain ⟨-, hk', hfirst⟩ := hit_eq_some hh
    rw [entry, hh, Option.getD_some]
    rcases lt_trichotomy e e' with hlt | heq | hlt
    · exact absurd hk (hfirst e hlt)
    · exact heq.symm
    · exact absurd (hk'.trans hk.symm) (h.first e t ht e' hlt)

variable [NeZero N]

/-- The entry that the update writes. -/
theorem next_entry (hf : fills c u = true) :
    (s.next c u).wrbypass_keys (s.entry u) = u.key ∧
      (s.next c u).wrbypass (s.entry u) = s.wdata u := by
  simp only [next, hf, if_true, Function.update_self, and_self]

theorem next_other (e : Fin N) (h : fills c u = true → e ≠ s.entry u) :
    (s.next c u).wrbypass_keys e = s.wrbypass_keys e ∧
      (s.next c u).wrbypass e = s.wrbypass e ∧ (s.next c u).filled e = s.filled e ∧
      (s.next c u).covered e = s.covered e := by
  cases hf : fills c u with
  | false => simp only [next, hf, Bool.false_eq_true, if_false, and_self]
  | true => simp only [next, hf, if_true, Function.update_of_ne (h hf), and_self]

theorem written_next {r w t : ℕ} {v : V} (h : (s.next c u).written r w = some (t, v)) :
    (s.stores c u r w = true ∧ t = s.time ∧ v = s.wdata u w) ∨
      (s.stores c u r w = false ∧ s.written r w = some (t, v)) := by
  cases hs : s.stores c u r w with
  | true =>
    simp only [next, hs, if_true, Option.some.injEq, Prod.mk.injEq] at h
    exact .inl ⟨rfl, h.1.symm, h.2.symm⟩
  | false =>
    simp only [next, hs, Bool.false_eq_true, if_false] at h
    exact .inr ⟨rfl, h⟩

theorem filled_next {e : Fin N} {t : ℕ} (h : (s.next c u).filled e = some t) :
    (fills c u = true ∧ e = s.entry u ∧ s.doing_reset = false ∧ t = s.time) ∨
      ((fills c u = true → e ≠ s.entry u) ∧ s.filled e = some t) := by
  by_cases hw : fills c u = true ∧ e = s.entry u
  · obtain ⟨hf, rfl⟩ := hw
    simp only [next, hf, if_true, Function.update_self] at h
    split_ifs at h with hr
    exact .inl ⟨hf, rfl, Bool.not_eq_true _ ▸ hr, (Option.some.inj h).symm⟩
  · have hne : fills c u = true → e ≠ s.entry u := fun hf he => hw ⟨hf, he⟩
    exact .inr ⟨hne, (next_other e hne).2.2.1 ▸ h⟩

theorem doing_reset_next (hr : s.doing_reset = false) : (s.next c u).doing_reset = false := by
  simp only [next, hr, Bool.false_and]

theorem Inv.written_next (h : Inv c s) {r w t : ℕ} {v : V}
    (hw : (s.next c u).written r w = some (t, v)) :
    t < (s.next c u).time ∧ (s.next c u).doing_reset = false ∧ (s.next c u).table r w = v := by
  rcases Bypass.written_next hw with ⟨hs, rfl, rfl⟩ | ⟨hs, hold⟩
  · have hr := (stores_eq_true hs).1
    refine ⟨Nat.lt_succ_self _, doing_reset_next hr, ?_⟩
    simp only [next, hr, hs, Bool.false_eq_true, if_false, if_true]
  · obtain ⟨hlt, hr, htab⟩ := h.written r w t v hold
    refine ⟨Nat.lt_succ_of_lt hlt, doing_reset_next hr, ?_⟩
    simp only [next, hr, hs, Bool.false_eq_true, if_false, htab]

theorem Inv.first_next (h : Inv c s) {e : Fin N} {t : ℕ}
    (ht : (s.next c u).filled e = some t) (e' : Fin N) (he : e' < e) :
    (s.next c u).wrbypass_keys e' ≠ (s.next c u).wrbypass_keys e := by
  rcases filled_next ht with ⟨hf, rfl, hr, -⟩ | ⟨hne, hold⟩
  · rw [(next_entry hf).1, (next_other e' fun _ => ne_of_lt he).1]
    exact entry_first hr e' he
  · rw [(next_other e hne).1]
    by_cases hw : fills c u = true ∧ e' = s.entry u
    · obtain ⟨hf, rfl⟩ := hw
      rw [(next_entry hf).1]
      -- else the update would have hit this entry
      intro heq
      exact hne hf (entry_eq_of_key h (h.filled e t hold).2 hold heq.symm).symm
    · rw [(next_other e' fun hf he' => hw ⟨hf, he'⟩).1]
      exact h.first e t hold e' he

theorem Inv.holds_next (h : Inv c s) {e : Fin N} {t : ℕ}
    (ht : (s.next c u).filled e = some t) {r w : ℕ} {v : V}
    (hw : (s.next c u).written r w = some (t, v)) :
    r = c.row ((s.next c u).wrbypass_keys e) ∧ (s.next c u).wrbypass e w = v ∧
      (s.next c u).covered e w = true := by
  rcases filled_next ht with ⟨hf, rfl, hr, rfl⟩ | ⟨hne, hold⟩
  · rcases Bypass.written_next hw with ⟨hs, -, rfl⟩ | ⟨-, hold⟩
    · obtain ⟨-, -, rfl, hm⟩ := stores_eq_true hs
      rw [(next_entry hf).1, (next_entry hf).2]
      refine ⟨rfl, rfl, ?_⟩
      simp only [next, hf, if_true, Function.update_self, hr, hm, Bool.not_false, Bool.true_or,
        Bool.and_self]
    · exact absurd (h.written r w _ v hold).1 (lt_irrefl _)
  · obtain ⟨hk, hb, -, hc⟩ := next_other (c := c) (u := u) (s := s) e hne
    rcases Bypass.written_next hw with ⟨-, rfl, -⟩ | ⟨-, hwold⟩
    · exact absurd (h.filled e _ hold).1 (lt_irrefl _)
    · rw [hk, hb, hc]
      exact h.holds e t hold r w v hwold

theorem Inv.next (h : Inv c s) (u : Write K V) : Inv c (s.next c u) where
  filled e t ht := by
    rcases filled_next ht with ⟨-, -, hr, rfl⟩ | ⟨-, hold⟩
    · exact ⟨Nat.lt_succ_self _, doing_reset_next hr⟩
    · exact ⟨Nat.lt_succ_of_lt (h.filled e t hold).1, doing_reset_next (h.filled e t hold).2⟩
  written _ _ _ _ hw := h.written_next hw
  first _ _ ht := h.first_next ht
  holds _ _ ht _ _ _ hw := h.holds_next ht hw

theorem inv_of_reach {ι : Type} {f : ι → Write K V} (h : (bypassed N c f).Reach s) : Inv c s :=
  h.inv (fun _ h0 => inv_of_start h0.2.2.2.2.1 h0.2.2.2.2.2.1) fun _ _ h _ => h.next _

omit [NeZero N] in
/-- A lane that was last written with the entry is in it as it is in the table. -/
theorem Inv.coherent (h : Inv c s) (ht : s.Trained c u) : s.Coherent c u := by
  intro e he w hw hu
  obtain ⟨t, hf, hwr⟩ := ht e he w hw hu
  obtain ⟨⟨t', v⟩, hv, htt⟩ := Option.map_eq_some_iff.1 hwr
  obtain rfl : t' = t := htt
  obtain ⟨-, hval, hcov⟩ := h.holds e t' hf _ w v hv
  have hold : s.old_value u w = v := by
    rw [old_value, he]
    exact hval
  rw [if_pos hcov, hold]
  exact ⟨t', hv⟩

end Bypass

/-- **A hit on a lane that was trained with the entry is coherent**, in every
    run of each table. -/
theorem wrbypass_coherent :
    (∀ (nSets : ℕ) (s : Bypass ℕ (BitVec 2) nWrBypassEntries) (u : BimUpdate p),
      (bim p nSets).Reach s →
      let c : Table ℕ (BitVec 2) := ⟨nSets, p.bankWidth, id, 2⟩
      let write := u.write (fetchIdx p u.bits.pc % 2 ^ Nat.clog 2 nSets)
      s.Trained c write → s.Coherent c write) ∧
    (∀ (params : HBIMParams) (s : Bypass ℕ (BitVec 2) nWrBypassEntries) (u : BimUpdate p),
      (hbim p params).Reach s →
      let c : Table ℕ (BitVec 2) := ⟨params.nSets, p.bankWidth, id, 2⟩
      let write := u.write (hbimIndex params u.bits)
      s.Trained c write → s.Coherent c write) ∧
    ∀ (params : TageParams) (s : Bypass (ℕ × ℕ) (BitVec 3) nWrBypassEntries) (u : TageUpdate p),
      (tageTable p params).Reach s →
      let c : Table (ℕ × ℕ) (BitVec 3) := ⟨params.nRows, p.bankWidth, Prod.snd, 0⟩
      s.Trained c (u.write params) → s.Coherent c (u.write params) :=
  ⟨fun _ _ _ h ht => (Bypass.inv_of_reach h).coherent ht,
    fun _ _ _ h ht => (Bypass.inv_of_reach h).coherent ht,
    fun _ _ _ h ht => (Bypass.inv_of_reach h).coherent ht⟩

/-! ## Two runs -/

/-- A commit update of the branches in some lanes. -/
def branches (valid : Bool) (br_mask : ℕ → Bool) : BimUpdate twoWide where
  bits :=
    { valid := valid, is_mispredict_update := false, is_repair_update := false
      btb_mispredicts := fun _ => false, pc := 0, br_mask := br_mask, cfi_idx_valid := false
      cfi_idx := 0, cfi_taken := false, cfi_mispredicted := false, cfi_is_br := false
      cfi_is_jal := false, cfi_is_jalr := false, ghist := 0, lhist := 0, target := 0
      metadata := 10 }
  dontCare _ := 0

/-- An update of one lane. -/
def lane (k : ℕ) : BimUpdate twoWide := branches true fun w => w = k

/-- The table after reset. -/
def resetBypass : Bypass ℕ (BitVec 2) nWrBypassEntries where
  doing_reset := true
  reset_idx := 0
  table _ _ := 0
  wrbypass_keys _ := 1
  wrbypass _ _ := 0
  wrbypass_enq_idx := 0
  time := 0
  written _ _ := none
  filled _ := none
  covered _ _ := false

/-- The walk of two rows, and a branch in the first lane. -/
def laneRun : Bypass ℕ (BitVec 2) nWrBypassEntries :=
  (bim twoWide 2).run resetBypass
    [branches false fun _ => false, branches false fun _ => false, lane 0]

theorem laneRun_reach : (bim twoWide 2).Reach laneRun :=
  Machine.reach_run _ (.start ⟨rfl, rfl, rfl, rfl, fun _ _ => rfl, fun _ => rfl, fun _ _ => rfl⟩)
    ⟨trivial, trivial, trivial, trivial⟩

theorem hit_laneRun (k : ℕ) : laneRun.hit ((lane k).write 0) = some 0 := by
  have h : ∀ u : Write ℕ (BitVec 2), u.key = 0 → laneRun.hit u = some 0 := by
    intro u hu
    rw [Bypass.hit, hu]
    decide
  exact h _ rfl

/-- The lane of the first update, once more. -/
theorem wrbypass_coherent_lane :
    laneRun.Coherent ⟨2, twoWide.bankWidth, id, 2⟩ ((lane 0).write 0) := by
  refine wrbypass_coherent.1 2 laneRun (lane 0) laneRun_reach fun e he w hw hu => ?_
  obtain rfl : (0 : Fin 2) = e := Option.some.inj ((hit_laneRun 0).symm.trans he)
  have hw : w < 2 := hw
  interval_cases w
  · exact ⟨2, by decide, by decide⟩
  · revert hu
    decide

/-- **Another lane takes what nothing wrote**: the entry has no counter for it,
    and the update brings one. -/
theorem not_coherent : ¬∀ s : Bypass ℕ (BitVec 2) nWrBypassEntries, (bim twoWide 2).Reach s →
    ∀ u : BimUpdate twoWide, s.Coherent ⟨2, twoWide.bankWidth, id, 2⟩
      (u.write (fetchIdx twoWide u.bits.pc % 2 ^ Nat.clog 2 2)) := by
  intro h
  have hc := h laneRun laneRun_reach (lane 1) 0 (hit_laneRun 1) 1 (by decide) (by decide)
  rw [if_neg (by decide)] at hc
  revert hc
  decide

end BoomStop.Bpd
