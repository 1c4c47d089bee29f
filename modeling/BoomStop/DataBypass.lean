/-
  The bypasses of the data cache (`dcache.scala`): a request reads the array in s0 and
  is answered in s2, a store is written from s3, and what lies between is passed on
  from the stores of the last three cycles.

  * `Geometry`, `Home`: rows of the array, and lines that stay in their ways;
  * `Sys`: the cache beside a memory of words, which a store changes in s2;
  * `Inv`: each request goes to the way of its line;
  * `peek_next`: what a cycle does to a word in the array;
  * `latest_store`: a request that hits sees the memory of words.
-/
import Mathlib.Data.Nat.ModEq
import BoomStop.PipeInterference
import BoomStop.Lib.Machine
import BoomStop.Lib.OneHot

namespace BoomStop.DataBypass

open Sync OneHot DCache

variable {T M n : ℕ}

/-! ## Lines and words -/

/-- A line has `refillCycles` rows, and the banks hold all rows. -/
structure Geometry (c : Params) (refillCycles : ℕ) : Prop where
  blockBytes : c.blockBytes = 8 * c.rowWords * refillCycles
  rows : c.numDCacheBanks * c.bankSize = c.nSets * refillCycles

/-- The ways of the lines in the cache. -/
structure Home (c : Params) (n : ℕ) where
  resident : ℕ → Prop
  way : ℕ → Fin n
  inj : ∀ b b', resident b → resident b' → b % c.nSets = b' % c.nSets → way b = way b' → b = b'

section

variable {c : Params} {refillCycles : ℕ} {a b : ℕ}

theorem row_eq (c : Params) (a : ℕ) : c.row a = wordAddr a / c.rowWords := by
  rw [Params.row, wordAddr, Nat.div_div_eq_div_mul]

theorem block_eq (hg : Geometry c refillCycles) (a : ℕ) :
    c.block a = c.row a / refillCycles := by
  rw [Params.block, Params.row, Nat.div_div_eq_div_mul, hg.blockBytes]

/-- The bank and the place in it are the row in the ways of the cache. -/
theorem row_mod (hg : Geometry c refillCycles) (hbank : c.bank a = c.bank b)
    (hidx : c.bankIdx a = c.bankIdx b) :
    c.row a % (c.nSets * refillCycles) = c.row b % (c.nSets * refillCycles) := by
  rw [← hg.rows, Nat.mod_mul, Nat.mod_mul]
  exact congrArg₂ (fun x y => x + c.numDCacheBanks * y) hbank hidx

/-- Resident words at one place are one. -/
theorem wordAddr_inj (hg : Geometry c refillCycles) (h : Home c n)
    (ha : h.resident (c.block a)) (hb : h.resident (c.block b))
    (hway : h.way (c.block a) = h.way (c.block b)) (hbank : c.bank a = c.bank b)
    (hidx : c.bankIdx a = c.bankIdx b) (hword : c.wordIdx a = c.wordIdx b) :
    wordAddr a = wordAddr b := by
  have hrow := row_mod hg hbank hidx
  have hset : c.block a % c.nSets = c.block b % c.nSets := by
    rw [block_eq hg, block_eq hg, ← Nat.mod_mul_left_div_self, hrow, Nat.mod_mul_left_div_self]
  have hblock := h.inj _ _ ha hb hset hway
  have hbeat : c.row a % refillCycles = c.row b % refillCycles := by
    rw [← Nat.mod_mul_left_mod (c.row a) c.nSets, hrow, Nat.mod_mul_left_mod]
  have hrow : c.row a = c.row b := by
    rw [← Nat.div_add_mod (c.row a) refillCycles, ← block_eq hg, hblock, block_eq hg, hbeat,
      Nat.div_add_mod]
  rw [row_eq, row_eq] at hrow
  change wordAddr a % c.rowWords = wordAddr b % c.rowWords at hword
  rw [← Nat.div_add_mod (wordAddr a) c.rowWords, hrow, hword, Nat.div_add_mod]

/-- A word is at one place. -/
theorem place_of_wordAddr (hg : Geometry c refillCycles) (h : wordAddr a = wordAddr b) :
    c.block a = c.block b ∧ c.bank a = c.bank b ∧ c.bankIdx a = c.bankIdx b ∧
      c.wordIdx a = c.wordIdx b := by
  have hrow : c.row a = c.row b := by rw [row_eq, row_eq, h]
  refine ⟨by rw [block_eq hg, block_eq hg, hrow], ?_, ?_, ?_⟩
  · rw [Params.bank, Params.bank, hrow]
  · rw [Params.bankIdx, Params.bankIdx, hrow]
  · exact congrArg (· % c.rowWords) h

end

/-- A word of the array, in the way of its line. -/
def peek {c : Params} (h : Home c n) (d : DataArray n) (a : ℕ) : BitVec 64 :=
  d (h.way (c.block a)) (c.bank a) (c.bankIdx a) (c.wordIdx a)

/-! ## The cache beside a memory of words -/

section

variable (c : Params) (r : Rocket) (h : Home c n)

/-- A valid tag is that of a line, in its way. -/
def TagsOk (tags : ℕ → Fin n → Meta) : Prop :=
  ∀ a way, (tags (c.idx a) way).tag = c.tag a → r.isValid (tags (c.idx a) way).coh = true →
    h.resident (c.block a) ∧ h.way (c.block a) = way

/-- What the miss file and the probe unit may do while the lines stay. -/
structure Ok (s : State T (M + 1) n) (i : In T (M + 1) n) : Prop where
  /-- tags are written for lines, in their ways -/
  tags : TagsOk c r h (s.tags_next i)
  /-- refills are written elsewhere -/
  refill : ∀ x, i.refill = some x → ∀ a, h.resident (c.block a) →
    x.way_en (h.way (c.block a)) = true → c.bank a = c.bank x.addr →
      c.bankIdx a ≠ c.bankIdx x.addr
  /-- a replay knows the way of its line -/
  replay : i.grant = some .t_replay → h.resident (c.block (i.s0_req 0).addr) ∧
    i.way_en = oneHot (h.way (c.block (i.s0_req 0).addr))
  /-- the other units do not write words -/
  other : i.grant ≠ some .t_lsu → i.grant ≠ some .t_replay →
    (i.s0_req 0).uop.mem_cmd.isWrite = false

/-- The cache, and a memory of words. -/
structure Sys (T M n : ℕ) where
  cache : State T (M + 1) n
  spec : ℕ → BitVec 64

/-- A store or an AMO that passes s2 changes its word. -/
def Sys.next (s : Sys T M n) (i : In T (M + 1) n) : Sys T M n where
  cache := s.cache.next c r i
  spec a :=
    let q := s.cache.s2.req 0
    if s.cache.s3_valid_next c r i && a = wordAddr q.addr then
      r.amoalu q.uop.mem_size q.addr q.uop.mem_cmd (s.spec a) q.data
    else s.spec a

/-- No request is in the pipeline, and the words are those of the array. -/
structure Sys.Idle (s : Sys T M n) : Prop where
  s1 : ∀ w, s.cache.s1.valid w = false
  s2 : ∀ w, s.cache.s2.valid w = false
  s3 : s.cache.s3.valid = false
  tags : TagsOk c r h s.cache.tags
  spec : ∀ a, h.resident (c.block a) → s.spec (wordAddr a) = peek h s.cache.data a

/-- The cache while its lines stay. -/
def cache : Machine (Sys T M n) (In T (M + 1) n) where
  start s := s.Idle c r h
  ok s i := Ok c r h s.cache i
  next s i := s.next c r i

/-- A request goes to the way of its line, or does not write. -/
structure Fits (type : ReqType) (q : Req T) (ways : Fin n → Bool) : Prop where
  home : type = .t_lsu ∨ type = .t_replay → ∀ way, ways way = true →
    h.resident (c.block q.addr) ∧ h.way (c.block q.addr) = way
  replay : type = .t_replay → ∃ way, ways way = true
  other : type ≠ .t_lsu → type ≠ .t_replay → q.uop.mem_cmd.isWrite = false

/-- The invariant of the stages. -/
structure Inv (s : State T (M + 1) n) : Prop where
  tags : TagsOk c r h s.tags
  s1 : ∀ w, s.s1.valid w = true → Fits c h s.s1.type (s.s1.req w) (s.s1_tag_match_way c r w)
  s2 : ∀ w, s.s2.valid w = true → Fits c h s.s2.type (s.s2.req w) (s.s2_tag_match_way w)
  s3 : s.s3.valid = true → h.resident (c.block s.s3.addr) ∧
    s.s3.way = oneHot (h.way (c.block s.s3.addr))

end

section

variable {c : Params} {r : Rocket} {h : Home c n} {refillCycles : ℕ}
  {s : State T (M + 1) n} {i j k : In T (M + 1) n} {w : Fin (M + 1)} {a : ℕ}

/-! ## The stages -/

theorem Fits.oneHot {type : ReqType} {q : Req T} {ways : Fin n → Bool} (hf : Fits c h type q ways)
    (ht : type = .t_lsu ∨ type = .t_replay) (hex : ∃ way, ways way = true) :
    h.resident (c.block q.addr) ∧ ways = oneHot (h.way (c.block q.addr)) := by
  obtain ⟨way, hway⟩ := hex
  have hhome := hf.home ht
  refine ⟨(hhome way hway).1, funext fun v => ?_⟩
  rw [Bool.eq_iff_iff, oneHot_eq_true]
  constructor
  · exact fun hv => (hhome v hv).2.symm
  · rintro rfl
    rwa [(hhome way hway).2]

theorem valid_s1 (hv : (s.next c r i).s1.valid w = true) : State.s0_valid i w = true := by
  change (State.s0_valid i w && _ && _ && _) = true at hv
  simp only [Bool.and_eq_true] at hv
  exact hv.1.1.1

theorem valid_s2 (hv : (s.next c r i).s2.valid w = true) : s.s1.valid w = true := by
  change (s.s1.valid w && _ && _ && _ && _) = true at hv
  simp only [Bool.and_eq_true] at hv
  exact hv.1.1.1.1

/-- Who sent a request. -/
theorem grant_of_valid (hv : State.s0_valid i w = true) :
    (i.grant = some .t_lsu ∧ i.lsu_valid w = true) ∨ ∃ t, i.grant = some t ∧ t ≠ .t_lsu ∧ w = 0 := by
  unfold State.s0_valid at hv
  split at hv
  · exact .inl ⟨by assumption, hv⟩
  · next t hne hg => exact .inr ⟨_, hg, by rintro rfl; exact hne rfl, of_decide_eq_true hv⟩
  · exact absurd hv Bool.false_ne_true

theorem fits_s1 (hinv : Inv c r h s) (hok : Ok c r h s i)
    (hv : (s.next c r i).s1.valid w = true) :
    Fits c h (s.next c r i).s1.type ((s.next c r i).s1.req w)
      ((s.next c r i).s1_tag_match_way c r w) := by
  have htype : (s.next c r i).s1.type = State.s0_type i := rfl
  have haddr : ((s.next c r i).s1.req w).addr = (i.s0_req w).addr := rfl
  obtain ⟨hg, -⟩ | ⟨t, hg, hne, rfl⟩ := grant_of_valid (valid_s1 hv)
  · have ht : State.s0_type i = .t_lsu := by rw [State.s0_type, hg]; rfl
    rw [htype, ht]
    refine ⟨fun _ way hway => ?_, by simp, by simp⟩
    rw [State.s1_tag_match_way, htype, ht, Bool.and_eq_true, decide_eq_true_eq] at hway
    exact hinv.tags _ way hway.1 hway.2
  · have ht : State.s0_type i = t := by rw [State.s0_type, hg]; rfl
    rw [htype, ht]
    by_cases hrep : t = .t_replay
    · subst hrep
      obtain ⟨hres, hen⟩ := hok.replay hg
      refine ⟨fun _ way hway => ?_, fun _ => ⟨h.way (c.block (i.s0_req 0).addr), ?_⟩, by simp⟩
      · rw [State.s1_tag_match_way, htype, ht] at hway
        change i.way_en way = true at hway
        rw [hen] at hway
        exact ⟨hres, (oneHot_eq_true.1 hway).symm⟩
      · rw [State.s1_tag_match_way, htype, ht]
        show i.way_en _ = true
        rw [hen]
        exact oneHot_eq_true.2 rfl
    · refine ⟨fun hor => absurd hor (by simp [hne, hrep]), fun he => absurd he hrep, fun _ _ => ?_⟩
      exact hok.other (by simp [hg, hne]) (by simp [hg, hrep])

/-- A store that passes s2 came from the LSU or from the miss file. -/
theorem type_of_s3 (hf : Fits c h s.s2.type (s.s2.req 0) (s.s2_tag_match_way 0))
    (hv : s.s3_valid_next c r i = true) : s.s2.type = .t_lsu ∨ s.s2.type = .t_replay := by
  simp only [State.s3_valid_next, Bool.and_eq_true] at hv
  by_contra hno
  rw [not_or] at hno
  exact absurd (hv.1.1.2.symm.trans (hf.other hno.1 hno.2)) (by simp)

/-- A request that hits has a way. -/
theorem exists_way (hf : Fits c h s.s2.type (s.s2.req w) (s.s2_tag_match_way w))
    (ht : s.s2.type = .t_lsu ∧ s.s2_hit r i w = true ∨ s.s2.type = .t_replay) :
    ∃ way, s.s2_tag_match_way w way = true := by
  rcases ht with ⟨ht, hhit⟩ | ht
  · have hmatch : s.s2_tag_match w = true := by
      simp only [State.s2_hit, ht, reduceCtorEq, decide_false, Bool.or_false, Bool.and_eq_true]
        at hhit
      exact hhit.1.1.1
    obtain ⟨way, -, hway⟩ := List.any_eq_true.1 hmatch
    exact ⟨way, hway⟩
  · exact hf.replay ht

theorem inv_next (hinv : Inv c r h s) (hok : Ok c r h s i) : Inv c r h (s.next c r i) := by
  refine ⟨hok.tags, fun w hv => fits_s1 hinv hok hv, fun w hv => ?_, fun hv => ?_⟩
  · obtain ⟨hhome, hrep, hother⟩ := hinv.s1 w (valid_s2 hv)
    exact ⟨hhome, hrep, hother⟩
  · have hv : s.s3_valid_next c r i = true := hv
    have hs2 : s.s2.valid 0 = true ∧ s.s2_hit r i 0 = true := by
      simp only [State.s3_valid_next, Bool.and_eq_true] at hv
      exact hv.1.1.1
    have hf := hinv.s2 0 hs2.1
    have ht := type_of_s3 hf hv
    exact hf.oneHot ht (exists_way hf (ht.imp_left fun ht => ⟨ht, hs2.2⟩))

theorem inv_reach {s : Sys T M n} (hr : (cache c r h).Reach s) : Inv c r h s.cache :=
  hr.inv
    (fun s h0 => ⟨h0.tags, fun w hv => absurd hv (by simp [h0.s1 w]),
      fun w hv => absurd hv (by simp [h0.s2 w]), fun hv => absurd hv (by simp [h0.s3])⟩)
    fun _ _ hinv hok => inv_next hinv hok

/-! ## The words -/

/-- A store matches a word address. -/
def hits (x : StoreReg n) (a : ℕ) : Bool := x.valid && wordAddr a = wordAddr x.addr

/-- What a cycle does to a word in the array: it writes the store in s3. -/
theorem peek_next (hg : Geometry c refillCycles) (hinv : Inv c r h s) (hok : Ok c r h s i)
    (ha : h.resident (c.block a)) : peek h (s.next c r i).data a =
      if hits s.s3 a then s.s3.data else peek h s.data a := by
  have hdata : (s.next c r i).data = (s.dataWrite c i).elim s.data (s.data.write c) := by
    simp only [State.next, State.data_next]
    cases s.dataWrite c i <;> rfl
  rw [hdata, State.dataWrite]
  cases hv : s.s3.valid with
  | false =>
    rw [hits, hv, Bool.false_and, if_neg Bool.false_ne_true, if_neg Bool.false_ne_true]
    cases hx : i.refill with
    | none => rfl
    | some x =>
      -- a refill goes to another way or another place
      refine if_neg fun hw => ?_
      simp only [Bool.and_eq_true, decide_eq_true_eq] at hw
      exact hok.refill x hx a ha hw.1.1.1 hw.1.1.2 hw.1.2
  | true =>
    obtain ⟨hres, hway⟩ := hinv.s3 hv
    rw [hits, hv, Bool.true_and, if_pos rfl, hway]
    show (if _ then _ else _) = _
    refine if_congr ?_ rfl rfl
    simp only [Bool.and_eq_true, decide_eq_true_eq, oneHot_eq_true]
    constructor
    · rintro ⟨⟨⟨hw, hb⟩, hi⟩, hk⟩
      exact wordAddr_inj hg h ha hres hw hb hi hk
    · intro he
      obtain ⟨hblock, hb, hi, hk⟩ := place_of_wordAddr hg he
      exact ⟨⟨⟨by rw [hblock], hb⟩, hi⟩, hk⟩

theorem mux1H_oneHot (v : Fin n) (x : Fin n → BitVec 64) : DCache.mux1H (oneHot v) x = x v := by
  have hop : ∀ a b : BitVec 64, (a ||| b) ||| b = a ||| b := fun a b => by
    rw [BitVec.or_assoc, BitVec.or_self]
  rw [DCache.mux1H, foldl_select hop (oneHot_eq_true.2 rfl) (fun _ hj => oneHot_eq_true.1 hj),
    if_pos (List.mem_finRange v)]
  exact BitVec.zero_or

/-- A request that hits reads the array as it was in s0, and the stores since. -/
theorem word_of_contents {t : State T (M + 1) n} (ht : t = (s.next c r i).next c r j)
    (hinv : Inv c r h t) (hv : t.s2.valid w = true)
    (hop : t.s2.type = .t_lsu ∧ t.s2_hit r k w = true ∧ t.s2_nack_data c w = false ∨
      t.s2.type = .t_replay) :
    h.resident (c.block (t.s2.req w).addr) ∧ t.s2_data_word c w =
      if hits t.s3 (t.s2.req w).addr then t.s3.data
      else if hits t.s4 (t.s2.req w).addr then t.s4.data
      else if hits t.s5 (t.s2.req w).addr then t.s5.data
      else peek h s.data (t.s2.req w).addr := by
  subst ht
  have hf := hinv.s2 w hv
  have hop' := hop.imp_left fun hlsu => And.intro hlsu.1 hlsu.2.1
  obtain ⟨hres, hone⟩ := hf.oneHot (hop.imp_left And.left) (exists_way hf hop')
  refine ⟨hres, ?_⟩
  -- who sent the request, two cycles ago
  have htype : ((s.next c r i).next c r j).s2.type = State.s0_type i := rfl
  have hgrant : (i.grant = some .t_lsu ∧ i.lsu_valid w = true) ∨
      (i.grant = some .t_replay ∧ w = 0) := by
    rcases grant_of_valid (valid_s1 (valid_s2 hv)) with hg | ⟨g, hg, hne, rfl⟩
    · exact .inl hg
    · refine .inr ⟨?_, rfl⟩
      rw [htype, State.s0_type, hg] at hop
      rw [hg]
      exact congrArg some (hop.resolve_left fun hlsu => hne hlsu.1)
  have hnack : ((s.next c r i).next c r j).data_regs.nack c w = false := by
    rcases hop with ⟨-, -, hn⟩ | hrep
    · exact hn
    · obtain ⟨hg, -⟩ | ⟨-, rfl⟩ := hgrant
      · rw [htype, State.s0_type, hg] at hrep
        exact absurd hrep (by decide)
      · exact DataRegs.nack_zero
  have hways : (s.contents c r i j).ways c r (i.s0_req w) i.grant i.way_en =
      ((s.next c r i).next c r j).s2_tag_match_way w := by
    funext way
    change _ = (s.next c r i).s1_tag_match_way c r w way
    obtain ⟨hg, -⟩ | ⟨hg, -⟩ := hgrant <;>
      simp [State.s1_tag_match_way, State.Contents.ways, State.contents, State.next, State.s1_next,
        State.s0_type, hg, State.updateMask]
  rw [State.s2_data_word_of_read hgrant hnack, hways, hone, State.Contents.word, mux1H_oneHot]
  exact State.find_bypass _ _ _ _ _

/-- A store of the LSU that passes s2 is not nacked by the array. -/
theorem not_nack_of_s3 {t : State T (M + 1) n} (ht : t = (s.next c r i).next c r j)
    (htype : t.s2.type = .t_lsu) (hv : t.s3_valid_next c r k = true) :
    t.s2_nack_data c 0 = false := by
  have hvalid : t.s2.valid 0 = true := by
    simp only [State.s3_valid_next, Bool.and_eq_true] at hv
    exact hv.1.1.1.1
  have hsend : t.s2.send_resp_or_nack 0 = true := by
    subst ht
    have hs : ((s.next c r i).next c r j).s2.send_resp_or_nack 0 =
      State.s0_send_resp_or_nack i 0 := rfl
    rcases grant_of_valid (valid_s1 (valid_s2 hvalid)) with ⟨hg, hl⟩ | ⟨g, hg, hne, -⟩
    · rw [hs, State.s0_send_resp_or_nack, hg]
      exact hl
    · have htype : State.s0_type i = .t_lsu := htype
      rw [State.s0_type, hg] at htype
      exact absurd htype hne
  by_contra hno
  have hnack : t.s2_nack c r k 0 = true := by
    rw [State.s2_nack, htype, (Bool.not_eq_false _).mp hno]
    simp
  simp only [State.s3_valid_next, State.s2_send_nack, hsend, hnack, Bool.and_self, Bool.not_true,
    Bool.and_false] at hv
  exact absurd hv Bool.false_ne_true

/-! ## Runs -/

/-- An operation in s2: a request that hits and that the array does not nack, or a
    replay. -/
def Hit (c : Params) (r : Rocket) (s : State T (M + 1) n) (i : In T (M + 1) n)
    (w : Fin (M + 1)) : Prop :=
  s.s2.valid w = true ∧
    (s.s2.type = .t_lsu ∧ s.s2_hit r i w = true ∧ s.s2_nack_data c w = false ∨
      s.s2.type = .t_replay)

section

variable (run : (cache c r h (T := T) (M := M)).Run)

theorem cache_succ (t : ℕ) :
    (run.state (t + 1)).cache = (run.state t).cache.next c r (run.input t) := by
  rw [run.next]
  rfl

/-- Nothing is in s2 in the first two cycles. -/
theorem exists_sub_two {t : ℕ} (hv : (run.state t).cache.s2.valid w = true) :
    ∃ u, t = u + 2 := by
  have h0 : (run.state 0).Idle c r h := run.start
  rcases t with _ | _ | u
  · exact absurd hv (by simp [h0.s2 w])
  · rw [cache_succ] at hv
    exact absurd (valid_s2 hv) (by simp [h0.s1 w])
  · exact ⟨u, rfl⟩

theorem peek_succ (hg : Geometry c refillCycles) (t : ℕ) (ha : h.resident (c.block a)) :
    peek h (run.state (t + 1)).cache.data a =
      if hits (run.state t).cache.s3 a then (run.state t).cache.s3.data
      else peek h (run.state t).cache.data a := by
  rw [cache_succ]
  exact peek_next hg (inv_reach (run.reach t)) (run.ok t) ha

/-- The memory of words is the array, with the store in s3. -/
def Current (t : ℕ) : Prop := ∀ a, h.resident (c.block a) →
  (run.state t).spec (wordAddr a) =
    if hits (run.state t).cache.s3 a then (run.state t).cache.s3.data
    else peek h (run.state t).cache.data a

/-- Then an operation in s2 sees it. -/
theorem word_of_current (hg : Geometry c refillCycles) {t : ℕ} (hcur : Current run t)
    (hop : Hit c r (run.state t).cache (run.input t) w) :
    (run.state t).cache.s2_data_word c w =
      (run.state t).spec (wordAddr ((run.state t).cache.s2.req w).addr) := by
  obtain ⟨u, rfl⟩ := exists_sub_two run hop.1
  have hinv := fun v => inv_reach (run.reach v)
  obtain ⟨hres, hword⟩ := word_of_contents (s := (run.state u).cache)
    ((cache_succ run (u + 1)).trans (by rw [cache_succ run u])) (hinv _) hop.1 hop.2
  -- the stores of the last three cycles, as they were in s3
  have hs4 : (run.state (u + 2)).cache.s4 = (run.state (u + 1)).cache.s3 := by
    rw [cache_succ]
    rfl
  have hs5 : (run.state (u + 2)).cache.s5 = (run.state u).cache.s3 := by
    rw [cache_succ, cache_succ]
    rfl
  rw [hword, hcur _ hres, peek_succ run hg (u + 1) hres, peek_succ run hg u hres, hs4, hs5]

theorem current (hg : Geometry c refillCycles) (t : ℕ) : Current run t := by
  induction t with
  | zero =>
    intro a ha
    have h0 : (run.state 0).Idle c r h := run.start
    rw [h0.spec a ha, hits, h0.s3, Bool.false_and, if_neg Bool.false_ne_true]
  | succ t ih =>
    intro a ha
    have hinv := inv_reach (run.reach t)
    set s := (run.state t).cache with hs
    have hspec : (run.state (t + 1)).spec (wordAddr a) =
        if hits (s.next c r (run.input t)).s3 a then
          r.amoalu (s.s2.req 0).uop.mem_size (s.s2.req 0).addr (s.s2.req 0).uop.mem_cmd
            ((run.state t).spec (wordAddr a)) (s.s2.req 0).data
        else (run.state t).spec (wordAddr a) := by
      rw [run.next]
      rfl
    rw [hspec, cache_succ, ← hs]
    cases hh : hits (s.next c r (run.input t)).s3 a with
    | false =>
      rw [if_neg Bool.false_ne_true, if_neg Bool.false_ne_true, ih a ha,
        peek_next hg hinv (run.ok t) ha]
    | true =>
      -- a store to this word: its operand is the word so far
      obtain ⟨hv, haddr⟩ : s.s3_valid_next c r (run.input t) = true ∧
          wordAddr a = wordAddr (s.s2.req 0).addr := by
        change (_ && decide (wordAddr a = wordAddr (s.s2.req 0).addr)) = true at hh
        rwa [Bool.and_eq_true, decide_eq_true_eq] at hh
      have hs2 : s.s2.valid 0 = true ∧ s.s2_hit r (run.input t) 0 = true := by
        simp only [State.s3_valid_next, Bool.and_eq_true] at hv
        exact hv.1.1.1
      obtain ⟨u, rfl⟩ := exists_sub_two run hs2.1
      have hop : Hit c r s (run.input (u + 2)) 0 := by
        refine ⟨hs2.1, (type_of_s3 (hinv.s2 0 hs2.1) hv).imp_left fun ht => ⟨ht, hs2.2, ?_⟩⟩
        exact not_nack_of_s3 ((cache_succ run (u + 1)).trans (by rw [cache_succ run u])) ht hv
      rw [if_pos rfl, if_pos rfl, haddr, ← word_of_current run hg ih hop]
      rfl

/-- **A hit sees the latest store**: what an operation takes as its word in s2, in any
    pipe, is the word with all stores and AMOs that passed s2 before. -/
theorem latest_store (hg : Geometry c refillCycles) (t : ℕ)
    (hop : Hit c r (run.state t).cache (run.input t) w) :
    (run.state t).cache.s2_data_word c w =
      (run.state t).spec (wordAddr ((run.state t).cache.s2.req w).addr) :=
  word_of_current run hg (current run hg t) hop

end

end

/-! ## A store and a load -/

open PipeInterference (rocket params idleUop idleReq idleIn reset)

/-- Line 0 is there. -/
def oneLine : Home params 1 where
  resident b := b = 0
  way _ := 0
  inj _ _ hb hb' _ _ := hb.trans hb'.symm

theorem geometry_params : Geometry params 8 := ⟨rfl, rfl⟩

/-- Its tag is valid, and dirty. -/
def oneLineSys : Sys 1 1 1 where
  cache := { reset with tags := fun idx _ => if idx = 0 then ⟨0, 3⟩ else ⟨0, 0⟩ }
  spec _ := 0

theorem idle_oneLineSys : oneLineSys.Idle params rocket oneLine where
  s1 _ := rfl
  s2 _ := rfl
  s3 := rfl
  tags a way htag hvalid := by
    by_cases hidx : params.idx a = 0
    · have htag : params.tag a = 0 := by
        rw [← htag]
        simp [oneLineSys, hidx]
      have hblock : params.block a / 2 = 0 := htag
      have hset : params.block a % 2 = 0 := hidx
      refine ⟨?_, Subsingleton.elim _ _⟩
      show params.block a = 0
      omega
    · simp [oneLineSys, hidx, rocket] at hvalid
  spec _ _ := rfl

/-- A store of 7 to word 1 goes out through pipe 0, and then a load through pipe 1. -/
def storeLoad : ℕ → In 1 2 1
  | 0 =>
    { idleIn with
      grant := some .t_lsu
      lsu_valid := fun w => w = 0
      s0_req := fun _ =>
        ⟨{ idleUop with mem_cmd := .M_XWR, mem_size := 3, uses_stq := true }, 8, 7, false⟩ }
  | 1 =>
    { idleIn with
      grant := some .t_lsu
      lsu_valid := fun w => w = 1
      s0_req := fun _ => ⟨{ idleUop with mem_size := 3, uses_ldq := true }, 8, 0, false⟩ }
  | _ => idleIn

theorem ok_storeLoad (t : ℕ) : Ok params rocket oneLine
    ((cache params rocket oneLine).stream oneLineSys storeLoad t).cache (storeLoad t) := by
  have hmeta : (storeLoad t).meta_write = none := by rcases t with _ | _ | t <;> rfl
  have hquiet : (storeLoad t).refill = none ∧ (storeLoad t).grant ≠ some .t_replay ∧
      ((storeLoad t).grant ≠ some .t_lsu →
        ((storeLoad t).s0_req 0).uop.mem_cmd.isWrite = false) := by
    rcases t with _ | _ | t <;> simp [storeLoad, idleIn, idleReq, idleUop]
    rfl
  have htags : ∀ t, ((cache params rocket oneLine).stream oneLineSys storeLoad t).cache.tags =
      oneLineSys.cache.tags := by
    intro t
    induction t with
    | zero => rfl
    | succ t ih =>
      rw [← ih]
      rcases t with _ | _ | t <;> rfl
  refine ⟨?_, by simp [hquiet.1], fun hg => absurd hg hquiet.2.1, fun hg _ => hquiet.2.2 hg⟩
  rw [State.tags_next, hmeta, htags]
  exact idle_oneLineSys.tags

/-- The run of `storeLoad`. -/
def storeLoadRun : (cache params rocket oneLine (T := 1) (M := 1)).Run :=
  .of oneLineSys storeLoad idle_oneLineSys ok_storeLoad

set_option maxRecDepth 4000 in
/-- The load takes the word from the store in s3. -/
theorem latest_store_storeLoad :
    (storeLoadRun.state 3).cache.s2_data_word params 1 = (storeLoadRun.state 3).spec 1 ∧
      (storeLoadRun.state 3).spec 1 = 7 :=
  ⟨latest_store storeLoadRun geometry_params 3
    ⟨by decide +kernel, .inl ⟨by decide +kernel, by decide +kernel, by decide +kernel⟩⟩,
    by decide +kernel⟩

end BoomStop.DataBypass
