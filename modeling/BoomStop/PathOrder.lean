/-
  The uops of one packet (`frontend.scala`, `fetch-buffer.scala`), with the
  optimisation of short forward branches off.

  * `packet_seq`: the instructions of a packet follow each other, and the last
    one leads to the next packet;
  * `fromSlot`: each uop is its slot, and the core can rebuild its address;
  * `packetUops`: what the path through the packet is, as far as the frontend
    knows.
-/
import BoomStop.BranchUnit
import Mathlib.Data.List.Forall2

namespace BoomStop.Exu

open Ifu Sync Parcels

variable {p : Params}

/-! ## Sequences of instructions -/

/-- The size of an instruction. -/
def instSize {va : ℕ} (is_rvc : Bool) : BitVec va := if is_rvc then 2 else 4

/-- The address behind a sequence that starts at `a`. -/
def nextOf (a : BitVec p.va) (l : List (FetchedInst p)) : BitVec p.va :=
  l.foldl (fun _ u => u.pc + instSize u.is_rvc) a

/-- Each instruction is at the address behind the one before it. -/
def SeqFrom : BitVec p.va → List (FetchedInst p) → Prop
  | _, [] => True
  | a, u :: l => u.pc = a ∧ SeqFrom (u.pc + instSize u.is_rvc) l

theorem nextOf_concat (a : BitVec p.va) (l : List (FetchedInst p)) (u : FetchedInst p) :
    nextOf a (l ++ [u]) = u.pc + instSize u.is_rvc := by
  rw [nextOf, List.foldl_append]
  rfl

theorem seqFrom_append {l l' : List (FetchedInst p)} :
    ∀ {a : BitVec p.va}, SeqFrom a (l ++ l') ↔ SeqFrom a l ∧ SeqFrom (nextOf a l) l' := by
  induction l with
  | nil =>
    intro a
    exact ⟨fun h => ⟨trivial, h⟩, fun h => h.2⟩
  | cons u l ih =>
    intro a
    have h := ih (a := u.pc + instSize u.is_rvc)
    constructor
    · rintro ⟨h1, h2⟩
      exact ⟨⟨h1, (h.1 h2).1⟩, (h.1 h2).2⟩
    · rintro ⟨⟨h1, h2⟩, h3⟩
      exact ⟨h1, h.2 ⟨h2, h3⟩⟩

theorem SeqFrom.initial {a : BitVec p.va} {l l' : List (FetchedInst p)} (h : SeqFrom a l')
    (hl : l <+: l') : SeqFrom a l := by
  obtain ⟨t, rfl⟩ := hl
  exact (seqFrom_append.1 h).1

/-- Halves at consecutive addresses are consecutive instructions. -/
theorem seq_instructions (cfg : F3Cfg) (a : BitVec p.va) (xs : List (Parcel p))
    (h : ∀ k b, xs[k]? = some b → b.1 = a + BitVec.ofNat p.va (k <<< 1)) :
    SeqFrom a (instructions cfg xs) ∧
      match (cut isLong xs).rest with
      | none => nextOf a (instructions cfg xs) = a + BitVec.ofNat p.va (xs.length <<< 1)
      | some b => nextOf a (instructions cfg xs) = b.1 ∧
          b.1 + (4 : BitVec p.va) = a + BitVec.ofNat p.va ((xs.length + 1) <<< 1) := by
  induction xs using List.reverseRecOn with
  | nil =>
    refine ⟨trivial, ?_⟩
    exact (BitVec.add_zero _).symm
  | append_singleton xs x ih =>
    have hadd (k : ℕ) : a + BitVec.ofNat p.va ((k + 1) <<< 1) =
        a + BitVec.ofNat p.va (k <<< 1) + 2 := by
      rw [ofNat_succ_shift, BitVec.add_assoc]
    have hx : x.1 = a + BitVec.ofNat p.va (xs.length <<< 1) :=
      h xs.length x (List.getElem?_concat_length ..)
    obtain ⟨hseq, hrest⟩ := ih fun k b hb => h k b (by
      rw [List.getElem?_append_left (List.getElem?_eq_some_iff.1 hb).1, hb])
    have hlen : (xs ++ [x]).length = xs.length + 1 := List.length_append
    cases hr : (cut isLong xs).rest with
    | some b =>
      rw [hr] at hrest
      have hcut : cut isLong (xs ++ [x]) = ⟨(cut isLong xs).items ++ [.pair b x], none⟩ := by
        rw [cut_snoc, feed_second hr]
      have hinst : instructions cfg (xs ++ [x]) =
          instructions cfg xs ++ [FetchedInst.ofItem cfg (.pair b x)] := by
        rw [instructions, hcut, List.map_append]
        rfl
      rw [hinst, hcut, seqFrom_append, nextOf_concat, hlen]
      exact ⟨⟨hseq, hrest.1.symm, trivial⟩, hrest.2⟩
    | none =>
      rw [hr] at hrest
      cases hl : isLong x with
      | true =>
        have hcut : cut isLong (xs ++ [x]) = ⟨(cut isLong xs).items, some x⟩ := by
          rw [cut_snoc, feed_first hr hl]
        have hinst : instructions cfg (xs ++ [x]) = instructions cfg xs := by
          rw [instructions, hcut]
          rfl
        rw [hinst, hcut, hlen]
        refine ⟨hseq, hrest.trans hx.symm, ?_⟩
        rw [hadd, hadd, ← hx, BitVec.add_assoc, two_add_two]
      | false =>
        have hcut : cut isLong (xs ++ [x]) = ⟨(cut isLong xs).items ++ [.single x], none⟩ := by
          rw [cut_snoc, feed_single hr hl]
        have hinst : instructions cfg (xs ++ [x]) =
            instructions cfg xs ++ [FetchedInst.ofItem cfg (.single x)] := by
          rw [instructions, hcut, List.map_append]
          rfl
        rw [hinst, hcut, seqFrom_append, nextOf_concat, hlen, hadd, ← hx]
        exact ⟨⟨hseq, hx.trans hrest.symm, trivial⟩, rfl⟩

/-! ## One packet -/

/-- The half that the register carries, at its address. -/
def carried (pc : BitVec p.va) (r : F3Regs) : List (Parcel p) :=
  if r.f3_prev_is_half then [(pc - 2, r.f3_prev_half)] else []

/-- The address of the next instruction, when the next packet is at `pc`. -/
def tailPc (pc : BitVec p.va) (r : F3Regs) : BitVec p.va :=
  if r.f3_prev_is_half then pc - 2 else halfAlign pc

/-- A half is carried only to the start of a bank, and is a first half. -/
structure RegsOk (pc : BitVec p.va) (r : F3Regs) : Prop where
  aligned : r.f3_prev_is_half = true → bankAlign p pc = pc ∧ bankIdx p pc = 0
  long : r.f3_prev_is_half = true → isRVC (r.f3_prev_half.setWidth 32) = false

theorem RegsOk.of_clear {pc : BitVec p.va} {r : F3Regs} (h : r.f3_prev_is_half = false) :
    RegsOk pc r := by
  refine ⟨?_, ?_⟩ <;> intro h' <;> rw [h] at h' <;> cases h'

section Packet

variable {m n : ℕ} {cfg : F3Cfg} {x : F3In p} {r : F3Regs}

theorem cut_carried (hr : RegsOk x.pc r) :
    cut isLong (carried x.pc r) =
      ⟨[], if r.f3_prev_is_half then some (x.pc - 2, r.f3_prev_half) else none⟩ := by
  rw [carried]
  cases hh : r.f3_prev_is_half with
  | false => rfl
  | true =>
    have hl : isLong (x.pc - 2, r.f3_prev_half) = true := by
      rw [isLong, hr.long hh]
      rfl
    exact feed_first (c := ⟨[], none⟩) rfl hl

theorem carried_done (h : p.Shape m n) (hc : cfg.ReadsLower) (hr : RegsOk x.pc r) :
    Done cfg x (carried x.pc r) (scan cfg x r) := by
  refine scan_spec h hc ?_ fun hh => (hr.aligned hh).2
  rw [cut_carried hr]
  cases hh : r.f3_prev_is_half with
  | false => rfl
  | true =>
    rw [(hr.aligned hh).1]

theorem outs_carried (hr : RegsOk x.pc r) (s : Scan p) :
    outs cfg (carried x.pc r) s = s.emitted.map Slot.fetched := by
  rw [outs, instructions, cut_carried hr]
  rfl

theorem halfAlign_of_aligned (h : p.Shape m n) {pc : BitVec p.va} (ha : bankAlign p pc = pc)
    (hi : bankIdx p pc = 0) : halfAlign pc = pc := by
  rw [halfAlign_eq h, ha, hi]
  exact BitVec.add_zero _

theorem carried_address (h : p.Shape m n) (hr : RegsOk x.pc r) (k : ℕ) (b : Parcel p)
    (hb : (carried x.pc r ++ fed x p.fetchWidth)[k]? = some b) :
    b.1 = tailPc x.pc r + BitVec.ofNat p.va (k <<< 1) := by
  rw [fed_eq_map h, carried] at hb
  rw [tailPc]
  have hfed (j : ℕ) (hj : ((List.range (present p x.pc - bankIdx p x.pc)).map fun k =>
      parcel x (bankIdx p x.pc + k))[j]? = some b) :
      b.1 = halfAlign x.pc + BitVec.ofNat p.va (j <<< 1) := by
    rw [List.getElem?_map, Option.map_eq_some_iff] at hj
    obtain ⟨i, hi, rfl⟩ := hj
    obtain ⟨_, hij⟩ := List.getElem?_eq_some_iff.1 hi
    rw [List.getElem_range] at hij
    rw [← hij]
    exact parcel_bankIdx h x j
  cases hh : r.f3_prev_is_half with
  | false =>
    rw [hh] at hb
    exact hfed k hb
  | true =>
    rw [hh] at hb
    cases k with
    | zero =>
      cases hb
      exact (BitVec.add_zero _).symm
    | succ k =>
      rw [hfed k hb, halfAlign_of_aligned h (hr.aligned hh).1 (hr.aligned hh).2, ofNat_succ_shift,
        if_pos rfl, BitVec.add_comm _ 2, ← BitVec.add_assoc, BitVec.sub_add_cancel]

theorem carried_end (h : p.Shape m n) (hr : RegsOk x.pc r) :
    tailPc x.pc r + BitVec.ofNat p.va ((carried x.pc r ++ fed x p.fetchWidth).length <<< 1) =
      nextFetch p x.pc := by
  rw [List.length_append, fed_eq_map h, List.length_map, List.length_range, tailPc, carried]
  have hend := halfAlign_add_present h x.pc (Nat.le_of_lt (bankIdx_lt_present h x.pc))
  cases hh : r.f3_prev_is_half with
  | false =>
    rw [if_neg Bool.false_ne_true, if_neg Bool.false_ne_true, List.length_nil, Nat.zero_add]
    exact hend
  | true =>
    rw [halfAlign_of_aligned h (hr.aligned hh).1 (hr.aligned hh).2] at hend
    rw [if_pos rfl, if_pos rfl, List.length_singleton, Nat.add_comm 1, ofNat_succ_shift,
      BitVec.add_comm _ 2, ← BitVec.add_assoc, BitVec.sub_add_cancel, hend]

/-- **The instructions of a packet** follow each other from where the packet
    before it ended, and end where the next one goes on if none redirects. -/
theorem packet_seq (h : p.Shape m n) (hc : cfg.ReadsLower) (hr : RegsOk x.pc r) :
    let out := ((f3_slots cfg x r).filter Slot.mask).map Slot.fetched
    SeqFrom (tailPc x.pc r) out ∧
      (cfi_idx_valid cfg x r = false →
        nextOf (tailPc x.pc r) out = tailPc (nextFetch p x.pc) (F3Regs.fire cfg x r) ∧
          RegsOk (nextFetch p x.pc) (F3Regs.fire cfg x r)) := by
  have hdone := carried_done h hc hr
  have hseq := seq_instructions cfg (tailPc x.pc r) _ (carried_address h hr)
  have hout (s : Scan p) : (s.slots.reverse.filter Slot.mask).map Slot.fetched =
      outs cfg (carried x.pc r) s := (outs_carried hr s).symm
  refine ⟨?_, ?_⟩
  · rw [f3_slots, hout]
    exact hseq.1.initial hdone.kept.pref
  · intro hv
    have hf : (scan cfg x r).redirect_found = false := cfi_idx_valid_eq hdone.kept ▸ hv
    have hh : (F3Regs.fire cfg x r).f3_prev_is_half = (scan cfg x r).bank_prev_is_half := by
      rw [F3Regs.fire, hv, Bool.not_false, Bool.and_true]
    have hrest := hdone.rest hf
    have htail : tailPc (nextFetch p x.pc) (F3Regs.fire cfg x r) =
        if (scan cfg x r).bank_prev_is_half then nextFetch p x.pc - 2 else nextFetch p x.pc := by
      rw [tailPc, hh, halfAlign_of_aligned h (bankAlign_nextFetch h _) (bankIdx_nextFetch h _)]
    rw [f3_slots, hout, hdone.outs hf, htail]
    cases hb : (scan cfg x r).bank_prev_is_half with
    | true =>
      rw [hb, if_pos rfl] at hrest
      have hnext := hseq.2
      rw [hrest] at hnext
      refine ⟨hnext.1, fun _ => ⟨bankAlign_nextFetch h _, bankIdx_nextFetch h _⟩, fun _ => ?_⟩
      have hlong : isLong (nextFetch p x.pc - 2, (scan cfg x r).bank_prev_half) = true :=
        (parse_cut _).half _ hrest
      exact (Bool.not_eq_true' _).mp hlong
    | false =>
      rw [hb, if_neg Bool.false_ne_true] at hrest
      have hnext := hseq.2
      rw [hrest] at hnext
      refine ⟨?_, RegsOk.of_clear (hh.trans hb)⟩
      rw [hnext, carried_end h hr]
      rfl

/-! ## The slots of a packet by their places -/

/-- The first `k` slots are those of their places. -/
def SlotsTo (cfg : F3Cfg) (x : F3In p) (r : F3Regs) (k : ℕ) (s : Scan p) : Prop :=
  s.slots.length = k ∧ ∀ i < k, ∃ s' : Scan p,
    s.slots.reverse[i]? = some (s'.slot cfg x r (i / p.bankWidth) (i % p.bankWidth))

theorem SlotsTo.push {b w : ℕ} {s : Scan p} (hs : SlotsTo cfg x r (b * p.bankWidth + w) s)
    (hw : w < p.bankWidth) : SlotsTo cfg x r (b * p.bankWidth + w + 1) (s.step cfg x r b w) := by
  obtain ⟨hl, hi⟩ := hs
  refine ⟨by rw [Scan.step, List.length_cons, hl], fun i hlt => ?_⟩
  have hrev : (s.step cfg x r b w).slots.reverse = s.slots.reverse ++ [s.slot cfg x r b w] :=
    List.reverse_cons
  rw [hrev]
  rcases Nat.lt_succ_iff_lt_or_eq.1 hlt with hlt | rfl
  · obtain ⟨s', hs'⟩ := hi i hlt
    refine ⟨s', ?_⟩
    rw [List.getElem?_append_left (by rw [List.length_reverse, hl]; exact hlt), hs']
  · have hdiv : (b * p.bankWidth + w) / p.bankWidth = b := by
      rw [Nat.add_comm, Nat.add_mul_div_right _ _ (by omega), Nat.div_eq_of_lt hw, Nat.zero_add]
    have hmod : (b * p.bankWidth + w) % p.bankWidth = w := by
      rw [Nat.add_comm, Nat.add_mul_mod_self_right, Nat.mod_eq_of_lt hw]
    refine ⟨s, ?_⟩
    rw [hdiv, hmod, ← hl, ← List.length_reverse]
    exact List.getElem?_concat_length ..

theorem slotsTo_foldl (b : ℕ) {s : Scan p} (hs : SlotsTo cfg x r (b * p.bankWidth) s) (w : ℕ)
    (hw : w ≤ p.bankWidth) :
    SlotsTo cfg x r (b * p.bankWidth + w) ((List.range w).foldl (Scan.step cfg x r · b) s) := by
  induction w with
  | zero => exact hs
  | succ w ih =>
    rw [List.range_succ, List.foldl_append]
    exact (ih (by omega)).push hw

variable (cfg x r) in
theorem slotsTo_banks (b : ℕ) :
    SlotsTo cfg x r (b * p.bankWidth) ((List.range b).foldl (Scan.bank cfg x r) (scan_start r)) := by
  induction b with
  | zero =>
    rw [Nat.zero_mul]
    exact ⟨rfl, fun i hi => absurd hi (Nat.not_lt_zero i)⟩
  | succ b ih =>
    rw [List.range_succ, List.foldl_append, Nat.succ_mul]
    exact slotsTo_foldl b ih p.bankWidth (Nat.le_refl _)

theorem slotsTo_scan (h : p.Shape m n) : SlotsTo cfg x r p.fetchWidth (scan cfg x r) := by
  have hs := slotsTo_banks cfg x r p.nBanks
  rwa [h.bankWidth, ← h.fetchWidth] at hs

variable (cfg x r) in
theorem exists_slot (h : p.Shape m n) (i : Fin p.fetchWidth) : ∃ s' : Scan p,
    (f3_slots cfg x r)[i.val]? = some (s'.slot cfg x r (i / p.bankWidth) (i % p.bankWidth)) :=
  (slotsTo_scan h).2 i i.isLt

/-! ## The uops of a packet -/

/-- What the frontend adds to a packet and does not look at. -/
structure PacketInfo where
  xcpt_pf_if : Bool
  xcpt_ae_if : Bool
  bp_debug_if_oh : ℕ → Bool
  bp_xcpt_if_oh : ℕ → Bool
  fsrc : BitVec 2
  ras_idx : ℕ

/-- The bits of `cfi_type`. -/
def cfiBits : CfiType → BitVec 3
  | .CFI_X => 0
  | .CFI_BR => 1
  | .CFI_JAL => 2
  | .CFI_JALR => 3

variable (cfg x r) (info : PacketInfo)

/-- The packet for the fetch buffer; no branch is marked as a short forward one. -/
def fetch_packet (ftq_idx : ℕ) : FetchPacket p where
  pc := x.pc
  mask i := ((f3_slots cfg x r)[i.val]?.map Slot.mask).getD false
  sfbs _ := false
  shadowed_mask _ := false
  edge_inst b := ((f3_slots cfg x r)[b * p.bankWidth]?.map Slot.edge_inst).getD false
  ftq_idx := ftq_idx
  exp_insts i := ((f3_slots cfg x r)[i.val]?.map Slot.exp_inst).getD 0
  insts i := ((f3_slots cfg x r)[i.val]?.map Slot.inst).getD 0
  cfi_idx_valid := cfi_idx_valid cfg x r
  cfi_idx := Ifu.cfi_idx cfg x r
  xcpt_pf_if := info.xcpt_pf_if
  xcpt_ae_if := info.xcpt_ae_if
  bp_debug_if_oh i := info.bp_debug_if_oh i
  bp_xcpt_if_oh i := info.bp_xcpt_if_oh i
  fsrc := info.fsrc

/-- The bits of a property of the slots. -/
def slotBits (f : Slot p → Bool) : ℕ :=
  ((f3_slots cfg x r).map f).foldr (fun b n => b.toNat + 2 * n) 0

/-- The packet for the fetch target queue. -/
def fetch_bundle : FetchBundle p where
  pc := x.pc
  cfi_idx_valid := cfi_idx_valid cfg x r
  cfi_idx := Ifu.cfi_idx cfg x r
  cfi_type := ((cfi_slot cfg x r).map fun t => cfiBits t.brsigs.cfi_type).getD 0
  cfi_is_call := ((cfi_slot cfg x r).map fun t => t.brsigs.is_call).getD false
  cfi_is_ret := ((cfi_slot cfg x r).map fun t => t.brsigs.is_ret).getD false
  cfi_npc_plus4 := ((cfi_slot cfg x r).map fun t => !isRVC t.inst && !t.edge_inst).getD false
  ras_top := x.ras_read_addr
  ras_idx := info.ras_idx
  br_mask := slotBits cfg x r fun t => t.mask && t.brsigs.cfi_type == .CFI_BR
  mask := slotBits cfg x r Slot.mask

/-- The uops that enter, in order. -/
def enq_uops (ftq_idx : ℕ) : List (MicroOp p) :=
  (fetch_packet cfg x r info ftq_idx).lanes.reduceOption

/-- The places of the uops. -/
def places : List (Fin p.fetchWidth) :=
  (List.finRange p.fetchWidth).filter fun i => (fetch_packet cfg x r info 0).mask i

theorem enq_uops_eq (ftq_idx : ℕ) :
    enq_uops cfg x r info ftq_idx =
      (places cfg x r info).map (in_uops (fetch_packet cfg x r info ftq_idx)) := by
  rw [enq_uops, FetchPacket.lanes, places]
  induction List.finRange p.fetchWidth with
  | nil => rfl
  | cons i l ih =>
    have hm : (fetch_packet cfg x r info ftq_idx).mask i = (fetch_packet cfg x r info 0).mask i := rfl
    cases hi : (fetch_packet cfg x r info 0).mask i with
    | true => simp only [List.map_cons, List.filter_cons, hm, hi, if_true,
        List.reduceOption_cons_of_some, ih]
    | false => simp only [List.map_cons, List.filter_cons, hm, hi, Bool.false_eq_true, if_false,
        List.reduceOption_cons_of_none, ih]

variable {cfg x r info}

/-- A uop and the slot it comes from. -/
structure FromSlot (cfg : F3Cfg) (x : F3In p) (ftq_idx : ℕ) (u : MicroOp p) (t : Slot p) : Prop where
  debug_pc : u.debug_pc = t.pc
  inst : u.inst = t.exp_inst
  is_rvc : u.is_rvc = isRVC t.inst
  is_sfb : u.is_sfb = false
  ftq_idx : u.ftq_idx = ftq_idx
  taken : u.taken = t.redirects
  placed : Placed x.pc u
  even : halfAlign t.pc = t.pc
  mask : t.mask = true
  brsigs : t.brsigs = BranchDecode t.exp_inst t.pc
  redirects : t.redirects = true ↔ cs_is_jal t.exp_inst = true ∨ cs_is_jalr t.exp_inst = true ∨
    cs_is_br t.exp_inst = true ∧ u.taken = true

/-- A packet does not leave its block. -/
theorem present_fits (h : p.Shape m n) (a : BitVec p.va) :
    ∃ e, present p a = e * 2 ^ m ∧
      a.toNat / 2 ^ (m + 1) % 2 ^ (n - (m + 1)) + e ≤ 2 ^ (n - (m + 1)) := by
  have hfits := h.fits
  have hb : 1 ≤ p.nBanks := by rcases h.nBanks with h | h <;> omega
  have hlt := Nat.mod_lt (a.toNat / 2 ^ (m + 1)) (Nat.two_pow_pos (n - (m + 1)))
  rw [present, h.bankWidth, h.fetchWidth]
  rcases h.nBanks with hn | hn
  · refine ⟨1, ?_, hlt⟩
    rw [hn, one_mul, ite_self]
  · have hlast : isLastBankInBlock p a =
        (a.toNat / 2 ^ (m + 1) % 2 ^ (n - (m + 1)) == 2 ^ (n - (m + 1)) - 1) := by
      rw [isLastBankInBlock, hn, h.bankBytes, h.icBlockBytes, Nat.clog_pow 2 _ one_lt_two,
        Nat.clog_pow 2 _ one_lt_two, BitVec.extractLsb'_toNat, Nat.shiftRight_eq_div_pow,
        Nat.pow_div (by omega) two_pos]
      rfl
    rw [hlast]
    split_ifs with hl
    · exact ⟨1, (one_mul _).symm, hlt⟩
    · refine ⟨2, by rw [hn], ?_⟩
      simp only [beq_iff_eq] at hl
      omega

/-- The place of an instruction in its block. -/
theorem maybe_pc_eq (h : p.Shape m n) {a : BitVec p.va} {i : ℕ} (hi : i < present p a)
    {lob : ℕ} (hl : lob = (bankAlign p a + BitVec.ofNat p.va (i <<< 1)).toNat % p.icBlockBytes) :
    AlignPCToBoundary p a ||| BitVec.ofNat p.va lob =
      bankAlign p a + BitVec.ofNat p.va (i <<< 1) := by
  obtain ⟨e, he, hfit⟩ := present_fits h a
  have hfits := h.fits
  have hva := h.va
  have hb : 1 ≤ p.nBanks := by rcases h.nBanks with h | h <;> omega
  have hpow : 2 ^ n = 2 ^ (n - (m + 1)) * 2 ^ (m + 1) := by
    rw [← pow_add]
    congr 1
    omega
  -- the block, the bank in it, and the place in the banks
  have hq : a.toNat / 2 ^ n = a.toNat / 2 ^ (m + 1) / 2 ^ (n - (m + 1)) := by
    rw [hpow, Nat.mul_comm, Nat.div_div_eq_div_mul]
  have hdm := Nat.div_add_mod (a.toNat / 2 ^ (m + 1)) (2 ^ (n - (m + 1)))
  have hi2 : i * 2 < e * 2 ^ (m + 1) := by
    rw [pow_succ, ← mul_assoc]
    exact Nat.mul_lt_mul_of_pos_right (he ▸ hi) two_pos
  have hlow : a.toNat / 2 ^ n * 2 ^ n ≤ a.toNat / 2 ^ (m + 1) * 2 ^ (m + 1) + i * 2 := by
    have : a.toNat / 2 ^ n * 2 ^ n ≤ a.toNat / 2 ^ (m + 1) * 2 ^ (m + 1) := by
      rw [hq, hpow, ← mul_assoc]
      exact Nat.mul_le_mul_right _ (Nat.div_mul_le_self _ _)
    omega
  have hhigh : a.toNat / 2 ^ (m + 1) * 2 ^ (m + 1) + i * 2 < (a.toNat / 2 ^ n + 1) * 2 ^ n := by
    have hle : a.toNat / 2 ^ (m + 1) + e ≤ (a.toNat / 2 ^ n + 1) * 2 ^ (n - (m + 1)) := by
      rw [hq, Nat.add_mul, one_mul, Nat.mul_comm (_ / _)]
      omega
    have := Nat.mul_le_mul_right (2 ^ (m + 1)) hle
    rw [Nat.add_mul, mul_assoc, ← hpow] at this
    omega
  have hblock : (a.toNat / 2 ^ n + 1) * 2 ^ n ≤ 2 ^ p.va := by
    have hlt : a.toNat / 2 ^ n < 2 ^ (p.va - n) := by
      rw [Nat.div_lt_iff_lt_mul (Nat.two_pow_pos n), ← pow_add, Nat.sub_add_cancel hva]
      exact a.isLt
    have := Nat.mul_le_mul_right (2 ^ n) (Nat.succ_le_of_lt hlt)
    rwa [← pow_add, Nat.sub_add_cancel hva] at this
  have hy : (bankAlign p a + BitVec.ofNat p.va (i <<< 1)).toNat =
      a.toNat / 2 ^ (m + 1) * 2 ^ (m + 1) + i * 2 := by
    rw [BitVec.toNat_add, bankAlign_toNat h, BitVec.toNat_ofNat, Nat.add_mod_mod, Nat.shiftLeft_eq,
      pow_one, Nat.mod_eq_of_lt (by omega)]
  have hdiv : (a.toNat / 2 ^ (m + 1) * 2 ^ (m + 1) + i * 2) / 2 ^ n = a.toNat / 2 ^ n :=
    Nat.div_eq_of_lt_le hlow hhigh
  apply BitVec.eq_of_toNat_eq
  rw [BitVec.toNat_or, AlignPCToBoundary, h.icBlockBytes, align_toNat, BitVec.toNat_ofNat, hl,
    h.icBlockBytes, hy]
  have hmod := Nat.mod_lt (a.toNat / 2 ^ (m + 1) * 2 ^ (m + 1) + i * 2) (Nat.two_pow_pos n)
  have hn : 2 ^ n ≤ 2 ^ p.va := Nat.pow_le_pow_right two_pos hva
  rw [Nat.mod_eq_of_lt (Nat.lt_of_lt_of_le hmod hn), Nat.mul_comm (_ / 2 ^ n), ← Nat.two_pow_add_eq_or_of_lt hmod,
    ← hdiv, Nat.div_add_mod]

theorem getLsbD_neg_two (w : ℕ) : (-2 : BitVec w).getLsbD 0 = false := by
  have h2 : (2 : BitVec w).getLsbD 0 = false := by
    rw [BitVec.ofNat_eq_ofNat, BitVec.getLsbD_ofNat]
    simp
  rw [BitVec.getLsbD_neg, h2]
  simp

theorem getLsbD_parcel (h : p.Shape m n) (i : ℕ) : (parcel x i).1.getLsbD 0 = false := by
  have hb : (bankAlign p x.pc).getLsbD 0 = false := by
    rw [BitVec.getLsbD, bankAlign_toNat h, pow_succ, ← mul_assoc, Nat.testBit_zero]
    simp
  have hi : (BitVec.ofNat p.va (i <<< 1)).getLsbD 0 = false := by
    simp [BitVec.getLsbD_ofNat]
  exact getLsbD_zero_add hb hi

/-- What redirects, by the instruction. -/
theorem slot_redirects_iff {s' : Scan p} {b w : ℕ} (hm : (s'.slot cfg x r b w).mask = true) :
    let t := s'.slot cfg x r b w
    t.redirects = true ↔ cs_is_jal t.exp_inst = true ∨ cs_is_jalr t.exp_inst = true ∨
      cs_is_br t.exp_inst = true ∧ t.redirects = true := by
  intro t
  have hdef : t.redirects = (t.mask && ((BranchDecode t.exp_inst t.pc).cfi_type == .CFI_JAL ||
      (BranchDecode t.exp_inst t.pc).cfi_type == .CFI_JALR ||
      (BranchDecode t.exp_inst t.pc).cfi_type == .CFI_BR &&
        x.preds_taken (b * p.bankWidth + w) && cfg.useBPD)) := rfl
  have hm' : t.mask = true := hm
  rw [hm', Bool.true_and] at hdef
  constructor
  · intro ht
    cases hj : cs_is_jal t.exp_inst with
    | true => exact .inl rfl
    | false =>
      cases hr : cs_is_jalr t.exp_inst with
      | true => exact .inr (.inl rfl)
      | false =>
        refine .inr (.inr ⟨?_, ht⟩)
        by_contra hb
        rw [Bool.not_eq_true] at hb
        rw [hdef, BranchDecode, hj, hr, hb] at ht
        cases ht
  · rintro (hj | hr | ⟨-, ht⟩)
    · have hr : cs_is_jalr t.exp_inst = false := by
        by_contra hr
        rw [Bool.not_eq_false] at hr
        rw [(not_jal_of_jalr hr).1] at hj
        cases hj
      rw [hdef, BranchDecode, hj, hr]
      rfl
    · rw [hdef, BranchDecode, hr]
      rfl
    · exact ht

/-- The place of the slot that redirects is the one the bundle names. -/
theorem cfi_idx_iff (h : p.Shape m n) (hc : cfg.ReadsLower) (hr : RegsOk x.pc r) {i : ℕ}
    {t : Slot p} (ht : (f3_slots cfg x r)[i]? = some t) (hm : t.mask = true) :
    (decide (Ifu.cfi_idx cfg x r = i) && cfi_idx_valid cfg x r) = t.redirects := by
  have hkept := (carried_done h hc hr).kept
  have horder : (f3_slots cfg x r).Pairwise fun u t => t.mask = true → u.redirects = false :=
    List.pairwise_reverse.2 hkept.order
  cases htr : t.redirects with
  | true =>
    have hfind : (f3_slots cfg x r).findIdx? Slot.redirects = some i := by
      obtain ⟨hlt, rfl⟩ := List.getElem?_eq_some_iff.1 ht
      refine List.findIdx?_eq_some_iff_getElem.2 ⟨hlt, htr, fun j hj => ?_⟩
      rw [List.pairwise_iff_getElem.1 horder j i _ hlt hj hm]
      exact Bool.false_ne_true
    have hvalid : cfi_idx_valid cfg x r = true :=
      List.any_eq_true.2 ⟨t, List.mem_of_getElem? ht, htr⟩
    rw [Ifu.cfi_idx, hfind, hvalid, Option.getD_some, decide_eq_true rfl, Bool.and_self]
  | false =>
    rw [Bool.and_eq_false_iff, decide_eq_false_iff_not]
    by_contra hne
    rw [not_or, Classical.not_not, Bool.not_eq_false] at hne
    obtain ⟨hidx, hvalid⟩ := hne
    obtain ⟨u, hu, hur⟩ := List.any_eq_true.1 hvalid
    cases hfind : (f3_slots cfg x r).findIdx? Slot.redirects with
    | none =>
      rw [List.findIdx?_eq_none_iff.1 hfind u hu] at hur
      cases hur
    | some c =>
      rw [Ifu.cfi_idx, hfind, Option.getD_some] at hidx
      obtain ⟨hlt, hc', -⟩ := List.findIdx?_eq_some_iff_getElem.1 hfind
      subst hidx
      rw [(List.getElem?_eq_some_iff.1 ht).2, htr] at hc'
      cases hc'

variable (info) in
/-- **The uops are the slots.** -/
theorem fromSlot (h : p.Shape m n) (hc : cfg.ReadsLower) (hr : RegsOk x.pc r) (ftq_idx : ℕ)
    {i : Fin p.fetchWidth} {t : Slot p} (ht : (f3_slots cfg x r)[i.val]? = some t)
    (hm : t.mask = true) :
    FromSlot cfg x ftq_idx (in_uops (fetch_packet cfg x r info ftq_idx) i) t := by
  obtain ⟨s', hs'⟩ := exists_slot cfg x r h i
  have hslot : t = s'.slot cfg x r (i / p.bankWidth) (i % p.bankWidth) :=
    Option.some.inj (ht.symm.trans hs')
  have hplace : i.val / p.bankWidth * p.bankWidth + i.val % p.bankWidth = i.val := by
    rw [Nat.mul_comm]
    exact Nat.div_add_mod _ _
  have hmask : (s'.slot cfg x r (i / p.bankWidth) (i % p.bankWidth)).mask = true := hslot ▸ hm
  have hpres : i.val < present p x.pc := by
    have hbit := (Bool.and_eq_true_iff.1 (Bool.and_eq_true_iff.1 hmask).1).1
    rw [hplace] at hbit
    exact ((fetchMask_getLsbD h x.pc _).1 hbit).2
  -- the uop begins in the bank before when the slot does
  have hedge : (decide (i.val % p.bankWidth = 0) &&
      (fetch_packet cfg x r info ftq_idx).edge_inst (i / p.bankWidth)) = t.edge_inst := by
    by_cases hw : i.val % p.bankWidth = 0
    · have hi : i.val / p.bankWidth * p.bankWidth = i.val := by omega
      simp only [fetch_packet, hw, hi, ht, decide_true, Bool.true_and, Option.map_some,
        Option.getD_some]
    · have he : t.edge_inst = (i.val % p.bankWidth == 0 && s'.bank_prev_is_half) := by
        rw [hslot]
        rfl
      rw [he, decide_eq_false hw, beq_eq_false_iff_ne.2 hw]
      rfl
  have hpc : t.pc = if t.edge_inst then (parcel x i).1 - 2 else (parcel x i).1 := by
    have hpc' : t.pc = if t.edge_inst then
        bankAlign p x.pc + BitVec.ofNat p.va
          ((i.val / p.bankWidth * p.bankWidth + i.val % p.bankWidth) <<< 1) - 2
        else bankAlign p x.pc + BitVec.ofNat p.va
          ((i.val / p.bankWidth * p.bankWidth + i.val % p.bankWidth) <<< 1) := by
      rw [hslot]
      rfl
    rw [hpc', hplace]
    rfl
  have hstart : t.edge_inst = true → bankAlign p x.pc +
      BitVec.ofNat p.va (i.val / p.bankWidth * p.bankBytes) = (parcel x i).1 := by
    intro he
    rw [← hedge, Bool.and_eq_true, decide_eq_true_eq] at he
    have hi : i.val / p.bankWidth * p.bankBytes = i.val <<< 1 := by
      rw [h.bankBytes, pow_succ, ← mul_assoc, ← h.bankWidth, Nat.shiftLeft_eq]
      omega
    rw [hi]
    rfl
  have huedge : (in_uops (fetch_packet cfg x r info ftq_idx) i).edge_inst = t.edge_inst := hedge
  have hupc : (in_uops (fetch_packet cfg x r info ftq_idx) i).debug_pc = t.pc := by
    have hdef : (in_uops (fetch_packet cfg x r info ftq_idx) i).debug_pc =
        if (in_uops (fetch_packet cfg x r info ftq_idx) i).edge_inst then
          bankAlign p x.pc + BitVec.ofNat p.va (i.val / p.bankWidth * p.bankBytes) - 2
        else (parcel x i).1 := rfl
    rw [hdef, huedge, hpc]
    cases he : t.edge_inst with
    | true => rw [hstart he]
    | false => rfl
  have hulob : (in_uops (fetch_packet cfg x r info ftq_idx) i).pc_lob =
      (parcel x i).1.toNat % p.icBlockBytes := by
    have hdef : (in_uops (fetch_packet cfg x r info ftq_idx) i).pc_lob =
        (if (in_uops (fetch_packet cfg x r info ftq_idx) i).edge_inst then
          bankAlign p x.pc + BitVec.ofNat p.va (i.val / p.bankWidth * p.bankBytes)
        else (parcel x i).1).toNat % 2 ^ Nat.clog 2 p.icBlockBytes := rfl
    rw [hdef, huedge, h.icBlockBytes, Nat.clog_pow 2 _ one_lt_two]
    cases he : t.edge_inst with
    | true => rw [if_pos rfl, hstart he]
    | false => rfl
  have hinsts : (fetch_packet cfg x r info ftq_idx).insts i = t.inst := by
    simp only [fetch_packet, ht, Option.map_some, Option.getD_some]
  have hrvc : (in_uops (fetch_packet cfg x r info ftq_idx) i).is_rvc = isRVC t.inst := by
    have hdef : (in_uops (fetch_packet cfg x r info ftq_idx) i).is_rvc =
        decide (((fetch_packet cfg x r info ftq_idx).insts i).setWidth 2 ≠ 3) := rfl
    rw [hdef, hinsts, isRVC, ← BitVec.setWidth_eq_extractLsb' (by omega)]
    rw [Bool.eq_iff_iff, decide_eq_true_eq, bne_iff_ne]
  have htaken : (in_uops (fetch_packet cfg x r info ftq_idx) i).taken = t.redirects :=
    cfi_idx_iff h hc hr ht hm
  have hrvc_edge : t.edge_inst = true → isRVC t.inst = false :=
    (carried_done h hc hr).kept.edge t (List.mem_reverse.1 (List.mem_of_getElem? ht)) hm
  refine ⟨hupc, ?_, hrvc, rfl, rfl, htaken, ⟨?_, ?_⟩, ?_, hm, ?_, ?_⟩
  · show ((f3_slots cfg x r)[i.val]?.map Slot.exp_inst).getD 0 = t.exp_inst
    rw [ht]
    rfl
  · rw [uop_maybe_pc, maybe_pc_eq h hpres hulob, hupc, huedge, hpc]
    cases t.edge_inst with
    | true => exact (BitVec.sub_add_cancel _ _).symm
    | false => exact (BitVec.add_zero _).symm
  · intro he
    rw [hrvc, hrvc_edge (huedge ▸ he)]
  · rw [halfAlign_eq_self_iff, hpc]
    have h0 := getLsbD_parcel (x := x) h i
    cases t.edge_inst with
    | false => exact h0
    | true =>
      rw [if_pos rfl, BitVec.sub_eq_add_neg]
      exact getLsbD_zero_add h0 (getLsbD_neg_two _)
  · rw [hslot]
    rfl
  · rw [htaken, hslot]
    exact slot_redirects_iff (hslot ▸ hm)

/-- What a uop says of its instruction. -/
def uopFetched (u : MicroOp p) : FetchedInst p := ⟨u.debug_pc, u.inst, u.is_rvc⟩

variable (info) in
theorem forall_fromSlot (h : p.Shape m n) (hc : cfg.ReadsLower) (hr : RegsOk x.pc r)
    (ftq_idx : ℕ) : List.Forall₂ (FromSlot cfg x ftq_idx) (enq_uops cfg x r info ftq_idx)
      ((f3_slots cfg x r).filter Slot.mask) := by
  have hlen : (f3_slots cfg x r).length = p.fetchWidth := by
    rw [f3_slots, List.length_reverse]
    exact (slotsTo_scan h).1
  have hlist : f3_slots cfg x r =
      (List.finRange p.fetchWidth).map fun i => (f3_slots cfg x r).get (i.cast hlen.symm) := by
    refine List.ext_getElem (by rw [List.length_map, List.length_finRange, hlen]) fun i h1 h2 => ?_
    simp
  have hget (i : Fin p.fetchWidth) : (f3_slots cfg x r)[i.val]? =
      some ((f3_slots cfg x r).get (i.cast hlen.symm)) :=
    List.getElem?_eq_getElem _
  have hmask (i : Fin p.fetchWidth) : (fetch_packet cfg x r info 0).mask i =
      ((f3_slots cfg x r).get (i.cast hlen.symm)).mask := by
    show ((f3_slots cfg x r)[i.val]?.map Slot.mask).getD false = _
    rw [hget]
    rfl
  have hfilter : (f3_slots cfg x r).filter Slot.mask = (places cfg x r info).map
      fun i => (f3_slots cfg x r).get (i.cast hlen.symm) := by
    conv_lhs => rw [hlist, List.filter_map]
    rw [places]
    congr 2
    funext i
    exact (hmask i).symm
  rw [hfilter, enq_uops_eq, List.forall₂_map_left_iff, List.forall₂_map_right_iff,
    List.forall₂_same]
  intro i hi
  exact fromSlot info h hc hr ftq_idx (hget i) ((hmask i).symm.trans (List.mem_filter.1 hi).2)

/-- What holds of a uop that enters. -/
structure Entered (pc : BitVec p.va) (ftq_idx : ℕ) (u : MicroOp p) : Prop where
  placed : Placed pc u
  is_sfb : u.is_sfb = false
  ftq_idx : u.ftq_idx = ftq_idx
  even : halfAlign u.debug_pc = u.debug_pc
  taken : u.taken = true ↔ cs_is_jal u.inst = true ∨ cs_is_jalr u.inst = true ∨
    cs_is_br u.inst = true ∧ u.taken = true

theorem FromSlot.entered {ftq_idx : ℕ} {u : MicroOp p} {t : Slot p}
    (h : FromSlot cfg x ftq_idx u t) : Entered x.pc ftq_idx u := by
  refine ⟨h.placed, h.is_sfb, h.ftq_idx, ?_, ?_⟩
  · rw [h.debug_pc, h.even]
  · rw [h.inst, h.taken]
    have := h.redirects
    rwa [h.taken] at this

/-- Where the instruction behind a uop is, as far as the frontend knows. -/
def pathNext (u : MicroOp p) : BitVec p.va :=
  if cs_is_jal u.inst then u.debug_pc + (immJ u.inst).signExtend p.va
  else if cs_is_br u.inst && u.taken then u.debug_pc + (immB u.inst).signExtend p.va
  else u.debug_pc + instSize u.is_rvc

theorem Entered.pathNext_of_not_taken {pc : BitVec p.va} {ftq_idx : ℕ} {u : MicroOp p}
    (h : Entered pc ftq_idx u) (ht : u.taken = false) :
    pathNext u = u.debug_pc + instSize u.is_rvc := by
  have hj : cs_is_jal u.inst = false := by
    by_contra hj
    rw [h.taken.2 (.inl (Bool.not_eq_false _ ▸ hj))] at ht
    cases ht
  rw [pathNext, hj, ht, Bool.and_false]
  rfl

theorem Entered.not_jalr {pc : BitVec p.va} {ftq_idx : ℕ} {u : MicroOp p}
    (h : Entered pc ftq_idx u) (ht : u.taken = false) : cs_is_jalr u.inst = false := by
  by_contra hj
  rw [h.taken.2 (.inr (.inl (Bool.not_eq_false _ ▸ hj)))] at ht
  cases ht

/-- **The uops of a packet**: each is at the address behind the one before it,
    only the last one is taken, and it leads to the next packet. -/
structure PacketUops (cfg : F3Cfg) (x : F3In p) (r : F3Regs) (ftq_idx : ℕ) (us : List (MicroOp p)) :
    Prop where
  seq : SeqFrom (tailPc x.pc r) (us.map uopFetched)
  entered : ∀ u ∈ us, Entered x.pc ftq_idx u
  stop : ∀ u ∈ us.dropLast, u.taken = false
  goes_on : cfi_idx_valid cfg x r = false → (∀ u ∈ us, u.taken = false) ∧
    nextOf (tailPc x.pc r) (us.map uopFetched) =
      tailPc (f3_predicted_target cfg x r) (F3Regs.fire cfg x r)
  leaves : cfi_idx_valid cfg x r = true → ∃ u, us.getLast? = some u ∧ u.taken = true ∧
    (cs_is_jalr u.inst = false → f3_predicted_target cfg x r = pathNext u)
  regs : RegsOk (f3_predicted_target cfg x r) (F3Regs.fire cfg x r)

theorem predicted_of_not_valid (hv : cfi_idx_valid cfg x r = false) :
    f3_predicted_target cfg x r = nextFetch p x.pc := by
  rw [f3_predicted_target, hv]
  cases cfi_slot cfg x r <;> rfl

/-- The slot that redirects is the last one of the packet. -/
theorem last_redirects (h : p.Shape m n) (hc : cfg.ReadsLower) (hr : RegsOk x.pc r)
    (hv : cfi_idx_valid cfg x r = true) : ∃ t, cfi_slot cfg x r = some t ∧ t.redirects = true ∧
      ((f3_slots cfg x r).filter Slot.mask).getLast? = some t := by
  have hkept := (carried_done h hc hr).kept
  obtain ⟨u, hu, hur⟩ := List.any_eq_true.1 hv
  cases hfind : (f3_slots cfg x r).findIdx? Slot.redirects with
  | none =>
    rw [List.findIdx?_eq_none_iff.1 hfind u hu] at hur
    cases hur
  | some c =>
    obtain ⟨hlt, hred, -⟩ := List.findIdx?_eq_some_iff_getElem.1 hfind
    have hmem : (f3_slots cfg x r)[c] ∈ (f3_slots cfg x r).filter Slot.mask :=
      List.mem_filter.2 ⟨List.getElem_mem hlt,
        hkept.masked _ (List.mem_reverse.1 (List.getElem_mem hlt)) hred⟩
    refine ⟨(f3_slots cfg x r)[c], ?_, hred, ?_⟩
    · rw [cfi_slot, Ifu.cfi_idx, hfind]
      exact List.getElem?_eq_getElem hlt
    · -- the others do not redirect
      cases hl : ((f3_slots cfg x r).filter Slot.mask).getLast? with
      | none =>
        rw [List.getLast?_eq_none_iff.1 hl] at hmem
        cases hmem
      | some l =>
        rw [← List.dropLast_append_getLast? l hl, List.mem_append, List.mem_singleton] at hmem
        rcases hmem with hmem | hmem
        · have hno : (f3_slots cfg x r)[c].redirects = false := hkept.stop _ hmem
          rw [hred] at hno
          cases hno
        · rw [hmem]

/-- The next packet is at the target of the last instruction. -/
theorem predicted_target_of_last {t : Slot p} (hs : cfi_slot cfg x r = some t)
    (hv : cfi_idx_valid cfg x r = true) {ftq_idx : ℕ} {u : MicroOp p}
    (hu : FromSlot cfg x ftq_idx u t) (ht : u.taken = true) (hr : cs_is_jalr u.inst = false) :
    f3_predicted_target cfg x r = pathNext u := by
  have hpc : halfAlign u.debug_pc = u.debug_pc := by rw [hu.debug_pc, hu.even]
  have hsig : t.brsigs = BranchDecode u.inst u.debug_pc := by
    rw [hu.brsigs, hu.inst, hu.debug_pc]
  have hret : t.brsigs.is_ret = false := by
    rw [hsig, BranchDecode, hr]
    rfl
  have htype : t.brsigs.cfi_type ≠ .CFI_JALR := by
    rw [hsig, BranchDecode, hr, if_neg Bool.false_ne_true]
    cases cs_is_jal u.inst <;> cases cs_is_br u.inst <;> rintro ⟨⟩
  have htarg : f3_predicted_target cfg x r = t.brsigs.target := by
    simp only [f3_predicted_target, hs, hv, hret, f3_targ, if_neg htype, Bool.false_and,
      Bool.false_eq_true, if_false, if_true]
  rw [htarg, hsig, pathNext]
  cases hj : cs_is_jal u.inst with
  | true => exact frontend_target_jal hpc hj
  | false =>
    have hred : t.redirects = true := hu.taken ▸ ht
    have hb : cs_is_br u.inst = true := by
      rw [hu.inst] at hj hr ⊢
      rcases hu.redirects.1 hred with hj' | hr' | ⟨hb, -⟩
      · rw [hj] at hj'
        cases hj'
      · rw [hr] at hr'
        cases hr'
      · exact hb
    rw [if_neg Bool.false_ne_true, hb, ht]
    exact frontend_target_branch hpc hb

variable (info) in
theorem packetUops (h : p.Shape m n) (hc : cfg.ReadsLower) (hr : RegsOk x.pc r) (ftq_idx : ℕ) :
    PacketUops cfg x r ftq_idx (enq_uops cfg x r info ftq_idx) := by
  have hfrom := forall_fromSlot info h hc hr ftq_idx
  obtain ⟨hseq, hgo⟩ := packet_seq h hc hr
  have hkept := (carried_done h hc hr).kept
  have hfetched : (enq_uops cfg x r info ftq_idx).map uopFetched =
      ((f3_slots cfg x r).filter Slot.mask).map Slot.fetched := by
    rw [← List.forall₂_eq_eq_eq, List.forall₂_map_left_iff, List.forall₂_map_right_iff]
    refine hfrom.imp fun u t hut => ?_
    rw [uopFetched, Slot.fetched, hut.debug_pc, hut.inst, hut.is_rvc]
  have htaken : (enq_uops cfg x r info ftq_idx).map MicroOp.taken =
      ((f3_slots cfg x r).filter Slot.mask).map Slot.redirects := by
    rw [← List.forall₂_eq_eq_eq, List.forall₂_map_left_iff, List.forall₂_map_right_iff]
    exact hfrom.imp fun u t hut => hut.taken
  have hstop : ∀ u ∈ (enq_uops cfg x r info ftq_idx).dropLast, u.taken = false := by
    intro u hu
    have hmem := List.mem_map_of_mem (f := MicroOp.taken) hu
    rw [List.map_dropLast, htaken, ← List.map_dropLast] at hmem
    obtain ⟨t, ht, htu⟩ := List.mem_map.1 hmem
    rw [← htu]
    exact hkept.stop t ht
  have hnone (hv : cfi_idx_valid cfg x r = false) :
      ∀ u ∈ enq_uops cfg x r info ftq_idx, u.taken = false := by
    intro u hu
    have hmem := List.mem_map_of_mem (f := MicroOp.taken) hu
    rw [htaken] at hmem
    obtain ⟨t, ht, htu⟩ := List.mem_map.1 hmem
    rw [← htu]
    exact Bool.not_eq_true _ ▸ List.any_eq_false.1 hv t (List.mem_filter.1 ht).1
  refine ⟨hfetched ▸ hseq, ?_, hstop, fun hv => ⟨hnone hv, ?_⟩, fun hv => ?_, ?_⟩
  · refine ((List.forall₂_and_left _ _).1 (hfrom.imp fun u t hut => ⟨hut.entered, hut⟩)).1
  · rw [hfetched, predicted_of_not_valid hv]
    exact (hgo hv).1
  · obtain ⟨t, hs, hred, hlast⟩ := last_redirects h hc hr hv
    have hrev := List.forall₂_reverse_iff.2 hfrom
    obtain ⟨ts, hts⟩ := List.head?_eq_some_iff.1 (List.head?_reverse ▸ hlast)
    rw [hts] at hrev
    obtain ⟨u, us, hut, -, hus⟩ := List.forall₂_cons_right_iff.1 hrev
    have ht : u.taken = true := hut.taken.trans hred
    refine ⟨u, ?_, ht, predicted_target_of_last hs hv hut ht⟩
    rw [← List.head?_reverse, hus]
    rfl
  · cases hv : cfi_idx_valid cfg x r with
    | false => exact predicted_of_not_valid hv ▸ (hgo hv).2
    | true => exact RegsOk.of_clear (by rw [F3Regs.fire, hv, Bool.not_true, Bool.and_false])

end Packet

end BoomStop.Exu
