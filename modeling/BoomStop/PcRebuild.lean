/-
  The addresses that the core builds again (`core.scala`: `csr.io.pc`,
  `flush_pc`, the redirect of a branch; `functional-unit.scala`: `uop_pc` and
  the link of a jump), from the address of a packet and what a uop keeps of its
  place.

  * `csr_pc`, `flush_pc`, `flush_pc_next`, `npc`, `jal_br_target`, `link`: the
    expressions;
  * `cfi_idx_exact`: the place in the packet, from the offset in the block;
  * `regs_of_reach`: in every run a half is carried only to where it goes on;
  * `pcs_rebuilt`: every expression is exact, for every instruction of every
    packet of every run.
-/
import BoomStop.FetchPipe
import BoomStop.PathOrder

namespace BoomStop.Exu

open Ifu Sync

variable {p : Params}

/-! ## The expressions -/

/-- `csr.io.pc`. -/
def csr_pc (com_pc : BitVec p.va) (com_xcpt : MicroOp p) : BitVec p.va :=
  AlignPCToBoundary p com_pc + BitVec.ofNat p.va com_xcpt.pc_lob -
    if com_xcpt.edge_inst then 2 else 0

/-- `flush_pc`. -/
def flush_pc (pc : BitVec p.va) (flush : MicroOp p) : BitVec p.va :=
  AlignPCToBoundary p pc + BitVec.ofNat p.va flush.pc_lob - if flush.edge_inst then 2 else 0

/-- `flush_pc_next`. -/
def flush_pc_next (pc : BitVec p.va) (flush : MicroOp p) : BitVec p.va :=
  flush_pc pc flush + if flush.is_rvc then 2 else 4

/-- `npc`. -/
def npc (pc : BitVec p.va) (uop : MicroOp p) : BitVec p.va :=
  uop_maybe_pc pc uop + if uop.is_rvc || uop.edge_inst then 2 else 4

/-- `jal_br_target`. -/
def jal_br_target (pc : BitVec p.va) (uop : MicroOp p) (target_offset : BitVec 21) : BitVec p.va :=
  uop_maybe_pc pc uop + target_offset.signExtend p.va + if uop.edge_inst then -2 else 0

/-- What the unit writes for a jump: `OP1_PC` and `OP2_NEXT`. -/
def link (pc : BitVec p.va) (uop : MicroOp p) : BitVec 64 :=
  (uop_pc pc uop).signExtend 64 + if uop.is_rvc then 2 else 4

theorem mispredict_target_eq (pc : BitVec p.va) (b2 : BrResolutionInfo p) :
    mispredict_target pc b2 = if b2.pc_sel = .PC_PLUS4 then npc pc b2.uop
      else if b2.cfi_type = .CFI_JALR then b2.jalr_target
      else jal_br_target pc b2.uop b2.target_offset := rfl

/-- **A uop from which all is built again**: `a` is the address of its
    instruction, and `i` its place in the packet. -/
structure Rebuilt (pc : BitVec p.va) (start_bank : Bool) (uop : MicroOp p) (a : BitVec p.va)
    (i : ℕ) : Prop where
  csr_pc : csr_pc pc uop = a
  flush_pc : flush_pc pc uop = a
  uop_pc : uop_pc pc uop = a
  flush_pc_next : flush_pc_next pc uop = a + instSize uop.is_rvc
  npc : npc pc uop = a + instSize uop.is_rvc
  link : link pc uop = a.signExtend 64 + instSize uop.is_rvc
  jal_br_target : ∀ offset, jal_br_target pc uop offset = a + offset.signExtend p.va
  cfi_idx : Exu.cfi_idx p start_bank uop.pc_lob = i

/-! ## Addresses -/

section Addresses

variable {m n : ℕ}

/-- The offset in a block is added or put in. -/
theorem align_add_eq_or (h : p.Shape m n) (pc : BitVec p.va) {lob : ℕ} (hl : lob < p.icBlockBytes) :
    AlignPCToBoundary p pc + BitVec.ofNat p.va lob =
      AlignPCToBoundary p pc ||| BitVec.ofNat p.va lob := by
  refine BitVec.add_eq_or_of_and_eq_zero _ _ ?_
  rw [h.icBlockBytes] at hl
  apply BitVec.eq_of_getLsbD_eq
  intro i hi
  rw [BitVec.getLsbD_and, AlignPCToBoundary, h.icBlockBytes, BitVec.getLsbD_not, BitVec.getLsbD_or,
    BitVec.getLsbD_ofNat, BitVec.getLsbD_ofNat, Nat.testBit_two_pow_sub_one, BitVec.getLsbD_zero]
  by_cases hin : i < n
  · simp [hin, hi]
  · have hbit : lob.testBit i = false :=
      Nat.testBit_lt_two_pow (Nat.lt_of_lt_of_le hl (Nat.pow_le_pow_right two_pos (by omega)))
    rw [hbit, Bool.and_false, Bool.and_false]

/-- Adding the top bit and losing the carry turns the bit round. -/
theorem add_pow_mod {k i : ℕ} (hi : i < 2 ^ (k + 1)) : (2 ^ k + i) % 2 ^ (k + 1) = i ^^^ 2 ^ k := by
  apply Nat.eq_of_testBit_eq
  intro j
  rw [Nat.testBit_mod_two_pow, Nat.testBit_xor, Nat.testBit_two_pow]
  rcases Nat.lt_trichotomy j k with hj | rfl | hj
  · rw [Nat.testBit_two_pow_add_gt hj, decide_eq_true (by omega), decide_eq_false (by omega),
      Bool.true_and, Bool.xor_false]
  · rw [Nat.testBit_two_pow_add_eq, decide_eq_true (Nat.lt_succ_self j), decide_eq_true rfl,
      Bool.true_and, Bool.xor_true]
  · have hbit : i.testBit j = false :=
      Nat.testBit_lt_two_pow (Nat.lt_of_lt_of_le hi (Nat.pow_le_pow_right two_pos hj))
    rw [hbit, decide_eq_false (by omega), decide_eq_false (by omega), Bool.false_and,
      Bool.xor_false]

/-- The place in the block, in halves. -/
theorem lob_div_two (h : p.Shape m n) {a : BitVec p.va} {i lob : ℕ}
    (hl : lob = (bankAlign p a + BitVec.ofNat p.va (i <<< 1)).toNat % p.icBlockBytes) {k : ℕ}
    (hk : k + 1 ≤ n) :
    lob / 2 % 2 ^ k = (a.toNat / 2 ^ (m + 1) * 2 ^ m + i) % 2 ^ k := by
  have hva := h.va
  have hdvd : (2 : ℕ) ^ (k + 1) ∣ 2 ^ n := Nat.pow_dvd_pow 2 hk
  have hmod : lob % 2 ^ (k + 1) = (a.toNat / 2 ^ (m + 1) * 2 ^ m + i) * 2 % 2 ^ (k + 1) := by
    rw [hl, h.icBlockBytes, Nat.mod_mod_of_dvd _ hdvd, BitVec.toNat_add, bankAlign_toNat h,
      BitVec.toNat_ofNat, Nat.add_mod_mod, Nat.mod_mod_of_dvd _ (Nat.pow_dvd_pow 2 (by omega)),
      Nat.shiftLeft_eq, pow_one, Nat.add_mul, pow_succ 2 m, mul_assoc]
  have h2 (x : ℕ) : x / 2 % 2 ^ k = x % 2 ^ (k + 1) / 2 := by
    rw [pow_succ', Nat.mod_mul_right_div_self]
  rw [h2, hmod, ← h2, Nat.mul_div_cancel _ two_pos]

/-- **The place of an instruction in its packet**, from its offset in the block. -/
theorem cfi_idx_exact (h : p.Shape m n) {a : BitVec p.va} {i : ℕ} (hi : i < p.fetchWidth) {lob : ℕ}
    (hl : lob = (bankAlign p a + BitVec.ofNat p.va (i <<< 1)).toNat % p.icBlockBytes) :
    cfi_idx p (bank p a) lob = i := by
  have hfits := h.fits
  have hbit : bank p a = (decide (p.nBanks = 2) && a.getLsbD (m + 1)) := by
    rw [bank, h.bankBytes, Nat.clog_pow 2 _ one_lt_two]
  have hfw := h.fetchWidth
  rw [cfi_idx, h.clog_fetchWidth, h.bankBytes, Nat.clog_pow 2 _ one_lt_two, hbit]
  rcases h.nBanks with hn | hn
  · rw [hn, one_mul] at hfw
    rw [hn, show m + (1 - 1) = m from rfl, decide_eq_false (by decide), Bool.false_and,
      if_neg Bool.false_ne_true, Nat.xor_zero, lob_div_two h hl (by omega), Nat.mul_add_mod',
      Nat.mod_eq_of_lt (by omega)]
  · rw [hn] at hfw
    have hi' : i < 2 ^ (m + 1) := by
      rw [pow_succ]
      omega
    rw [hn, show m + (2 - 1) = m + 1 from rfl, decide_eq_true rfl, Bool.true_and]
    have hodd : a.toNat / 2 ^ (m + 1) % 2 = (a.getLsbD (m + 1)).toNat := by
      rw [BitVec.getLsbD, Nat.toNat_testBit]
    have hbase : a.toNat / 2 ^ (m + 1) * 2 ^ m % 2 ^ (m + 1) =
        (a.getLsbD (m + 1)).toNat * 2 ^ m := by
      rw [pow_succ' 2 m, Nat.mul_mod_mul_right, ← pow_succ', hodd]
    have hhalf := lob_div_two h hl (k := m + 1) (by omega)
    rw [Nat.add_mod, hbase, Nat.mod_eq_of_lt hi'] at hhalf
    cases hs : a.getLsbD (m + 1) with
    | false =>
      rw [hs, Bool.toNat_false, Nat.zero_mul, Nat.zero_add, Nat.mod_eq_of_lt hi'] at hhalf
      rw [if_neg Bool.false_ne_true, Nat.xor_zero, hhalf]
    | true =>
      rw [hs, Bool.toNat_true, Nat.one_mul, add_pow_mod hi'] at hhalf
      have hx : (lob ^^^ 1 <<< (m + 1)) / 2 = lob / 2 ^^^ 2 ^ m := by
        rw [← Nat.shiftRight_one, Nat.shiftRight_xor_distrib, Nat.shiftRight_one,
          Nat.shiftRight_one, Nat.one_shiftLeft, pow_succ, Nat.mul_div_cancel _ two_pos]
      rw [if_pos rfl, hx, Nat.xor_mod_two_pow, hhalf,
        Nat.mod_eq_of_lt (Nat.pow_lt_pow_right one_lt_two (Nat.lt_succ_self m)), Nat.xor_assoc,
        Nat.xor_self, Nat.xor_zero]

end Addresses

/-! ## One uop -/

section Uop

variable {m n : ℕ} {pc : BitVec p.va} {u : MicroOp p}

theorem edge_add_sub (x : BitVec p.va) (e : Bool) :
    x + (if e then 2 else 0) + (if e then -2 else 0) = x := by
  cases e with
  | false =>
    simp only [Bool.false_eq_true, if_false]
    rw [show (0 : BitVec p.va) = 0#p.va from rfl, BitVec.add_zero, BitVec.add_zero]
  | true =>
    rw [if_pos rfl, if_pos rfl, BitVec.add_assoc, BitVec.add_right_neg]
    exact BitVec.add_zero _

theorem Placed.sum_pc (h : p.Shape m n) (hu : Placed pc u) (hl : u.pc_lob < p.icBlockBytes) :
    AlignPCToBoundary p pc + BitVec.ofNat p.va u.pc_lob - (if u.edge_inst then 2 else 0) =
      u.debug_pc := by
  rw [align_add_eq_or h pc hl]
  exact hu.uop_pc

theorem Placed.npc (hu : Placed pc u) : npc pc u = u.debug_pc + instSize u.is_rvc := by
  rw [Exu.npc, hu.maybe_pc, instSize]
  cases he : u.edge_inst with
  | false =>
    rw [Bool.or_false, if_neg Bool.false_ne_true]
    exact congrArg (· + _) (BitVec.add_zero _)
  | true =>
    rw [hu.edge he, Bool.or_true, if_pos rfl, if_pos rfl, if_neg Bool.false_ne_true,
      BitVec.add_assoc, two_add_two]

theorem Placed.jal_br_target (hu : Placed pc u) (offset : BitVec 21) :
    jal_br_target pc u offset = u.debug_pc + offset.signExtend p.va := by
  rw [Exu.jal_br_target, hu.maybe_pc, BitVec.add_assoc _ (if u.edge_inst then 2 else 0),
    BitVec.add_comm (if u.edge_inst then 2 else 0), ← BitVec.add_assoc, edge_add_sub]

/-- What a uop needs for all the expressions to be exact. -/
theorem Placed.rebuilt (h : p.Shape m n) (hu : Placed pc u) (hl : u.pc_lob < p.icBlockBytes)
    {start_bank : Bool} {i : ℕ} (hi : Exu.cfi_idx p start_bank u.pc_lob = i) :
    Rebuilt pc start_bank u u.debug_pc i where
  csr_pc := hu.sum_pc h hl
  flush_pc := hu.sum_pc h hl
  uop_pc := hu.uop_pc
  flush_pc_next := congrArg (· + instSize u.is_rvc) (hu.sum_pc h hl)
  npc := hu.npc
  link := by
    rw [Exu.link, hu.uop_pc, instSize]
  jal_br_target := hu.jal_br_target
  cfi_idx := hi

end Uop

/-! ## The uops of a packet -/

section Packet

variable {m n : ℕ} {cfg : F3Cfg} {x : F3In p} {r : F3Regs}

/-- The offset that a uop keeps is that of its slot. -/
theorem pc_lob_in_uops (h : p.Shape m n) (b : FetchPacket p) (i : Fin p.fetchWidth) :
    (in_uops b i).pc_lob =
      (bankAlign p b.pc + BitVec.ofNat p.va (i.val <<< 1)).toNat % p.icBlockBytes := by
  have hdef : (in_uops b i).pc_lob =
      (if decide (i.val % p.bankWidth = 0) && b.edge_inst (i / p.bankWidth) then
        bankAlign p b.pc + BitVec.ofNat p.va (i.val / p.bankWidth * p.bankBytes)
      else bankAlign p b.pc + BitVec.ofNat p.va (i.val <<< 1)).toNat %
        2 ^ Nat.clog 2 p.icBlockBytes := rfl
  rw [hdef, h.icBlockBytes, Nat.clog_pow 2 _ one_lt_two]
  split_ifs with he
  · -- the first slot of a bank
    rw [Bool.and_eq_true, decide_eq_true_eq] at he
    have hi : i.val / p.bankWidth * p.bankBytes = i.val <<< 1 := by
      have hdiv : i.val / p.bankWidth * p.bankWidth = i.val := Nat.div_mul_cancel
        (Nat.dvd_of_mod_eq_zero he.1)
      rw [h.bankBytes, pow_succ, ← mul_assoc, ← h.bankWidth, hdiv, Nat.shiftLeft_eq, pow_one]
    rw [hi]
  · rfl

/-- A slot's instruction starts there, or with the half before. -/
theorem slot_pc (h : p.Shape m n) {i : Fin p.fetchWidth} {t : Slot p}
    (ht : (f3_slots cfg x r)[i.val]? = some t) :
    t.pc = (parcel x i).1 - if t.edge_inst then 2 else 0 := by
  obtain ⟨s', hs'⟩ := exists_slot cfg x r h i
  have hslot : t = s'.slot cfg x r (i / p.bankWidth) (i % p.bankWidth) :=
    Option.some.inj (ht.symm.trans hs')
  have hplace : i.val / p.bankWidth * p.bankWidth + i.val % p.bankWidth = i.val := by
    rw [Nat.mul_comm]
    exact Nat.div_add_mod _ _
  have hpc : t.pc = if t.edge_inst then
      bankAlign p x.pc + BitVec.ofNat p.va
        ((i.val / p.bankWidth * p.bankWidth + i.val % p.bankWidth) <<< 1) - 2
      else bankAlign p x.pc + BitVec.ofNat p.va
        ((i.val / p.bankWidth * p.bankWidth + i.val % p.bankWidth) <<< 1) := by
    rw [hslot]
    rfl
  rw [hpc, hplace, parcel]
  cases t.edge_inst with
  | true => rfl
  | false => exact (BitVec.sub_zero _).symm

/-- The packet that f3 hands on, with any branches marked as short ones. -/
def marked_packet (cfg : F3Cfg) (x : F3In p) (r : F3Regs) (info : PacketInfo) (ftq_idx : ℕ)
    (sfbs shadowed_mask : Fin p.fetchWidth → Bool) : FetchPacket p :=
  { fetch_packet cfg x r info ftq_idx with sfbs := sfbs, shadowed_mask := shadowed_mask }

theorem rebuilt_in_uops (h : p.Shape m n) (hc : cfg.ReadsLower) (hr : RegsOk x.pc r)
    (info : PacketInfo) (ftq_idx : ℕ) (sfbs shadowed_mask : Fin p.fetchWidth → Bool)
    {i : Fin p.fetchWidth} {t : Slot p} (ht : (f3_slots cfg x r)[i.val]? = some t)
    (hm : t.mask = true) :
    let u := in_uops (marked_packet cfg x r info ftq_idx sfbs shadowed_mask) i
    u.is_rvc = isRVC t.inst ∧ Rebuilt x.pc (bank p x.pc) u t.pc i := by
  intro u
  have hfrom := fromSlot info h hc hr ftq_idx ht hm
  have hpos : 0 < p.icBlockBytes := by
    rw [h.icBlockBytes]
    exact Nat.two_pow_pos n
  have hlob : u.pc_lob = (bankAlign p x.pc + BitVec.ofNat p.va (i.val <<< 1)).toNat %
      p.icBlockBytes := pc_lob_in_uops h _ i
  -- whether a branch is marked is of no account to the address
  have hplaced : Placed x.pc u := ⟨hfrom.placed.maybe_pc, hfrom.placed.edge⟩
  refine ⟨hfrom.is_rvc, ?_⟩
  rw [← hfrom.debug_pc]
  exact hplaced.rebuilt h (by rw [hlob]; exact Nat.mod_lt _ hpos) (cfi_idx_exact h i.isLt hlob)

end Packet

/-! ## Every run -/

section Runs

variable {m n : ℕ} {cfg : F3Cfg} {s : Front p}

/-- The frontend, with its register for a half empty at reset. -/
def resetFrontend (cfg : F3Cfg) : Machine (Front p) (FrontCycle p) :=
  { frontend cfg with start := fun s => (frontend cfg).start s ∧ s.regs.f3_prev_is_half = false }

/-- What f3 carries goes on where the next packet starts. -/
structure Carries (s : Front p) : Prop where
  inv : s.Inv
  regs : ∀ a, s.passed.expects = some a → RegsOk a s.regs

theorem nextRegs_of_not_cancel {i : FrontCycle p} (hc : Front.cancel i = false) :
    s.nextRegs cfg i = match s.f3 with
      | some q => if s.f4_ready i then F3Regs.fire cfg (Front.f3_in i q) s.regs else s.regs
      | none => s.regs := by
  rw [Front.nextRegs, hc]
  exact if_neg Bool.false_ne_true

theorem regs_next_of_hold {i : FrontCycle p} (hc : Front.cancel i = false)
    (hf : s.f3_fire cfg i = none) : (s.next cfg i).regs = s.regs := by
  show s.nextRegs cfg i = s.regs
  rw [nextRegs_of_not_cancel hc]
  rw [Front.f3_fire] at hf
  cases hq : s.f3 with
  | none => rfl
  | some q =>
    rw [hq] at hf
    have hr : ¬s.f4_ready i = true := by
      intro hr
      rw [if_pos hr] at hf
      cases hf
    exact if_neg hr

theorem regs_next_of_fire {i : FrontCycle p} (hc : Front.cancel i = false) {q : FrontendResp p}
    (hq : s.f3 = some q) (hr : s.f4_ready i = true) :
    (s.next cfg i).regs = F3Regs.fire cfg (Front.f3_in i q) s.regs := by
  show s.nextRegs cfg i = _
  rw [nextRegs_of_not_cancel hc, hq]
  exact if_pos hr

/-- A cycle that the core cancels forgets the half. -/
theorem regs_next_of_cancel {i : FrontCycle p} (hc : Front.cancel i = true) (a : BitVec p.va) :
    RegsOk a (s.next cfg i).regs := by
  refine RegsOk.of_clear ?_
  show (s.nextRegs cfg i).f3_prev_is_half = false
  rw [Front.nextRegs, hc]
  rfl

theorem Carries.next (h : p.Shape m n) (hc : cfg.ReadsLower) (hs : Carries s)
    (i : FrontCycle p) : Carries (s.next cfg i) := by
  refine ⟨hs.inv.next, fun a ha => ?_⟩
  cases hcan : Front.cancel i with
  | true => exact regs_next_of_cancel hcan a
  | false =>
    cases hf : s.f3_fire cfg i with
    | none =>
      rw [Front.passed_next_of_hold hcan hf] at ha
      rw [regs_next_of_hold hcan hf]
      exact hs.regs a ha
    | some b =>
      obtain ⟨hr, q, hq, rfl⟩ := Front.f3_fire_eq_some hf
      have hreg : RegsOk q.pc s.regs := hs.regs q.pc (hs.inv.f3 q hq)
      rw [Front.passed_next_of_fire hcan hf, Event.expects] at ha
      rw [regs_next_of_fire hcan hq hr]
      split_ifs at ha
      cases ha
      exact (packetUops ⟨false, false, fun _ => false, fun _ => false, 0, 0⟩ h hc hreg 0).regs

theorem regs_of_reach (h : p.Shape m n) (hc : cfg.ReadsLower) (hs : (resetFrontend cfg).Reach s) :
    Carries s :=
  hs.inv (fun _ h0 => ⟨Front.inv_of_start h0.1, fun _ _ => RegsOk.of_clear h0.2⟩)
    fun _ i hk _ => hk.next h hc i

/-- **Addresses are built again exactly**: for every packet that comes to f3 in
    any run, and every instruction of it. -/
theorem pcs_rebuilt (h : p.Supported) (hc : cfg.ReadsLower) (hs : (resetFrontend cfg).Reach s)
    {q : FrontendResp p} (hq : s.f3 = some q) (c : FrontCycle p) (info : PacketInfo) (ftq_idx : ℕ)
    (sfbs shadowed_mask : Fin p.fetchWidth → Bool) {i : Fin p.fetchWidth} {t : Slot p}
    (ht : (f3_slots cfg (Front.f3_in c q) s.regs)[i.val]? = some t) (hm : t.mask = true) :
    let u := in_uops
      (marked_packet cfg (Front.f3_in c q) s.regs info ftq_idx sfbs shadowed_mask) i
    t.pc = (parcel (Front.f3_in c q) i).1 - (if t.edge_inst then 2 else 0) ∧
      u.is_rvc = isRVC t.inst ∧ Rebuilt q.pc (bank p q.pc) u t.pc i := by
  obtain ⟨m, n, h⟩ := h.shape
  have hcar := regs_of_reach h hc hs
  exact ⟨slot_pc h ht, rebuilt_in_uops h hc (hcar.regs q.pc (hcar.inv.f3 q hq)) info ftq_idx sfbs
    shadowed_mask ht hm⟩

end Runs

/-- Every bank ends with the first half of an instruction. -/
def straddleCycle : FrontCycle wideFetch :=
  { hitCycle with icache_data := fun i => if i % 4 = 3 then 0x8093 else 0x0010 }

/-- The second packet has come to f3. -/
def straddleRun : Front wideFetch :=
  (resetFrontend nopCfg).run resetFront [straddleCycle, straddleCycle, straddleCycle]

/-- The packet in f3. -/
def straddleResp : FrontendResp wideFetch := straddleRun.f3.get (by decide +kernel)

/-- The slot of its first parcel. -/
def straddleSlot : Slot wideFetch :=
  (f3_slots nopCfg (Front.f3_in straddleCycle straddleResp) straddleRun.regs).get
    ⟨0, by decide +kernel⟩

/-- Its first slot. -/
def firstSlot : Fin wideFetch.fetchWidth := ⟨0, by decide⟩

theorem straddleRun_reach : (resetFrontend nopCfg).Reach straddleRun :=
  Machine.reach_run (s := resetFront) _
    (.start ⟨⟨rfl, rfl, rfl, rfl, rfl, rfl, rfl, rfl, Nat.one_pos⟩, rfl⟩)
    ⟨trivial, trivial, trivial, trivial⟩

/-- An instruction that starts in the packet before. -/
theorem pcs_rebuilt_straddle : straddleSlot.edge_inst = true ∧ straddleSlot.pc = 0x100e ∧
    Rebuilt straddleResp.pc (bank wideFetch straddleResp.pc)
      (in_uops (marked_packet nopCfg (Front.f3_in straddleCycle straddleResp) straddleRun.regs
        ⟨false, false, fun _ => false, fun _ => false, 0, 0⟩ 0 (fun _ => false) fun _ => false)
        firstSlot) straddleSlot.pc 0 :=
  ⟨by decide +kernel, by decide +kernel,
    (pcs_rebuilt wideFetch_supported nopCfg_readsLower straddleRun_reach
      (Option.some_get _).symm straddleCycle _ 0 _ _ (i := firstSlot)
      (List.getElem?_eq_getElem _) (by decide +kernel)).2.2⟩

end BoomStop.Exu
