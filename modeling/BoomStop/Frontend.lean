/-
  The third stage of the frontend (`frontend.scala`, with `BranchDecode` and the
  target computations it uses): a packet of the instruction cache is cut into
  instructions, each is decoded for control flow, and the first one that
  redirects ends the packet.

  * `fetchMask`, `bankMask`, `nextFetch`: which halves of a packet count, and
    where the next packet starts;
  * `BranchDecode`: the control flow of an expanded instruction;
  * `Scan.slot`, `Scan.bank`, `scan`: the parse loop over banks and slots;
  * `f3_fetch_bundle`, `F3Regs.next`: what leaves the stage and what it keeps.

  The marks for short forward branches are left out: they do not take part in
  the parse, and only delay packets when these branches are not enabled.
-/
import BoomStop.FetchBuffer
import BoomStop.Decode

namespace BoomStop.Ifu

variable {p : Params}

/-! ## Addresses -/

/-- `bankWidth`. -/
def Params.bankWidth (p : Params) : ℕ := p.fetchWidth / p.nBanks

/-- `fetchBytes`. -/
def Params.fetchBytes (p : Params) : ℕ := 2 * p.fetchWidth

/-- `isLastBankInBlock`. -/
def isLastBankInBlock (p : Params) (addr : BitVec p.va) : Bool :=
  p.nBanks == 2 &&
    (addr.extractLsb' (Nat.clog 2 p.bankBytes)
      (Nat.clog 2 p.icBlockBytes - Nat.clog 2 p.bankBytes)).toNat ==
      p.icBlockBytes / p.bankBytes - 1

/-- `nextFetch`. -/
def nextFetch (p : Params) (addr : BitVec p.va) : BitVec p.va :=
  bankAlign p addr + BitVec.ofNat p.va
    (if p.nBanks = 1 then p.bankBytes
    else if isLastBankInBlock p addr then p.bankBytes else p.fetchBytes)

/-- `fetchMask`. -/
def fetchMask (p : Params) (addr : BitVec p.va) : BitVec p.fetchWidth :=
  let idx := (addr.extractLsb' 1 (Nat.clog 2 p.fetchWidth)).toNat
  if p.nBanks = 1 then BitVec.allOnes p.fetchWidth <<< idx
  else
    let shamt := idx % 2 ^ (Nat.clog 2 p.fetchWidth - 1)
    let end_mask := if isLastBankInBlock p addr
      then (BitVec.allOnes (p.fetchWidth / 2)).setWidth p.fetchWidth
      else BitVec.allOnes p.fetchWidth
    BitVec.allOnes p.fetchWidth <<< shamt &&& end_mask

/-- `bankMask`. -/
def bankMask (p : Params) (addr : BitVec p.va) : BitVec p.nBanks :=
  if p.nBanks = 1 then 1 else if isLastBankInBlock p addr then 1 else 3

/-! ## Control flow -/

/-- `cfi_type`. -/
inductive CfiType
  | CFI_X | CFI_BR | CFI_JAL | CFI_JALR
  deriving DecidableEq

/-- `isRVC`. -/
def isRVC (inst : BitVec 32) : Bool := inst.extractLsb' 0 2 != 3

/-- `ComputeBranchTarget`. -/
def ComputeBranchTarget {va : ℕ} (pc : BitVec va) (inst : BitVec 32) : BitVec va :=
  let b_imm32 : BitVec 32 := (inst.extractLsb' 31 1).signExtend 20 ++ inst.extractLsb' 7 1 ++
    inst.extractLsb' 25 6 ++ inst.extractLsb' 8 4 ++ (0 : BitVec 1)
  (pc + b_imm32.signExtend va) &&& ~~~1

/-- `ComputeJALTarget`. -/
def ComputeJALTarget {va : ℕ} (pc : BitVec va) (inst : BitVec 32) : BitVec va :=
  let j_imm32 : BitVec 32 := (inst.extractLsb' 31 1).signExtend 12 ++ inst.extractLsb' 12 8 ++
    inst.extractLsb' 20 1 ++ inst.extractLsb' 25 6 ++ inst.extractLsb' 21 4 ++ (0 : BitVec 1)
  (pc + j_imm32.signExtend va) &&& ~~~1

/-- The `JAL` encodings. -/
def cs_is_jal (inst : BitVec 32) : Bool := inst.extractLsb' 0 7 == 0b1101111

/-- The `JALR` encodings. -/
def cs_is_jalr (inst : BitVec 32) : Bool :=
  inst.extractLsb' 0 7 == 0b1100111 && inst.extractLsb' 12 3 == 0

/-- The encodings of the six branches. -/
def cs_is_br (inst : BitVec 32) : Bool :=
  inst.extractLsb' 0 7 == 0b1100011 && inst.extractLsb' 12 3 != 2 && inst.extractLsb' 12 3 != 3

/-- `BranchDecodeSignals`. -/
structure BranchDecodeSignals (va : ℕ) where
  is_ret : Bool
  is_call : Bool
  target : BitVec va
  cfi_type : CfiType

/-- `BranchDecode`. -/
def BranchDecode {va : ℕ} (inst : BitVec 32) (pc : BitVec va) : BranchDecodeSignals va where
  is_call := (cs_is_jal inst || cs_is_jalr inst) && instRd inst == 1
  is_ret := cs_is_jalr inst && instRs1 inst &&& 0b11011 == 1 && instRd inst == 0
  target := if cs_is_br inst then ComputeBranchTarget pc inst else ComputeJALTarget pc inst
  cfi_type :=
    if cs_is_jalr inst then .CFI_JALR
    else if cs_is_jal inst then .CFI_JAL
    else if cs_is_br inst then .CFI_BR
    else .CFI_X

/-! ## The parse loop -/

/-- What the stage uses that is not its own: the expander of compressed
    instructions, and the two switches of the predictor. -/
structure F3Cfg where
  ExpandRVC : BitVec 32 → BitVec 32
  useBPD : Bool
  useRAS : Bool

/-- A packet of the instruction cache, by its halves, with what the predictor
    says about it and the top of the return address stack. -/
structure F3In (p : Params) where
  pc : BitVec p.va
  /-- `data(16*i+15, 16*i)` -/
  data : ℕ → BitVec 16
  preds_taken : ℕ → Bool
  preds_predicted_pc : ℕ → BitVec p.va
  ras_read_addr : BitVec p.va

/-- The registers of the stage. -/
structure F3Regs where
  f3_prev_half : BitVec 16
  f3_prev_is_half : Bool

/-- One slot of the bundle. -/
structure Slot (p : Params) where
  inst : BitVec 32
  exp_inst : BitVec 32
  pc : BitVec p.va
  /-- for the first slot of a bank, `edge_inst` -/
  edge_inst : Bool
  brsigs : BranchDecodeSignals p.va
  mask : Bool
  redirects : Bool

/-- The variables of the loop; the slots newest first. -/
structure Scan (p : Params) where
  slots : List (Slot p)
  redirect_found : Bool
  bank_prev_is_half : Bool
  bank_prev_half : BitVec 16
  last_inst : BitVec 16

namespace Scan

variable (cfg : F3Cfg) (x : F3In p) (r : F3Regs) (s : Scan p)

/-- `bank_mask(w-1) && !isRVC(bank_insts(w-1))`. -/
def prev_long : Bool :=
  match s.slots with
  | [] => false
  | q :: _ => q.mask && !isRVC q.inst

/-- `bank_mask(w-2) && !isRVC(bank_insts(w-2))`. -/
def prev_prev_long : Bool :=
  match s.slots with
  | _ :: q :: _ => q.mask && !isRVC q.inst
  | _ => false

/-- Slot `w` of bank `b`. -/
def slot (b w : ℕ) : Slot p :=
  let i := b * p.bankWidth + w
  let aligned := bankAlign p x.pc + BitVec.ofNat p.va (i <<< 1)
  let edge := w == 0 && s.bank_prev_is_half
  let inst : BitVec 32 :=
    if edge then
      x.data i ++ (if 0 < b ∧ (bankMask p x.pc).getLsbD (b - 1) then s.last_inst
        else r.f3_prev_half)
    -- the last slot does not see the half behind it
    else if w ≠ 0 ∧ w ≠ 1 ∧ w = p.bankWidth - 1 then (0 : BitVec 16) ++ x.data i
    else x.data (i + 1) ++ x.data i
  let pc := if edge then aligned - 2 else aligned
  let valid :=
    if w = 0 then true
    -- the instruction of slot 0 may have begun in the bank before
    else if w = 1 then s.bank_prev_is_half || !s.prev_long
    else if w = p.bankWidth - 1 then !(s.prev_long || !isRVC inst)
    else !s.prev_long
  let brsigs := BranchDecode (cfg.ExpandRVC inst) pc
  let mask := (fetchMask p x.pc).getLsbD i && valid && !s.redirect_found
  { inst := inst
    exp_inst := cfg.ExpandRVC inst
    pc := pc
    edge_inst := edge
    brsigs := brsigs
    mask := mask
    redirects := mask && (brsigs.cfi_type == .CFI_JAL || brsigs.cfi_type == .CFI_JALR ||
      brsigs.cfi_type == .CFI_BR && x.preds_taken i && cfg.useBPD) }

/-- The loop over the slots of a bank. -/
def step (b : ℕ) (w : ℕ) : Scan p :=
  let t := s.slot cfg x r b w
  { s with slots := t :: s.slots, redirect_found := s.redirect_found || t.redirects }

/-- What a bank leaves for the next. -/
def endBank (b : ℕ) : Scan p :=
  let last_inst := match s.slots with
    | [] => 0
    | q :: _ => q.inst.setWidth 16
  { s with
    last_inst := last_inst
    bank_prev_is_half := if (bankMask p x.pc).getLsbD b
      then !s.prev_prev_long && !isRVC (last_inst.setWidth 32) else s.bank_prev_is_half
    bank_prev_half := if (bankMask p x.pc).getLsbD b then last_inst else s.bank_prev_half }

/-- A bank. -/
def bank (b : ℕ) : Scan p :=
  ((List.range p.bankWidth).foldl (step cfg x r · b) s).endBank x b

end Scan

section Stage

variable (cfg : F3Cfg) (x : F3In p) (r : F3Regs)

/-- The variables before the loop. -/
def scan_start : Scan p := ⟨[], false, r.f3_prev_is_half, r.f3_prev_half, 0⟩

/-- The parse loop. -/
def scan : Scan p := (List.range p.nBanks).foldl (Scan.bank cfg x r) (scan_start r)

/-- The slots of the bundle, in order. -/
def f3_slots : List (Slot p) := (scan cfg x r).slots.reverse

/-- `f3_redirects.reduce(_||_)`. -/
def cfi_idx_valid : Bool := (f3_slots cfg x r).any Slot.redirects

/-- `PriorityEncoder(f3_redirects)`. -/
def cfi_idx : ℕ := ((f3_slots cfg x r).findIdx? Slot.redirects).getD (p.fetchWidth - 1)

/-- The slot that `cfi_idx` names. -/
def cfi_slot : Option (Slot p) := (f3_slots cfg x r)[cfi_idx cfg x r]?

/-- `f3_targs`. -/
def f3_targ (i : ℕ) (t : Slot p) : BitVec p.va :=
  if t.brsigs.cfi_type = .CFI_JALR then x.preds_predicted_pc i else t.brsigs.target

/-- `f3_predicted_target`, the `next_pc` of the bundle. -/
def f3_predicted_target : BitVec p.va :=
  match cfi_slot cfg x r with
  | some t =>
    if cfi_idx_valid cfg x r then
      if t.brsigs.is_ret && cfg.useBPD && cfg.useRAS then x.ras_read_addr
      else f3_targ x (cfi_idx cfg x r) t
    else nextFetch p x.pc
  | none => nextFetch p x.pc

/-- The registers after a packet has gone on; a redirect forgets the half. -/
def F3Regs.fire : F3Regs where
  f3_prev_half := (scan cfg x r).bank_prev_half
  f3_prev_is_half := (scan cfg x r).bank_prev_is_half && !cfi_idx_valid cfg x r

end Stage

/-- `f3_clear`. -/
def F3Regs.clear (r : F3Regs) : F3Regs := { r with f3_prev_is_half := false }

end BoomStop.Ifu
