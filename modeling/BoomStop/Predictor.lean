/-
  The banks of the branch predictor (`predictor.scala`): what a bank is told of
  a packet that it has predicted.

  * `BankUpdate`: `BranchPredictionBankUpdate`;
  * `fetchIdx`: the number of a packet;
  * `foldedHist`: a history folded to the width of an index.
-/
import BoomStop.Frontend

namespace BoomStop.Bpd

open Ifu

variable {p : Params}

/-- `BranchPredictionBankUpdate`, with a bit for each lane of the bank. -/
structure BankUpdate (p : Params) where
  valid : Bool
  is_mispredict_update : Bool
  is_repair_update : Bool
  btb_mispredicts : ℕ → Bool
  pc : BitVec p.va
  br_mask : ℕ → Bool
  cfi_idx_valid : Bool
  cfi_idx : ℕ
  cfi_taken : Bool
  cfi_mispredicted : Bool
  cfi_is_br : Bool
  cfi_is_jal : Bool
  cfi_is_jalr : Bool
  ghist : ℕ
  lhist : ℕ
  target : BitVec p.va
  metadata : ℕ

/-- `is_btb_mispredict_update`. -/
def BankUpdate.is_btb_mispredict_update (u : BankUpdate p) : Bool :=
  (List.range p.bankWidth).any u.btb_mispredicts

/-- `is_commit_update`. -/
def BankUpdate.is_commit_update (u : BankUpdate p) : Bool :=
  !(u.is_mispredict_update || u.is_repair_update || u.is_btb_mispredict_update)

/-- The CFI of the packet is in a lane. -/
def BankUpdate.cfi_at (u : BankUpdate p) (w : ℕ) : Bool := u.cfi_idx_valid && u.cfi_idx == w

/-- `fetchIdx`. -/
def fetchIdx (p : Params) (addr : BitVec p.va) : ℕ := addr.toNat / 2 ^ Nat.clog 2 p.fetchBytes

/-- `compute_folded_hist`: the chunks of `l` bits of a history, the last one
    shorter. -/
def foldedHist (histLength l hist : ℕ) : ℕ :=
  let nChunks := (histLength + l - 1) / l
  (List.range nChunks).foldl
    (fun h i => h ^^^ hist / 2 ^ (i * l) % 2 ^ (min ((i + 1) * l) histLength - i * l)) 0

theorem foldedHist_lt (histLength l hist : ℕ) : foldedHist histLength l hist < 2 ^ l := by
  rw [foldedHist]
  induction (histLength + l - 1) / l with
  | zero => exact Nat.two_pow_pos l
  | succ n ih =>
    rw [List.range_succ, List.foldl_append, List.foldl_cons, List.foldl_nil]
    refine Nat.xor_lt_two_pow ih (Nat.lt_of_lt_of_le (Nat.mod_lt _ (Nat.two_pow_pos _)) ?_)
    refine Nat.pow_le_pow_right two_pos ?_
    rw [Nat.add_mul, one_mul]
    omega

end BoomStop.Bpd
