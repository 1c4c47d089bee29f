/-
  The global history of a packet (`frontend.scala`, class `GlobalHistory`): the
  branches before it, of which the last bank's are kept apart, and the place in
  the return address stack.

  * `GlobalHistory.histories`: the history that each bank is looked up with;
  * `GlobalHistory.same`: the equality `===`, which leaves out the place in the
    stack;
  * `GlobalHistory.update`: the history after a packet.
-/
import BoomStop.Frontend

namespace BoomStop.Ifu

open RingOrder

variable {p : Params} {L R : ℕ}

/-- `GlobalHistory`, of `L` bits, and with a stack of `R` return addresses. -/
structure GlobalHistory (L R : ℕ) where
  old_history : BitVec L
  current_saw_branch_not_taken : Bool
  new_saw_branch_not_taken : Bool
  new_saw_branch_taken : Bool
  ras_idx : Fin R
  deriving DecidableEq

/-- What `update` is told of a packet. -/
structure HistoryUpdate (p : Params) where
  branches : ℕ → Bool
  cfi_taken : Bool
  cfi_is_br : Bool
  cfi_idx : ℕ
  cfi_valid : Bool
  addr : BitVec p.va
  cfi_is_call : Bool
  cfi_is_ret : Bool

namespace HistoryUpdate

variable (u : HistoryUpdate p)

/-- `cfi_idx_fixed`. -/
def cfi_idx_fixed : ℕ := u.cfi_idx % 2 ^ Nat.clog 2 p.fetchWidth

/-- `not_taken_branches`. -/
def not_taken_branches (i : ℕ) : Bool :=
  u.branches i && (!u.cfi_valid || decide (i ≤ u.cfi_idx_fixed) &&
    !(u.cfi_is_br && u.cfi_taken && i == u.cfi_idx_fixed))

/-- `cfi_in_bank_0`. -/
def cfi_in_bank_0 : Bool := u.cfi_valid && u.cfi_taken && decide (u.cfi_idx_fixed < p.bankWidth)

/-- `ignore_second_bank`. -/
def ignore_second_bank : Bool := u.cfi_in_bank_0 || isLastBankInBlock p u.addr

/-- `cfi_is_call` and `cfi_is_ret`, of a packet that has a CFI. -/
def calls : Bool := u.cfi_valid && u.cfi_is_call

/-- The packet ends in a return. -/
def returns : Bool := u.cfi_valid && u.cfi_is_ret

end HistoryUpdate

/-- The place in the stack after a packet. -/
def rasStep [NeZero R] (calls returns : Bool) (ras_idx : Fin R) : Fin R :=
  if calls then wrapInc ras_idx else if returns then wrapDec ras_idx else ras_idx

namespace GlobalHistory

/-- `histories`; the second bank sees the branches of the first. -/
def histories (p : Params) (g : GlobalHistory L R) (bank : Bool) : BitVec L :=
  if p.nBanks = 1 then g.old_history
  else if bank then
    if g.new_saw_branch_taken then g.old_history <<< 1 ||| 1
    else if g.new_saw_branch_not_taken then g.old_history <<< 1
    else g.old_history
  else g.old_history

/-- `===`. -/
def same (g o : GlobalHistory L R) : Bool :=
  g.old_history == o.old_history &&
    g.new_saw_branch_not_taken == o.new_saw_branch_not_taken &&
    g.new_saw_branch_taken == o.new_saw_branch_taken

/-- `update`; `dontCare` are the two bits that one bank leaves open. -/
def update [NeZero R] (dontCare : Bool × Bool) (g : GlobalHistory L R) (u : HistoryUpdate p) :
    GlobalHistory L R :=
  if p.nBanks = 1 then
    let saw_not_taken_branch :=
      (List.range p.fetchWidth).any u.not_taken_branches || g.current_saw_branch_not_taken
    { old_history :=
        if u.cfi_is_br && u.cfi_taken && u.cfi_valid then g.histories p false <<< 1 ||| 1
        else if saw_not_taken_branch then g.histories p false <<< 1
        else g.histories p false
      current_saw_branch_not_taken := false
      new_saw_branch_not_taken := dontCare.1
      new_saw_branch_taken := dontCare.2
      ras_idx := rasStep u.calls u.returns g.ras_idx }
  else
    let first_bank_saw_not_taken :=
      (List.range p.bankWidth).any u.not_taken_branches || g.current_saw_branch_not_taken
    if u.ignore_second_bank then
      { old_history := g.histories p true
        current_saw_branch_not_taken := false
        new_saw_branch_not_taken := first_bank_saw_not_taken
        new_saw_branch_taken := u.cfi_is_br && u.cfi_in_bank_0
        ras_idx := rasStep u.calls u.returns g.ras_idx }
    else
      { old_history :=
          if u.cfi_is_br && u.cfi_in_bank_0 then g.histories p true <<< 1 ||| 1
          else if first_bank_saw_not_taken then g.histories p true <<< 1
          else g.histories p true
        current_saw_branch_not_taken := false
        new_saw_branch_not_taken :=
          (List.range (p.fetchWidth - p.bankWidth)).any fun i =>
            u.not_taken_branches (p.bankWidth + i)
        new_saw_branch_taken := u.cfi_valid && u.cfi_taken && u.cfi_is_br && !u.cfi_in_bank_0
        ras_idx := rasStep u.calls u.returns g.ras_idx }

variable {g o : GlobalHistory L R}

theorem same_eq_true : g.same o = true ↔ g.old_history = o.old_history ∧
    g.new_saw_branch_not_taken = o.new_saw_branch_not_taken ∧
    g.new_saw_branch_taken = o.new_saw_branch_taken := by
  rw [same, Bool.and_eq_true, Bool.and_eq_true, beq_iff_eq, beq_iff_eq, beq_iff_eq, and_assoc]

/-- Histories that are the same are looked up alike. -/
theorem histories_congr (h : g.same o = true) (b : Bool) : g.histories p b = o.histories p b := by
  obtain ⟨hold, hn, ht⟩ := same_eq_true.1 h
  rw [histories, histories, hold, hn, ht]

variable [NeZero R]

/-- The update moves the place in the stack by itself. -/
theorem ras_idx_update (dontCare : Bool × Bool) (u : HistoryUpdate p) :
    (g.update dontCare u).ras_idx = rasStep u.calls u.returns g.ras_idx := by
  rw [update]
  split_ifs <;> rfl

end GlobalHistory

end BoomStop.Ifu
