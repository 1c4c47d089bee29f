/-
  The global history does not depend on how packets are cut (`frontend.scala`,
  class `GlobalHistory`, two banks).

  * `push`: a bank adds 1 to the history if it ends in a taken branch, 0 if it
    only has branches that are not taken, and nothing if it has none;
  * `HistoryUpdate.bankOutcome`: what a bank of a packet adds;
  * `HistoryUpdate.firstBank`, `secondBank`: the banks of a packet, each as a
    packet of its own;
  * `history_independent_of_cut`: a packet and its banks one by one make the
    same history, and what is looked up is what all banks have added.
-/
import BoomStop.FetchParse
import BoomStop.GlobalHistory

namespace BoomStop.Ifu

variable {p : Params} {L R m n : ℕ}

/-! ## What a bank adds -/

/-- The history with what a bank adds to it. -/
def push (h : BitVec L) : Option Bool → BitVec L
  | some true => h <<< 1 ||| 1
  | some false => h <<< 1
  | none => h

namespace GlobalHistory

/-- What the last bank adds; it is kept apart in two flags. -/
def pending (g : GlobalHistory L R) : Option Bool :=
  if g.new_saw_branch_taken then some true
  else if g.new_saw_branch_not_taken then some false
  else none

theorem histories_false (g : GlobalHistory L R) : g.histories p false = g.old_history := by
  rw [histories, if_neg Bool.false_ne_true, ite_self]

theorem histories_true (hb : p.nBanks = 2) (g : GlobalHistory L R) :
    g.histories p true = push g.old_history g.pending := by
  have hne : p.nBanks ≠ 1 := by omega
  rw [histories, if_neg hne, if_pos rfl, pending]
  cases g.new_saw_branch_taken with
  | true => rfl
  | false => cases g.new_saw_branch_not_taken <;> rfl

end GlobalHistory

namespace HistoryUpdate

variable (u : HistoryUpdate p)

/-- The packet ends with a branch that is taken, in the bank from slot `lo` on. -/
def endsTaken (lo : ℕ) : Bool :=
  u.cfi_valid && u.cfi_taken && u.cfi_is_br && decide (lo ≤ u.cfi_idx_fixed) &&
    decide (u.cfi_idx_fixed < lo + p.bankWidth)

/-- The bank has a branch that is not taken. -/
def sawNotTaken (lo : ℕ) : Bool := (List.range p.bankWidth).any fun i => u.not_taken_branches (lo + i)

/-- What a bank adds; `saw` is a branch before the packet. -/
def bankOutcome (saw : Bool) (lo : ℕ) : Option Bool :=
  if u.endsTaken lo then some true
  else if u.sawNotTaken lo || saw then some false
  else none

/-- What the banks of a packet add, the first one with what was seen before. -/
def outcomes (saw : Bool) : List (Option Bool) :=
  if u.ignore_second_bank then [u.bankOutcome saw 0]
  else [u.bankOutcome saw 0, u.bankOutcome false p.bankWidth]

/-- What the last bank of a packet adds. -/
def lastOutcome (saw : Bool) : Option Bool :=
  if u.ignore_second_bank then u.bankOutcome saw 0 else u.bankOutcome false p.bankWidth

/-- The control flow instruction is in the first bank. -/
def cfiInFirst : Bool := u.cfi_valid && decide (u.cfi_idx_fixed < p.bankWidth)

/-- The first bank, as a packet at the end of a block. -/
def firstBank (addr : BitVec p.va) : HistoryUpdate p :=
  { u with
    branches := fun i => decide (i < p.bankWidth) && u.branches i
    cfi_taken := u.cfi_taken && u.cfiInFirst
    cfi_valid := u.cfiInFirst
    addr := addr }

/-- The second bank, as a packet at the end of a block. -/
def secondBank (addr : BitVec p.va) : HistoryUpdate p :=
  { u with
    branches := fun i => decide (i < p.bankWidth) && u.branches (p.bankWidth + i)
    cfi_idx := u.cfi_idx_fixed - p.bankWidth
    addr := addr }

/-- The packets that a packet of two banks is cut into. -/
def cut (addr : BitVec p.va) : List (HistoryUpdate p) :=
  if u.cfiInFirst then [u.firstBank addr] else [u.firstBank addr, u.secondBank addr]

variable {u}

/-! ## The banks of a packet -/

theorem any_range_congr {k : ℕ} {f g : ℕ → Bool} (h : ∀ i < k, f i = g i) :
    (List.range k).any f = (List.range k).any g := by
  rw [Bool.eq_iff_iff, List.any_eq_true, List.any_eq_true]
  refine exists_congr fun i => and_congr_right fun hi => ?_
  rw [h i (List.mem_range.1 hi)]

theorem cfi_idx_fixed_lt (h : p.Shape m n) (hb : p.nBanks = 2) :
    u.cfi_idx_fixed < p.bankWidth + p.bankWidth := by
  have hlt : u.cfi_idx_fixed < 2 ^ Nat.clog 2 p.fetchWidth := Nat.mod_lt _ (Nat.two_pow_pos _)
  rw [h.clog_fetchWidth, hb, pow_succ] at hlt
  rw [h.bankWidth]
  omega

theorem bankOutcome_false (lo : ℕ) : u.bankOutcome false lo =
    if u.endsTaken lo then some true else if u.sawNotTaken lo then some false else none := by
  rw [bankOutcome, Bool.or_false]

theorem cfi_in_bank_0_eq : u.cfi_in_bank_0 = (u.cfi_taken && u.cfiInFirst) := by
  rw [cfi_in_bank_0, cfiInFirst, Bool.and_comm u.cfi_valid, Bool.and_assoc]

theorem endsTaken_zero : u.endsTaken 0 = (u.cfi_is_br && u.cfi_in_bank_0) := by
  rw [endsTaken, cfi_in_bank_0, decide_eq_true (Nat.zero_le _), Nat.zero_add, Bool.and_true,
    Bool.and_comm u.cfi_is_br, Bool.and_right_comm]

theorem endsTaken_bankWidth (h : p.Shape m n) (hb : p.nBanks = 2) :
    u.endsTaken p.bankWidth =
      (u.cfi_valid && u.cfi_taken && u.cfi_is_br && !u.cfi_in_bank_0) := by
  have hlt := cfi_idx_fixed_lt h hb (u := u)
  have hle : decide (p.bankWidth ≤ u.cfi_idx_fixed) = !decide (u.cfi_idx_fixed < p.bankWidth) := by
    rw [← decide_not, decide_eq_decide, not_lt]
  rw [endsTaken, decide_eq_true hlt, Bool.and_true, cfi_in_bank_0, hle]
  cases u.cfi_valid <;> cases u.cfi_taken <;> rfl

variable {addr : BitVec p.va}

/-- A bank alone is all there is of its packet. -/
theorem ignore_of_last (hl : isLastBankInBlock p u.addr = true) : u.ignore_second_bank = true := by
  rw [ignore_second_bank, hl, Bool.or_true]

theorem ignore_of_cfiInFirst (ht : u.cfi_taken = u.cfi_valid) (hc : u.cfiInFirst = true) :
    u.ignore_second_bank = true := by
  have hv : u.cfi_taken = true := by
    rw [ht]
    rw [cfiInFirst, Bool.and_eq_true] at hc
    exact hc.1
  rw [ignore_second_bank, cfi_in_bank_0_eq, hv, hc]
  rfl

theorem ignore_eq_false (hl : isLastBankInBlock p u.addr = false) (hc : u.cfiInFirst = false) :
    u.ignore_second_bank = false := by
  rw [ignore_second_bank, hl, cfi_in_bank_0_eq, hc, Bool.and_false, Bool.or_self]

theorem firstBank_not_taken {i : ℕ} (hi : i < p.bankWidth) :
    (u.firstBank addr).not_taken_branches i = u.not_taken_branches i := by
  have hdef : (u.firstBank addr).not_taken_branches i =
      ((decide (i < p.bankWidth) && u.branches i) && (!u.cfiInFirst ||
        decide (i ≤ u.cfi_idx_fixed) &&
          !(u.cfi_is_br && (u.cfi_taken && u.cfiInFirst) && i == u.cfi_idx_fixed))) := rfl
  rw [hdef, not_taken_branches, decide_eq_true hi, Bool.true_and]
  cases hc : u.cfiInFirst with
  | true =>
    rw [cfiInFirst, Bool.and_eq_true] at hc
    rw [hc.1, Bool.and_true]
  | false =>
    -- an instruction that is not in the first bank comes after it
    rw [cfiInFirst, Bool.and_eq_false_iff, decide_eq_false_iff_not, not_lt] at hc
    rcases hc with hv | hidx
    · rw [hv]
      rfl
    · have hne : (i == u.cfi_idx_fixed) = false := beq_false_of_ne (by omega)
      rw [decide_eq_true (by omega), hne]
      simp

theorem firstBank_sawNotTaken : (u.firstBank addr).sawNotTaken 0 = u.sawNotTaken 0 := by
  refine any_range_congr fun i hi => ?_
  rw [Nat.zero_add, firstBank_not_taken hi]

theorem firstBank_endsTaken : (u.firstBank addr).endsTaken 0 = u.endsTaken 0 := by
  have hdef : (u.firstBank addr).endsTaken 0 = (u.cfiInFirst && (u.cfi_taken && u.cfiInFirst) &&
      u.cfi_is_br && decide (0 ≤ u.cfi_idx_fixed) &&
        decide (u.cfi_idx_fixed < 0 + p.bankWidth)) := rfl
  rw [hdef, endsTaken, cfiInFirst, Nat.zero_add]
  cases u.cfi_valid <;> cases u.cfi_taken <;> cases u.cfi_is_br <;>
    cases decide (u.cfi_idx_fixed < p.bankWidth) <;> rfl

theorem secondBank_idx :
    (u.secondBank addr).cfi_idx_fixed = u.cfi_idx_fixed - p.bankWidth := by
  have hlt : u.cfi_idx_fixed < 2 ^ Nat.clog 2 p.fetchWidth := Nat.mod_lt _ (Nat.two_pow_pos _)
  exact Nat.mod_eq_of_lt (Nat.lt_of_le_of_lt (Nat.sub_le _ _) hlt)

theorem secondBank_not_taken (hc : u.cfiInFirst = false)
    {i : ℕ} (hi : i < p.bankWidth) :
    (u.secondBank addr).not_taken_branches i = u.not_taken_branches (p.bankWidth + i) := by
  have hdef : (u.secondBank addr).not_taken_branches i =
      ((decide (i < p.bankWidth) && u.branches (p.bankWidth + i)) && (!u.cfi_valid ||
        decide (i ≤ (u.secondBank addr).cfi_idx_fixed) &&
          !(u.cfi_is_br && u.cfi_taken && i == (u.secondBank addr).cfi_idx_fixed))) := rfl
  rw [hdef, secondBank_idx, not_taken_branches, decide_eq_true hi, Bool.true_and]
  rw [cfiInFirst, Bool.and_eq_false_iff, decide_eq_false_iff_not, not_lt] at hc
  rcases hc with hv | hidx
  · rw [hv]
    rfl
  · have hle : decide (i ≤ u.cfi_idx_fixed - p.bankWidth) =
        decide (p.bankWidth + i ≤ u.cfi_idx_fixed) := decide_eq_decide.2 (by omega)
    have heq : (i == u.cfi_idx_fixed - p.bankWidth) = (p.bankWidth + i == u.cfi_idx_fixed) := by
      rw [Bool.eq_iff_iff, beq_iff_eq, beq_iff_eq]
      omega
    rw [hle, heq]

theorem secondBank_sawNotTaken (hc : u.cfiInFirst = false) :
    (u.secondBank addr).sawNotTaken 0 = u.sawNotTaken p.bankWidth := by
  refine any_range_congr fun i hi => ?_
  rw [Nat.zero_add, secondBank_not_taken hc hi]

theorem secondBank_endsTaken (h : p.Shape m n) (hb : p.nBanks = 2) (hc : u.cfiInFirst = false) :
    (u.secondBank addr).endsTaken 0 = u.endsTaken p.bankWidth := by
  have hlt := cfi_idx_fixed_lt h hb (u := u)
  have hdef : (u.secondBank addr).endsTaken 0 = (u.cfi_valid && u.cfi_taken && u.cfi_is_br &&
      decide (0 ≤ (u.secondBank addr).cfi_idx_fixed) &&
        decide ((u.secondBank addr).cfi_idx_fixed < 0 + p.bankWidth)) := rfl
  rw [hdef, secondBank_idx, endsTaken]
  rw [cfiInFirst, Bool.and_eq_false_iff, decide_eq_false_iff_not, not_lt] at hc
  rcases hc with hv | hidx
  · rw [hv]
    rfl
  · rw [decide_eq_true (Nat.zero_le _), decide_eq_true (by omega), decide_eq_true hidx,
      decide_eq_true hlt]

end HistoryUpdate

/-! ## The history after a packet -/

namespace GlobalHistory

variable [NeZero R] {g : GlobalHistory L R} {u : HistoryUpdate p} {dontCare : Bool × Bool}

/-- After a packet of one bank. -/
theorem update_of_ignore (hb : p.nBanks = 2) (hi : u.ignore_second_bank = true) :
    g.update dontCare u = ⟨g.histories p true, false,
      u.sawNotTaken 0 || g.current_saw_branch_not_taken, u.endsTaken 0,
      rasStep u.calls u.returns g.ras_idx⟩ := by
  have hne : p.nBanks ≠ 1 := by omega
  rw [update, if_neg hne, if_pos hi, HistoryUpdate.endsTaken_zero, HistoryUpdate.sawNotTaken]
  simp only [Nat.zero_add]

/-- After a packet of two banks. -/
theorem update_of_both (h : p.Shape m n) (hb : p.nBanks = 2) (hi : u.ignore_second_bank = false) :
    g.update dontCare u =
      ⟨push (g.histories p true) (u.bankOutcome g.current_saw_branch_not_taken 0), false,
        u.sawNotTaken p.bankWidth, u.endsTaken p.bankWidth,
        rasStep u.calls u.returns g.ras_idx⟩ := by
  have hne : p.nBanks ≠ 1 := by omega
  have hin : u.cfi_in_bank_0 = false := by
    rw [HistoryUpdate.ignore_second_bank, Bool.or_eq_false_iff] at hi
    exact hi.1
  have hfw : p.fetchWidth - p.bankWidth = p.bankWidth := by
    rw [h.fetchWidth, hb, h.bankWidth]
    omega
  rw [update, if_neg hne, hi, if_neg Bool.false_ne_true, HistoryUpdate.endsTaken_bankWidth h hb,
    HistoryUpdate.bankOutcome, HistoryUpdate.endsTaken_zero, hin, Bool.and_false, hfw,
    HistoryUpdate.sawNotTaken, HistoryUpdate.sawNotTaken]
  simp only [Nat.zero_add, if_neg Bool.false_ne_true]
  congr 1
  split_ifs <;> rfl

theorem pending_update (h : p.Shape m n) (hb : p.nBanks = 2) :
    (g.update dontCare u).pending = u.lastOutcome g.current_saw_branch_not_taken := by
  cases hi : u.ignore_second_bank with
  | true =>
    rw [update_of_ignore hb hi, HistoryUpdate.lastOutcome, if_pos hi]
    rfl
  | false =>
    rw [update_of_both h hb hi, HistoryUpdate.lastOutcome, hi, if_neg Bool.false_ne_true, pending,
      HistoryUpdate.bankOutcome_false]

/-- A packet of two banks, and its banks one by one. -/
theorem update_cut (h : p.Shape m n) (hb : p.nBanks = 2) (ht : u.cfi_taken = u.cfi_valid)
    (hl : isLastBankInBlock p u.addr = false) {addr : BitVec p.va}
    (ha : isLastBankInBlock p addr = true) :
    (u.cut addr).foldl (update dontCare) g = g.update dontCare u := by
  have hfirst : (u.firstBank addr).ignore_second_bank = true := HistoryUpdate.ignore_of_last ha
  have hsecond : (u.secondBank addr).ignore_second_bank = true := HistoryUpdate.ignore_of_last ha
  rw [HistoryUpdate.cut]
  cases hc : u.cfiInFirst with
  | true =>
    -- the second bank is cut off in both
    have hv : u.cfi_valid = true := by
      rw [HistoryUpdate.cfiInFirst, Bool.and_eq_true] at hc
      exact hc.1
    have hcalls : (u.firstBank addr).calls = u.calls := by
      change (u.cfiInFirst && _) = (u.cfi_valid && _)
      rw [hc, hv]
      rfl
    have hreturns : (u.firstBank addr).returns = u.returns := by
      change (u.cfiInFirst && _) = (u.cfi_valid && _)
      rw [hc, hv]
      rfl
    rw [if_pos rfl, List.foldl_cons, List.foldl_nil, update_of_ignore hb hfirst,
      update_of_ignore hb (HistoryUpdate.ignore_of_cfiInFirst ht hc),
      HistoryUpdate.firstBank_sawNotTaken, HistoryUpdate.firstBank_endsTaken, hcalls, hreturns]
  | false =>
    have hin : u.cfi_in_bank_0 = false := by
      rw [HistoryUpdate.cfi_in_bank_0_eq, hc, Bool.and_false]
    have hends : u.endsTaken 0 = false := by
      rw [HistoryUpdate.endsTaken_zero, hin, Bool.and_false]
    have hras : rasStep (u.firstBank addr).calls (u.firstBank addr).returns g.ras_idx =
        g.ras_idx := by
      change rasStep (u.cfiInFirst && _) (u.cfiInFirst && _) g.ras_idx = _
      rw [hc]
      rfl
    rw [if_neg Bool.false_ne_true, List.foldl_cons, List.foldl_cons, List.foldl_nil,
      update_of_ignore hb hfirst, update_of_ignore hb hsecond,
      update_of_both h hb (HistoryUpdate.ignore_eq_false hl hc), histories_true hb, hras,
      HistoryUpdate.firstBank_sawNotTaken, HistoryUpdate.firstBank_endsTaken,
      HistoryUpdate.secondBank_sawNotTaken hc, HistoryUpdate.secondBank_endsTaken h hb hc,
      Bool.or_false, HistoryUpdate.bankOutcome, hends]
    rfl

/-- In every run, packets may be cut. -/
theorem run_cut (h : p.Shape m n) (hb : p.nBanks = 2) {addr : BitVec p.va}
    (ha : isLastBankInBlock p addr = true) (us : List (HistoryUpdate p))
    (hu : ∀ u ∈ us, u.cfi_taken = u.cfi_valid ∧ isLastBankInBlock p u.addr = false) :
    (us.flatMap (HistoryUpdate.cut · addr)).foldl (update dontCare) g =
      us.foldl (update dontCare) g := by
  induction us generalizing g with
  | nil => rfl
  | cons u us ih =>
    obtain ⟨ht, hl⟩ := hu u List.mem_cons_self
    rw [List.flatMap_cons, List.foldl_append, update_cut h hb ht hl ha, List.foldl_cons]
    exact ih fun v hv => hu v (List.mem_cons_of_mem u hv)

theorem histories_update (h : p.Shape m n) (hb : p.nBanks = 2) :
    (g.update dontCare u).histories p true =
      (u.outcomes g.current_saw_branch_not_taken).foldl push (g.histories p true) := by
  rw [histories_true hb, pending_update h hb, HistoryUpdate.lastOutcome, HistoryUpdate.outcomes]
  cases hi : u.ignore_second_bank with
  | true =>
    rw [update_of_ignore hb hi]
    rfl
  | false =>
    rw [update_of_both h hb hi]
    rfl

/-- **The history is what all banks have added**, in every run. -/
theorem histories_run (h : p.Shape m n) (hb : p.nBanks = 2) (us : List (HistoryUpdate p))
    (hg : g.current_saw_branch_not_taken = false) :
    (us.foldl (update dontCare) g).histories p true =
      (us.flatMap (HistoryUpdate.outcomes · false)).foldl push (g.histories p true) := by
  induction us generalizing g with
  | nil => rfl
  | cons u us ih =>
    have hnext : (g.update dontCare u).current_saw_branch_not_taken = false := by
      rw [update]
      split_ifs <;> rfl
    rw [List.foldl_cons, ih hnext, histories_update h hb, hg, List.flatMap_cons, List.foldl_append]

end GlobalHistory

/-- **History does not depend on how a packet is cut**, and what the second bank
    is looked up with has what the last bank adds. -/
theorem history_independent_of_cut [NeZero R] (h : p.Supported) (hb : p.nBanks = 2)
    (dontCare : Bool × Bool) (g : GlobalHistory L R) (u : HistoryUpdate p) :
    (u.cfi_taken = u.cfi_valid → isLastBankInBlock p u.addr = false →
      ∀ addr : BitVec p.va, isLastBankInBlock p addr = true →
        (u.cut addr).foldl (GlobalHistory.update dontCare) g = g.update dontCare u) ∧
      g.histories p true = push g.old_history g.pending ∧
      (g.update dontCare u).histories p true = push (g.update dontCare u).old_history
        (u.lastOutcome g.current_saw_branch_not_taken) := by
  obtain ⟨m, n, h⟩ := h.shape
  refine ⟨fun ht hl addr ha => GlobalHistory.update_cut h hb ht hl ha,
    GlobalHistory.histories_true hb g, ?_⟩
  rw [GlobalHistory.histories_true hb, GlobalHistory.pending_update h hb]

/-- A branch in the first bank is not taken, one in the second bank is. -/
def twoBranches : HistoryUpdate wideFetch where
  branches i := i == 1 || i == 5
  cfi_taken := true
  cfi_is_br := true
  cfi_idx := 5
  cfi_valid := true
  addr := 0x1000
  cfi_is_call := false
  cfi_is_ret := false

theorem history_independent_of_cut_twoBranches :
    (twoBranches.cut 0x1038).foldl (GlobalHistory.update (false, false))
        (⟨1, false, false, true, 0⟩ : GlobalHistory 8 4) =
      (⟨6, false, false, true, 0⟩ : GlobalHistory 8 4) :=
  ((history_independent_of_cut wideFetch_supported rfl (false, false) ⟨1, false, false, true, 0⟩
    twoBranches).1 rfl (by decide) 0x1038 (by decide)).trans (by decide)

end BoomStop.Ifu
