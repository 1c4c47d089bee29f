/-
  Predicated execution of short forward branches: the operations between a
  branch and its target (its shadow) are fetched and retired whether the branch
  is taken or not, and do nothing when it is.

  * `Program`, `Program.seq`: a sequential machine;
  * `Program.exec`: what a retired operation does, under the predicate;
  * `Program.Path`: the operations that retire when the machine runs;
  * `Path.seq`: what has retired is a prefix of the sequential run;
  * `fits_iff`: the next operation is where the sequential run stands, unless
    it is skipped.
-/
import Mathlib.Logic.Function.Iterate
import Mathlib.Tactic.SplitIfs

namespace Shadow

variable {σ π : Type*}

/-- The instruction at an address: the next state and address, and whether it is a
    branch that is taken. -/
structure Program (σ π : Type*) where
  step : π → σ → σ × π
  taken : π → σ → Bool

/-- What a uop is to the shadow of a branch. -/
inductive Kind
  | plain | branch | shadow
  deriving DecidableEq

/-- An operation on its way to retirement. -/
structure Op (π : Type*) where
  pc : π
  kind : Kind
  deriving DecidableEq

/-- The state, where the sequential run stands, and the predicate. -/
structure St (σ π : Type*) where
  state : σ
  pc : π
  skip : Bool

/-- The operation comes next: one that is skipped lies before the target. -/
def Fits (s : St σ π) (o : Op π) : Prop :=
  if o.kind = .shadow ∧ s.skip = true then o.pc ≠ s.pc else o.pc = s.pc

theorem fits_iff {s : St σ π} {o : Op π} (h : Fits s o) :
    o.pc = s.pc ↔ ¬ (o.kind = .shadow ∧ s.skip = true) := by
  unfold Fits at h
  split_ifs at h with hk
  · exact iff_of_false h (not_not_intro hk)
  · exact iff_of_true h hk

theorem Fits.of_pc {s : St σ π} {o : Op π} (h : o.pc = s.pc)
    (hk : ¬ (o.kind = .shadow ∧ s.skip = true)) : Fits s o := by
  rw [Fits, if_neg hk]
  exact h

namespace Program

variable (P : Program σ π)

/-- One step of the sequential machine. -/
def seq (x : σ × π) : σ × π := P.step x.2 x.1

/-- What an operation does when it retires. -/
def exec (s : St σ π) (o : Op π) : St σ π :=
  let r := P.step o.pc s.state
  match o.kind with
  | .plain => ⟨r.1, r.2, false⟩
  | .branch => ⟨r.1, r.2, P.taken o.pc s.state⟩
  | .shadow => if s.skip then s else ⟨r.1, r.2, false⟩

/-- The operations that retire, up to a state. -/
inductive Path (s : St σ π) : List (Op π) → St σ π → Prop
  | nil : Path s [] s
  | snoc {os : List (Op π)} {t : St σ π} {o : Op π} :
      Path s os t → Fits t o → Path s (os ++ [o]) (P.exec t o)

variable {P} {s t : St σ π} {os : List (Op π)} {o : Op π}

/-- A retired operation is a step of the sequential machine, or none. -/
theorem exec_seq (h : Fits s o) :
    ((P.exec s o).state, (P.exec s o).pc) =
      if o.kind = .shadow ∧ s.skip = true then (s.state, s.pc) else P.seq (s.state, s.pc) := by
  by_cases hk : o.kind = .shadow ∧ s.skip = true
  · rw [if_pos hk]
    simp [exec, hk.1, hk.2]
  · rw [Fits, if_neg hk] at h
    rw [if_neg hk, seq, ← h]
    cases hkind : o.kind with
    | plain => simp [exec, hkind]
    | branch => simp [exec, hkind]
    | shadow =>
      have hs : s.skip = false := by simpa [hkind] using hk
      simp [exec, hkind, hs]

/-- **What has retired is a prefix of the sequential run.** -/
theorem Path.seq (h : P.Path s os t) : ∃ n, P.seq^[n] (s.state, s.pc) = (t.state, t.pc) := by
  induction h with
  | nil => exact ⟨0, rfl⟩
  | @snoc os t o _ hfit ih =>
    obtain ⟨n, hn⟩ := ih
    have he := exec_seq (P := P) hfit
    split_ifs at he with hk
    · exact ⟨n, hn.trans he.symm⟩
    · refine ⟨n + 1, ?_⟩
      rw [Function.iterate_succ_apply', hn, he]

end Program

end Shadow
