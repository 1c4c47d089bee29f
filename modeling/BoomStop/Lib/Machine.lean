/-
  Synchronous machines: a set of start states, the inputs a state accepts, and
  the next state.  Hardware modules, kernel data structures and command loops
  are all instances.

  * `Reach M s`: `s` is reached from a start state by accepted inputs;
  * `Reach.inv`: what holds at the start and is kept by every accepted input
    holds in every reached state;
  * `restrict`: the same machine on fewer inputs (`Reach.of_restrict`);
  * `reach_run`: a finite list of accepted inputs ends in a reached state, the
    form in which concrete runs are given;
  * `Run`: an infinite run, cycle by cycle, for what relates several cycles;
    `ok_pad` continues a finite run by idle cycles.
-/
import Mathlib.Order.Basic
import Mathlib.Data.List.Basic

namespace Sync

/-- A machine over states `σ` and inputs `ι`. -/
structure Machine (σ ι : Type*) where
  /-- the states the machine may start in -/
  start : σ → Prop
  /-- the inputs its surroundings may present in a state -/
  ok : σ → ι → Prop
  /-- the state after an input -/
  next : σ → ι → σ

namespace Machine

variable {σ ι : Type*} {M : Machine σ ι}

/-- The states reached from a start state by accepted inputs. -/
inductive Reach (M : Machine σ ι) : σ → Prop
  | start {s : σ} : M.start s → Reach M s
  | step {s : σ} {i : ι} : Reach M s → M.ok s i → Reach M (M.next s i)

/-- **The invariant rule**: what holds at the start and is kept by accepted
    inputs holds in every reached state. -/
theorem Reach.inv {P : σ → Prop} {s : σ} (h : M.Reach s) (h0 : ∀ s, M.start s → P s)
    (hs : ∀ s i, P s → M.ok s i → P (M.next s i)) : P s := by
  induction h with
  | start h => exact h0 _ h
  | step _ hok ih => exact hs _ _ ih hok

/-- The machine on the inputs that also satisfy `C`. -/
def restrict (M : Machine σ ι) (C : σ → ι → Prop) : Machine σ ι where
  start := M.start
  ok s i := M.ok s i ∧ C s i
  next := M.next

/-- Whatever the restricted machine reaches, the machine reaches. -/
theorem Reach.of_restrict {C : σ → ι → Prop} {s : σ} (h : (M.restrict C).Reach s) :
    M.Reach s := by
  induction h with
  | start h => exact .start h
  | step _ h ih => exact .step ih h.1

/-! ## Finite runs -/

/-- The state after a list of inputs. -/
def run (M : Machine σ ι) : σ → List ι → σ
  | s, [] => s
  | s, i :: is => run M (M.next s i) is

theorem run_restrict {C : σ → ι → Prop} (is : List ι) (s : σ) :
    (M.restrict C).run s is = M.run s is := by
  induction is generalizing s with
  | nil => rfl
  | cons i is ih => exact ih (M.next s i)

/-- Every input of the list is accepted when its turn comes. -/
def Accepts (M : Machine σ ι) : σ → List ι → Prop
  | _, [] => True
  | s, i :: is => M.ok s i ∧ Accepts M (M.next s i) is

theorem reach_run : ∀ (is : List ι) {s : σ}, M.Reach s → M.Accepts s is → M.Reach (M.run s is)
  | [], _, h, _ => h
  | _ :: is, _, h, ⟨hok, hr⟩ => reach_run is (h.step hok) hr

/-- A list of inputs passes a test that may look at the state. -/
def passes (M : Machine σ ι) (test : σ → ι → Bool) : σ → List ι → Bool
  | _, [] => true
  | s, i :: is => test s i && passes M test (M.next s i) is

/-- Inputs can be accepted by evaluation, if the test is a decision procedure
    for some of them. -/
theorem accepts_of_passes {test : σ → ι → Bool} (h : ∀ s i, test s i = true → M.ok s i) :
    ∀ (is : List ι) (s : σ), M.passes test s is = true → M.Accepts s is
  | [], _, _ => trivial
  | i :: is, s, hp => by
    rw [passes, Bool.and_eq_true] at hp
    exact ⟨h s i hp.1, accepts_of_passes h is _ hp.2⟩

/-! ## Infinite runs -/

/-- A run: the state and the input of every cycle. -/
structure Run (M : Machine σ ι) where
  state : ℕ → σ
  input : ℕ → ι
  start : M.start (state 0)
  ok : ∀ t, M.ok (state t) (input t)
  next : ∀ t, state (t + 1) = M.next (state t) (input t)

theorem Run.reach (r : M.Run) (t : ℕ) : M.Reach (r.state t) := by
  induction t with
  | zero => exact .start r.start
  | succ t ih =>
    rw [r.next]
    exact ih.step (r.ok t)

/-- The run from a start state on a stream of inputs. -/
def stream (M : Machine σ ι) (s : σ) (input : ℕ → ι) : ℕ → σ
  | 0 => s
  | t + 1 => M.next (stream M s input t) (input t)

/-- A stream of inputs that are all accepted is a run. -/
def Run.of (s : σ) (input : ℕ → ι) (h0 : M.start s)
    (ok : ∀ t, M.ok (M.stream s input t) (input t)) : M.Run where
  state := M.stream s input
  input := input
  start := h0
  ok := ok
  next _ := rfl

/-- A list of inputs, and one input for ever after. -/
def pad (is : List ι) (idle : ι) (t : ℕ) : ι := is.getD t idle

theorem pad_map {κ : Type*} (f : κ → ι) (ks : List κ) (k : κ) (t : ℕ) :
    pad (ks.map f) (f k) t = f (ks.getD t k) := by
  rw [pad, List.getD_eq_getElem?_getD, List.getElem?_map, Option.getD_map,
    List.getD_eq_getElem?_getD]

theorem stream_succ (s : σ) (input : ℕ → ι) (t : ℕ) :
    M.stream s input (t + 1) = M.stream (M.next s (input 0)) (fun t => input (t + 1)) t := by
  induction t with
  | zero => rfl
  | succ t ih => exact congrArg (fun s' => M.next s' (input (t + 1))) ih

/-- A finite run that ends where an idle input is accepted for ever can be
    continued. -/
theorem ok_pad {P : σ → Prop} {idle : ι} (hidle : ∀ s, P s → M.ok s idle ∧ P (M.next s idle)) :
    ∀ (is : List ι) (s : σ), M.Accepts s is → P (M.run s is) →
      ∀ t, M.ok (M.stream s (pad is idle) t) (pad is idle t)
  | [], s, _, hp, t => by
    have hall : P (M.stream s (pad [] idle) t) := by
      induction t with
      | zero => exact hp
      | succ t ih => exact (hidle _ ih).2
    exact (hidle _ hall).1
  | _ :: _, _, hacc, _, 0 => hacc.1
  | i :: is, s, hacc, hp, t + 1 => by
    rw [stream_succ]
    exact ok_pad hidle is (M.next s i) hacc.2 hp t

/-- What an idle input keeps holds from the end of the finite run on. -/
theorem stream_pad {P : σ → Prop} {idle : ι} (hidle : ∀ s, P s → P (M.next s idle)) :
    ∀ (is : List ι) (s : σ), P (M.run s is) →
      ∀ t, is.length ≤ t → P (M.stream s (pad is idle) t)
  | [], s, hp, t, _ => by
    induction t with
    | zero => exact hp
    | succ t ih => exact hidle _ (ih (Nat.zero_le t))
  | i :: is, s, hp, t + 1, ht => by
    rw [stream_succ]
    exact stream_pad hidle is (M.next s i) hp t (Nat.le_of_succ_le_succ ht)

end Machine

end Sync
