/-
  Dispatch to the issue queues (`util.scala`, class `Compactor`;
  `dispatch.scala`, classes `BasicDispatcher` and `CompactingDispatcher`; the
  dispatch stage of `core.scala`).

  * `Compactor`: the ports and the wires between them;
  * `compactor_exact`: what leaves is what enters, in order;
  * `Dispatcher`: both dispatchers, by their ports;
  * `dispatch_once`: each uop that is dispatched is in each of its queues once.
-/
import BoomStop.Lib.Collapse
import BoomStop.Lib.OneHot

namespace BoomStop.Dispatch

open Collapse

variable {w : ℕ}

/-! ## The compactor -/

/-- The ports: `n` inputs and `k` outputs of `w` bits. -/
structure Compactor (n k w : ℕ) where
  in_valid : ℕ → Bool
  in_bits : ℕ → BitVec w
  out_ready : ℕ → Bool

namespace Compactor

variable {n k : ℕ} (c : Compactor n k w)

/-- `counts`: one bit, which moves up for every valid input; past the top it is lost. -/
def counts : ℕ → BitVec k
  | 0 => 1
  | i + 1 => if c.in_valid i then counts i <<< 1 else counts i

/-- `sels`. -/
def sels (j i : ℕ) : Bool := (c.counts i).getLsbD j && c.in_valid i

/-- `io.ins(i).ready` -/
def in_ready (i : ℕ) : Bool :=
  if n = k then c.out_ready i
  else (List.range k).any fun j => (c.counts i).getLsbD j && c.out_ready j

/-- `io.outs(j).valid` -/
def out_valid (j : ℕ) : Bool :=
  if n = k then c.in_valid j else (List.range n).any (c.sels j)

/-- `Mux1H` of the inputs. -/
def out_bits (j : ℕ) : BitVec w :=
  if n = k then c.in_bits j
  else (List.range n).foldl (fun a i => if c.sels j i then a ||| c.in_bits i else a) 0

/-- An input is taken. -/
def in_fires (i : ℕ) : Bool := c.in_valid i && c.in_ready i

/-- An output goes. -/
def out_fires (j : ℕ) : Bool := c.out_valid j && c.out_ready j

/-- The valid inputs before one. -/
def rank (i : ℕ) : ℕ := holes c.in_valid i

/-- The output that an input is wired to, if it is valid. -/
def port (i : ℕ) : ℕ := if n = k then i else c.rank i

/-- What the inputs that fire carry, and the outputs. -/
def taken : List (BitVec w) :=
  (List.range n).filterMap fun i => if c.in_fires i then some (c.in_bits i) else none

/-- What goes out, in the order of the ports. -/
def given : List (BitVec w) :=
  (List.range k).filterMap fun j => if c.out_fires j then some (c.out_bits j) else none

/-! ### The wires -/

theorem rank_succ (i : ℕ) : c.rank (i + 1) = c.rank i + if c.in_valid i then 1 else 0 := holes_succ

theorem rank_lt {i i' : ℕ} (hv : c.in_valid i = true) (h : i < i') : c.rank i < c.rank i' := by
  have hle : c.rank (i + 1) ≤ c.rank i' := holes_mono h
  rw [rank_succ, hv, if_pos rfl] at hle
  exact hle

/-- The bit is at the place of the rank, as long as there is one. -/
theorem getLsbD_counts (i j : ℕ) :
    (c.counts i).getLsbD j = (decide (j < k) && decide (c.rank i = j)) := by
  induction i generalizing j with
  | zero =>
    rw [counts, show c.rank 0 = 0 from rfl]
    change (1#k).getLsbD j = _
    rw [BitVec.getLsbD_one]
    rcases Nat.eq_zero_or_pos j with rfl | hj
    · rfl
    · rw [decide_eq_false (by omega : ¬j = 0), decide_eq_false (by omega : ¬0 = j), Bool.and_false,
        Bool.and_false]
  | succ i ih =>
    rw [counts, rank_succ]
    cases hv : c.in_valid i with
    | false => exact ih j
    | true =>
      rw [if_pos rfl, if_pos rfl, BitVec.getLsbD_shiftLeft, ih]
      rcases Nat.eq_zero_or_pos j with rfl | hj
      · simp
      · rw [decide_eq_false (by omega : ¬j < 1), Bool.not_false, Bool.and_true,
          ← Bool.and_assoc, Bool.eq_iff_iff]
        simp only [Bool.and_eq_true, decide_eq_true_eq]
        omega

theorem sels_eq_true {i j : ℕ} : c.sels j i = true ↔ j < k ∧ c.rank i = j ∧ c.in_valid i = true := by
  rw [sels, getLsbD_counts, Bool.and_eq_true, Bool.and_eq_true, decide_eq_true_eq, decide_eq_true_eq,
    and_assoc]

/-- Two valid inputs are not wired to one output. -/
theorem port_lt {i i' : ℕ} (hv : c.in_valid i = true) (h : i < i') : c.port i < c.port i' := by
  rw [port, port]
  split_ifs
  · exact h
  · exact c.rank_lt hv h

theorem port_inj {i i' : ℕ} (hv : c.in_valid i = true) (hv' : c.in_valid i' = true)
    (h : c.port i = c.port i') : i = i' := by
  rcases Nat.lt_trichotomy i i' with hlt | heq | hlt
  · exact absurd h (c.port_lt hv hlt).ne
  · exact heq
  · exact absurd h (c.port_lt hv' hlt).ne'

theorem in_ready_eq_true {i : ℕ} (hi : i < n) :
    c.in_ready i = true ↔ c.port i < k ∧ c.out_ready (c.port i) = true := by
  rw [in_ready, port]
  split_ifs with hnk
  · exact ⟨fun h => ⟨hnk ▸ hi, h⟩, fun h => h.2⟩
  · rw [List.any_eq_true]
    constructor
    · rintro ⟨j, hj, hr⟩
      rw [Bool.and_eq_true, getLsbD_counts, Bool.and_eq_true, decide_eq_true_eq,
        decide_eq_true_eq] at hr
      obtain ⟨⟨hlt, rfl⟩, hr⟩ := hr
      exact ⟨hlt, hr⟩
    · rintro ⟨hlt, hr⟩
      refine ⟨c.rank i, List.mem_range.2 hlt, ?_⟩
      rw [getLsbD_counts, decide_eq_true hlt, decide_eq_true rfl, hr]
      rfl

theorem in_fires_eq_true {i : ℕ} (hi : i < n) : c.in_fires i = true ↔
    c.in_valid i = true ∧ c.port i < k ∧ c.out_ready (c.port i) = true := by
  rw [in_fires, Bool.and_eq_true, c.in_ready_eq_true hi]

theorem out_valid_eq_true {j : ℕ} (hj : j < k) :
    c.out_valid j = true ↔ ∃ i < n, c.in_valid i = true ∧ c.port i = j := by
  rw [out_valid]
  simp only [port]
  split_ifs with hnk
  · constructor
    · exact fun h => ⟨j, by omega, h, rfl⟩
    · rintro ⟨i, -, hv, rfl⟩
      exact hv
  · simp only [List.any_eq_true, List.mem_range, sels_eq_true]
    constructor
    · rintro ⟨i, hi, -, hr, hv⟩
      exact ⟨i, hi, hv, hr⟩
    · rintro ⟨i, hi, hv, hr⟩
      exact ⟨i, hi, hj, hr, hv⟩

theorem out_bits_eq {i : ℕ} (hi : i < n) (hv : c.in_valid i = true) (hk : c.port i < k) :
    c.out_bits (c.port i) = c.in_bits i := by
  rw [out_bits]
  by_cases hnk : n = k
  · rw [if_pos hnk, port, if_pos hnk]
  · have hp : c.port i = c.rank i := if_neg hnk
    rw [if_neg hnk]
    have hsel (i' : ℕ) : c.sels (c.port i) i' = true ↔ i' = i := by
      rw [sels_eq_true]
      constructor
      · rintro ⟨-, hr, hv'⟩
        exact c.port_inj hv' hv (by rw [port, if_neg hnk, hr])
      · rintro rfl
        exact ⟨hk, hp.symm, hv⟩
    have hfold (m : ℕ) : (List.range m).foldl
        (fun a i' => if c.sels (c.port i) i' then a ||| c.in_bits i' else a) 0 =
        if i < m then c.in_bits i else 0 := by
      induction m with
      | zero => rfl
      | succ m ih =>
        rw [List.range_succ, List.foldl_append, ih, List.foldl_cons, List.foldl_nil]
        by_cases hm : m = i
        · subst hm
          rw [if_pos ((hsel m).2 rfl), if_neg (Nat.lt_irrefl m), if_pos (Nat.lt_succ_self m)]
          exact BitVec.zero_or
        · rw [if_neg fun h => hm ((hsel m).1 h)]
          exact if_congr (by omega) rfl rfl
    rw [hfold, if_pos hi]

/-- The output of an input fires when the input does. -/
theorem out_fires_eq_true {j : ℕ} (hj : j < k) :
    c.out_fires j = true ↔ ∃ i < n, c.in_fires i = true ∧ c.port i = j := by
  rw [out_fires, Bool.and_eq_true, c.out_valid_eq_true hj]
  constructor
  · rintro ⟨⟨i, hi, hv, rfl⟩, hr⟩
    exact ⟨i, hi, (c.in_fires_eq_true hi).2 ⟨hv, hj, hr⟩, rfl⟩
  · rintro ⟨i, hi, hf, rfl⟩
    obtain ⟨hv, -, hr⟩ := (c.in_fires_eq_true hi).1 hf
    exact ⟨⟨i, hi, hv, rfl⟩, hr⟩

/-! ### What passes -/

/-- **What leaves is what enters, in order.** -/
theorem given_eq_taken : c.given = c.taken := by
  rw [given, taken]
  have hfire {m : ℕ}
      (h : (if c.in_fires m then some (c.in_bits m) else none : Option (BitVec w)).isSome) :
      c.in_fires m = true := by
    by_contra hno
    rw [if_neg hno] at h
    cases h
  refine filterMap_place c.port (fun m hm h => ?_) (fun m m' hlt hm' h _ => ?_)
    (fun m hm h => ?_) fun j hj h => ?_
  · exact ((c.in_fires_eq_true hm).1 (hfire h)).2.1
  · exact c.port_lt ((c.in_fires_eq_true (by omega)).1 (hfire h)).1 hlt
  · obtain ⟨hv, hk, -⟩ := (c.in_fires_eq_true hm).1 (hfire h)
    rw [if_pos (hfire h), if_pos ((c.out_fires_eq_true hk).2 ⟨m, hm, hfire h, rfl⟩),
      c.out_bits_eq hm hv hk]
  · refine if_neg fun hf => ?_
    obtain ⟨i, hi, hfi, hp⟩ := (c.out_fires_eq_true hj).1 hf
    exact h i hi (by rw [if_pos hfi]; rfl) hp

/-- An input and the output that takes it. -/
def Passes (i j : ℕ) : Prop :=
  c.in_fires i = true ∧ c.out_fires j = true ∧ c.port i = j ∧ c.out_bits j = c.in_bits i

theorem existsUnique_out {i : ℕ} (hi : i < n) (hf : c.in_fires i = true) :
    ∃! j, j < k ∧ c.Passes i j := by
  obtain ⟨hv, hk, -⟩ := (c.in_fires_eq_true hi).1 hf
  exact ⟨c.port i, ⟨hk, hf, (c.out_fires_eq_true hk).2 ⟨i, hi, hf, rfl⟩, rfl,
    c.out_bits_eq hi hv hk⟩, fun j hj => hj.2.2.2.1.symm⟩

theorem existsUnique_in {j : ℕ} (hj : j < k) (hf : c.out_fires j = true) :
    ∃! i, i < n ∧ c.Passes i j := by
  obtain ⟨i, hi, hfi, rfl⟩ := (c.out_fires_eq_true hj).1 hf
  obtain ⟨hv, hk, -⟩ := (c.in_fires_eq_true hi).1 hfi
  refine ⟨i, ⟨hi, hfi, hf, rfl, c.out_bits_eq hi hv hk⟩, ?_⟩
  rintro i' ⟨hi', hfi', -, hp, -⟩
  exact c.port_inj ((c.in_fires_eq_true hi').1 hfi').1 hv hp

end Compactor

/-! ## The dispatchers -/

/-- What a dispatcher is made for and what it is given.  `iq_type` reads the
    field of a uop. -/
structure Ports (w : ℕ) where
  coreWidth : ℕ
  /-- the number of issue queues -/
  queues : ℕ
  iqType : ℕ → BitVec 3
  dispatchWidth : ℕ → ℕ
  iq_type : BitVec w → BitVec 3
  ren_valid : ℕ → Bool
  ren_bits : ℕ → BitVec w
  dis_ready : ℕ → ℕ → Bool

/-- What it answers. -/
structure Dispatcher (w : ℕ) where
  ren_ready : ℕ → Bool
  dis_valid : ℕ → ℕ → Bool
  dis_bits : ℕ → ℕ → BitVec w

namespace Ports

variable (d : Ports w)

/-- A uop names a queue. -/
def uses_iq (q i : ℕ) : Bool := d.iq_type (d.ren_bits i) &&& d.iqType q != 0

/-- `BasicDispatcher`, whose queues all have `coreWidth` ports. -/
def BasicDispatcher : Dispatcher w where
  ren_ready i := (List.range d.queues).all fun q => d.dis_ready q i
  dis_valid q i := d.ren_valid i && d.uses_iq q i
  dis_bits _ i := d.ren_bits i

/-- The compactor in front of a queue. -/
def compactor (q : ℕ) : Compactor d.coreWidth (d.dispatchWidth q) w where
  in_valid i := d.ren_valid i && d.uses_iq q i
  in_bits := d.ren_bits
  out_ready := d.dis_ready q

/-- `CompactingDispatcher`. -/
def CompactingDispatcher : Dispatcher w where
  ren_ready i := (List.range d.queues).all fun q => (d.compactor q).in_ready i || !d.uses_iq q i
  dis_valid q := (d.compactor q).out_valid
  dis_bits q := (d.compactor q).out_bits

/-- A uop that is dispatched. -/
def dispatched (o : Dispatcher w) (i : ℕ) : Bool := d.ren_valid i && o.ren_ready i

/-- What a queue takes. -/
def enters (o : Dispatcher w) (q : ℕ) : List (BitVec w) :=
  (List.range (d.dispatchWidth q)).filterMap fun j =>
    if o.dis_valid q j && d.dis_ready q j then some (o.dis_bits q j) else none

/-- The uops that are dispatched and name a queue. -/
def named (o : Dispatcher w) (q : ℕ) : List (BitVec w) :=
  (List.range d.coreWidth).filterMap fun i =>
    if d.dispatched o i && d.uses_iq q i then some (d.ren_bits i) else none

/-- **A dispatcher that hands out exactly once**: `port q i` is the one place of
    uop `i` in queue `q`. -/
structure Exact (o : Dispatcher w) (port : ℕ → ℕ → ℕ) : Prop where
  /-- a uop waits for all of its queues -/
  ready : ∀ i < d.coreWidth, o.ren_ready i = true → ∀ q < d.queues, d.uses_iq q i = true →
    port q i < d.dispatchWidth q ∧ d.dis_ready q (port q i) = true
  /-- it is at that port of each queue that it names -/
  once : ∀ i < d.coreWidth, d.dispatched o i = true → ∀ q < d.queues, d.uses_iq q i = true →
    o.dis_valid q (port q i) = true ∧ o.dis_bits q (port q i) = d.ren_bits i
  /-- and what is at a port is one uop, which names the queue -/
  source : ∀ q < d.queues, ∀ j < d.dispatchWidth q, o.dis_valid q j = true →
    ∃! i, i < d.coreWidth ∧ d.ren_valid i = true ∧ d.uses_iq q i = true ∧ port q i = j
  /-- when what is valid is dispatched, a queue takes the uops that name it, in order -/
  enters : (∀ i < d.coreWidth, d.ren_valid i = true → o.ren_ready i = true) →
    ∀ q < d.queues, d.enters o q = d.named o q

theorem filterMap_congr {l : List ℕ} {a b : ℕ → Bool} {x : ℕ → BitVec w}
    (h : ∀ i ∈ l, a i = b i) :
    (l.filterMap fun i => if a i then some (x i) else none) =
      l.filterMap fun i => if b i then some (x i) else none :=
  List.filterMap_congr fun i hi => by rw [h i hi]

theorem basic_exact (hw : ∀ q < d.queues, d.dispatchWidth q = d.coreWidth) :
    d.Exact d.BasicDispatcher fun _ i => i where
  ready i hi hr q hq _ := by
    have hall := List.all_eq_true.1 hr q (List.mem_range.2 hq)
    exact ⟨(hw q hq).symm ▸ hi, hall⟩
  once i hi hd q hq hu := by
    rw [dispatched, Bool.and_eq_true] at hd
    refine ⟨?_, rfl⟩
    show (d.ren_valid i && d.uses_iq q i) = true
    rw [hd.1, hu]
    rfl
  source q hq j hj hv := by
    have hv' : (d.ren_valid j && d.uses_iq q j) = true := hv
    rw [Bool.and_eq_true] at hv'
    exact ⟨j, ⟨hw q hq ▸ hj, hv'.1, hv'.2, rfl⟩, fun i hi => hi.2.2.2⟩
  enters hfed q hq := by
    rw [enters, named, hw q hq]
    refine filterMap_congr fun i hi => ?_
    have hi := List.mem_range.1 hi
    show (d.ren_valid i && d.uses_iq q i && d.dis_ready q i) =
      (d.ren_valid i && d.BasicDispatcher.ren_ready i && d.uses_iq q i)
    cases hv : d.ren_valid i with
    | false => rfl
    | true =>
      have hr := hfed i hi hv
      have hq' : d.dis_ready q i = true := List.all_eq_true.1 hr q (List.mem_range.2 hq)
      rw [hr, hq', Bool.and_true, Bool.and_self, Bool.true_and]

/-- What a uop that is ready finds at a queue that it names. -/
theorem in_ready_of_ren_ready {i q : ℕ} (hr : d.CompactingDispatcher.ren_ready i = true)
    (hq : q < d.queues) (hu : d.uses_iq q i = true) : (d.compactor q).in_ready i = true := by
  have hall := List.all_eq_true.1 hr q (List.mem_range.2 hq)
  simpa [hu] using hall

theorem compacting_exact : d.Exact d.CompactingDispatcher fun q i => (d.compactor q).port i where
  ready i hi hr q hq hu :=
    ((d.compactor q).in_ready_eq_true hi).1 (d.in_ready_of_ren_ready hr hq hu)
  once i hi hd q hq hu := by
    rw [dispatched, Bool.and_eq_true] at hd
    have hv : (d.compactor q).in_valid i = true := by
      show (d.ren_valid i && d.uses_iq q i) = true
      rw [hd.1, hu]
      rfl
    have hk := (((d.compactor q).in_ready_eq_true hi).1 (d.in_ready_of_ren_ready hd.2 hq hu)).1
    exact ⟨((d.compactor q).out_valid_eq_true hk).2 ⟨i, hi, hv, rfl⟩,
      (d.compactor q).out_bits_eq hi hv hk⟩
  source q hq j hj hv := by
    obtain ⟨i, hi, hvi, rfl⟩ := ((d.compactor q).out_valid_eq_true hj).1 hv
    have hvi' : (d.ren_valid i && d.uses_iq q i) = true := hvi
    rw [Bool.and_eq_true] at hvi'
    refine ⟨i, ⟨hi, hvi'.1, hvi'.2, rfl⟩, ?_⟩
    rintro i' ⟨-, hv', hu', hp⟩
    refine (d.compactor q).port_inj ?_ hvi hp
    show (d.ren_valid i' && d.uses_iq q i') = true
    rw [hv', hu']
    rfl
  enters hfed q hq := by
    have hgiven : d.enters d.CompactingDispatcher q = (d.compactor q).given := rfl
    rw [hgiven, (d.compactor q).given_eq_taken, named]
    refine filterMap_congr fun i hi => ?_
    have hi := List.mem_range.1 hi
    show (d.ren_valid i && d.uses_iq q i && (d.compactor q).in_ready i) =
      (d.ren_valid i && d.CompactingDispatcher.ren_ready i && d.uses_iq q i)
    cases hv : d.ren_valid i with
    | false => rfl
    | true =>
      have hr := hfed i hi hv
      rw [hr]
      cases hu : d.uses_iq q i with
      | false => rfl
      | true =>
        rw [d.in_ready_of_ren_ready hr hq hu]

end Ports

/-! ## The core -/

/-- `dis_fire`, with the other hazards of each uop. -/
def dis_fire (dis_valids hazards ready : ℕ → Bool) (i : ℕ) : Bool :=
  let dis_hazards i' := dis_valids i' && (hazards i' || !ready i')
  dis_valids i && !(List.range (i + 1)).any dis_hazards

/-- The core offers only what is dispatched. -/
theorem ready_of_dis_fire {dis_valids hazards ready : ℕ → Bool} {i : ℕ}
    (h : dis_fire dis_valids hazards ready i = true) : ready i = true := by
  rw [dis_fire, Bool.and_eq_true, Bool.not_eq_true', List.any_eq_false] at h
  have hi := h.2 i (List.mem_range.2 (Nat.lt_succ_self i))
  rw [h.1] at hi
  simp only [Bool.true_and, Bool.or_eq_true, Bool.not_eq_true', not_or, Bool.not_eq_false] at hi
  exact hi.2

/-- **A compactor that keeps the order.** -/
structure Compactor.Exact {n k : ℕ} (c : Compactor n k w) : Prop where
  given : c.given = c.taken
  out : ∀ i < n, c.in_fires i = true → ∃! j, j < k ∧ c.Passes i j
  source : ∀ j < k, c.out_fires j = true → ∃! i, i < n ∧ c.Passes i j
  order : ∀ i i' j j', i < n → c.Passes i j → c.Passes i' j' → i < i' → j < j'
  /-- with fewer outputs than inputs the rank decides, else the place -/
  fires : k < n → ∀ i < n, c.in_fires i = true ↔
    c.in_valid i = true ∧ c.rank i < k ∧ c.out_ready (c.rank i) = true
  wired : n = k → ∀ i < n, c.in_fires i = true ↔ c.in_valid i = true ∧ c.out_ready i = true

theorem Compactor.exact {n k : ℕ} (c : Compactor n k w) : c.Exact where
  given := c.given_eq_taken
  out _ hi hf := c.existsUnique_out hi hf
  source _ hj hf := c.existsUnique_in hj hf
  order i i' j j' hi := by
    rintro ⟨hf, -, rfl, -⟩ ⟨-, -, rfl, -⟩ hlt
    exact c.port_lt ((c.in_fires_eq_true hi).1 hf).1 hlt
  fires hlt i hi := by
    have hp : c.port i = c.rank i := if_neg (by omega)
    rw [c.in_fires_eq_true hi, hp]
  wired heq i hi := by
    have hp : c.port i = i := if_pos heq
    rw [c.in_fires_eq_true hi, hp]
    exact ⟨fun h => ⟨h.1, h.2.2⟩, fun h => ⟨h.1, heq ▸ hi, h.2⟩⟩

/-- **Uops are handed out exactly once**, by the compactor and by both
    dispatchers. -/
theorem dispatch_once :
    (∀ (n k : ℕ) (c : Compactor n k w), k ≤ n → c.Exact) ∧
      ∀ d : Ports w,
        ((∀ q < d.queues, d.dispatchWidth q = d.coreWidth) →
          d.Exact d.BasicDispatcher fun _ i => i) ∧
        ((∀ q < d.queues, d.dispatchWidth q ≤ d.coreWidth) →
          d.Exact d.CompactingDispatcher fun q i => (d.compactor q).port i) ∧
        ∀ (o : Dispatcher w) (dis_valids hazards : ℕ → Bool),
          (∀ i < d.coreWidth, d.ren_valid i = dis_fire dis_valids hazards o.ren_ready i) →
          ∀ i < d.coreWidth, d.ren_valid i = true → o.ren_ready i = true :=
  ⟨fun _ _ c _ => c.exact, fun d => ⟨d.basic_exact, fun _ => d.compacting_exact,
    fun _ _ _ h i hi hv => ready_of_dis_fire (h i hi ▸ hv)⟩⟩

/-- Two inputs on two outputs: the second input is alone, and the first output
    is ready. -/
def straight : Compactor 2 2 1 where
  in_valid i := i = 1
  in_bits _ := 0
  out_ready j := j = 0

/-- With as many outputs as inputs the rank does not decide. -/
theorem not_fires_by_rank : ¬∀ i < 2, straight.in_fires i = true ↔
    straight.in_valid i = true ∧ straight.rank i < 2 ∧
      straight.out_ready (straight.rank i) = true := by
  intro h
  have hf := (h 1 (by decide)).2 (by decide)
  revert hf
  decide

/-- Three inputs on two outputs, and one queue behind a dispatcher of each kind. -/
def pairOfThree : Compactor 3 2 4 where
  in_valid i := i ≠ 0
  in_bits i := BitVec.ofNat 4 i
  out_ready _ := true

/-- Two uops for one queue, with a port or two. -/
def onePort (width : ℕ) : Ports 4 where
  coreWidth := 2
  queues := 1
  iqType _ := 1
  dispatchWidth _ := width
  iq_type u := u.extractLsb' 0 3
  ren_valid i := dis_fire (fun _ => true) (fun _ => false) (fun _ => true) i
  ren_bits i := BitVec.ofNat 4 (2 * i + 1)
  dis_ready _ _ := true

theorem dispatch_once_pair : pairOfThree.taken = [1, 2] ∧ pairOfThree.given = pairOfThree.taken ∧
    (onePort 2).enters (onePort 2).BasicDispatcher 0 = [1, 3] ∧
      (onePort 2).Exact (onePort 2).BasicDispatcher (fun _ i => i) ∧
      (onePort 1).Exact (onePort 1).CompactingDispatcher
        (fun q i => ((onePort 1).compactor q).port i) ∧
      ∀ i < 2, (onePort 2).ren_valid i = true → (onePort 2).BasicDispatcher.ren_ready i = true :=
  ⟨by decide, (dispatch_once.1 3 2 pairOfThree (by decide)).given, by decide,
    (dispatch_once.2 (onePort 2)).1 fun _ _ => rfl,
    (dispatch_once.2 (onePort 1)).2.1 fun _ _ => Nat.le_succ 1,
    (dispatch_once.2 (onePort 2)).2.2 (onePort 2).BasicDispatcher (fun _ => true) (fun _ => false)
      (by decide)⟩

end BoomStop.Dispatch
