/-
  The updates that the fetch target queue sends to the predictor
  (`fetch-target-queue.scala`): one for each entry that is committed, and after
  a misprediction a walk over the entries behind the branch.

  * `UpdatePort`: the queue with the registers behind its port for updates;
  * `UpdatePort.bpdupdate`: what the port shows;
  * `Walks`: the entries that the walk visits, with its end test and the test of
    the addresses;
  * `repair_walk_exact`: the walk sends what it should, if three entries or more
    have to be taken back and no address comes twice among them.
-/
import BoomStop.Ftq

namespace BoomStop.Ifu

open Sync RingOrder

variable {p : Params} {n : ℕ} {D : Type}

/-! ## The port -/

/-- `CFI_JAL` and `CFI_JALR`. -/
def FTQBundle.cfi_is_jal (e : FTQBundle p) : Bool := e.cfi_type == 2 || e.cfi_type == 3

/-- The entry has something to tell the predictor. -/
def FTQBundle.updates (e : FTQBundle p) : Bool := e.cfi_idx_valid || e.br_mask != 0

/-- An update of the predictor; `row` is what the memories `ghist`, `lhist` and
    `meta` hold for the entry. -/
structure BpdUpdate (p : Params) (D : Type) where
  is_mispredict_update : Bool
  is_repair_update : Bool
  pc : BitVec p.va
  br_mask : ℕ
  cfi_idx_valid : Bool
  cfi_idx : ℕ
  cfi_taken : Bool
  cfi_mispredicted : Bool
  cfi_is_br : Bool
  cfi_is_jal : Bool
  target : BitVec p.va
  row : D

/-- The queue, its memories, and the registers that wait for what was read; a
    name that ends in `_d` is the value of the last cycle. -/
structure UpdatePort (p : Params) (n : ℕ) (D : Type) where
  ftq : FetchTargetQueue p n
  rows : Fin n → D
  first_empty : Bool
  bpd_entry : FTQBundle p
  bpd_target : BitVec p.va
  bpd_row : D
  do_commit_update_d : Bool
  do_mispredict_update_d : Bool
  do_repair_update_d : Bool

namespace UpdatePort

/-- An update was read in the last cycle. -/
def due (s : UpdatePort p n D) : Bool :=
  s.do_commit_update_d || s.do_repair_update_d || s.do_mispredict_update_d

/-- `io.bpdupdate.valid`: an entry that a repair finds under the address of the
    branch is passed over. -/
def sends (s : UpdatePort p n D) : Bool :=
  s.due && (!s.first_empty && s.bpd_entry.updates &&
    !(s.do_repair_update_d && s.ftq.bpd_pc == s.ftq.bpd_repair_pc))

/-- `io.bpdupdate.bits`. -/
def update (s : UpdatePort p n D) : BpdUpdate p D where
  is_mispredict_update := s.do_mispredict_update_d
  is_repair_update := s.do_repair_update_d
  pc := s.ftq.bpd_pc
  br_mask := if s.bpd_entry.cfi_idx_valid
    then s.bpd_entry.br_mask % 2 ^ (s.bpd_entry.cfi_idx + 1) else s.bpd_entry.br_mask
  cfi_idx_valid := s.bpd_entry.cfi_idx_valid
  cfi_idx := s.bpd_entry.cfi_idx
  cfi_taken := s.bpd_entry.cfi_taken
  cfi_mispredicted := s.bpd_entry.cfi_mispredicted
  cfi_is_br := s.bpd_entry.br_mask.testBit s.bpd_entry.cfi_idx
  cfi_is_jal := s.bpd_entry.cfi_is_jal
  target := s.bpd_target
  row := s.bpd_row

/-- `io.bpdupdate`. -/
def bpdupdate (s : UpdatePort p n D) : Option (BpdUpdate p D) :=
  if s.sends then some s.update else none

variable [NeZero n]

/-- One cycle, with the row of an entry that is enqueued. -/
def next (s : UpdatePort p n D) (i : In p n × D) : UpdatePort p n D where
  ftq := s.ftq.next i.1
  rows := if (s.ftq.do_enq i.1).isSome then Function.update s.rows s.ftq.enq_ptr i.2 else s.rows
  first_empty := s.first_empty && !s.due
  bpd_entry := s.ftq.ram (s.ftq.bpd_idx i.1)
  bpd_target := s.ftq.pcs (wrapInc (s.ftq.bpd_idx i.1))
  bpd_row := s.rows (s.ftq.bpd_idx i.1)
  do_commit_update_d := s.ftq.do_commit_update i.1
  do_mispredict_update_d := s.ftq.bpd_update_mispredict
  do_repair_update_d := s.ftq.bpd_update_repair

end UpdatePort

/-- The queue in the core, which redirects the frontend in the cycle of a
    misprediction. -/
def updatePort (p : Params) (n : ℕ) [NeZero n] (D : Type) :
    Machine (UpdatePort p n D) (In p n × D) where
  start s := s.ftq.bpd_ptr = place n 0 ∧ s.ftq.deq_ptr = place n 0 ∧ s.ftq.enq_ptr = place n 1 ∧
    s.ftq.bpd_update_mispredict = false ∧ s.ftq.bpd_update_repair = false ∧ s.first_empty = true
  ok _ i := i.1.b2.mispredict = true → i.1.redirect.isSome = true
  next s i := s.next i

/-! ## A cycle without a redirect -/

namespace FetchTargetQueue

variable [NeZero n] {f : FetchTargetQueue p n} {i : In p n}

omit [NeZero n] in
/-- The writes of the entries leave the other registers alone. -/
theorem writes_eq :
    ∃ pcs ram, (f.enqWrite i).redirectWrite i = { f with pcs := pcs, ram := ram } := by
  unfold redirectWrite enqWrite
  split <;> split <;> exact ⟨_, _, rfl⟩

/-- The walk after a cycle: a misprediction starts it, and it ends at the end
    or when it meets its first address again. -/
structure Stepped (f f' : FetchTargetQueue p n) : Prop where
  mispredict : f'.bpd_update_mispredict = f.b2_d.mispredict
  repair : f.b2_d.mispredict = false → f'.bpd_update_repair =
    (f.bpd_update_mispredict || f.bpd_update_repair && (f.bpd_update_mispredict_d ||
      !(wrapInc f.bpd_repair_idx = f.bpd_end_idx || f.bpd_pc = f.bpd_repair_pc)))
  started : f.b2_d.mispredict = true → f'.bpd_repair_idx = f.b2_d.ftq_idx ∧
    f'.bpd_end_idx = f.enq_ptr_d ∧ f'.bpd_update_repair = f.bpd_update_repair
  idx : f.b2_d.mispredict = false → f'.bpd_repair_idx =
    if f.bpd_update_mispredict || f.bpd_update_repair then wrapInc f.bpd_repair_idx
    else f.bpd_repair_idx
  end_idx : f.b2_d.mispredict = false → f'.bpd_end_idx = f.bpd_end_idx
  repair_pc : f.b2_d.mispredict = false → f'.bpd_repair_pc =
    if !f.bpd_update_mispredict && f.bpd_update_repair && f.bpd_update_mispredict_d then f.bpd_pc
    else f.bpd_repair_pc

theorem stepped (h : i.redirect = none) : Stepped f (f.next i) := by
  obtain ⟨pcs, ram, hw⟩ := writes_eq (f := f) (i := i)
  have hn : i.redirect.isSome = false := by rw [h]; rfl
  have hrep := congrArg (repair · i) hw
  constructor
  all_goals
    rw [next, hrep]
    simp only [repair, hn, Bool.false_eq_true, if_false]
    cases f.b2_d.mispredict <;> cases f.bpd_update_mispredict <;> cases f.bpd_update_repair <;>
      cases f.bpd_update_mispredict_d <;> simp

/-- A redirect stops the walk. -/
theorem stopped {x : Fin n} (h : i.redirect = some x) :
    (f.next i).bpd_update_mispredict = false ∧ (f.next i).bpd_update_repair = false := by
  have hn : i.redirect.isSome = true := by rw [h]; rfl
  rw [next, repair, if_pos hn]
  exact ⟨rfl, rfl⟩

end FetchTargetQueue

/-! ## The walk -/

section Walk

variable [NeZero n] (r : (updatePort p n D).Run) (t : ℕ) (m : Fin n)

/-- No redirect comes between two cycles. -/
def Quiet (c : ℕ) : Prop := ∀ x, t < x → x < c → (r.input x).1.redirect = none

/-- A branch of the entry mispredicts in cycle `t`. -/
structure MispredictsAt : Prop where
  redirect : (r.input t).1.redirect = some m
  mispredict : (r.input t).1.b2.mispredict = true
  ftq_idx : (r.input t).1.b2.ftq_idx = m

/-- How many entries there are from the branch to the end. -/
def walkDist : ℕ := dist m (r.state t).ftq.enq_ptr

/-- The entry `k` places behind the branch has its address, when it is read. -/
def Match (k : ℕ) : Prop :=
  (r.state (t + 2 + k)).ftq.pcs (wrapInc^[k] m) = (r.state (t + 2)).ftq.pcs m

/-- This entry is due in the walk: it is before the end, and neither it nor one
    before it has the address of the branch. -/
def InWalk (k : ℕ) : Prop :=
  k < walkDist r t m ∧ ∀ j, 0 < j → j ≤ k → ¬Match r t m j

/-- The entry has something to tell the predictor, when it is read. -/
def Tells (k : ℕ) : Prop :=
  ((r.state (t + 2 + k)).ftq.ram (wrapInc^[k] m)).updates = true

/-- **The walk is exact**: one update for the branch, one for each entry behind
    it that is due and has something to tell, in order, and nothing else; then
    the commits go on. -/
structure WalkExact : Prop where
  mispredict : Quiet r t (t + 3) → ∃ u, (r.state (t + 3)).bpdupdate = some u ∧
    u.is_mispredict_update = true ∧ u.pc = (r.state (t + 2)).ftq.pcs m ∧
    u.cfi_idx_valid = true ∧ u.cfi_mispredicted = true
  repair : ∀ k, 0 < k → Quiet r t (t + 3 + k) → InWalk r t m k → Tells r t m k →
    ∃ u, (r.state (t + 3 + k)).bpdupdate = some u ∧ u.is_repair_update = true ∧
      u.pc = (r.state (t + 2 + k)).ftq.pcs (wrapInc^[k] m)
  only : ∀ c, t + 2 ≤ c → Quiet r t c → ∀ u, (r.state c).bpdupdate = some u →
    (u.is_mispredict_update = true → c = t + 3) ∧
    (u.is_repair_update = true → ∃ k, 0 < k ∧ c = t + 3 + k ∧ InWalk r t m k ∧ Tells r t m k)
  ends : ∀ c, t + walkDist r t m + 2 ≤ c → Quiet r t (c + 1) →
    (r.state c).ftq.bpd_update_mispredict = false ∧ (r.state c).ftq.bpd_update_repair = false ∧
    ((r.state c).ftq.do_commit_update (r.input c).1 = true ↔
      (r.state c).ftq.bpd_ptr ≠ (r.state c).ftq.deq_ptr ∧
      (r.state c).ftq.enq_ptr ≠ wrapInc (r.state c).ftq.bpd_ptr)

/-- The entry `k` places behind the branch is read, in cycle `t + 2 + k`: the
    address of an entry stops the walk two entries later. -/
def Reads (k : ℕ) : Prop :=
  k < walkDist r t m ∧ ∀ j, 0 < j → j + 1 < k → ¬Match r t m j

variable {r t m}

theorem Quiet.mono {c c' : ℕ} (h : Quiet r t c') (hc : c ≤ c') : Quiet r t c :=
  fun x hx hxc => h x hx (Nat.lt_of_lt_of_le hxc hc)

theorem Quiet.b2 {c x : ℕ} (h : Quiet r t c) (hx : t < x) (hxc : x < c) :
    (r.input x).1.b2.mispredict = false := by
  rw [Bool.eq_false_iff]
  intro hm
  have := r.ok x hm
  rw [h x hx hxc] at this
  cases this

/-- The two cycles after a misprediction. -/
structure Started (r : (updatePort p n D).Run) (t : ℕ) (m : Fin n) : Prop where
  mispredict : (r.state (t + 2)).ftq.bpd_update_mispredict = true
  repair : (r.state (t + 2)).ftq.bpd_update_repair = false
  repair_idx : (r.state (t + 2)).ftq.bpd_repair_idx = m
  end_idx : (r.state (t + 2)).ftq.bpd_end_idx = (r.state t).ftq.enq_ptr
  b2_d : (r.state (t + 2)).ftq.b2_d.mispredict = false
  due : (r.state (t + 2)).due = false
  entry : ((r.state (t + 2)).ftq.ram m).cfi_idx_valid = true ∧
    ((r.state (t + 2)).ftq.ram m).cfi_mispredicted = true

theorem started (h : MispredictsAt r t m) (hq : Quiet r t (t + 2)) : Started r t m := by
  have h1 : r.state (t + 1) = (r.state t).next (r.input t) := r.next t
  have h2 : r.state (t + 2) = (r.state (t + 1)).next (r.input (t + 1)) := r.next (t + 1)
  have hn : (r.input (t + 1)).1.redirect = none := hq (t + 1) (by omega) (by omega)
  have hstop := FetchTargetQueue.stopped (f := (r.state t).ftq) h.redirect
  have hb2 : (r.state (t + 1)).ftq.b2_d = (r.input t).1.b2 := by rw [h1]; rfl
  have henq : (r.state (t + 1)).ftq.enq_ptr_d = (r.state t).ftq.enq_ptr := by rw [h1]; rfl
  have hrd : (r.state (t + 1)).ftq.redirect_d = some m := by rw [h1]; exact h.redirect
  have hmis : (r.state (t + 1)).ftq.bpd_update_mispredict = false := by rw [h1]; exact hstop.1
  have hrep : (r.state (t + 1)).ftq.bpd_update_repair = false := by rw [h1]; exact hstop.2
  have hmp : (r.state (t + 1)).ftq.b2_d.mispredict = true := by rw [hb2]; exact h.mispredict
  have hst := FetchTargetQueue.stepped (f := (r.state (t + 1)).ftq) hn
  have hstart := hst.started hmp
  rw [henq, hb2, h.ftq_idx, hrep] at hstart
  constructor
  · rw [h2]
    exact hst.mispredict.trans hmp
  · rw [h2]
    exact hstart.2.2
  · rw [h2]
    exact hstart.1
  · rw [h2]
    exact hstart.2.1
  · rw [h2]
    exact hq.b2 (by omega) (by omega)
  · have hcommit : (r.state (t + 1)).ftq.do_commit_update (r.input (t + 1)).1 = false := by
      simp [FetchTargetQueue.do_commit_update, hrd]
    rw [h2]
    simp [UpdatePort.due, UpdatePort.next, hcommit, hmis, hrep]
  · have hnew : (r.state (t + 1)).ftq.redirect_new_entry_d =
        ((r.state t).ftq.ram m).redirected (r.input t).1.b2 := by
      rw [h1]
      simp only [UpdatePort.next, FetchTargetQueue.next, h.redirect]
    have hram : (r.state (t + 2)).ftq.ram m =
        ((r.state t).ftq.ram m).redirected (r.input t).1.b2 := by
      rw [h2]
      change ((((r.state (t + 1)).ftq.enqWrite _).redirectWrite _).repair _).ram m = _
      have hd : ((r.state (t + 1)).ftq.enqWrite (r.input (t + 1)).1).redirect_d = some m := by
        rw [← hrd]
        unfold FetchTargetQueue.enqWrite
        split <;> rfl
      have he : ((r.state (t + 1)).ftq.enqWrite (r.input (t + 1)).1).redirect_new_entry_d =
          (r.state (t + 1)).ftq.redirect_new_entry_d := by
        unfold FetchTargetQueue.enqWrite
        split <;> rfl
      rw [FetchTargetQueue.repair_ram, FetchTargetQueue.redirectWrite, hn, hd, he, hnew]
      exact Function.update_self _ _ _
    rw [hram, FTQBundle.redirected, if_pos h.mispredict]
    exact ⟨rfl, rfl⟩

/-- The walk in cycle `t + 3 + j`: what it is to read next, and what it has read. -/
structure Walks (r : (updatePort p n D).Run) (t : ℕ) (m : Fin n) (j : ℕ) : Prop where
  mispredict : (r.state (t + 3 + j)).ftq.bpd_update_mispredict = false
  repair : (r.state (t + 3 + j)).ftq.bpd_update_repair = true ↔ Reads r t m (j + 1)
  repair_idx : Reads r t m (j + 1) →
    (r.state (t + 3 + j)).ftq.bpd_repair_idx = wrapInc^[j + 1] m
  end_idx : (r.state (t + 3 + j)).ftq.bpd_end_idx = (r.state t).ftq.enq_ptr
  b2_d : (r.state (t + 3 + j)).ftq.b2_d.mispredict = false
  mispredict_d : (r.state (t + 3 + j)).ftq.bpd_update_mispredict_d = true ↔ j = 0
  repair_pc : 0 < j →
    (r.state (t + 3 + j)).ftq.bpd_repair_pc = (r.state (t + 2)).ftq.pcs m
  bpd_pc : Reads r t m j →
    (r.state (t + 3 + j)).ftq.bpd_pc = (r.state (t + 2 + j)).ftq.pcs (wrapInc^[j] m)
  bpd_entry : Reads r t m j →
    (r.state (t + 3 + j)).bpd_entry = (r.state (t + 2 + j)).ftq.ram (wrapInc^[j] m)
  do_mispredict_d : (r.state (t + 3 + j)).do_mispredict_update_d = true ↔ j = 0
  do_repair_d : (r.state (t + 3 + j)).do_repair_update_d = true ↔ 0 < j ∧ Reads r t m j

theorem Reads.of_succ {k : ℕ} (h : Reads r t m (k + 1)) : Reads r t m k :=
  ⟨Nat.lt_of_succ_lt h.1, fun j h0 hj => h.2 j h0 (Nat.lt_succ_of_lt hj)⟩

theorem reads_succ_iff {k : ℕ} (hk : 0 < k) : Reads r t m (k + 2) ↔
    Reads r t m (k + 1) ∧ k + 2 ≠ walkDist r t m ∧ ¬Match r t m k := by
  constructor
  · intro h
    exact ⟨h.of_succ, Nat.ne_of_lt h.1, h.2 k hk (Nat.lt_succ_self _)⟩
  · rintro ⟨h, hne, hno⟩
    refine ⟨Nat.lt_of_le_of_ne h.1 hne, fun j h0 hj => ?_⟩
    rcases Nat.lt_or_eq_of_le (Nat.le_of_lt_succ (Nat.lt_of_succ_lt_succ hj)) with hlt | rfl
    · exact h.2 j h0 (Nat.succ_lt_succ hlt)
    · exact hno

theorem walks_zero (h : Started r t m) (hq : Quiet r t (t + 3)) (hd : 3 ≤ walkDist r t m) :
    Walks r t m 0 := by
  have h3 : r.state (t + 3) = (r.state (t + 2)).next (r.input (t + 2)) := r.next (t + 2)
  have hn : (r.input (t + 2)).1.redirect = none := hq (t + 2) (by omega) (by omega)
  have hst := FetchTargetQueue.stepped (f := (r.state (t + 2)).ftq) hn
  have hidx : (r.state (t + 2)).ftq.bpd_idx (r.input (t + 2)).1 = m := by
    rw [FetchTargetQueue.bpd_idx, hn, h.mispredict, h.repair_idx, Bool.or_true, if_pos rfl]
    rfl
  have hread : Reads r t m 1 := ⟨by omega, fun j h0 hj => by omega⟩
  constructor
  · rw [Nat.add_zero, h3]
    exact hst.mispredict.trans h.b2_d
  · rw [Nat.add_zero, h3]
    change ((r.state (t + 2)).ftq.next (r.input (t + 2)).1).bpd_update_repair = true ↔ _
    rw [hst.repair h.b2_d, h.mispredict, Bool.true_or]
    exact ⟨fun _ => hread, fun _ => rfl⟩
  · intro _
    rw [Nat.add_zero, h3]
    change ((r.state (t + 2)).ftq.next (r.input (t + 2)).1).bpd_repair_idx = _
    rw [hst.idx h.b2_d, h.mispredict, Bool.true_or, if_pos rfl, h.repair_idx]
    rfl
  · rw [Nat.add_zero, h3]
    exact (hst.end_idx h.b2_d).trans h.end_idx
  · rw [Nat.add_zero, h3]
    exact hq.b2 (by omega) (by omega)
  · rw [Nat.add_zero, h3]
    exact ⟨fun _ => rfl, fun _ => h.mispredict⟩
  · intro hj
    exact absurd hj (Nat.lt_irrefl 0)
  · intro _
    rw [Nat.add_zero, h3]
    exact congrArg _ hidx
  · intro _
    rw [Nat.add_zero, h3]
    exact congrArg _ hidx
  · rw [Nat.add_zero, h3]
    exact ⟨fun _ => rfl, fun _ => h.mispredict⟩
  · rw [Nat.add_zero, h3]
    change (r.state (t + 2)).ftq.bpd_update_repair = true ↔ _
    rw [h.repair]
    exact iff_of_false Bool.false_ne_true fun h => absurd h.1 (Nat.lt_irrefl 0)

theorem Walks.succ {j : ℕ} (h : Walks r t m j) (hq : Quiet r t (t + 3 + (j + 1)))
    (hd : 3 ≤ walkDist r t m) : Walks r t m (j + 1) := by
  have h3 : r.state (t + 3 + (j + 1)) = (r.state (t + 3 + j)).next (r.input (t + 3 + j)) :=
    r.next (t + 3 + j)
  have hn : (r.input (t + 3 + j)).1.redirect = none := hq (t + 3 + j) (by omega) (by omega)
  have hst := FetchTargetQueue.stepped (f := (r.state (t + 3 + j)).ftq) hn
  have hlt : walkDist r t m < n := dist_lt
  have hcycle : t + 2 + (j + 1) = t + 3 + j := by omega
  -- the end test is made on the index after the one that is read
  have hend (hr : Reads r t m (j + 1)) : wrapInc (r.state (t + 3 + j)).ftq.bpd_repair_idx =
      (r.state (t + 3 + j)).ftq.bpd_end_idx ↔ j + 2 = walkDist r t m := by
    have := hr.1
    rw [h.repair_idx hr, h.end_idx, ← Function.iterate_succ_apply' wrapInc]
    exact iterate_wrapInc_eq_iff (by omega)
  have hidx (hr : Reads r t m (j + 1)) :
      (r.state (t + 3 + j)).ftq.bpd_idx (r.input (t + 3 + j)).1 = wrapInc^[j + 1] m := by
    rw [FetchTargetQueue.bpd_idx, hn, h.repair.2 hr, Bool.true_or, if_pos rfl, h.repair_idx hr]
    rfl
  constructor
  · rw [h3]
    exact hst.mispredict.trans h.b2_d
  · rw [h3]
    change ((r.state (t + 3 + j)).ftq.next (r.input (t + 3 + j)).1).bpd_update_repair = true ↔ _
    rw [hst.repair h.b2_d, h.mispredict, Bool.false_or, Bool.and_eq_true, h.repair,
      Bool.or_eq_true, h.mispredict_d]
    rcases Nat.eq_zero_or_pos j with rfl | hj
    · refine ⟨fun _ => ⟨hd, fun i h0 hi => by omega⟩, fun hr => ⟨hr.of_succ, .inl rfl⟩⟩
    · rw [reads_succ_iff hj]
      refine and_congr_right fun hr => ?_
      have hpc : (r.state (t + 3 + j)).ftq.bpd_pc = (r.state (t + 3 + j)).ftq.bpd_repair_pc ↔
          Match r t m j := by
        rw [h.bpd_pc hr.of_succ, h.repair_pc hj]
        rfl
      rw [Bool.not_eq_true', Bool.or_eq_false_iff, decide_eq_false_iff_not,
        decide_eq_false_iff_not, hend hr, hpc]
      exact ⟨fun h => h.resolve_left (Nat.ne_of_gt hj), .inr⟩
  · intro hr
    have hrep := h.repair.2 hr.of_succ
    rw [h3]
    change ((r.state (t + 3 + j)).ftq.next (r.input (t + 3 + j)).1).bpd_repair_idx = _
    rw [hst.idx h.b2_d, hrep, Bool.or_true, if_pos rfl, h.repair_idx hr.of_succ,
      ← Function.iterate_succ_apply' wrapInc]
  · rw [h3]
    exact (hst.end_idx h.b2_d).trans h.end_idx
  · rw [h3]
    exact hq.b2 (by omega) (by omega)
  · rw [h3]
    change (r.state (t + 3 + j)).ftq.bpd_update_mispredict = true ↔ _
    rw [h.mispredict]
    exact iff_of_false Bool.false_ne_true (Nat.succ_ne_zero j)
  · intro _
    rw [h3]
    change ((r.state (t + 3 + j)).ftq.next (r.input (t + 3 + j)).1).bpd_repair_pc = _
    rw [hst.repair_pc h.b2_d, h.mispredict, Bool.not_false, Bool.true_and]
    rcases Nat.eq_zero_or_pos j with rfl | hj
    · have hr : Reads r t m 1 := ⟨by omega, fun i h0 hi => by omega⟩
      rw [h.repair.2 hr, h.mispredict_d.2 rfl, Bool.and_self, if_pos rfl, h.bpd_pc hr.of_succ]
      rfl
    · have hmd : (r.state (t + 3 + j)).ftq.bpd_update_mispredict_d = false :=
        Bool.eq_false_iff.2 fun hm => absurd (h.mispredict_d.1 hm) (Nat.ne_of_gt hj)
      rw [hmd, Bool.and_false, if_neg Bool.false_ne_true, h.repair_pc hj]
  · intro hr
    rw [h3, hcycle]
    exact congrArg (r.state (t + 3 + j)).ftq.pcs (hidx hr)
  · intro hr
    rw [h3, hcycle]
    exact congrArg (r.state (t + 3 + j)).ftq.ram (hidx hr)
  · rw [h3]
    change (r.state (t + 3 + j)).ftq.bpd_update_mispredict = true ↔ _
    rw [h.mispredict]
    exact iff_of_false Bool.false_ne_true (Nat.succ_ne_zero j)
  · rw [h3]
    change (r.state (t + 3 + j)).ftq.bpd_update_repair = true ↔ _
    rw [h.repair]
    exact ⟨fun hr => ⟨Nat.succ_pos j, hr⟩, And.right⟩

theorem walks (h : MispredictsAt r t m) (hd : 3 ≤ walkDist r t m) (j : ℕ)
    (hq : Quiet r t (t + 3 + j)) : Walks r t m j := by
  induction j with
  | zero => exact walks_zero (started h (hq.mono (by omega))) hq hd
  | succ j ih => exact (ih (hq.mono (by omega))).succ hq hd

/-! ## Its updates -/

omit [NeZero n] in
theorem sends_iff {s : UpdatePort p n D} : s.sends = true ↔
    s.due = true ∧ s.first_empty = false ∧ s.bpd_entry.updates = true ∧
      (s.do_repair_update_d = true → s.ftq.bpd_pc ≠ s.ftq.bpd_repair_pc) := by
  simp only [UpdatePort.sends, Bool.and_eq_true, Bool.not_eq_true', Bool.and_eq_false_imp,
    beq_eq_false_iff_ne, and_assoc]

omit [NeZero n] in
theorem bpdupdate_eq_some {s : UpdatePort p n D} {u : BpdUpdate p D} :
    s.bpdupdate = some u ↔ s.sends = true ∧ s.update = u := by
  rw [UpdatePort.bpdupdate]
  cases s.sends with
  | true => simp
  | false => simp

/-- When a walk does what it should: an update was made before, the branch has
    two entries or more behind it that are taken back, and where one of them has
    the address of the branch and the walk still reads the next, the next has
    nothing to tell. -/
structure Repairable (r : (updatePort p n D).Run) (t : ℕ) (m : Fin n) : Prop where
  cleared : (r.state t).first_empty = false ∨ (r.state t).due = true
  far : 3 ≤ walkDist r t m
  apart : ∀ k, 0 < k → Reads r t m (k + 1) → Quiet r t (t + 4 + k) → Match r t m k →
    Tells r t m (k + 1) → Match r t m (k + 1)

theorem first_empty_of_cleared (h : (r.state t).first_empty = false ∨ (r.state t).due = true)
    {c : ℕ} (hc : t < c) : (r.state c).first_empty = false := by
  induction c, hc using Nat.le_induction with
  | base =>
    rw [r.next]
    change ((r.state t).first_empty && !(r.state t).due) = false
    rcases h with h | h
    · rw [h, Bool.false_and]
    · rw [h, Bool.not_true, Bool.and_false]
  | succ c _ ih =>
    rw [r.next]
    change ((r.state c).first_empty && !(r.state c).due) = false
    rw [ih, Bool.false_and]

/-- An entry that the walk reads and does not skip is due. -/
theorem inWalk_of_reads (h : Repairable r t m) {k : ℕ} (hk : 0 < k)
    (hq : Quiet r t (t + 3 + k)) (hr : Reads r t m k) (ht : Tells r t m k)
    (hm : ¬Match r t m k) : InWalk r t m k := by
  refine ⟨hr.1, fun j h0 hj hmj => ?_⟩
  rcases Nat.lt_or_eq_of_le hj with hlt | rfl
  · rcases Nat.lt_or_eq_of_le hlt with hlt' | rfl
    · exact hr.2 j h0 hlt' hmj
    · exact hm (h.apart j h0 hr (hq.mono (by omega)) hmj ht)
  · exact hm hmj

theorem InWalk.reads {k : ℕ} (h : InWalk r t m k) : Reads r t m k :=
  ⟨h.1, fun j h0 hj => h.2 j h0 (by omega)⟩

/-- **The repair walk is exact** where it has room: after every misprediction
    that no redirect follows, it sends the one update for the branch and one for
    each entry behind it, up to the end or to the address of the branch. -/
theorem repair_walk_exact (r : (updatePort p n D).Run) (t : ℕ) (m : Fin n)
    (h : MispredictsAt r t m) (hw : Repairable r t m) : WalkExact r t m := by
  have hfe {c : ℕ} (hc : t < c) := first_empty_of_cleared hw.cleared hc
  constructor
  · intro hq
    have hs := started h (hq.mono (by omega))
    have hz := walks h hw.far 0 hq
    have hr0 : Reads r t m 0 := ⟨by have := hw.far; omega, fun j _ hj => by omega⟩
    have hent := hz.bpd_entry hr0
    have hnorep : (r.state (t + 3)).do_repair_update_d = false :=
      Bool.eq_false_iff.2 fun hd => absurd (hz.do_repair_d.1 hd).1 (Nat.lt_irrefl 0)
    have hmis : (r.state (t + 3)).do_mispredict_update_d = true := hz.do_mispredict_d.2 rfl
    have hdue : (r.state (t + 3)).due = true := by
      rw [UpdatePort.due, hmis, Bool.or_true]
    have hent' : (r.state (t + 3)).bpd_entry = (r.state (t + 2)).ftq.ram m := hent
    have hup : (r.state (t + 3)).bpd_entry.updates = true := by
      rw [hent', FTQBundle.updates, hs.entry.1, Bool.true_or]
    have hsends := sends_iff.2 ⟨hdue, hfe (by omega), hup,
      fun hd => absurd (hnorep.symm.trans hd) Bool.false_ne_true⟩
    refine ⟨_, bpdupdate_eq_some.2 ⟨hsends, rfl⟩, hmis, hz.bpd_pc hr0, ?_, ?_⟩
    · exact (congrArg FTQBundle.cfi_idx_valid hent').trans hs.entry.1
    · exact (congrArg FTQBundle.cfi_mispredicted hent').trans hs.entry.2
  · intro k hk hq hin ht
    have hwk := walks h hw.far k hq
    have hr := hin.reads
    have hrep : (r.state (t + 3 + k)).do_repair_update_d = true := hwk.do_repair_d.2 ⟨hk, hr⟩
    have hdue : (r.state (t + 3 + k)).due = true := by
      rw [UpdatePort.due, hrep, Bool.or_true, Bool.true_or]
    have hup : (r.state (t + 3 + k)).bpd_entry.updates = true := by
      rw [hwk.bpd_entry hr]
      exact ht
    have hne : (r.state (t + 3 + k)).ftq.bpd_pc ≠ (r.state (t + 3 + k)).ftq.bpd_repair_pc := by
      rw [hwk.bpd_pc hr, hwk.repair_pc hk]
      exact hin.2 k hk (Nat.le_refl k)
    exact ⟨_, bpdupdate_eq_some.2 ⟨sends_iff.2 ⟨hdue, hfe (by omega), hup, fun _ => hne⟩, rfl⟩,
      hrep, hwk.bpd_pc hr⟩
  · intro c hc hq u hu
    obtain ⟨hsends, rfl⟩ := bpdupdate_eq_some.1 hu
    obtain ⟨hdue, -, hup, hpc⟩ := sends_iff.1 hsends
    rcases Nat.lt_or_eq_of_le hc with hlt | rfl
    · obtain ⟨j, rfl⟩ : ∃ j, c = t + 3 + j := ⟨c - (t + 3), by omega⟩
      have hwj := walks h hw.far j hq
      refine ⟨fun hm => ?_, fun hrep => ?_⟩
      · rw [hwj.do_mispredict_d.1 hm]
      · obtain ⟨hj, hr⟩ := hwj.do_repair_d.1 hrep
        have hne := hpc hrep
        rw [hwj.bpd_pc hr, hwj.repair_pc hj] at hne
        rw [hwj.bpd_entry hr] at hup
        exact ⟨j, hj, rfl, inWalk_of_reads hw hj hq hr hup hne, hup⟩
    · exact absurd (hdue.symm.trans (started h hq).due) nofun
  · intro c hc hq
    obtain ⟨j, rfl⟩ : ∃ j, c = t + 3 + j := ⟨c - (t + 3), by have := hw.far; omega⟩
    have hwj := walks h hw.far j (hq.mono (by omega))
    have hrep : (r.state (t + 3 + j)).ftq.bpd_update_repair = false :=
      Bool.eq_false_iff.2 fun hr => by
        have := (hwj.repair.1 hr).1
        omega
    have hn := hq (t + 3 + j) (by omega) (by omega)
    have hb2 := hq.b2 (x := t + 3 + j) (by omega) (by omega)
    have hrd : (r.state (t + 3 + j)).ftq.redirect_d = none := by
      obtain ⟨c', hc'⟩ : ∃ c', t + 3 + j = c' + 1 ∧ t < c' := ⟨t + 2 + j, by omega, by omega⟩
      rw [hc'.1, r.next]
      exact hq c' hc'.2 (by omega)
    refine ⟨hwj.mispredict, hrep, ?_⟩
    simp [FetchTargetQueue.do_commit_update, hwj.mispredict, hrep, hn, hb2, hrd]

end Walk

/-! ## Two runs -/

/-- The queue after reset. -/
def resetPort : UpdatePort smallFrontend 4 Unit where
  ftq := resetFtq.ftq
  rows _ := ()
  first_empty := true
  bpd_entry := blankEntry
  bpd_target := 0
  bpd_row := ()
  do_commit_update_d := false
  do_mispredict_update_d := false
  do_repair_update_d := false

/-- A packet that ends in a jump is offered, or nothing is. -/
def enqueue (pc : BitVec 8) : In smallFrontend 4 × Unit :=
  ({ offer pc with enq := some ⟨pc, true, 0, 2, false, false, false, 0, 0, 0, 0⟩ }, ())

/-- Nothing is offered. -/
def noFetch : In smallFrontend 4 × Unit := ({ offer 0 with enq := none }, ())

/-- The same, and an entry commits. -/
def commits (i : In smallFrontend 4 × Unit) (k : Fin 4) : In smallFrontend 4 × Unit :=
  ({ i.1 with deq := some k }, ())

/-- The jump of an entry is mispredicted. -/
def missed (k : Fin 4) : In smallFrontend 4 × Unit :=
  ({ noFetch.1 with redirect := some k, b2 := ⟨true, true, k, 0⟩ }, ())

/-- The run on a list of inputs, with nothing after it. -/
def portRun (is : List (In smallFrontend 4 × Unit))
    (h : (updatePort smallFrontend 4 Unit).passes
      (fun _ i => !i.1.b2.mispredict || i.1.redirect.isSome) resetPort is = true) :
    (updatePort smallFrontend 4 Unit).Run :=
  Machine.Run.of resetPort (Machine.pad is noFetch) ⟨rfl, rfl, rfl, rfl, rfl, rfl⟩
    (Machine.ok_pad (P := fun _ => True) (fun _ _ => ⟨(fun h => nomatch h), trivial⟩) is resetPort
      (Machine.accepts_of_passes (fun _ i h hm => by
        rw [hm] at h
        exact h) is resetPort h) trivial)

/-- Three packets, of which the first one's jump is mispredicted. -/
def threeBack : (updatePort smallFrontend 4 Unit).Run :=
  portRun [enqueue 16, commits (enqueue 32) 1, noFetch, enqueue 48, missed 1] (by decide)

/-- Two packets, of which the last one's jump is mispredicted. -/
def oneBack : (updatePort smallFrontend 4 Unit).Run :=
  portRun [enqueue 16, commits (enqueue 32) 1, noFetch, missed 2] (by decide)

theorem repair_walk_exact_threeBack : WalkExact threeBack 4 1 := by
  have hdist : walkDist threeBack 4 1 = 3 := by decide +kernel
  refine repair_walk_exact threeBack 4 1 ⟨rfl, rfl, rfl⟩
    ⟨.inl (by decide +kernel), hdist.ge, fun k h0 hr _ hm _ => ?_⟩
  have hk := hr.1
  obtain rfl : k = 1 := by omega
  have hno : ¬Match threeBack 4 1 1 := by
    unfold Match
    decide +kernel
  exact absurd hm hno

/-- The walk runs past the end of the queue and sends an update for the packet
    before the branch. -/
theorem not_walk_exact : ¬∀ (r : (updatePort smallFrontend 4 Unit).Run) (t : ℕ) (m : Fin 4),
    MispredictsAt r t m → WalkExact r t m := by
  intro hall
  have hsome : (oneBack.state 9).bpdupdate.isSome = true := by decide +kernel
  obtain ⟨u, hu⟩ := Option.isSome_iff_exists.1 hsome
  have hrep : u.is_repair_update = true := by
    have h : (oneBack.state 9).bpdupdate.any BpdUpdate.is_repair_update = true := by
      decide +kernel
    rwa [hu] at h
  have hquiet : Quiet oneBack 3 9 := by
    intro x hx _
    obtain ⟨j, rfl⟩ : ∃ j, x = j + 4 := ⟨x - 4, by omega⟩
    rfl
  obtain ⟨k, -, hk, hin, -⟩ := ((hall oneBack 3 2 ⟨rfl, rfl, rfl⟩).only 9 (by decide) hquiet u hu).2
    hrep
  have hdist : walkDist oneBack 3 2 = 1 := by decide +kernel
  have := hin.1
  omega

end BoomStop.Ifu
