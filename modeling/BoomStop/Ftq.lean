/-
  The fetch target queue (`fetch-target-queue.scala`): its three pointers, the
  contents of its registers, and the branch predictor update that follows the
  commits or repairs a misprediction.

  * `FetchTargetQueue.next`: one cycle;
  * `fetchTargetQueue`: the queue over whole runs, where every pointer is the place of a
    running number, and the commits and redirects of the core name entries that
    are there;
  * `entries_alive`: no entry is lost before the predictor has followed the
    commits past it.
-/
import BoomStop.Lib.Machine
import BoomStop.Lib.RingOrder
import Mathlib.Data.Nat.Log

namespace BoomStop.Ifu

open Sync RingOrder

/-- The frontend parameters. -/
structure Params where
  /-- bits of an address -/
  va : ℕ
  fetchWidth : ℕ
  nBanks : ℕ
  bankBytes : ℕ
  icBlockBytes : ℕ

variable {p : Params} {n : ℕ}

/-- `bank`: the bank an address is in. -/
def bank (p : Params) (addr : BitVec p.va) : Bool :=
  decide (p.nBanks = 2) && addr.getLsbD (Nat.clog 2 p.bankBytes)

/-- `FTQBundle`. -/
structure FTQBundle (p : Params) where
  cfi_idx_valid : Bool
  cfi_idx : ℕ
  cfi_taken : Bool
  cfi_mispredicted : Bool
  cfi_type : BitVec 3
  br_mask : ℕ
  cfi_is_call : Bool
  cfi_is_ret : Bool
  cfi_npc_plus4 : Bool
  ras_top : BitVec p.va
  ras_idx : ℕ
  start_bank : Bool

/-- What the queue reads of a `FetchBundle`. -/
structure FetchBundle (p : Params) where
  pc : BitVec p.va
  cfi_idx_valid : Bool
  cfi_idx : ℕ
  cfi_type : BitVec 3
  cfi_is_call : Bool
  cfi_is_ret : Bool
  cfi_npc_plus4 : Bool
  ras_top : BitVec p.va
  ras_idx : ℕ
  br_mask : ℕ
  mask : ℕ

/-- `new_entry`. -/
def FetchBundle.new_entry (b : FetchBundle p) : FTQBundle p where
  cfi_idx_valid := b.cfi_idx_valid
  cfi_idx := b.cfi_idx
  -- a control-flow instruction is assumed to be taken until it resolves
  cfi_taken := b.cfi_idx_valid
  cfi_mispredicted := false
  cfi_type := b.cfi_type
  br_mask := b.br_mask &&& b.mask
  cfi_is_call := b.cfi_is_call
  cfi_is_ret := b.cfi_is_ret
  cfi_npc_plus4 := b.cfi_npc_plus4
  ras_top := b.ras_top
  ras_idx := b.ras_idx
  start_bank := bank p b.pc

/-- What the queue reads of `brupdate.b2`. -/
structure BrResolution (n : ℕ) where
  mispredict : Bool
  taken : Bool
  ftq_idx : Fin n
  pc_lob : ℕ

/-- The entry of a mispredicted branch after a redirect. -/
def FTQBundle.redirected (e : FTQBundle p) (b2 : BrResolution n) : FTQBundle p :=
  if b2.mispredict then
    let lob := b2.pc_lob ^^^ (if e.start_bank then 1 <<< Nat.clog 2 p.bankBytes else 0)
    let new_cfi_idx := lob / 2 % 2 ^ Nat.clog 2 p.fetchWidth
    { e with
      cfi_idx_valid := true
      cfi_idx := new_cfi_idx
      cfi_mispredicted := true
      cfi_taken := b2.taken
      cfi_is_call := e.cfi_is_call && e.cfi_idx = new_cfi_idx
      cfi_is_ret := e.cfi_is_ret && e.cfi_idx = new_cfi_idx }
  else e

/-- The registers of `FetchTargetQueue` that its pointers and entries depend
    on; a name that ends in `_d` is the value of the last cycle. -/
structure FetchTargetQueue (p : Params) (n : ℕ) where
  bpd_ptr : Fin n
  deq_ptr : Fin n
  enq_ptr : Fin n
  pcs : Fin n → BitVec p.va
  ram : Fin n → FTQBundle p
  bpd_update_mispredict : Bool
  bpd_update_repair : Bool
  bpd_repair_idx : Fin n
  bpd_end_idx : Fin n
  bpd_repair_pc : BitVec p.va
  bpd_pc : BitVec p.va
  enq_ready : Bool
  bpd_update_mispredict_d : Bool
  enq_ptr_d : Fin n
  redirect_d : Option (Fin n)
  redirect_new_entry_d : FTQBundle p
  b2_d : BrResolution n

/-- The inputs of a cycle. -/
structure In (p : Params) (n : ℕ) where
  enq : Option (FetchBundle p)
  deq : Option (Fin n)
  redirect : Option (Fin n)
  b2 : BrResolution n

namespace FetchTargetQueue

variable [NeZero n] (f : FetchTargetQueue p n) (i : In p n)

/-- `full`. -/
def full : Bool := wrapInc (wrapInc f.enq_ptr) = f.bpd_ptr || wrapInc f.enq_ptr = f.bpd_ptr

/-- `io.enq.fire()`, with what is written. -/
def do_enq : Option (FetchBundle p) := if f.enq_ready then i.enq else none

/-- `bpd_idx`: the entry that is read. -/
def bpd_idx : Fin n :=
  i.redirect.getD (if f.bpd_update_repair || f.bpd_update_mispredict then f.bpd_repair_idx
    else f.bpd_ptr)

/-- `do_commit_update`: a committed entry is read. -/
def do_commit_update : Bool :=
  !f.bpd_update_mispredict && !f.bpd_update_repair && f.bpd_ptr ≠ f.deq_ptr &&
    f.enq_ptr ≠ wrapInc f.bpd_ptr && !i.b2.mispredict && i.redirect.isNone && f.redirect_d.isNone

/-- What an enqueue does to the entries. -/
def enqWrite : FetchTargetQueue p n :=
  match f.do_enq i with
  | some b =>
    { f with
      pcs := Function.update f.pcs f.enq_ptr b.pc
      ram := Function.update f.ram f.enq_ptr b.new_entry }
  | none => f

/-- A redirect mends its entry in the cycle after it. -/
def redirectWrite : FetchTargetQueue p n :=
  match i.redirect, f.redirect_d with
  | none, some r => { f with ram := Function.update f.ram r f.redirect_new_entry_d }
  | _, _ => f

/-- The walk over the entries behind a mispredicted branch. -/
def repair : FetchTargetQueue p n :=
  if i.redirect.isSome then
    { f with bpd_update_mispredict := false, bpd_update_repair := false }
  else if f.b2_d.mispredict then
    { f with
      bpd_update_mispredict := true
      bpd_repair_idx := f.b2_d.ftq_idx
      bpd_end_idx := f.enq_ptr_d }
  else if f.bpd_update_mispredict then
    { f with
      bpd_update_mispredict := false
      bpd_update_repair := true
      bpd_repair_idx := wrapInc f.bpd_repair_idx }
  else if f.bpd_update_repair && f.bpd_update_mispredict_d then
    { f with bpd_repair_pc := f.bpd_pc, bpd_repair_idx := wrapInc f.bpd_repair_idx }
  else if f.bpd_update_repair then
    { f with
      bpd_repair_idx := wrapInc f.bpd_repair_idx
      bpd_update_repair :=
        !(wrapInc f.bpd_repair_idx = f.bpd_end_idx || f.bpd_pc = f.bpd_repair_pc) }
  else f

/-- One cycle. -/
def next : FetchTargetQueue p n :=
  { ((f.enqWrite i).redirectWrite i).repair i with
    bpd_ptr := if f.do_commit_update i then wrapInc f.bpd_ptr else f.bpd_ptr
    deq_ptr := i.deq.getD f.deq_ptr
    enq_ptr :=
      match i.redirect with
      | some r => wrapInc r
      | none => if (f.do_enq i).isSome then wrapInc f.enq_ptr else f.enq_ptr
    bpd_pc := f.pcs (f.bpd_idx i)
    enq_ready := !f.full || f.do_commit_update i
    bpd_update_mispredict_d := f.bpd_update_mispredict
    enq_ptr_d := f.enq_ptr
    redirect_d := i.redirect
    redirect_new_entry_d :=
      match i.redirect with
      | some r => (f.ram r).redirected i.b2
      | none => f.redirect_new_entry_d
    b2_d := i.b2 }

end FetchTargetQueue

/-! ## Runs -/

/-- The queue with the running numbers that its pointers are the places of, and
    the address that was fetched under each number. -/
structure Sys (p : Params) (n : ℕ) where
  ftq : FetchTargetQueue p n
  bpdNo : ℕ
  deqNo : ℕ
  enqNo : ℕ
  fetched : ℕ → BitVec p.va

namespace Sys

variable (s : Sys p n) (i : In p n)

/-- The number of the entry behind an index, counted from the oldest one. -/
def no (r : Fin n) : ℕ := s.bpdNo + dist s.ftq.bpd_ptr r

/-- The index names an entry from the last commit on. -/
def Live (r : Fin n) : Prop := s.deqNo ≤ s.no r ∧ s.no r < s.enqNo

instance (r : Fin n) : Decidable (s.Live r) := inferInstanceAs (Decidable (_ ∧ _))

variable [NeZero n]

/-- One cycle, with the history. -/
def next : Sys p n where
  ftq := s.ftq.next i
  bpdNo := if s.ftq.do_commit_update i then s.bpdNo + 1 else s.bpdNo
  deqNo := (i.deq.map s.no).getD s.deqNo
  enqNo :=
    match i.redirect with
    | some r => s.no r + 1
    | none => if (s.ftq.do_enq i).isSome then s.enqNo + 1 else s.enqNo
  fetched :=
    match s.ftq.do_enq i with
    | some b => Function.update s.fetched s.enqNo b.pc
    | none => s.fetched

end Sys

/-- The queue in the core: redirects and commits name live entries. -/
def fetchTargetQueue (p : Params) (n : ℕ) [NeZero n] :
    Machine (Sys p n) (In p n) where
  start s := s.ftq.bpd_ptr = place n 0 ∧ s.ftq.deq_ptr = place n 0 ∧ s.ftq.enq_ptr = place n 1 ∧
    s.ftq.bpd_update_mispredict = false ∧ s.ftq.bpd_update_repair = false ∧
    s.bpdNo = 0 ∧ s.deqNo = 0 ∧ s.enqNo = 1
  ok s i := (∀ r, i.redirect = some r → s.Live r) ∧ ∀ c, i.deq = some c → s.Live c
  next s i := s.next i

/-! ## The invariant -/

namespace FetchTargetQueue

variable [NeZero n] {f : FetchTargetQueue p n} {i : In p n}

@[simp] theorem repair_pcs : (f.repair i).pcs = f.pcs := by
  unfold repair
  split_ifs <;> rfl

omit [NeZero n] in
@[simp] theorem redirectWrite_pcs : (f.redirectWrite i).pcs = f.pcs := by
  unfold redirectWrite
  split <;> rfl

theorem next_pcs : (f.next i).pcs = (f.enqWrite i).pcs :=
  repair_pcs.trans redirectWrite_pcs

@[simp] theorem repair_ram : (f.repair i).ram = f.ram := by
  unfold repair
  split_ifs <;> rfl

theorem next_ram : (f.next i).ram = ((f.enqWrite i).redirectWrite i).ram := repair_ram

omit [NeZero n] in
/-- An enqueue writes the entry of `enq_ptr` and no other. -/
theorem enqWrite_of_ne {r : Fin n} (h : r ≠ f.enq_ptr) :
    (f.enqWrite i).pcs r = f.pcs r ∧ (f.enqWrite i).ram r = f.ram r := by
  unfold enqWrite
  split
  · exact ⟨Function.update_of_ne h _ _, Function.update_of_ne h _ _⟩
  · exact ⟨rfl, rfl⟩

end FetchTargetQueue

namespace Sys

variable [NeZero n] {s : Sys p n} {i : In p n}

/-- The pointers go with their numbers, the numbers stay within one round, and
    an enqueue that may come finds room for two. -/
structure Inv (s : Sys p n) : Prop where
  bpd_ptr : s.ftq.bpd_ptr = place n s.bpdNo
  deq_ptr : s.ftq.deq_ptr = place n s.deqNo
  enq_ptr : s.ftq.enq_ptr = place n s.enqNo
  nonempty : s.bpdNo < s.enqNo
  round : s.enqNo < s.bpdNo + n
  behind : s.bpdNo ≤ s.deqNo
  room : s.ftq.enq_ready = true → s.enqNo + 1 < s.bpdNo + n
  content : ∀ k, 0 < k → s.bpdNo ≤ k → k < s.enqNo → s.ftq.pcs (place n k) = s.fetched k

theorem place_no (h : s.Inv) (r : Fin n) : place n (s.no r) = r := by
  rw [no, h.bpd_ptr]
  exact place_add_dist r

/-- The predictor follows only a commit that is ahead of it, and never up to
    the last entry. -/
theorem of_do_commit_update (h : s.Inv) (hc : s.ftq.do_commit_update i = true) :
    s.bpdNo < s.deqNo ∧ s.bpdNo + 1 < s.enqNo ∧ i.redirect = none := by
  simp only [FetchTargetQueue.do_commit_update, Bool.and_eq_true, Bool.not_eq_true',
    decide_eq_true_eq, Option.isNone_iff_eq_none, h.bpd_ptr, h.deq_ptr, h.enq_ptr,
    wrapInc_place] at hc
  obtain ⟨⟨⟨⟨⟨-, hdeq⟩, henq⟩, -⟩, hr⟩, -⟩ := hc
  have h1 := h.behind
  have h2 := h.nonempty
  refine ⟨?_, ?_, hr⟩
  · by_contra hle
    exact hdeq (by rw [show s.deqNo = s.bpdNo by omega])
  · by_contra hle
    exact henq (by rw [show s.enqNo = s.bpdNo + 1 by omega])

/-- A queue that is not full has room for three. -/
theorem room_of_not_full (h : s.Inv) (hf : s.ftq.full = false) : s.enqNo + 2 < s.bpdNo + n := by
  simp only [FetchTargetQueue.full, Bool.or_eq_false_iff, decide_eq_false_iff_not, h.bpd_ptr,
    h.enq_ptr, wrapInc_place] at hf
  have hround := h.round
  by_contra hle
  rcases (show s.enqNo + 1 = s.bpdNo + n ∨ s.enqNo + 1 + 1 = s.bpdNo + n by omega) with he | he
  · exact hf.2 (by rw [he, place_add_self])
  · exact hf.1 (by rw [he, place_add_self])

omit [NeZero n] in
theorem ready_of_do_enq (hd : (s.ftq.do_enq i).isSome) : s.ftq.enq_ready = true := by
  by_contra hr
  simp [FetchTargetQueue.do_enq, hr] at hd

/-- What the numbers do in a cycle: a redirect takes the last one back, to a
    live entry; without one it grows with an enqueue, for which there is room. -/
theorem next_numbers (h : s.Inv) (hok : (fetchTargetQueue p n).ok s i) :
    s.bpdNo ≤ (s.next i).bpdNo ∧ (s.next i).bpdNo ≤ s.deqNo ∧
      (s.next i).bpdNo < (s.next i).enqNo ∧ (s.next i).enqNo < s.bpdNo + n ∧
      ((s.next i).ftq.enq_ready = true → (s.next i).enqNo + 1 < (s.next i).bpdNo + n) := by
  have h1 := h.nonempty
  have h2 := h.round
  have h3 := h.behind
  have hready : (s.next i).ftq.enq_ready = (!s.ftq.full || s.ftq.do_commit_update i) := rfl
  have hbpd : (s.next i).bpdNo = if s.ftq.do_commit_update i then s.bpdNo + 1 else s.bpdNo := rfl
  rw [hready, hbpd]
  cases hr : i.redirect with
  | some r =>
    obtain ⟨hl, hlt⟩ := hok.1 r hr
    have henq : (s.next i).enqNo = s.no r + 1 := by simp [next, hr]
    have hc : s.ftq.do_commit_update i = false := by
      by_contra hc
      have := (of_do_commit_update h (Bool.eq_true_of_not_eq_false hc)).2.2
      rw [hr] at this
      contradiction
    simp only [henq, hc, Bool.false_eq_true, if_false, Bool.or_false, Bool.not_eq_true']
    refine ⟨le_rfl, h3, by omega, by omega, fun hf => ?_⟩
    have := room_of_not_full h hf
    omega
  | none =>
    have henq : (s.next i).enqNo =
        if (s.ftq.do_enq i).isSome then s.enqNo + 1 else s.enqNo := by simp [next, hr]
    have hroom : (s.next i).enqNo < s.bpdNo + n ∧ s.enqNo ≤ (s.next i).enqNo ∧
        (s.next i).enqNo ≤ s.enqNo + 1 := by
      rw [henq]
      split_ifs with hd
      · exact ⟨h.room (ready_of_do_enq hd), by omega, by omega⟩
      · exact ⟨h2, by omega, by omega⟩
    cases hc : s.ftq.do_commit_update i with
    | true =>
      obtain ⟨hd, he, -⟩ := of_do_commit_update h hc
      simp only [if_true]
      exact ⟨by omega, by omega, by omega, hroom.1, fun _ => by omega⟩
    | false =>
      simp only [Bool.false_eq_true, if_false, Bool.or_false, Bool.not_eq_true']
      refine ⟨le_rfl, h3, by omega, hroom.1, fun hf => ?_⟩
      have := room_of_not_full h hf
      omega

/-- **An enqueue leaves the entries alone** that are in the queue. -/
theorem enqWrite_alive (h : s.Inv) {k : ℕ} (hk : s.bpdNo ≤ k) (hlt : k < s.enqNo) :
    (s.ftq.enqWrite i).pcs (place n k) = s.ftq.pcs (place n k) ∧
      (s.ftq.enqWrite i).ram (place n k) = s.ftq.ram (place n k) := by
  refine FetchTargetQueue.enqWrite_of_ne fun he => ?_
  have hround := h.round
  rw [h.enq_ptr] at he
  have := place_inj hk (by omega) (by omega) hround he
  omega

theorem enqNo_next_le (hok : (fetchTargetQueue p n).ok s i) :
    (s.next i).enqNo ≤ s.enqNo + if (s.ftq.do_enq i).isSome then 1 else 0 := by
  cases hr : i.redirect with
  | some r =>
    have hlive := (hok.1 r hr).2
    have hno : (s.next i).enqNo = s.no r + 1 := by simp [next, hr]
    omega
  | none =>
    have hno : (s.next i).enqNo =
        if (s.ftq.do_enq i).isSome then s.enqNo + 1 else s.enqNo := by simp [next, hr]
    rw [hno]
    split_ifs <;> omega

/-- The address that was fetched last under a number is there. -/
theorem content_next (h : s.Inv) (hok : (fetchTargetQueue p n).ok s i) {k : ℕ} (h0 : 0 < k)
    (hk : s.bpdNo ≤ k) (hlt : k < (s.next i).enqNo) :
    (s.next i).ftq.pcs (place n k) = (s.next i).fetched k := by
  have hle := enqNo_next_le hok
  show (s.ftq.next i).pcs (place n k) = _
  rw [FetchTargetQueue.next_pcs]
  cases hd : s.ftq.do_enq i with
  | none =>
    rw [hd] at hle
    have hlt' : k < s.enqNo := hlt.trans_le hle
    rw [(enqWrite_alive h hk hlt').1, h.content k h0 hk hlt']
    simp [next, hd]
  | some b =>
    rw [hd] at hle
    have hf : (s.next i).fetched = Function.update s.fetched s.enqNo b.pc := by simp [next, hd]
    rw [hf]
    by_cases he : k = s.enqNo
    · subst he
      rw [Function.update_self, ← h.enq_ptr]
      simp [FetchTargetQueue.enqWrite, hd]
    · have hlt' : k < s.enqNo := by
        simp only [Option.isSome_some, if_true] at hle
        omega
      rw [(enqWrite_alive h hk hlt').1, h.content k h0 hk hlt', Function.update_of_ne he]

theorem inv_step (h : s.Inv) (hok : (fetchTargetQueue p n).ok s i) : (s.next i).Inv := by
  obtain ⟨hmono, hbehind, hne, hround, hroom⟩ := next_numbers h hok
  refine ⟨?_, ?_, ?_, hne, by omega, ?_, hroom, fun k h0 hk hlt => ?_⟩
  · show (if s.ftq.do_commit_update i then wrapInc s.ftq.bpd_ptr else s.ftq.bpd_ptr) =
      place n (if s.ftq.do_commit_update i then s.bpdNo + 1 else s.bpdNo)
    rw [h.bpd_ptr, wrapInc_place]
    split_ifs <;> rfl
  · show i.deq.getD s.ftq.deq_ptr = place n ((i.deq.map s.no).getD s.deqNo)
    cases i.deq with
    | some c => exact (place_no h c).symm
    | none => exact h.deq_ptr
  · cases hr : i.redirect with
    | some r =>
      have hp : (s.next i).ftq.enq_ptr = wrapInc r := by simp [next, FetchTargetQueue.next, hr]
      have hno : (s.next i).enqNo = s.no r + 1 := by simp [next, hr]
      rw [hp, hno, ← wrapInc_place, place_no h]
    | none =>
      have hp : (s.next i).ftq.enq_ptr =
          if (s.ftq.do_enq i).isSome then wrapInc s.ftq.enq_ptr else s.ftq.enq_ptr := by
        simp [next, FetchTargetQueue.next, hr]
      have hno : (s.next i).enqNo =
          if (s.ftq.do_enq i).isSome then s.enqNo + 1 else s.enqNo := by simp [next, hr]
      rw [hp, hno, h.enq_ptr, wrapInc_place]
      split_ifs <;> rfl
  · show _ ≤ (i.deq.map s.no).getD s.deqNo
    cases hd : i.deq with
    | some c => exact hbehind.trans (hok.2 c hd).1
    | none => exact hbehind
  · exact content_next h hok h0 (hmono.trans hk) hlt

theorem inv_start (hn : 3 ≤ n) (h : (fetchTargetQueue p n).start s) : s.Inv := by
  obtain ⟨hb, hd, he, -, -, hb0, hd0, he1⟩ := h
  refine ⟨by rw [hb, hb0], by rw [hd, hd0], by rw [he, he1], by omega, by omega, by omega,
    fun _ => by omega, fun k h0 _ hlt => by omega⟩

theorem inv_reach (hn : 3 ≤ n) (h : (fetchTargetQueue p n).Reach s) : s.Inv :=
  h.inv (fun _ => inv_start hn) fun _ _ => inv_step

end Sys

/-- **Entries stay alive while needed**: the enqueue pointer never reaches the
    predictor's pointer, which never passes the commit pointer; what an enqueue
    writes is none of the entries between the two, and each still has the
    address that was fetched for it. -/
theorem entries_alive [NeZero n] (hn : 4 ≤ n) {s : Sys p n}
    (h : (fetchTargetQueue p n).Reach s) :
    (s.ftq.bpd_ptr = place n s.bpdNo ∧ s.ftq.deq_ptr = place n s.deqNo ∧
      s.ftq.enq_ptr = place n s.enqNo) ∧
    (s.bpdNo ≤ s.deqNo ∧ s.bpdNo < s.enqNo ∧ s.enqNo < s.bpdNo + n) ∧
    ∀ k, s.bpdNo ≤ k → k < s.enqNo → (0 < k → s.ftq.pcs (place n k) = s.fetched k) ∧
      ∀ i : In p n, (s.ftq.enqWrite i).pcs (place n k) = s.ftq.pcs (place n k) ∧
        (s.ftq.enqWrite i).ram (place n k) = s.ftq.ram (place n k) := by
  have hinv := Sys.inv_reach (by omega) h
  refine ⟨⟨hinv.bpd_ptr, hinv.deq_ptr, hinv.enq_ptr⟩, ⟨hinv.behind, hinv.nonempty, hinv.round⟩,
    fun k hk hlt => ⟨fun h0 => hinv.content k h0 hk hlt, fun i => ?_⟩⟩
  exact Sys.enqWrite_alive hinv hk hlt

/-- Packets of four parcels. -/
def smallFrontend : Params := ⟨8, 4, 1, 8, 64⟩

/-- An entry that tells nothing. -/
def blankEntry : FTQBundle smallFrontend where
  cfi_idx_valid := false
  cfi_idx := 0
  cfi_taken := false
  cfi_mispredicted := false
  cfi_type := 0
  br_mask := 0
  cfi_is_call := false
  cfi_is_ret := false
  cfi_npc_plus4 := false
  ras_top := 0
  ras_idx := 0
  start_bank := false

/-- The queue after reset. -/
def resetFtq : Sys smallFrontend 4 where
  ftq :=
    { bpd_ptr := 0
      deq_ptr := 0
      enq_ptr := 1
      pcs := fun _ => 0
      ram := fun _ => blankEntry
      bpd_update_mispredict := false
      bpd_update_repair := false
      bpd_repair_idx := 0
      bpd_end_idx := 0
      bpd_repair_pc := 0
      bpd_pc := 0
      enq_ready := true
      bpd_update_mispredict_d := false
      enq_ptr_d := 0
      redirect_d := none
      redirect_new_entry_d := blankEntry
      b2_d := ⟨false, false, 0, 0⟩ }
  bpdNo := 0
  deqNo := 0
  enqNo := 1
  fetched _ := 0

/-- A cycle in which the frontend offers a packet. -/
def offer (pc : BitVec 8) : In smallFrontend 4 where
  enq := some ⟨pc, false, 0, 0, false, false, false, 0, 0, 0, 0⟩
  deq := none
  redirect := none
  b2 := ⟨false, false, 0, 0⟩

/-- The queue fills up, a commit lets the predictor follow while the next packet
    waits, and a redirect throws that packet away. -/
def fillRun : List (In smallFrontend 4) :=
  [offer 16, offer 32, { offer 48 with deq := some 2 }, offer 48, offer 48,
    { offer 64 with redirect := some 2 }]

theorem fillRun_reach : (fetchTargetQueue smallFrontend 4).Reach
    ((fetchTargetQueue smallFrontend 4).run resetFtq fillRun) := by
  have test : ∀ (s : Sys smallFrontend 4) (i : In smallFrontend 4),
      (decide (∀ r ∈ i.redirect, s.Live r) && decide (∀ c ∈ i.deq, s.Live c)) = true →
        (fetchTargetQueue smallFrontend 4).ok s i := by
    intro s i h
    rw [Bool.and_eq_true, decide_eq_true_iff, decide_eq_true_iff] at h
    exact h
  exact Machine.reach_run _ (.start ⟨rfl, rfl, rfl, rfl, rfl, rfl, rfl, rfl⟩)
    (Machine.accepts_of_passes test _ _ (by decide))

theorem entries_alive_filled :
    let s := (fetchTargetQueue smallFrontend 4).run resetFtq fillRun
    s.bpdNo = 2 ∧ s.enqNo = 3 ∧ s.ftq.pcs (place 4 2) = 32 := by
  have halive := (entries_alive (by decide) fillRun_reach).2.2 2 (by decide) (by decide)
  exact ⟨by decide, by decide, halive.1 (by decide)⟩

end BoomStop.Ifu
