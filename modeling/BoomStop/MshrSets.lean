/-
  The sets of the MSHRs: in every state that the miss file reaches, a set is with
  one MSHR at most, what waits in it is for its line, and a free one has nothing
  that waits.

  * `File.takes_unique`, `File.takes_iff_fires`: a request that fires goes to one
    MSHR, or is uncached;
  * `File.Inv`, `inv_of_reach`: the invariant;
  * `one_mshr_per_set`: the result, with what a request finds.
-/
import BoomStop.MshrFile

namespace BoomStop.Misses

open Sync
open DCache (MemCmd Params)
open KillableQueue (Bits)

variable {T n S R B N K M : ℕ}

namespace Mshr

section

variable {c : Params} {k : Client} {m : Mshr T n S R B} {i : MshrIn T n S}

/-- An MSHR becomes busy with a primary request only. -/
theorem valid_next [NeZero R] [NeZero B] {e : Bool} (hh : m.handles k i = false)
    (hv : (m.next c k i e).valid = true) : m.valid = true := by
  unfold valid at hv ⊢
  by_contra hs
  have hst : m.state = .s_invalid := by simpa using hs
  have hnext : (m.next c k i e).state = .s_invalid := by
    change m.state_next c k i = .s_invalid
    simp [state_next, hst, hh]
  rw [hnext] at hv
  simp at hv

theorem block_eq {a b : ℕ} (hidx : c.idx a = c.idx b) (htag : c.tag a = c.tag b) :
    c.block a = c.block b := by
  have ha := Nat.div_add_mod (c.block a) c.nSets
  have hb := Nat.div_add_mod (c.block b) c.nSets
  unfold Params.idx at hidx
  unfold Params.tag at htag
  unfold Params.block at ha hb ⊢
  rw [← ha, ← hb, hidx, htag]

theorem idx_of_block {a b : ℕ} (h : c.block a = c.block b) : c.idx a = c.idx b := by
  unfold Params.idx
  exact congrArg (· % c.nSets) h

end

end Mshr

namespace File

variable [NeZero S] [NeZero R] [NeZero B] [NeZero N]

/-- The invariant of the MSHRs. -/
structure Inv (g : Cfg) (s : File T n S R B N K) : Prop where
  ring : ∀ j, (s.mshrs j).rpq.Ring
  respq : s.respq.Ring
  closed : ∀ j, (s.mshrs j).state.closed = true → (s.mshrs j).rpq.occupied = 0
  /-- a set is with one MSHR -/
  apart : ∀ j l, (s.mshrs j).valid = true → (s.mshrs l).valid = true →
    (s.mshrs j).req_idx g.params = (s.mshrs l).req_idx g.params → j = l
  line : ∀ j, (s.mshrs j).SameLine g.params

variable {g : Cfg} {s : File T n S R B N K} {i : FileIn T n S M} {j l : Fin N}

omit [NeZero S] [NeZero B] [NeZero N] in
theorem Inv.waiting (h : s.Inv g) (hc : (s.mshrs j).state.closed = true) :
    (s.mshrs j).rpq.waiting = [] := by
  have hzero := h.closed j hc
  unfold KillableQueue.Sys.occupied at hzero
  rw [KillableQueue.Sys.waiting, hzero]
  rfl

omit [NeZero S] [NeZero R] [NeZero B] [NeZero N] in
theorem idx_match_iff {w : Fin (M + 1)} : s.idx_match g i w = true ↔
    ∃ j, (s.mshrs j).valid = true ∧ (s.mshrs j).req_idx g.params = g.params.idx (i.req w).data.addr := by
  simp [idx_match, idx_matches, List.any_eq_true]

omit [NeZero R] [NeZero N] in
/-- The file sends a request to one place. -/
theorem exclusive (j : Fin N) : (s.mshrIn g i j).Exclusive := by
  constructor
  · intro hp
    have hp : s.pri_val g i = true := (Bool.and_eq_true_iff.1 hp).2
    unfold pri_val at hp
    simp only [Bool.and_eq_true, Bool.not_eq_true'] at hp
    obtain ⟨⟨⟨hv, -⟩, -⟩, hno⟩ := hp
    have hj : s.idx_matches g i (req_idx i) j = false := by
      rw [Bool.eq_false_iff]
      intro hj
      rw [idx_match, List.any_eq_false] at hno
      exact hno j (List.mem_finRange j) hj
    constructor
    · change s.sec_val g i j = false
      rw [sec_val, hj, Bool.and_false, Bool.false_and]
    · change s.clear_prefetch g i j = false
      rw [clear_prefetch, hj, hv]
      simp
  · intro hs hp
    have hs : s.sec_val g i j = true := hs
    have hp : i.req_is_probe 0 = false := hp
    change s.clear_prefetch g i j = false
    unfold sec_val at hs
    simp only [Bool.and_eq_true] at hs
    obtain ⟨⟨⟨⟨hv, -⟩, ht⟩, -⟩, -⟩ := hs
    rw [clear_prefetch, hv, ht, hp]
    simp

omit [NeZero R] [NeZero N] in
theorem of_pri_fires (h : (s.mshrs j).pri_fires (s.mshrIn g i j) = true) :
    j.val = s.mshr_alloc_idx ∧ (s.mshrs j).req_pri_rdy = true ∧ req_val i = true ∧
      s.sdq_rdy = true ∧ cacheable g i = true ∧ s.idx_match g i (req_idx i) = false := by
  obtain ⟨hv, hr⟩ := Bool.and_eq_true_iff.1 h
  obtain ⟨hj, hp⟩ := Bool.and_eq_true_iff.1 hv
  unfold pri_val at hp
  simp only [Bool.and_eq_true, Bool.not_eq_true'] at hp
  obtain ⟨⟨⟨h1, h2⟩, h3⟩, h4⟩ := hp
  exact ⟨of_decide_eq_true hj, hr, h1, h2, h3, h4⟩

omit [NeZero R] [NeZero N] in
theorem of_sec_fires (h : (s.mshrs j).sec_fires g.client (s.mshrIn g i j) = true) :
    s.sec_val g i j = true ∧ (s.mshrs j).req_sec_rdy g.client (s.offered g i j) = true :=
  Bool.and_eq_true_iff.1 h

omit [NeZero S] [NeZero R] [NeZero B] [NeZero N] in
theorem of_sec_val (h : s.sec_val g i j = true) : req_val i = true ∧ s.sdq_rdy = true ∧
    s.tag_match g i (req_idx i) = true ∧ s.idx_matches g i (req_idx i) j = true ∧
      cacheable g i = true := by
  unfold sec_val at h
  simp only [Bool.and_eq_true] at h
  obtain ⟨⟨⟨⟨h1, h2⟩, h3⟩, h4⟩, h5⟩ := h
  exact ⟨h1, h2, h3, h4, h5⟩

omit [NeZero R] [NeZero N] in
theorem handles_eq (j : Fin N) : (s.mshrs j).handles g.client (s.mshrIn g i j) =
    (s.mshrs j).pri_fires (s.mshrIn g i j) := Mshr.handles_eq (exclusive j)

omit [NeZero S] [NeZero B] [NeZero N] in
/-- A secondary request is for the line of the MSHR. -/
theorem Inv.block_of_sec_val (h : s.Inv g) (hs : s.sec_val g i j = true) :
    g.params.block (req i).data.addr = g.params.block (s.mshrs j).req.data.addr := by
  obtain ⟨-, -, ht, hi, -⟩ := of_sec_val hs
  obtain ⟨l, -, hl⟩ := List.any_eq_true.1 ht
  obtain ⟨hil, htl⟩ := Bool.and_eq_true_iff.1 hl
  obtain ⟨hvj, hij⟩ := Bool.and_eq_true_iff.1 hi
  obtain ⟨hvl, hil⟩ := Bool.and_eq_true_iff.1 hil
  have hij := of_decide_eq_true hij
  have hil := of_decide_eq_true hil
  obtain rfl := h.apart j l hvj hvl (hij.trans hil.symm)
  exact Mshr.block_eq hij.symm (of_decide_eq_true (Bool.and_eq_true_iff.1 htl).2).symm

/-- The set of an MSHR, and whether it has one, after a cycle. -/
theorem Inv.apart_next (h : s.Inv g) (hvj : ((s.next g i).mshrs j).valid = true)
    (hvl : ((s.next g i).mshrs l).valid = true)
    (hidx : ((s.next g i).mshrs j).req_idx g.params = ((s.next g i).mshrs l).req_idx g.params) :
    j = l := by
  have hkeep : ∀ j, (s.mshrs j).handles g.client (s.mshrIn g i j) = false →
      ((s.next g i).mshrs j).valid = true → (s.mshrs j).valid = true ∧
        ((s.next g i).mshrs j).req_idx g.params = (s.mshrs j).req_idx g.params := by
    intro j hh hv
    refine ⟨Mshr.valid_next hh hv, ?_⟩
    exact congrArg (fun d : Req n S => g.params.idx d.addr) (Mshr.addr_req_next hh)
  -- the one that takes a primary request has a set that no other one has
  have hnew : ∀ j l, (s.mshrs j).handles g.client (s.mshrIn g i j) = true →
      (s.mshrs l).handles g.client (s.mshrIn g i l) = false →
      ((s.next g i).mshrs l).valid = true →
      ((s.next g i).mshrs j).req_idx g.params ≠ ((s.next g i).mshrs l).req_idx g.params := by
    intro j l hj hl hv he
    obtain ⟨hv, hsame⟩ := hkeep l hl hv
    have hreq : ((s.next g i).mshrs j).req_idx g.params = g.params.idx (req i).data.addr :=
      (congrArg (fun q : ReqBits T n S => g.params.idx q.data.addr)
        (Mshr.req_next_of_handles hj)).trans rfl
    rw [handles_eq] at hj
    obtain ⟨-, -, -, -, -, hno⟩ := of_pri_fires hj
    have hmatch := idx_match_iff.2 ⟨l, hv, hsame ▸ he ▸ hreq⟩
    rw [hno] at hmatch
    cases hmatch
  cases hj : (s.mshrs j).handles g.client (s.mshrIn g i j) with
  | true =>
    cases hl : (s.mshrs l).handles g.client (s.mshrIn g i l) with
    | true =>
      rw [handles_eq] at hj hl
      exact Fin.ext ((of_pri_fires hj).1.trans (of_pri_fires hl).1.symm)
    | false => exact absurd hidx (hnew j l hj hl hvl)
  | false =>
    cases hl : (s.mshrs l).handles g.client (s.mshrIn g i l) with
    | true => exact absurd hidx.symm (hnew l j hl hj hvj)
    | false =>
      obtain ⟨hv, he⟩ := hkeep j hj hvj
      obtain ⟨hv', he'⟩ := hkeep l hl hvl
      exact h.apart j l hv hv' (he ▸ he' ▸ hidx)

theorem Inv.next (h : s.Inv g) : (s.next g i).Inv g where
  ring j := KillableQueue.ring_next (h.ring j)
  respq := KillableQueue.ring_next h.respq
  closed j hc := Mshr.closed_next (h.ring j) (exclusive j) (h.closed j) hc
  apart _ _ := h.apart_next
  line j := Mshr.sameLine_next (h.ring j) (exclusive j) h.waiting (h.line j) fun hs =>
    h.block_of_sec_val hs

omit [NeZero S] [NeZero R] [NeZero B] [NeZero N] in
theorem ring_of_reset {n' T' : ℕ} [NeZero n'] {U D : Type} {q : KillableQueue.Sys n' T' U D}
    (h : q.Reset) : q.Ring := (KillableQueue.inv_start h).ring

omit [NeZero S] [NeZero B] in
theorem inv_of_reset (h : s.Reset) : s.Inv g where
  ring j := ring_of_reset (h.rpq j)
  respq := ring_of_reset h.respq
  closed j _ := (KillableQueue.waiting_of_reset (h.rpq j)).2
  apart j l hv _ _ := by
    rw [Mshr.valid, h.state j] at hv
    simp at hv
  line j x hx := by
    rw [(KillableQueue.waiting_of_reset (h.rpq j)).1] at hx
    cases hx

theorem inv_of_reach (h : (missFile g (M := M)).Reach s) : s.Inv g :=
  h.inv (fun _ h0 => inv_of_reset h0) fun _ _ hs _ => hs.next

/-- **One MSHR for a set**: the MSHRs that are busy have different sets, what waits in
    one is for its line, and nothing waits in one that is free (the assertion of
    `BoomMSHR`). -/
theorem one_mshr_per_set (h : (missFile g (M := M)).Reach s) :
    (∀ j l, (s.mshrs j).valid = true → (s.mshrs l).valid = true →
      (s.mshrs j).req_idx g.params = (s.mshrs l).req_idx g.params → j = l) ∧
    (∀ j, ∀ x ∈ (s.mshrs j).rpq.waiting,
      g.params.block x.bits.data.addr = g.params.block (s.mshrs j).req.data.addr) ∧
    ∀ j, (s.mshrs j).state = .s_invalid → (s.mshrs j).rpq.q.empty = true := by
  have hi := inv_of_reach h
  refine ⟨hi.apart, hi.line, fun j hs => ?_⟩
  have hzero := hi.closed j (by rw [hs]; rfl)
  have hle := (hi.ring j).le
  unfold KillableQueue.Sys.occupied at hzero
  exact (KillableQueue.empty_iff (hi.ring j)).2 (by omega)

end File

namespace Small

/-- Two loads of a line, and one of a line of the other set. -/
def twoLines : List (FileIn 1 2 2 0) :=
  [ask (request 0 .M_XRD 80 0), ask (request 1 .M_XRD 88 0), ask (request 2 .M_XRD 64 0)]

/-- Both MSHRs are busy. -/
def busy : File 1 2 2 2 2 2 1 := (missFile cfg).run fresh twoLines

theorem reach_busy : (missFile cfg (M := 0)).Reach busy :=
  Machine.reach_run _ (.start reset_fresh)
    (Machine.accepts_of_passes ok_of_keeps _ _ (by decide +kernel))

end Small

theorem one_mshr_per_set_busy :
    ((Small.busy.mshrs 0).valid = true ∧ (Small.busy.mshrs 1).valid = true ∧
      (Small.busy.mshrs 0).rpq.waiting.length = 2) ∧
    ((∀ j l, (Small.busy.mshrs j).valid = true → (Small.busy.mshrs l).valid = true →
      (Small.busy.mshrs j).req_idx Small.cfg.params =
        (Small.busy.mshrs l).req_idx Small.cfg.params → j = l) ∧
    (∀ j, ∀ x ∈ (Small.busy.mshrs j).rpq.waiting, Small.cfg.params.block x.bits.data.addr =
      Small.cfg.params.block (Small.busy.mshrs j).req.data.addr) ∧
    ∀ j, (Small.busy.mshrs j).state = .s_invalid →
      (Small.busy.mshrs j).rpq.q.empty = true) :=
  ⟨by decide +kernel, File.one_mshr_per_set Small.reach_busy⟩

end BoomStop.Misses
