/-
  The miss file loses no request: whatever it accepts is replayed, answered or, for
  an uncached store, done, once, unless a branch or a flush kills it.

  * `takes_unique`, `exists_takes`: a cached request goes to one MSHR;
  * `File.total`, `total_next`: a cycle loses no request and makes none up;
  * `book_step`, `miss_file_exact`: what follows for a run.
-/
import Mathlib.Algebra.Order.BigOperators.Group.Finset
import BoomStop.MshrSets

namespace BoomStop.Misses

open Sync
open DCache (MemCmd Params)
open KillableQueue (MicroOp Bits)
open Ledger (Book)

variable {T n S R B N K M : ℕ}

/-! ## Counting -/

section Counting

variable {α β : Type}

theorem countP_eq_sum (q : α → Bool) (l : List α) : l.countP q = (l.map fun x => (q x).toNat).sum := by
  induction l with
  | nil => rfl
  | cons x l ih => cases hx : q x <;> simp [hx, ih, Nat.add_comm]

/-- Over all places. -/
theorem countP_finRange (N : ℕ) (q : Fin N → Bool) : (List.finRange N).countP q = ∑ j, (q j).toNat := by
  rw [countP_eq_sum, Fin.sum_univ_def]

theorem countP_flatMap_finRange (f : Fin N → List α) (q : α → Bool) :
    ((List.finRange N).flatMap f).countP q = ∑ j, (f j).countP q := by
  rw [List.countP_flatMap, Fin.sum_univ_def]
  rfl

end Counting

/-! ## One MSHR -/

section

variable {c : Params} {k : Client} {m : Mshr T n S R B} {i : MshrIn T n S}

/-- What leaves the queue is an answer or a replay. -/
theorem Mshr.any_fired [NeZero B] (p : Fields → Bool) :
    ((m.rpq.q.fired (rpqConfig T) (m.rpqIn k i)).any fun x => p x.uop.fields).toNat =
      ((if i.resp_ready then m.resp c k i else none).any fun x => p x.uop.fields).toNat +
        ((if i.replay_ready then m.replay c i else none).any fun x => p x.uop.fields).toNat := by
  rw [Mshr.fired_eq]
  unfold Mshr.deq_fires Mshr.deq_ready Mshr.resp Mshr.replay Mshr.lb_read
  cases m.state <;> cases m.deq_valid i <;> cases m.drain_load <;> cases i.resp_ready <;>
    cases i.lb_read_ready <;> cases i.replay_ready <;> simp

end

namespace IoMshr

variable {c : Params} {k : Client} {m : IoMshr T n S} {i : IoIn T n S} {p : Fields → Bool}

/-- The request of an MSHR for uncached accesses, as a count. -/
def holding (m : IoMshr T n S) (p : Fields → Bool) : ℕ := (!m.req_ready && p m.req.uop.fields).toNat

/-- An access comes in when there is none, and stays until it is over. -/
theorem holding_next (hi : i.req.isSome = true → m.req_ready = true) :
    (m.next c i).holding p + (m.finishes i && p m.req.uop.fields).toNat =
      m.holding p + (i.req.any fun q => p q.uop.fields).toNat := by
  unfold holding next req_ready finishes
  cases hr : i.req with
  | none =>
    cases hs : m.state with
    | s_idle => simp
    | s_mem_access => cases i.mem_access_ready <;> simp
    | s_mem_ack => cases i.mem_ack <;> simp
    | s_resp => cases m.send_resp <;> cases i.resp_ready <;> simp
  | some q =>
    have hidle : m.state = .s_idle := of_decide_eq_true (hi (by rw [hr]; rfl))
    simp [hidle]

/-- An access that is over is answered, if it reads. -/
theorem any_finishes (undriven : Bool) : (m.finishes i && p m.req.uop.fields).toNat =
    ((if i.resp_ready then m.resp k undriven else none).any fun x => p x.uop.fields).toNat +
      (m.finishes i && !m.send_resp && p m.req.uop.fields).toNat := by
  unfold finishes resp
  cases m.state <;> cases m.send_resp <;> cases i.resp_ready <;> simp

end IoMshr

namespace File

variable [NeZero S] [NeZero R] [NeZero B] [NeZero N] {g : Cfg} {s : File T n S R B N K}
  {i : FileIn T n S M} {j l : Fin N} {p : Fields → Bool}

/-! ## Where a request goes -/

/-- The MSHR takes the request. -/
def takes (g : Cfg) (s : File T n S R B N K) (i : FileIn T n S M) (j : Fin N) : Bool :=
  (s.mshrs j).pri_fires (s.mshrIn g i j) || (s.mshrs j).sec_fires g.client (s.mshrIn g i j)

omit [NeZero N] in
/-- **One MSHR takes it**, -/
theorem Inv.takes_unique (h : s.Inv g) (hj : s.takes g i j = true) (hl : s.takes g i l = true) :
    j = l := by
  have hcross : ∀ j l, (s.mshrs j).pri_fires (s.mshrIn g i j) = true →
      (s.mshrs l).sec_fires g.client (s.mshrIn g i l) ≠ true := by
    intro j l hp hs
    obtain ⟨-, -, -, -, -, hno⟩ := of_pri_fires hp
    obtain ⟨-, -, -, hi, -⟩ := of_sec_val (of_sec_fires hs).1
    rw [idx_match, List.any_eq_false] at hno
    exact hno l (List.mem_finRange l) hi
  rcases Bool.or_eq_true_iff.1 hj with hj | hj <;> rcases Bool.or_eq_true_iff.1 hl with hl | hl
  · exact Fin.ext ((of_pri_fires hj).1.trans (of_pri_fires hl).1.symm)
  · exact absurd hl (hcross j l hj)
  · exact absurd hj (hcross l j hl)
  · obtain ⟨-, -, -, hj, -⟩ := of_sec_val (of_sec_fires hj).1
    obtain ⟨-, -, -, hl, -⟩ := of_sec_val (of_sec_fires hl).1
    obtain ⟨hvj, hij⟩ := Bool.and_eq_true_iff.1 hj
    obtain ⟨hvl, hil⟩ := Bool.and_eq_true_iff.1 hl
    exact h.apart j l hvj hvl ((of_decide_eq_true hij).trans (of_decide_eq_true hil).symm)

omit [NeZero R] [NeZero N] in
/-- if it is cached and fires. -/
theorem exists_takes : (∃ j, s.takes g i j = true) ↔ s.fires g i = true ∧ cacheable g i = true := by
  constructor
  · rintro ⟨j, hj⟩
    rcases Bool.or_eq_true_iff.1 hj with hj | hj
    · obtain ⟨ha, hr, hv, hs, hc, hno⟩ := of_pri_fires hj
      have hrdy : s.pri_rdy = true :=
        List.any_eq_true.2 ⟨j, List.mem_finRange j, by simp [ha, hr]⟩
      exact ⟨by simp [fires, req_ready, hv, hs, hc, hno, hrdy], hc⟩
    · obtain ⟨hsv, hr⟩ := of_sec_fires hj
      obtain ⟨hv, hs, ht, hi, hc⟩ := of_sec_val hsv
      have hm : s.idx_match g i (req_idx i) = true := List.any_eq_true.2 ⟨j, List.mem_finRange j, hi⟩
      have hrdy : s.sec_rdy g i = true :=
        List.any_eq_true.2 ⟨j, List.mem_finRange j, by rw [hr, hsv]; rfl⟩
      exact ⟨by simp [fires, req_ready, hv, hs, hc, hm, ht, hrdy], hc⟩
  · rintro ⟨hf, hc⟩
    unfold fires req_ready at hf
    simp only [hc, decide_true, Bool.true_and, Bool.not_true, Bool.false_eq_true, if_false,
      Bool.and_eq_true] at hf
    obtain ⟨hv, hs, hf⟩ := hf
    cases hm : s.idx_match g i (req_idx i) with
    | true =>
      rw [hm, if_pos rfl, Bool.and_eq_true] at hf
      obtain ⟨j, -, hj⟩ := List.any_eq_true.1 hf.2
      obtain ⟨hr, hsv⟩ := Bool.and_eq_true_iff.1 hj
      exact ⟨j, Bool.or_eq_true_iff.2 (.inr (Bool.and_eq_true_iff.2 ⟨hsv, hr⟩))⟩
    | false =>
      rw [hm, if_neg Bool.false_ne_true] at hf
      obtain ⟨j, -, hj⟩ := List.any_eq_true.1 hf
      obtain ⟨ha, hr⟩ := Bool.and_eq_true_iff.1 hj
      have hp : s.pri_val g i = true := by simp [pri_val, hv, hs, hc, hm]
      refine ⟨j, Bool.or_eq_true_iff.2 (.inl (Bool.and_eq_true_iff.2 ⟨?_, hr⟩))⟩
      exact Bool.and_eq_true_iff.2 ⟨ha, hp⟩

omit [NeZero N] in
/-- Its queue has room. -/
theorem Inv.not_full (h : s.Inv g) (hj : s.takes g i j = true) : (s.mshrs j).rpq.q.full = false := by
  rcases Bool.or_eq_true_iff.1 hj with hj | hj
  · obtain ⟨-, hr, -⟩ := of_pri_fires hj
    have hc : (s.mshrs j).state.closed = true := by
      rcases Bool.or_eq_true_iff.1 hr with hs | hs <;> rw [of_decide_eq_true hs] <;> rfl
    refine KillableQueue.not_full_of_occupied (h.ring j) ?_
    rw [h.closed j hc]
    exact Nat.pos_of_neZero R
  · have hr := (of_sec_fires hj).2
    rw [Mshr.req_sec_rdy, Bool.and_eq_true, Bool.not_eq_true'] at hr
    exact hr.2

omit [NeZero N] in
/-- The queue of an MSHR takes the request, if it is not a prefetch. -/
theorem Inv.any_accepts (h : s.Inv g) (p : ReqBits T n S → Bool) (j : Fin N) :
    ((s.mshrs j).rpq.q.accepts ((s.mshrs j).rpqIn g.client (s.mshrIn g i j))).any p =
      (s.takes g i j && (!(req i).uop.fields.mem_cmd.isPrefetch && p (s.reqIn i))) := by
  have henq : ((s.mshrs j).rpqIn g.client (s.mshrIn g i j)).enq =
      if s.takes g i j && !(req i).uop.fields.mem_cmd.isPrefetch then some (s.reqIn i) else none := rfl
  rw [KillableQueue.Queue.any_accepts, henq]
  · cases s.takes g i j <;> cases (req i).uop.fields.mem_cmd.isPrefetch <;> simp
  · intro hs
    refine h.not_full (i := i) ?_
    rw [henq] at hs
    by_contra hno
    simp [hno] at hs

omit [NeZero N] in
theorem Inv.sum_accepts (h : s.Inv g) (p : ReqBits T n S → Bool) :
    ∑ j, (((s.mshrs j).rpq.q.accepts ((s.mshrs j).rpqIn g.client (s.mshrIn g i j))).any p).toNat =
      (s.fires g i && cacheable g i &&
        (!(req i).uop.fields.mem_cmd.isPrefetch && p (s.reqIn i))).toNat := by
  simp only [h.any_accepts]
  cases hf : s.fires g i && cacheable g i with
  | false =>
    have hno : ∀ j, s.takes g i j = false := by
      intro j
      rw [Bool.eq_false_iff]
      intro hj
      obtain ⟨h1, h2⟩ := exists_takes.1 ⟨j, hj⟩
      rw [h1, h2] at hf
      cases hf
    simp [hno]
  | true =>
    obtain ⟨j, hj⟩ := exists_takes.2 (Bool.and_eq_true_iff.1 hf)
    rw [Fintype.sum_eq_single j, hj]
    intro l hl
    have hno : s.takes g i l = false := by
      rw [Bool.eq_false_iff]
      exact fun hl' => hl (h.takes_unique hl' hj)
    rw [hno]
    rfl

omit [NeZero S] [NeZero R] [NeZero B] [NeZero N] in
theorem chosen_idle : (Priority.chosen s.idle).isSome = s.mmio_rdy := by
  rw [Priority.chosen, List.isSome_findSome?, mmio_rdy]
  congr 1
  funext l
  unfold idle
  cases (s.mmios l).req_ready <;> rfl

omit [NeZero R] [NeZero N] in
theorem sum_ioReq : ∑ l, ((s.ioIn g i l).req.any fun q => p q.uop.fields).toNat =
    (s.fires g i && !cacheable g i && p (req i).uop.fields).toNat := by
  have hany : ∀ l, ((s.ioIn g i l).req.any fun q => p q.uop.fields) =
      (Priority.given s.idle (req_val i && !cacheable g i) l).any fun _ => p (req i).uop.fields :=
    fun l => Option.any_map
  simp only [hany]
  rw [Priority.sum_given (f := fun o : Option Unit => (o.any fun _ => p (req i).uop.fields).toNat) rfl]
  have hidle := chosen_idle (s := s)
  unfold Priority.taken fires req_ready
  cases hc : cacheable g i with
  | true => simp
  | false =>
    cases hv : req_val i with
    | false => simp
    | true =>
      rw [← hidle]
      cases Priority.chosen s.idle <;> simp

omit [NeZero R] [NeZero N] in
theorem ioReq_idle {l : Fin K} (h : (s.ioIn g i l).req.isSome = true) :
    (s.mmios l).req_ready = true := by
  have hg : (Priority.given s.idle (req_val i && !cacheable g i) l).isSome = true := by
    rw [← Option.isSome_map (f := fun _ => req i)]
    exact h
  obtain ⟨a, ha⟩ := Option.isSome_iff_exists.1 hg
  obtain ⟨-, -, hl⟩ := Priority.given_eq_some.1 ha
  unfold idle at hl
  by_contra hno
  simp [hno] at hl

/-! ## What leaves -/

/-- The answers that the queue takes from the MSHRs, and from the others. -/
def answers (g : Cfg) (s : File T n S R B N K) (i : FileIn T n S M) : Option (Bits T Fields Resp) :=
  Priority.taken (s.resps g i) s.resp_ready

/-- The answer to an uncached access, if it is taken. -/
def ioAnswers (g : Cfg) (s : File T n S R B N K) (i : FileIn T n S M) : Option (Bits T Fields Resp) :=
  Priority.taken (s.ioResps g i) (s.resp_ready && (Priority.chosen (s.resps g i)).isNone)

omit [NeZero R] [NeZero N] in
theorem sum_fired : ∑ j, (((s.mshrs j).rpq.q.fired (rpqConfig T)
      ((s.mshrs j).rpqIn g.client (s.mshrIn g i j))).any fun x => p x.uop.fields).toNat =
    ((s.answers g i).any fun x => p x.uop.fields).toNat +
      ((s.replayed g i).any fun x => p x.uop.fields).toNat := by
  have hone : ∀ j, (((s.mshrs j).rpq.q.fired (rpqConfig T)
      ((s.mshrs j).rpqIn g.client (s.mshrIn g i j))).any fun x => p x.uop.fields).toNat =
        ((Priority.given (s.resps g i) s.resp_ready j).any fun x => p x.uop.fields).toNat +
          ((Priority.given (s.replays g i) i.replay_ready j).any fun x => p x.uop.fields).toNat :=
    fun j => Mshr.any_fired (c := g.params) p
  rw [Finset.sum_congr rfl fun j _ => hone j, Finset.sum_add_distrib,
    Priority.sum_given (f := fun o : Option (Bits T Fields Resp) =>
      (o.any fun x => p x.uop.fields).toNat) rfl,
    Priority.sum_given (f := fun o : Option (ReqBits T n S) =>
      (o.any fun x => p x.uop.fields).toNat) rfl]
  congr 2
  unfold replayed replay Priority.taken
  cases i.replay_ready <;> cases Priority.chosen (s.replays g i) <;> simp

omit [NeZero R] [NeZero N] in
theorem any_respq : (((s.respq.q.accepts (s.respqIn g i)).any fun x => p x.uop.fields)).toNat =
    ((s.answers g i).any fun x => p x.uop.fields).toNat +
      ((s.ioAnswers g i).any fun x => p x.uop.fields).toNat := by
  unfold KillableQueue.Queue.accepts respqIn answers ioAnswers Priority.taken resp_ready
  cases s.respq.q.full <;> cases Priority.chosen (s.resps g i) <;> simp

omit [NeZero R] [NeZero N] in
theorem countP_stored : (s.stored g i).countP p =
    ∑ l, ((s.mmios l).finishes (s.ioIn g i l) && !(s.mmios l).send_resp &&
      p (s.mmios l).req.uop.fields).toNat := by
  rw [stored, List.countP_map, List.countP_filter, ← countP_finRange]
  refine List.countP_congr fun l _ => ?_
  rw [Function.comp_apply, Bool.and_comm]

omit [NeZero R] [NeZero N] in
theorem sum_finishes :
    ∑ l, ((s.mmios l).finishes (s.ioIn g i l) && p (s.mmios l).req.uop.fields).toNat =
      ((s.ioAnswers g i).any fun x => p x.uop.fields).toNat + (s.stored g i).countP p := by
  have hone : ∀ l, ((s.mmios l).finishes (s.ioIn g i l) && p (s.mmios l).req.uop.fields).toNat =
      ((Priority.given (s.ioResps g i) (s.resp_ready && (Priority.chosen (s.resps g i)).isNone)
        l).any fun x => p x.uop.fields).toNat +
      ((s.mmios l).finishes (s.ioIn g i l) && !(s.mmios l).send_resp &&
        p (s.mmios l).req.uop.fields).toNat := fun l => IoMshr.any_finishes (k := g.client) i.undriven
  rw [Finset.sum_congr rfl fun l _ => hone l, Finset.sum_add_distrib,
    Priority.sum_given (f := fun o : Option (Bits T Fields Resp) =>
      (o.any fun x => p x.uop.fields).toNat) rfl, countP_stored]
  rfl

/-! ## The balance -/

/-- How many requests of some kind wait, -/
def holding (s : File T n S R B N K) (p : Fields → Bool) : ℕ :=
  (∑ j, (s.mshrs j).rpq.holding fun x => p x.uop.fields) + (∑ l, (s.mmios l).holding p) +
    s.respq.holding fun x => p x.uop.fields

/-- or were handed out. -/
def total (s : File T n S R B N K) (p : Fields → Bool) : ℕ :=
  (s.results.countP fun r => p r.1) + s.holding p

omit [NeZero N] [NeZero S] [NeZero B] in
theorem holding_eq : s.holding p = s.flight.countP fun u => p u.fields := by
  have hio : ∀ l, (s.mmios l).holding p =
      (!(s.mmios l).req_ready && p (s.mmios l).req.uop.fields).toNat := fun _ => rfl
  rw [flight, List.countP_append, List.countP_append, countP_flatMap_finRange, List.countP_map,
    List.countP_map, List.countP_filter, holding]
  congr 2
  · refine Finset.sum_congr rfl fun j _ => ?_
    rw [List.countP_map, KillableQueue.Sys.holding]
    exact List.countP_congr fun _ _ => Iff.rfl
  · rw [Finset.sum_congr rfl fun l _ => hio l, ← countP_finRange]
    refine List.countP_congr fun l _ => ?_
    rw [Function.comp_apply, Bool.and_comm]

omit [NeZero N] [NeZero R] in
theorem countP_delivered : ((s.delivered g i).countP fun r => p r.1) =
    ((s.replayed g i).any fun x => p x.uop.fields).toNat +
      ((s.answered g i).any fun x => p x.uop.fields).toNat + (s.stored g i).countP p := by
  rw [delivered, List.countP_append, List.countP_append, List.countP_map, List.countP_map,
    List.countP_map, KillableQueue.countP_toList, KillableQueue.countP_toList]
  exact congrArg _ (List.countP_congr fun _ _ => Iff.rfl)

omit [NeZero R] [NeZero N] in
/-- What comes in. -/
theorem any_new (hok : s.Ok g i) : ((s.new g i).any fun b => p b.uop.fields).toNat =
    (s.fires g i && cacheable g i &&
      (!(req i).uop.fields.mem_cmd.isPrefetch && p (s.reqIn i).uop.fields)).toNat +
        (s.fires g i && !cacheable g i && p (req i).uop.fields).toNat := by
  have hreq : s.fires g i = true → (req i).uop.fields.mem_cmd.isPrefetch = true →
      cacheable g i = true := fun hf => hok.cached (Bool.and_eq_true_iff.1 hf).1
  unfold new
  cases hf : s.fires g i with
  | false => simp
  | true =>
    have hreq := hreq hf
    cases hp : (req i).uop.fields.mem_cmd.isPrefetch with
    | true => simp [hreq hp]
    | false => cases cacheable g i <;> simp [reqIn]

theorem total_next_eq : (s.next g i).total p =
    (s.results.countP fun r => p r.1) + (((s.replayed g i).any fun x => p x.uop.fields).toNat +
      ((s.answered g i).any fun x => p x.uop.fields).toNat + (s.stored g i).countP p) +
    ((∑ j, ((s.mshrs j).rpq.next (rpqConfig T)
        ((s.mshrs j).rpqIn g.client (s.mshrIn g i j))).holding fun x => p x.uop.fields) +
      (∑ l, ((s.mmios l).next g.params (s.ioIn g i l)).holding p) +
      (s.respq.next (rpqConfig T) (s.respqIn g i)).holding fun x => p x.uop.fields) := by
  have hres : ((s.next g i).results.countP fun r => p r.1) =
      (s.results.countP fun r => p r.1) + ((s.delivered g i).countP fun r => p r.1) :=
    List.countP_append
  rw [total, hres, countP_delivered]
  rfl

theorem Inv.total_next_le (h : s.Inv g) (hok : s.Ok g i) (p : Fields → Bool) :
    (s.next g i).total p ≤ s.total p + ((s.new g i).any fun b => p b.uop.fields).toNat := by
  have hrpq := Finset.sum_le_sum fun (j : Fin N) (_ : j ∈ Finset.univ) =>
    KillableQueue.holding_next_le (c := rpqConfig T) (p := fun x => p x.uop.fields)
      (i := (s.mshrs j).rpqIn g.client (s.mshrIn g i j)) (h.ring j) fun _ _ => rfl
  have hrespq := KillableQueue.holding_next_le (c := rpqConfig T) (i := s.respqIn g i)
    (p := fun x => p x.uop.fields) h.respq fun _ _ => rfl
  have hio := Finset.sum_congr rfl fun (l : Fin K) (_ : l ∈ Finset.univ) =>
    IoMshr.holding_next (c := g.params) (p := p) (ioReq_idle (g := g) (s := s) (i := i) (l := l))
  rw [Finset.sum_add_distrib, Finset.sum_add_distrib, sum_fired, h.sum_accepts] at hrpq
  rw [Finset.sum_add_distrib, Finset.sum_add_distrib, sum_finishes, sum_ioReq] at hio
  rw [any_respq] at hrespq
  rw [total_next_eq, total, holding, any_new hok, answered]
  omega

/-- None of the kind is killed in this cycle. -/
def Spared (p : Fields → Bool) (s : File T n S R B N K) (i : FileIn T n S M) : Prop :=
  ∀ u ∈ s.flight, p u.fields = true → doomed i u = false

omit [NeZero S] [NeZero B] [NeZero N] in
theorem flight_of_rpq {x : KillableQueue.Item T Fields (Req n S)}
    (hx : x ∈ (s.mshrs j).rpq.waiting) : x.bits.uop ∈ s.flight :=
  List.mem_append_left _ (List.mem_append_left _
    (List.mem_flatMap.2 ⟨j, List.mem_finRange j, List.mem_map_of_mem hx⟩))

omit [NeZero S] [NeZero B] [NeZero N] in
theorem flight_of_respq {x : KillableQueue.Item T Fields Resp} (hx : x ∈ s.respq.waiting) :
    x.bits.uop ∈ s.flight := List.mem_append_right _ (List.mem_map_of_mem hx)

theorem Inv.total_next (h : s.Inv g) (hok : s.Ok g i) (hs : s.Spared p i) :
    (s.next g i).total p = s.total p + ((s.new g i).any fun b => p b.uop.fields).toNat := by
  have hrpq := Finset.sum_congr rfl fun (j : Fin N) (_ : j ∈ Finset.univ) =>
    KillableQueue.holding_next (c := rpqConfig T) (p := fun x => p x.uop.fields)
      (i := (s.mshrs j).rpqIn g.client (s.mshrIn g i j)) (h.ring j) (fun _ _ => rfl)
      fun x hx hp => hs _ (flight_of_rpq hx) hp
  have hrespq := KillableQueue.holding_next (c := rpqConfig T) (i := s.respqIn g i)
    (p := fun x => p x.uop.fields) h.respq (fun _ _ => rfl)
    fun x hx hp => hs _ (flight_of_respq hx) hp
  have hio := Finset.sum_congr rfl fun (l : Fin K) (_ : l ∈ Finset.univ) =>
    IoMshr.holding_next (c := g.params) (p := p) (ioReq_idle (g := g) (s := s) (i := i) (l := l))
  rw [Finset.sum_add_distrib, Finset.sum_add_distrib, sum_fired, h.sum_accepts] at hrpq
  rw [Finset.sum_add_distrib, Finset.sum_add_distrib, sum_finishes, sum_ioReq] at hio
  rw [any_respq] at hrespq
  rw [total_next_eq, total, holding, any_new hok, answered]
  omega

/-! ## A run -/

/-- What became of the requests. -/
def book (s : File T n S R B N K) : Book Fields Unit :=
  ⟨s.accepted.map (·.uop.fields), s.flight.map (·.fields), s.killed, s.results.map fun r => (r.1, ())⟩

omit [NeZero S] [NeZero B] [NeZero N] in
theorem book_total : s.book.total p = s.total p := by
  rw [total, holding_eq, Book.total, book, List.countP_map, List.countP_map]
  rfl

theorem spared_of_not_killed {number : ℕ} (h : number ∉ (s.next g i).killed) :
    s.Spared (Book.numbered Fields.number number) i := by
  intro u hu hp
  by_contra hd
  refine h (List.mem_append_right _ (List.mem_map.2 ⟨u, List.mem_filter.2 ⟨hu, ?_⟩, ?_⟩))
  · simpa using hd
  · exact of_decide_eq_true hp

theorem Inv.book_step (h : s.Inv g) (hok : s.Ok g i) :
    s.book.Step Fields.number ((s.new g i).map (·.uop.fields)) (s.next g i).book where
  issued := by
    change (s.accepted ++ (s.new g i).toList).map _ = _
    rw [List.map_append]
    cases s.new g i <;> rfl
  fresh x hx := by
    obtain ⟨b, hb, rfl⟩ := Option.map_eq_some_iff.1 (Option.mem_def.1 hx)
    rw [hok.number b hb]
    exact (List.length_map _).symm
  killed := List.subset_append_left _ _
  le p := by
    rw [book_total, book_total, Option.any_map]
    exact h.total_next_le hok p
  eq number hn := by
    rw [book_total, book_total, Option.any_map]
    exact h.total_next hok (spared_of_not_killed (g := g) hn)

omit [NeZero S] [NeZero B] in
theorem total_of_reset (h : s.Reset) : s.total p = 0 := by
  have hrpq : ∀ j, (s.mshrs j).rpq.holding (fun x => p x.uop.fields) = 0 := by
    intro j
    rw [KillableQueue.Sys.holding, (KillableQueue.waiting_of_reset (h.rpq j)).1]
    rfl
  have hio : ∀ l, (s.mmios l).holding p = 0 := by
    intro l
    simp [IoMshr.holding, IoMshr.req_ready, h.mmios l]
  have hrespq : s.respq.holding (fun x => p x.uop.fields) = 0 := by
    rw [KillableQueue.Sys.holding, (KillableQueue.waiting_of_reset h.respq).1]
    rfl
  rw [total, holding, h.results, hrespq]
  simp [hrpq, hio]

theorem counted_of_reach (h : (missFile g (M := M)).Reach s) : s.book.Counted Fields.number := by
  induction h with
  | start h0 =>
    refine Book.counted_empty ?_ fun p => book_total.trans (total_of_reset h0)
    exact congrArg (List.map _) h0.accepted
  | step hr hok ih => exact ih.step ((inv_of_reach hr).book_step hok)

/-- **Each request once**: what the miss file accepts waits, or was handed out, once,
    unless a branch or a flush killed it; and it hands out nothing else. -/
theorem miss_file_exact (h : (missFile g (M := M)).Reach s) :
    s.book.Exact Fields.number fun _ => () :=
  (counted_of_reach h).exact fun _ _ => rfl

end File

theorem miss_file_exact_trip :
    (Small.after 13).results.map (·.1.number) = [0, 1] ∧
      (Small.after 13).book.Exact Fields.number fun _ => () :=
  ⟨by decide +kernel, File.miss_file_exact (Small.reach_after 13 (by decide +kernel))⟩

end BoomStop.Misses
