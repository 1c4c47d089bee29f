/-
  What the miss file replays: a request keeps its address and, if it is a store,
  its data, and those of one line leave in the order in which they came.

  * `File.Entries`: what waits was accepted, in this order;
  * `File.Sdq`: a place for store data that is taken belongs to one store that
    waits, and holds its data;
  * `line_order`, `sdq_exact`, `replay_exact`: the results.
-/
import BoomStop.MshrExact

namespace BoomStop.Misses

open Sync
open DCache (MemCmd Params)
open KillableQueue (MicroOp Bits)
open Issue (isKilledByBranch)

variable {T n S R B N K M : ℕ}

namespace Mshr

variable {c : Params} {k : Client} {m : Mshr T n S R B} {i : MshrIn T n S}

/-- The head of the queue. -/
theorem waiting_of_deq_valid [NeZero R] (hring : m.rpq.Ring) (h : m.deq_valid i = true) :
    ∃ tag rest, m.rpq.waiting = ⟨tag, m.rpq.q.out⟩ :: rest := by
  unfold deq_valid at h
  simp only [Bool.and_eq_true, Bool.not_eq_true'] at h
  obtain ⟨⟨he, hv⟩, -⟩ := h
  have hne : m.rpq.enqNo ≠ m.rpq.deqNo := by
    intro heq
    rw [(KillableQueue.empty_iff hring).2 heq] at he
    cases he
  have hle := hring.le
  rw [KillableQueue.waiting_cons (by omega), KillableQueue.cell_deqNo hring, if_pos hv]
  exact ⟨_, _, rfl⟩

/-- A line address is the address, for a request of the line. -/
theorem lineAddr_eq {addr : ℕ} (h : c.block addr = c.block m.req.data.addr) :
    m.lineAddr c addr = addr := by
  have hline := Nat.div_add_mod' (c.block m.req.data.addr) c.nSets
  have haddr := Nat.div_add_mod' addr c.blockBytes
  unfold lineAddr req_tag req_idx
  unfold Params.tag Params.idx
  unfold Params.block at h hline
  rw [hline, ← h, haddr]

theorem replay_eq_some {q : ReqBits T n S} (h : m.replay c i = some q) :
    m.deq_valid i = true ∧ q.uop = (m.rpq.q.out.uop.update i.brupdate) ∧
      q.data = { m.rpq.q.out.data with
        addr := m.lineAddr c m.rpq.q.out.data.addr, way_en := m.req.data.way_en } := by
  unfold replay at h
  split_ifs at h with hv
  rw [← Option.some.inj h]
  exact ⟨(Bool.and_eq_true_iff.1 hv).2, rfl, rfl⟩

end Mshr

/-- A store with its data in a place. -/
def isStoreAt (e : Fin S) (x : ReqBits T n S) : Bool := x.uop.fields.mem_cmd.isWrite && x.data.sdq_id = e

/-- Only replays take stores from the queue. -/
theorem Mshr.any_fired_store {c : Params} {k : Client} {m : Mshr T n S R B} {i : MshrIn T n S}
    (e : Fin S) : ((m.rpq.q.fired (rpqConfig T) (m.rpqIn k i)).any (isStoreAt e)).toNat =
      ((if i.replay_ready then m.replay c i else none).any (isStoreAt e)).toNat := by
  rw [Mshr.fired_eq]
  unfold Mshr.deq_fires Mshr.deq_ready Mshr.replay
  cases m.state with
  | s_drain_rpq => cases m.deq_valid i <;> cases i.replay_ready <;> rfl
  | s_drain_rpq_loads =>
    cases hd : m.drain_load with
    | false => cases m.deq_valid i <;> simp
    | true =>
      have hno : isStoreAt e (m.head i) = false := by
        unfold Mshr.drain_load at hd
        simp only [Bool.and_eq_true, Bool.not_eq_true'] at hd
        have hw : (m.head i).uop.fields.mem_cmd.isWrite = false := hd.1.2
        rw [isStoreAt, hw, Bool.false_and]
      cases m.deq_valid i <;> cases i.resp_ready <;> cases i.lb_read_ready <;> simp [hno]
  | _ => cases m.deq_valid i <;> simp

namespace File

variable [NeZero S] [NeZero R] [NeZero B] [NeZero N] {g : Cfg} {s : File T n S R B N K}
  {i : FileIn T n S M} {j : Fin N}

/-! ## The entries -/

/-- What waits in the MSHRs was accepted, and waits in this order. -/
structure Entries (s : File T n S R B N K) : Prop where
  numbered : ∀ (k : ℕ) (a : ReqBits T n S), s.accepted[k]? = some a → a.uop.fields.number = k
  known : ∀ j, ∀ x ∈ (s.mshrs j).rpq.waiting, ∃ a ∈ s.accepted,
    a.uop.fields = x.bits.uop.fields ∧ a.data = x.bits.data
  sorted : ∀ j, (s.mshrs j).rpq.waiting.Pairwise fun x y =>
    x.bits.uop.fields.number < y.bits.uop.fields.number

omit [NeZero S] [NeZero B] [NeZero N] in
theorem number_lt (h : s.Entries) {x : KillableQueue.Item T Fields (Req n S)}
    (hx : x ∈ (s.mshrs j).rpq.waiting) : x.bits.uop.fields.number < s.accepted.length := by
  obtain ⟨a, ha, hf, -⟩ := h.known j x hx
  obtain ⟨k, hk, he⟩ := List.mem_iff_getElem.1 ha
  have hn := h.numbered k a (by rw [List.getElem?_eq_getElem hk, he])
  rw [← hf, hn]
  exact hk

omit [NeZero R] [NeZero N] in
/-- What an MSHR takes is what the file accepts. -/
theorem new_of_enq {b : ReqBits T n S} (h : (s.mshrs j).enq g.client (s.mshrIn g i j) = some b) :
    s.new g i = some b ∧ b = s.reqIn i ∧ s.fires g i = true ∧ cacheable g i = true := by
  obtain ⟨hf, rfl⟩ := Mshr.enq_eq_some h
  obtain ⟨hfires, hc⟩ := exists_takes.1 ⟨j, Bool.or_eq_true_iff.2 hf⟩
  have hp : (!(req i).uop.fields.mem_cmd.isPrefetch) = true := by
    unfold Mshr.enq at h
    split_ifs at h with hboth
    exact (Bool.and_eq_true_iff.1 hboth).2
  refine ⟨?_, rfl, hfires, hc⟩
  rw [new, hfires, hp]
  rfl

omit [NeZero R] [NeZero N] in
theorem enq_of_do_enq {b : ReqBits T n S}
    (h : (s.mshrs j).rpq.q.do_enq (rpqConfig T) ((s.mshrs j).rpqIn g.client (s.mshrIn g i j)) =
      some b) : (s.mshrs j).enq g.client (s.mshrIn g i j) = some b :=
  (KillableQueue.not_full_of_accepts (KillableQueue.accepts_of_do_enq h)).2

/-- What waits after a cycle has waited, or is what the file accepts. -/
theorem mem_rpq_next (hi : s.Inv g) {x : KillableQueue.Item T Fields (Req n S)}
    (hx : x ∈ ((s.next g i).mshrs j).rpq.waiting) :
    (∃ y ∈ (s.mshrs j).rpq.waiting, x.bits = y.bits.update i.brupdate) ∨
      (s.new g i = some (s.reqIn i) ∧ s.fires g i = true ∧ cacheable g i = true ∧
        x.bits = (s.reqIn i).update i.brupdate) := by
  rcases KillableQueue.mem_waiting_next (hi.ring j) hx with ⟨y, hy, hupd⟩ | ⟨b, hb, he⟩
  · exact .inl ⟨y, hy, (KillableQueue.bits_of_upd hupd).2⟩
  · obtain ⟨hn, rfl, hf, hc⟩ := new_of_enq (enq_of_do_enq hb)
    exact .inr ⟨hn, hf, hc, he⟩

theorem Entries.next (h : s.Entries) (hi : s.Inv g) (hok : s.Ok g i) : (s.next g i).Entries where
  numbered k a ha := by
    change (s.accepted ++ (s.new g i).toList)[k]? = some a at ha
    rcases Nat.lt_or_ge k s.accepted.length with hk | hk
    · rw [List.getElem?_append_left hk] at ha
      exact h.numbered k a ha
    · rw [List.getElem?_append_right hk] at ha
      cases hn : s.new g i with
      | none =>
        rw [hn] at ha
        cases ha
      | some b =>
        rw [hn, Option.toList_some, List.getElem?_singleton] at ha
        split_ifs at ha with hz
        rw [← Option.some.inj ha, hok.number b hn]
        omega
  known j x hx := by
    rcases mem_rpq_next hi hx with ⟨y, hy, he⟩ | ⟨hn, -, -, he⟩
    · obtain ⟨a, ha, hf, hd⟩ := h.known j y hy
      rw [he]
      exact ⟨a, List.mem_append_left _ ha, hf, hd⟩
    · rw [he]
      exact ⟨s.reqIn i, List.mem_append_right _ (Option.mem_toList.2 hn), rfl, rfl⟩
  sorted j := by
    rcases KillableQueue.waiting_step (c := rpqConfig T)
      (i := (s.mshrs j).rpqIn g.client (s.mshrIn g i j)) (hi.ring j) with
      ⟨-, hn, -⟩ | ⟨gone, stay, hw, hn, -⟩
    · exact hn ▸ List.Pairwise.nil
    · have hstay : stay.Pairwise fun x y => x.bits.uop.fields.number < y.bits.uop.fields.number :=
        (List.pairwise_append.1 (hw ▸ h.sorted j)).2.1
      have hsame : ∀ x y : KillableQueue.Item T Fields (Req n S), KillableQueue.Sys.upd (rpqConfig T)
          ((s.mshrs j).rpqIn g.client (s.mshrIn g i j)) x = some y →
            y.bits.uop.fields.number = x.bits.uop.fields.number := by
        intro x y hxy
        rw [(KillableQueue.bits_of_upd hxy).2]
        rfl
      refine hn ▸ List.pairwise_append.2 ⟨?_, ?_, ?_⟩
      · refine hstay.filterMap _ fun x y hlt x' hx' y' hy' => ?_
        rw [hsame x x' hx', hsame y y' hy']
        exact hlt
      · cases (s.mshrs j).rpq.q.accepts ((s.mshrs j).rpqIn g.client (s.mshrIn g i j)) <;> simp
      · intro x hx y hy
        obtain ⟨z, hz, hzx⟩ := List.mem_filterMap.1 hx
        obtain ⟨b, hb, rfl⟩ := Option.map_eq_some_iff.1 (Option.mem_toList.1 hy)
        obtain ⟨hnew, -⟩ := new_of_enq (KillableQueue.not_full_of_accepts hb).2
        rw [hsame z x hzx]
        refine Nat.lt_of_lt_of_eq (number_lt h (j := j) ?_) (hok.number b hnew).symm
        rw [hw]
        exact List.mem_append_right _ hz

omit [NeZero S] [NeZero B] in
theorem entries_of_reset (h : s.Reset) : s.Entries where
  numbered k a ha := by
    rw [h.accepted] at ha
    cases ha
  known j x hx := by
    rw [(KillableQueue.waiting_of_reset (h.rpq j)).1] at hx
    cases hx
  sorted j := by
    rw [(KillableQueue.waiting_of_reset (h.rpq j)).1]
    exact List.Pairwise.nil

theorem entries_of_reach (h : (missFile g (M := M)).Reach s) : s.Entries := by
  induction h with
  | start h0 => exact entries_of_reset h0
  | step hr hok ih => exact ih.next (inv_of_reach hr) hok

/-! ## The store data -/

/-- A place that is taken belongs to one store that waits, and holds its data; and
    stores are not killed. -/
structure Sdq (s : File T n S R B N K) : Prop where
  owners : ∀ e, (∑ j, (s.mshrs j).rpq.holding (isStoreAt e)) = (s.sdq_val e).toNat
  data : ∀ j, ∀ x ∈ (s.mshrs j).rpq.waiting, x.bits.uop.fields.mem_cmd.isWrite = true →
    s.sdq x.bits.data.sdq_id = x.bits.data.data
  safe : ∀ j, ∀ x ∈ (s.mshrs j).rpq.waiting, x.bits.uop.fields.mem_cmd.isWrite = true →
    (∀ t, x.bits.uop.br_mask t = false) ∧ x.bits.uop.fields.uses_ldq = false

omit [NeZero S] [NeZero B] [NeZero N] in
/-- The place of a store that waits is taken. -/
theorem Sdq.taken (h : s.Sdq) {x : KillableQueue.Item T Fields (Req n S)}
    (hx : x ∈ (s.mshrs j).rpq.waiting) (hw : x.bits.uop.fields.mem_cmd.isWrite = true) :
    s.sdq_val x.bits.data.sdq_id = true := by
  have hone : 0 < (s.mshrs j).rpq.holding (isStoreAt x.bits.data.sdq_id) :=
    List.countP_pos_iff.2 ⟨x, hx, by simp [isStoreAt, hw]⟩
  have hle := Finset.single_le_sum (f := fun l => (s.mshrs l).rpq.holding (isStoreAt x.bits.data.sdq_id))
    (fun _ _ => Nat.zero_le _) (Finset.mem_univ j)
  rw [h.owners] at hle
  cases hv : s.sdq_val x.bits.data.sdq_id with
  | true => rfl
  | false =>
    rw [hv] at hle
    exact absurd hle (Nat.not_le.2 hone)

omit [NeZero R] [NeZero B] [NeZero N] in
theorem sdq_rdy_of_enq [NeZero B] (h : s.sdq_enq g i = true) : s.sdq_rdy = true := by
  unfold sdq_enq fires req_ready at h
  simp only [Bool.and_eq_true] at h
  obtain ⟨⟨⟨-, -, h⟩, hc⟩, -⟩ := h
  rw [hc, Bool.not_true, if_neg Bool.false_ne_true, Bool.and_eq_true] at h
  exact h.1

omit [NeZero R] [NeZero B] [NeZero N] in
/-- The first place that is free. -/
theorem alloc_free (h : s.sdq_rdy = true) : s.sdq_val s.sdq_alloc_id = false ∧
    OneHot.priorityEncoderOH (fun e => !s.sdq_val e) = OneHot.oneHot s.sdq_alloc_id := by
  obtain ⟨e, -, he⟩ := List.any_eq_true.1 h
  obtain ⟨r, hr⟩ := Option.isSome_iff_exists.1
    (Fin.isSome_find?_iff (p := fun e => !s.sdq_val e) |>.2 ⟨e, he⟩)
  have halloc : s.sdq_alloc_id = r := by rw [sdq_alloc_id, hr, Option.getD_some]
  obtain ⟨hfree, hfirst⟩ := Fin.find?_eq_some_iff.1 hr
  rw [halloc]
  exact ⟨by simpa using hfree, OneHot.priorityEncoderOH_eq hfree fun l hl => by simpa using hfirst l hl⟩

omit [NeZero R] [NeZero N] in
/-- A replay comes from the head of a queue. -/
theorem replayed_from {q : ReqBits T n S} (h : s.replayed g i = some q) :
    ∃ j r, (s.mshrs j).replay g.params (s.mshrIn g i j) = some r ∧
      (s.mshrs j).deq_fires (s.mshrIn g i j) = true ∧ q.uop = r.uop ∧
        q.data = { r.data with data := s.sdq r.data.sdq_id } := by
  have htaken : (Priority.taken (s.replays g i) i.replay_ready).map (fun r : ReqBits T n S =>
      { r with data := { r.data with data := s.sdq r.data.sdq_id } }) = some q := by
    rw [← h, replayed, replay, Priority.taken]
    cases i.replay_ready <;> rfl
  obtain ⟨r, hr, rfl⟩ := Option.map_eq_some_iff.1 htaken
  obtain ⟨j, hj⟩ := Priority.exists_given hr
  have hready : Priority.ready (s.replays g i) i.replay_ready j = true := by
    unfold Priority.given at hj
    split_ifs at hj with hg
    exact hg
  have hrep : s.replays g i j = some r := (Priority.given_eq_some.1 hj).2.2
  refine ⟨j, r, hrep, (Mshr.deq_fires_iff (c := g.params) (k := g.client)).2 (.inr ⟨?_, hready⟩), rfl, rfl⟩
  exact Option.isSome_iff_exists.2 ⟨r, hrep⟩

omit [NeZero N] in
/-- and waited there. -/
theorem replayed_waits (hi : s.Inv g) {q : ReqBits T n S} (h : s.replayed g i = some q) :
    ∃ j tag rest, (s.mshrs j).rpq.waiting = ⟨tag, (s.mshrs j).rpq.q.out⟩ :: rest ∧
      (s.mshrs j).deq_fires (s.mshrIn g i j) = true ∧
      q.uop = (s.mshrs j).rpq.q.out.uop.update i.brupdate ∧
      q.data = { (s.mshrs j).rpq.q.out.data with
        addr := (s.mshrs j).lineAddr g.params (s.mshrs j).rpq.q.out.data.addr
        way_en := (s.mshrs j).req.data.way_en
        data := s.sdq (s.mshrs j).rpq.q.out.data.sdq_id } := by
  obtain ⟨j, r, hr, hd, hu, hq⟩ := replayed_from h
  obtain ⟨hv, hru, hrd⟩ := Mshr.replay_eq_some hr
  obtain ⟨tag, rest, hw⟩ := Mshr.waiting_of_deq_valid (hi.ring j) hv
  refine ⟨j, tag, rest, hw, hd, hu.trans hru, ?_⟩
  rw [hq, hrd]

omit [NeZero R] [NeZero N] in
theorem sum_fired_store (e : Fin S) : ∑ j, (((s.mshrs j).rpq.q.fired (rpqConfig T)
      ((s.mshrs j).rpqIn g.client (s.mshrIn g i j))).any (isStoreAt e)).toNat =
    (decide (s.freed g i = some e)).toNat := by
  have hone : ∀ j, (((s.mshrs j).rpq.q.fired (rpqConfig T)
      ((s.mshrs j).rpqIn g.client (s.mshrIn g i j))).any (isStoreAt e)).toNat =
        ((Priority.given (s.replays g i) i.replay_ready j).any (isStoreAt e)).toNat :=
    fun j => Mshr.any_fired_store (c := g.params) e
  rw [Finset.sum_congr rfl fun j _ => hone j, Priority.sum_given
    (f := fun o : Option (ReqBits T n S) => (o.any (isStoreAt e)).toNat) rfl]
  congr 1
  unfold freed replayed replay Priority.taken isStoreAt
  cases i.replay_ready with
  | false => simp
  | true =>
    cases Priority.chosen (s.replays g i) with
    | none => simp
    | some r => cases hw : r.uop.fields.mem_cmd.isWrite <;> simp [Option.filter, hw]

theorem not_prefetch_of_isWrite {c : MemCmd} (h : c.isWrite = true) : c.isPrefetch = false := by
  cases c <;> first | rfl | cases h

omit [NeZero N] in
theorem sum_accepts_store (hi : s.Inv g) (e : Fin S) :
    ∑ j, (((s.mshrs j).rpq.q.accepts ((s.mshrs j).rpqIn g.client (s.mshrIn g i j))).any
      (isStoreAt e)).toNat = (s.sdq_enq g i && s.sdq_alloc_id = e).toNat := by
  rw [hi.sum_accepts]
  congr 1
  have hcmd : isStoreAt e (s.reqIn i) = ((req i).uop.fields.mem_cmd.isWrite && s.sdq_alloc_id = e) := rfl
  rw [hcmd, sdq_enq, Bool.and_assoc (_ && _)]
  congr 1
  cases hw : (req i).uop.fields.mem_cmd.isWrite with
  | false => simp
  | true => rw [not_prefetch_of_isWrite hw]; rfl

omit [NeZero R] [NeZero N] in
theorem sdq_val_next_eq (e : Fin S) : s.sdq_val_next g i e =
    (s.sdq_val e && !decide (s.freed g i = some e) || (s.sdq_enq g i && s.sdq_alloc_id = e)) := by
  have hold : decide (s.freed g i ≠ some e) = !decide (s.freed g i = some e) := decide_not
  rw [sdq_val_next, hold]
  congr 1
  cases henq : s.sdq_enq g i with
  | false => rw [Bool.and_false, Bool.false_and]
  | true =>
    rw [(alloc_free (sdq_rdy_of_enq henq)).2, OneHot.oneHot, Bool.and_true, Bool.true_and]
    exact decide_eq_decide.2 eq_comm

/-- What is given back was taken, and what is taken was free. -/
theorem toNat_slot {v f a : Bool} {k : ℕ} (hf : f = true → v = true) (ha : a = true → v = false)
    (h : k + f.toNat = v.toNat + a.toNat) : k = (v && !f || a).toNat := by
  cases v <;> cases f <;> cases a <;> simp_all

theorem Sdq.next (h : s.Sdq) (hi : s.Inv g) (hok : s.Ok g i) : (s.next g i).Sdq where
  owners e := by
    have hsum := Finset.sum_congr rfl fun (j : Fin N) (_ : j ∈ Finset.univ) =>
      KillableQueue.holding_next (c := rpqConfig T) (p := isStoreAt e)
        (i := (s.mshrs j).rpqIn g.client (s.mshrIn g i j)) (hi.ring j) (fun _ _ => rfl) fun x hx hp => by
          obtain ⟨hm, hl⟩ := h.safe j x hx (Bool.and_eq_true_iff.1 hp).1
          simp [KillableQueue.In.drops, isKilledByBranch, hm, rpqConfig, hl]
    rw [Finset.sum_add_distrib, Finset.sum_add_distrib, sum_fired_store, sum_accepts_store hi,
      h.owners] at hsum
    change ∑ j, ((s.mshrs j).rpq.next (rpqConfig T)
      ((s.mshrs j).rpqIn g.client (s.mshrIn g i j))).holding (isStoreAt e) = (s.sdq_val_next g i e).toNat
    -- the place that is given back was taken
    have hfreed : s.freed g i = some e → s.sdq_val e = true := by
      intro hf
      obtain ⟨q, hq, rfl⟩ := Option.map_eq_some_iff.1 hf
      obtain ⟨hq, hw⟩ := Option.filter_eq_some_iff.1 hq
      obtain ⟨j, tag, rest, hwait, -, hu, hd⟩ := replayed_waits hi hq
      rw [hd]
      refine h.taken (j := j) (x := ⟨tag, (s.mshrs j).rpq.q.out⟩) ?_ ?_
      · rw [hwait]
        exact List.mem_cons_self
      · rw [hu] at hw
        exact hw
    rw [sdq_val_next_eq]
    refine toNat_slot (fun hf => hfreed (of_decide_eq_true hf)) (fun ha => ?_) hsum
    obtain ⟨henq, he⟩ := Bool.and_eq_true_iff.1 ha
    exact of_decide_eq_true he ▸ (alloc_free (sdq_rdy_of_enq henq)).1
  data j x hx hw := by
    change (if s.sdq_enq g i && x.bits.data.sdq_id = s.sdq_alloc_id then (req i).data.data
      else s.sdq x.bits.data.sdq_id) = x.bits.data.data
    rcases mem_rpq_next hi hx with ⟨y, hy, he⟩ | ⟨-, hf, hc, he⟩
    · rw [he] at hw ⊢
      have hne : ¬ (s.sdq_enq g i && y.bits.data.sdq_id = s.sdq_alloc_id) = true := by
        intro hboth
        obtain ⟨henq, hid⟩ := Bool.and_eq_true_iff.1 hboth
        have hv := h.taken hy hw
        rw [of_decide_eq_true hid, (alloc_free (sdq_rdy_of_enq henq)).1] at hv
        cases hv
      exact (if_neg hne).trans (h.data j y hy hw)
    · rw [he] at hw ⊢
      have henq : s.sdq_enq g i = true := by
        rw [sdq_enq, hf, hc]
        exact hw
      rw [henq]
      exact if_pos (by simp [Bits.update, reqIn])
  safe j x hx hw := by
    rcases mem_rpq_next hi hx with ⟨y, hy, he⟩ | ⟨-, hf, -, he⟩
    · rw [he] at hw ⊢
      obtain ⟨hm, hl⟩ := h.safe j y hy hw
      exact ⟨fun t => by simp [Bits.update, MicroOp.update, Issue.getNewBrMask, hm t], hl⟩
    · rw [he] at hw ⊢
      obtain ⟨hm, hl⟩ := hok.store (Bool.and_eq_true_iff.1 hf).1 hw
      exact ⟨fun t => by simp [Bits.update, MicroOp.update, Issue.getNewBrMask, reqIn, hm t], hl⟩

omit [NeZero S] [NeZero B] in
theorem sdq_of_reset (h : s.Reset) : s.Sdq := by
  have hnone : ∀ j, (s.mshrs j).rpq.waiting = [] := fun j =>
    (KillableQueue.waiting_of_reset (h.rpq j)).1
  refine ⟨fun e => ?_, fun j x hx => ?_, fun j x hx => ?_⟩
  · rw [h.sdq_val e]
    refine Finset.sum_eq_zero fun j _ => ?_
    rw [KillableQueue.Sys.holding, hnone j]
    rfl
  · rw [hnone j] at hx
    cases hx
  · rw [hnone j] at hx
    cases hx

theorem sdq_of_reach (h : (missFile g (M := M)).Reach s) : s.Sdq := by
  induction h with
  | start h0 => exact sdq_of_reset h0
  | step hr hok ih => exact ih.next (inv_of_reach hr) hok

/-- **The store data**: in every state that is reached, a place is taken for one store
    that waits, or is free, and it holds the data of its store. -/
theorem sdq_exact (h : (missFile g (M := M)).Reach s) : s.Sdq := sdq_of_reach h

/-! ## What leaves -/

/-- **The order of a line**: what leaves the queue of an MSHR is the oldest of all
    requests that wait for its line. -/
theorem line_order (h : (missFile g (M := M)).Reach s) (i : FileIn T n S M) {j l : Fin N}
    (hd : (s.mshrs j).deq_fires (s.mshrIn g i j) = true)
    {x : KillableQueue.Item T Fields (Req n S)} (hx : x ∈ (s.mshrs l).rpq.waiting)
    (hb : g.params.block x.bits.data.addr = g.params.block ((s.mshrs j).head (s.mshrIn g i j)).data.addr) :
    ((s.mshrs j).head (s.mshrIn g i j)).uop.fields.number ≤ x.bits.uop.fields.number := by
  have hi := inv_of_reach h
  obtain ⟨tag, rest, hw⟩ := Mshr.waiting_of_deq_valid (hi.ring j) (Bool.and_eq_true_iff.1 hd).1
  have hhead : (⟨tag, (s.mshrs j).rpq.q.out⟩ : KillableQueue.Item T Fields (Req n S)) ∈
      (s.mshrs j).rpq.waiting := by
    rw [hw]
    exact List.mem_cons_self
  have hbusy : ∀ l, ∀ y ∈ (s.mshrs l).rpq.waiting, (s.mshrs l).valid = true := by
    intro l y hy
    unfold Mshr.valid
    by_contra hst
    rw [hi.waiting (by rw [show (s.mshrs l).state = .s_invalid by simpa using hst]; rfl)] at hy
    cases hy
  -- one MSHR has the line
  have hline := (hi.line l x hx).symm.trans (hb.trans (hi.line j _ hhead))
  obtain rfl := hi.apart l j (hbusy l x hx) (hbusy j _ hhead) (Mshr.idx_of_block hline)
  have hsorted := (entries_of_reach h).sorted l
  rw [hw] at hx hsorted
  rcases List.mem_cons.1 hx with rfl | hx
  · exact le_rfl
  · exact Nat.le_of_lt ((List.pairwise_cons.1 hsorted).1 x hx)

/-- **Replays**: a request is replayed with the address it was accepted with, and a
    store with its data. -/
theorem replay_exact (h : (missFile g (M := M)).Reach s) {i : FileIn T n S M} {q : ReqBits T n S}
    (hq : s.replayed g i = some q) : ∃ a ∈ s.accepted, a.uop.fields = q.uop.fields ∧
      a.data.addr = q.data.addr ∧ a.data.is_hella = q.data.is_hella ∧
      (q.uop.fields.mem_cmd.isWrite = true → a.data.data = q.data.data) := by
  have hi := inv_of_reach h
  obtain ⟨j, tag, rest, hw, -, hu, hd⟩ := replayed_waits hi hq
  have hhead : (⟨tag, (s.mshrs j).rpq.q.out⟩ : KillableQueue.Item T Fields (Req n S)) ∈
      (s.mshrs j).rpq.waiting := by
    rw [hw]
    exact List.mem_cons_self
  obtain ⟨a, ha, hf, hda⟩ := (entries_of_reach h).known j _ hhead
  refine ⟨a, ha, ?_, ?_, ?_, fun hwrite => ?_⟩
  · rw [hf, hu]
    rfl
  · rw [hda, hd]
    exact (Mshr.lineAddr_eq (hi.line j _ hhead)).symm
  · rw [hda, hd]
  · rw [hu] at hwrite
    rw [hda, hd]
    exact ((sdq_of_reach h).data j _ hhead hwrite).symm

end File

theorem sdq_exact_trip : (Small.after 4).sdq_val 0 = true ∧ (Small.after 4).Sdq :=
  ⟨by decide +kernel, File.sdq_exact (Small.reach_after 4 (by decide +kernel))⟩

/-- The load leaves before the store. -/
theorem line_order_trip :
    (((Small.after 4).mshrs 0).head ((Small.after 4).mshrIn Small.cfg Small.quiet 0)).uop.fields.number ≤
      (((Small.after 4).mshrs 0).rpq.waiting.get ⟨1, by decide +kernel⟩).bits.uop.fields.number :=
  File.line_order (Small.reach_after 4 (by decide +kernel)) Small.quiet (by decide +kernel)
    (List.get_mem _ _) (by decide +kernel)

theorem replay_exact_trip :
    ∃ a ∈ (Small.after 11).accepted,
      a.uop.fields = (((Small.after 11).replayed Small.cfg Small.quiet).get
        (by decide +kernel)).uop.fields ∧
      a.data.addr = (((Small.after 11).replayed Small.cfg Small.quiet).get
        (by decide +kernel)).data.addr ∧
      a.data.is_hella = (((Small.after 11).replayed Small.cfg Small.quiet).get
        (by decide +kernel)).data.is_hella ∧
      ((((Small.after 11).replayed Small.cfg Small.quiet).get
        (by decide +kernel)).uop.fields.mem_cmd.isWrite = true →
        a.data.data = (((Small.after 11).replayed Small.cfg Small.quiet).get
          (by decide +kernel)).data.data) :=
  File.replay_exact (Small.reach_after 11 (by decide +kernel)) (Option.some_get _).symm

end BoomStop.Misses
