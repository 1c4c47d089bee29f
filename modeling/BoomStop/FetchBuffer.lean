/-
  From the fetch buffer to decode (`fetch-buffer.scala`, and the back pressure
  of decode in `core.scala`): fetch packets become uops, which wait in a ring
  that is written entry by entry and read row by row, and decode takes a row in
  one or more cycles.

  * `in_uops`: the uops of a packet;
  * `FetchBuffer`: the ring with its two one-hot pointers;
  * `dec_fire`: what decode takes of the row it is shown;
  * `exactly_once`: between two clears, what was taken and what still waits are
    together what was accepted, in order.
-/
import BoomStop.Ftq
import BoomStop.Lib.OneHot
import Mathlib.Tactic.Ring

namespace BoomStop.Ifu

open Sync RingOrder OneHot

variable {p : Params} {R C : ℕ}

/-! ## Packets -/

/-- What the buffer reads of a `FetchBundle`. -/
structure FetchPacket (p : Params) where
  pc : BitVec p.va
  mask : Fin p.fetchWidth → Bool
  sfbs : Fin p.fetchWidth → Bool
  shadowed_mask : Fin p.fetchWidth → Bool
  edge_inst : ℕ → Bool
  ftq_idx : ℕ
  exp_insts : Fin p.fetchWidth → BitVec 32
  insts : Fin p.fetchWidth → BitVec 32
  cfi_idx_valid : Bool
  cfi_idx : ℕ
  xcpt_pf_if : Bool
  xcpt_ae_if : Bool
  bp_debug_if_oh : Fin p.fetchWidth → Bool
  bp_xcpt_if_oh : Fin p.fetchWidth → Bool
  fsrc : BitVec 2

/-- What the buffer fills in of a `MicroOp`. -/
structure MicroOp (p : Params) where
  debug_pc : BitVec p.va
  pc_lob : ℕ
  edge_inst : Bool
  is_sfb : Bool
  ftq_idx : ℕ
  inst : BitVec 32
  debug_inst : BitVec 32
  is_rvc : Bool
  taken : Bool
  xcpt_pf_if : Bool
  xcpt_ae_if : Bool
  bp_debug_if : Bool
  bp_xcpt_if : Bool
  debug_fsrc : BitVec 2

/-- `bankAlign`. -/
def bankAlign (p : Params) (addr : BitVec p.va) : BitVec p.va :=
  ~~~(~~~addr ||| BitVec.ofNat p.va (p.bankBytes - 1))

/-- The uop at a place of a packet. -/
def in_uops (b : FetchPacket p) (i : Fin p.fetchWidth) : MicroOp p :=
  let bankWidth := p.fetchWidth / p.nBanks
  let bank := i.val / bankWidth
  let pc := bankAlign p b.pc + BitVec.ofNat p.va (i.val <<< 1)
  let start := bankAlign p b.pc + BitVec.ofNat p.va (bank * p.bankBytes)
  -- the first instruction of a bank may have begun in the bank before
  let edge := decide (i.val % bankWidth = 0) && b.edge_inst bank
  { debug_pc := if edge then start - 2 else pc
    pc_lob := (if edge then start else pc).toNat % 2 ^ Nat.clog 2 p.icBlockBytes
    edge_inst := edge
    is_sfb := b.sfbs i || b.shadowed_mask i
    ftq_idx := b.ftq_idx
    inst := b.exp_insts i
    debug_inst := b.insts i
    is_rvc := (b.insts i).setWidth 2 ≠ 3
    taken := decide (b.cfi_idx = i.val) && b.cfi_idx_valid
    xcpt_pf_if := b.xcpt_pf_if
    xcpt_ae_if := b.xcpt_ae_if
    bp_debug_if := b.bp_debug_if_oh i
    bp_xcpt_if := b.bp_xcpt_if_oh i
    debug_fsrc := b.fsrc }

/-- The uops that are masked in, each at its place in the packet. -/
def FetchPacket.lanes (b : FetchPacket p) : List (Option (MicroOp p)) :=
  (List.finRange p.fetchWidth).map fun i => if b.mask i then some (in_uops b i) else none

/-! ## The ring -/

/-- `R` rows of `C` entries, where `C` is the width of decode. -/
structure FetchBuffer (p : Params) (R C : ℕ) where
  ram : Fin (R * C) → MicroOp p
  head : Fin R → Bool
  tail : Fin (R * C) → Bool
  maybe_full : Bool

/-- An entry of a row. -/
def entry (r : Fin R) (w : Fin C) : Fin (R * C) :=
  ⟨r.val * C + w.val, by
    have h := Nat.mul_le_mul_right C (Nat.succ_le_of_lt r.isLt)
    rw [Nat.succ_mul] at h
    omega⟩

/-- The inputs of a cycle: a packet, the two reasons to clear the buffer, and
    what holds decode up. -/
structure FetchIn (p : Params) (C : ℕ) where
  enq : Option (FetchPacket p)
  sfence_valid : Bool
  redirect_flush : Bool
  dis_ready : Bool
  rollback : Bool
  dec_xcpt_stall : Bool
  branch_mask_full : Fin C → Bool
  b1_mispredict : Bool
  b2_mispredict : Bool

namespace FetchBuffer

variable [NeZero R] [NeZero C] (f : FetchBuffer p R C)

/-- A packet might come up to the head. -/
def might_hit_head : Bool :=
  (List.range' 1 (p.fetchWidth - 1)).any fun k =>
    (List.finRange R).any fun r => rotateLeft f.tail k (entry r 0) && f.head r

/-- The tail is at the head. -/
def at_head : Bool := (List.finRange R).any fun r => f.tail (entry r 0) && f.head r

/-- `do_enq`: there is room for a packet. -/
def do_enq : Bool := !(f.at_head && f.maybe_full || f.might_hit_head)

/-- The tail is at this slot of the row at the head. -/
def slot_will_hit_tail (w : Fin C) : Bool :=
  (List.finRange R).any fun r => f.head r && (!f.maybe_full || w ≠ 0) && f.tail (entry r w)

/-- `will_hit_tail`. -/
def will_hit_tail : Bool := (List.finRange C).any f.slot_will_hit_tail

/-- `~MaskUpper(slot_will_hit_tail)`. -/
def deq_valids (w : Fin C) : Bool :=
  !(List.finRange C).any fun w' => decide (w' ≤ w) && f.slot_will_hit_tail w'

/-- The row of the head; `head` is one-hot (`Inv.head`). -/
def deq_uops (w : Fin C) : Option (MicroOp p) :=
  ((List.finRange R).find? f.head).map fun r => f.ram (entry r w)

/-- `io.deq.valid` -/
def deq_valid : Bool := (List.finRange C).any f.deq_valids

/-- The lanes of the packet that is presented. -/
def lanes (i : FetchIn p C) : List (Option (MicroOp p)) := (i.enq.map FetchPacket.lanes).getD []

/-- What an enqueue leaves in the ring, and the pointer behind it. -/
def enqueued (i : FetchIn p C) : (Fin (R * C) → MicroOp p) × (Fin (R * C) → Bool) :=
  if f.do_enq then (lanes i).foldl push (f.ram, f.tail) else (f.ram, f.tail)

end FetchBuffer

/-! ## Decode -/

/-- The buffer and the slots of its row that decode is done with; what was
    accepted and what was fired since the last clear; and whether the frontend
    is idle after an `sfence`. -/
structure FetchSys (p : Params) (R C : ℕ) where
  fb : FetchBuffer p R C
  dec_finished_mask : Fin C → Bool
  accepted : List (MicroOp p)
  fired : List (MicroOp p)
  idle : Bool

namespace FetchSys

variable [NeZero R] [NeZero C] (s : FetchSys p R C) (i : FetchIn p C)

/-- `dec_valids`. -/
def dec_valids (w : Fin C) : Bool := s.fb.deq_valid && s.fb.deq_valids w && !s.dec_finished_mask w

/-- `dec_hazards`. -/
def dec_hazards (w : Fin C) : Bool :=
  s.dec_valids w && (!i.dis_ready || i.rollback || i.dec_xcpt_stall || i.branch_mask_full w ||
    i.b1_mispredict || i.b2_mispredict || i.redirect_flush)

/-- A slot waits for the slots before it. -/
def dec_stalls (w : Fin C) : Bool :=
  (List.finRange C).any fun w' => decide (w' ≤ w) && s.dec_hazards i w'

/-- `dec_fire`. -/
def dec_fire (w : Fin C) : Bool := s.dec_valids w && !s.dec_stalls i w

/-- `dec_ready`: the last slot is decoded. -/
def dec_ready : Bool := s.dec_fire i ⟨C - 1, Nat.sub_lt (Nat.pos_of_neZero C) one_pos⟩

/-- `do_deq`: the head moves on by a row. -/
def do_deq : Bool := s.dec_ready i && !s.fb.will_hit_tail

/-- The uops that decode fires, in slot order. -/
def firing : List (MicroOp p) :=
  (List.finRange C).filterMap fun w => if s.dec_fire i w then s.fb.deq_uops w else none

/-- The uops of the packet that is accepted. -/
def accepting : List (MicroOp p) :=
  if s.fb.do_enq then (FetchBuffer.lanes i).reduceOption else []

/-- The buffer, in the next cycle. -/
def fb_next : FetchBuffer p R C :=
  let clear := i.sfence_valid || i.redirect_flush
  { ram := (s.fb.enqueued i).1
    tail := if clear then oneHot (place _ 0) else (s.fb.enqueued i).2
    head :=
      if clear then oneHot (place _ 0)
      else if s.do_deq i then inc s.fb.head
      else s.fb.head
    maybe_full :=
      !clear && !s.do_deq i &&
        (s.fb.do_enq && (FetchBuffer.lanes i).any Option.isSome || s.fb.maybe_full) }

/-- One cycle. -/
def next : FetchSys p R C :=
  let clear := i.sfence_valid || i.redirect_flush
  { fb := s.fb_next i
    dec_finished_mask := fun w =>
      !s.dec_ready i && !i.redirect_flush && (s.dec_fire i w || s.dec_finished_mask w)
    accepted := if clear then [] else s.accepted ++ s.accepting i
    fired := if clear then [] else s.fired ++ s.firing i
    idle := i.sfence_valid || s.idle && !i.redirect_flush }

end FetchSys

/-- The buffer between the frontend and decode. An `sfence` stops the frontend:
    no packet comes before the redirect that follows it. -/
def fetchBuffer (p : Params) (R C : ℕ) [NeZero R] [NeZero C] :
    Machine (FetchSys p R C) (FetchIn p C) where
  start s := s.fb.head = oneHot (place _ 0) ∧ s.fb.tail = oneHot (place _ 0) ∧
    s.fb.maybe_full = false ∧ (∀ w, s.dec_finished_mask w = false) ∧
    s.accepted = [] ∧ s.fired = [] ∧ s.idle = false
  ok s i := s.idle = true → i.enq = none
  next s i := s.next i

/-! ## Parts of a list -/

/-- The next `g - f` of a list, read one by one from a row that begins at
    `b`. -/
theorem take_append_row {α : Type*} {l : List α} {b f : ℕ} :
    ∀ {c g : ℕ}, f ≤ g → g ≤ c → b + g ≤ l.length →
      l.take (b + f) ++
        ((List.range c).filterMap fun w => if f ≤ w ∧ w < g then l[b + w]? else none) =
      l.take (b + g) := by
  intro c
  induction c with
  | zero =>
    intro g hfg hgc _
    obtain rfl : g = 0 := by omega
    obtain rfl : f = 0 := by omega
    simp
  | succ c ih =>
    intro g hfg hgc hlen
    rw [List.range_succ, List.filterMap_append]
    rcases hgc.lt_or_eq with hlt | rfl
    · have hno : ¬ (f ≤ c ∧ c < g) := by omega
      rw [← ih hfg (by omega) hlen]
      simp [hno]
    · rcases hfg.lt_or_eq with hfc | rfl
      · have hrow : ((List.range c).filterMap
            fun w => if f ≤ w ∧ w < c + 1 then l[b + w]? else none) =
            (List.range c).filterMap fun w => if f ≤ w ∧ w < c then l[b + w]? else none := by
          refine List.filterMap_congr fun w hw => ?_
          have hw := List.mem_range.1 hw
          have hiff : (f ≤ w ∧ w < c + 1) ↔ f ≤ w ∧ w < c := by omega
          simp only [hiff]
        have hget : l[b + c]? = some l[b + c] := List.getElem?_eq_getElem (by omega)
        rw [hrow, ← List.append_assoc, ih (by omega) le_rfl (by omega)]
        simp only [List.filterMap_cons, List.filterMap_nil, hget,
          if_pos (show f ≤ c ∧ c < c + 1 by omega)]
        rw [← Nat.add_assoc, List.take_add_one, hget]
        rfl
      · have hnone : ∀ w ∈ List.range c, ¬ (c + 1 ≤ w ∧ w < c + 1) := fun w _ => by omega
        simp

/-! ## Reading the pointers -/

section Pointers

variable [NeZero R] [NeZero C] {h k t : ℕ}

theorem entry_place (w : Fin C) : entry (place R h) w = place (R * C) (h * C + w.val) := by
  have hw := w.isLt
  have hlt : h % R * C + w.val < R * C := (entry (place R h) w).isLt
  rw [Fin.ext_iff]
  show h % R * C + w.val = (h * C + w.val) % (R * C)
  have hh : h * C + w.val = R * C * (h / R) + (h % R * C + w.val) := by
    conv_lhs => rw [← Nat.div_add_mod h R]
    ring
  rw [hh, Nat.mul_add_mod, Nat.mod_eq_of_lt hlt]

/-- The row of the head and the running number `t`, at most one round on. -/
theorem entry_eq_place (hle : h * C ≤ t) (hlt : t ≤ h * C + R * C) (w : Fin C) :
    entry (place R h) w = place (R * C) t ↔
      t = h * C + w.val ∨ w.val = 0 ∧ t = h * C + R * C := by
  have hw : h * C + w.val < h * C + R * C := by
    have hlt : h % R * C + w.val < R * C := (entry (place R h) w).isLt
    omega
  rw [entry_place]
  rcases hlt.lt_or_eq with hlt | rfl
  · constructor
    · intro he
      exact .inl (place_inj (Nat.le_add_right _ _) hle hw hlt he).symm
    · rintro (he | ⟨-, he⟩)
      · rw [he]
      · omega
  · rw [place_add_self]
    constructor
    · intro he
      have := place_inj (Nat.le_add_right _ _) le_rfl hw (by omega) he
      exact .inr ⟨by omega, rfl⟩
    · rintro (he | ⟨h0, -⟩)
      · omega
      · rw [h0, Nat.add_zero]

end Pointers

namespace FetchSys

variable [NeZero R] [NeZero C] {s : FetchSys p R C} {i : FetchIn p C} {h f : ℕ}

/-- Decode has taken `h` rows and the first `f` slots of the next one. -/
structure At (s : FetchSys p R C) (h f : ℕ) : Prop where
  head : s.fb.head = oneHot (place R h)
  holds : Holds (h * C) s.accepted (s.fb.ram, s.fb.tail)
  fired : s.fired = s.accepted.take (h * C + f)
  le : h * C + f ≤ s.accepted.length
  fits : s.accepted.length ≤ h * C + R * C
  lt : f < C
  empty : s.accepted.length = h * C → s.fb.maybe_full = false
  full : s.accepted.length = h * C + R * C → s.fb.maybe_full = true
  mask : s.idle = false → ∀ w, s.dec_finished_mask w = decide (w.val < f)
  idle : s.idle = true → s.accepted = []

/-! ### Dequeue -/

theorem At.tail (hat : s.At h f) : s.fb.tail = oneHot (place _ s.accepted.length) := hat.holds.1

theorem At.base_le (hat : s.At h f) : h * C ≤ s.accepted.length :=
  (Nat.le_add_right _ _).trans hat.le

theorem slot_will_hit_tail_iff (hat : s.At h f) (w : Fin C) :
    s.fb.slot_will_hit_tail w = true ↔ s.accepted.length = h * C + w.val := by
  simp only [FetchBuffer.slot_will_hit_tail, Bool.and_assoc, hat.head]
  rw [any_oneHot (place R h) fun r => (!s.fb.maybe_full || w ≠ 0) && s.fb.tail (entry r w),
    hat.tail, Bool.and_eq_true, oneHot_eq_true, entry_eq_place hat.base_le hat.fits]
  have hw : w ≠ 0 ↔ w.val ≠ 0 := not_congr Fin.val_eq_zero_iff.symm
  rw [Bool.or_eq_true, Bool.not_eq_true', decide_eq_true_iff, hw]
  constructor
  · rintro ⟨hfull, he | ⟨h0, he⟩⟩
    · exact he
    · rw [hat.full he] at hfull
      simp [h0] at hfull
  · intro he
    refine ⟨?_, .inl he⟩
    by_cases h0 : w.val = 0
    · exact .inl (hat.empty (by omega))
    · exact .inr h0

/-- The entries of the row that were written are shown. -/
theorem deq_valids_iff (hat : s.At h f) (w : Fin C) :
    s.fb.deq_valids w = true ↔ h * C + w.val < s.accepted.length := by
  have hle := hat.base_le
  rw [FetchBuffer.deq_valids, Bool.not_eq_true', ← Bool.not_eq_true, List.any_eq_true]
  simp only [Bool.and_eq_true, decide_eq_true_eq, slot_will_hit_tail_iff hat, List.mem_finRange,
    true_and, not_exists, not_and]
  constructor
  · intro hno
    by_contra hlt
    exact hno ⟨s.accepted.length - h * C, by omega⟩ (by rw [Fin.le_def]; dsimp only; omega)
      (by dsimp only; omega)
  · intro hlt w' hw he
    rw [Fin.le_def] at hw
    omega

theorem deq_uops_eq (hat : s.At h f) {w : Fin C} (hw : h * C + w.val < s.accepted.length) :
    s.fb.deq_uops w = s.accepted[h * C + w.val]? := by
  rw [FetchBuffer.deq_uops, hat.head, find?_oneHot, Option.map_some, entry_place,
    hat.holds.2 _ (Nat.le_add_right _ _) hw]

/-! ### Decode -/

theorem dec_valids_iff (hat : s.At h f) (w : Fin C) :
    s.dec_valids w = true ↔ h * C + w.val < s.accepted.length ∧ f ≤ w.val := by
  rw [dec_valids, Bool.and_eq_true, Bool.and_eq_true, deq_valids_iff hat, Bool.not_eq_true']
  constructor
  · rintro ⟨⟨-, hlt⟩, hmask⟩
    refine ⟨hlt, ?_⟩
    cases hi : s.idle with
    | true =>
      rw [hat.idle hi] at hlt
      exact absurd hlt (Nat.not_lt_zero _)
    | false => simpa [hat.mask hi w] using hmask
  · rintro ⟨hlt, hf⟩
    have hi : s.idle = false := by
      by_contra hi
      rw [hat.idle (Bool.eq_true_of_not_eq_false hi)] at hlt
      exact absurd hlt (Nat.not_lt_zero _)
    refine ⟨⟨?_, hlt⟩, ?_⟩
    · exact List.any_eq_true.2 ⟨w, List.mem_finRange w, (deq_valids_iff hat w).2 hlt⟩
    · simpa [hat.mask hi w] using hf

/-- Of the slots that are left, one fires only after those before it. -/
theorem dec_fire_of_le (hat : s.At h f) {w w' : Fin C} (hw : s.dec_fire i w = true)
    (hf : f ≤ w'.val) (hle : w' ≤ w) : s.dec_fire i w' = true := by
  rw [dec_fire, Bool.and_eq_true, Bool.not_eq_true', dec_stalls, ← Bool.not_eq_true,
    List.any_eq_true] at hw ⊢
  obtain ⟨hv, hs⟩ := hw
  rw [dec_valids_iff hat] at hv ⊢
  refine ⟨⟨by rw [Fin.le_def] at hle; omega, hf⟩, fun ⟨w'', hmem, hh⟩ => hs ⟨w'', hmem, ?_⟩⟩
  rw [Bool.and_eq_true, decide_eq_true_iff] at hh ⊢
  exact ⟨hh.1.trans hle, hh.2⟩

/-- **Decode fires the next slots of the row**, up to some slot. -/
theorem exists_fire (hat : s.At h f) (i : FetchIn p C) :
    ∃ g, f ≤ g ∧ g ≤ C ∧ h * C + g ≤ s.accepted.length ∧
      ∀ w, s.dec_fire i w = decide (f ≤ w.val ∧ w.val < g) := by
  classical
  have hex : ∃ g, f ≤ g ∧ ∀ w : Fin C, g ≤ w.val → s.dec_fire i w = false :=
    ⟨C, hat.lt.le, fun w hw => absurd w.isLt (by omega)⟩
  obtain ⟨hfg, hstop⟩ := Nat.find_spec hex
  have hmin := fun g => Nat.find_min (m := g) hex
  generalize Nat.find hex = g at hfg hstop hmin
  have hgC : g ≤ C := by
    by_contra hlt
    exact hmin C (by omega) ⟨hat.lt.le, fun w hw => absurd w.isLt (by omega)⟩
  have hfire : ∀ w : Fin C, f ≤ w.val → w.val < g → s.dec_fire i w = true := by
    intro w hf hlt
    by_contra hno
    refine hmin w.val hlt ⟨hf, fun w' hle => ?_⟩
    by_contra hw'
    exact hno (dec_fire_of_le hat (Bool.eq_true_of_not_eq_false hw') hf (Fin.le_def.2 hle))
  refine ⟨g, hfg, hgC, ?_, fun w => ?_⟩
  · rcases hfg.lt_or_eq with hlt | rfl
    · have hlast := hfire ⟨g - 1, by omega⟩ (by dsimp only; omega) (by dsimp only; omega)
      rw [dec_fire, Bool.and_eq_true, dec_valids_iff hat] at hlast
      have := hlast.1.1
      dsimp only at this
      omega
    · exact hat.le
  · rw [Bool.eq_iff_iff, decide_eq_true_iff]
    constructor
    · intro hw
      have hv := hw
      rw [dec_fire, Bool.and_eq_true, dec_valids_iff hat] at hv
      refine ⟨hv.1.2, ?_⟩
      by_contra hle
      rw [hstop w (by omega)] at hw
      contradiction
    · rintro ⟨hf, hlt⟩
      exact hfire w hf hlt

theorem fired_append_firing (hat : s.At h f) {g : ℕ} (hfg : f ≤ g) (hgC : g ≤ C)
    (hle : h * C + g ≤ s.accepted.length)
    (hfire : ∀ w, s.dec_fire i w = decide (f ≤ w.val ∧ w.val < g)) :
    s.fired ++ s.firing i = s.accepted.take (h * C + g) := by
  rw [← take_append_row hfg hgC hle, hat.fired, ← List.map_coe_finRange_eq_range,
    List.filterMap_map]
  congr 1
  refine List.filterMap_congr fun w _ => ?_
  simp only [hfire, decide_eq_true_eq, Function.comp]
  split_ifs with hw
  · exact deq_uops_eq hat (by omega)
  · rfl

/-! ### Enqueue -/

theorem entry_zero (h : ℕ) : entry (place R h) (0 : Fin C) = place (R * C) (h * C) := by
  rw [entry_place]
  rfl

/-- A packet that would reach the row of the head is not accepted. -/
theorem room_of_do_enq (hF : p.fetchWidth < R * C) (hat : s.At h f) (hd : s.fb.do_enq = true) :
    s.accepted.length + p.fetchWidth ≤ h * C + R * C := by
  have hfits := hat.fits
  rw [FetchBuffer.do_enq, Bool.not_eq_true', Bool.or_eq_false_iff] at hd
  obtain ⟨hhead, hhit⟩ := hd
  by_contra hlt
  rcases hfits.lt_or_eq with hroom | hfull
  · -- the lane that would be written to the first entry of that row
    have hk : h * C + R * C - s.accepted.length < R * C := by
      have := hat.base_le
      by_contra hge
      omega
    refine Bool.eq_false_iff.1 hhit (List.any_eq_true.2
      ⟨h * C + R * C - s.accepted.length, List.mem_range'_1.2 ⟨by omega, by omega⟩, ?_⟩)
    refine List.any_eq_true.2 ⟨place R h, List.mem_finRange _, ?_⟩
    rw [hat.tail, hat.head, rotateLeft_oneHot hk, entry_zero, Bool.and_eq_true, oneHot_eq_true,
      Nat.add_sub_cancel' hfits, place_add_self]
    exact ⟨rfl, oneHot_eq_true.2 rfl⟩
  · rw [hat.full hfull, Bool.and_true] at hhead
    refine Bool.eq_false_iff.1 hhead (List.any_eq_true.2 ⟨place R h, List.mem_finRange _, ?_⟩)
    rw [hat.tail, hat.head, entry_zero, Bool.and_eq_true, oneHot_eq_true, hfull, place_add_self]
    exact ⟨rfl, oneHot_eq_true.2 rfl⟩

omit [NeZero C] in
theorem lanes_length_le (i : FetchIn p C) :
    (FetchBuffer.lanes i).reduceOption.length ≤ p.fetchWidth := by
  refine (List.reduceOption_length_le _).trans ?_
  unfold FetchBuffer.lanes
  cases i.enq with
  | none => exact Nat.zero_le _
  | some b => simp [FetchPacket.lanes]

theorem accepting_fits (hF : p.fetchWidth < R * C) (hat : s.At h f) (i : FetchIn p C) :
    (s.accepted ++ s.accepting i).length ≤ h * C + R * C := by
  rw [List.length_append, accepting]
  split_ifs with hd
  · exact (Nat.add_le_add_left (lanes_length_le i) _).trans (room_of_do_enq hF hat hd)
  · simpa using hat.fits

/-- What is accepted goes behind what is there, and nothing of the row of the
    head on is written over. -/
theorem holds_enqueued (hF : p.fetchWidth < R * C) (hat : s.At h f) (i : FetchIn p C) :
    Holds (h * C) (s.accepted ++ s.accepting i) (s.fb.enqueued i) := by
  have hfits := accepting_fits hF hat i
  unfold accepting at hfits ⊢
  unfold FetchBuffer.enqueued
  split_ifs with hd
  · rw [if_pos hd, List.length_append] at hfits
    exact hat.holds.pushAll hfits
  · simpa using hat.holds

/-! ### One cycle -/

theorem accepting_ne_nil :
    (s.fb.do_enq && (FetchBuffer.lanes i).any Option.isSome) = true ↔ s.accepting i ≠ [] := by
  rw [Bool.and_eq_true, List.any_eq_true, accepting]
  constructor
  · rintro ⟨hd, o, ho, hsome⟩
    obtain ⟨u, rfl⟩ := Option.isSome_iff_exists.1 hsome
    rw [if_pos hd]
    exact List.ne_nil_of_mem (List.reduceOption_mem_iff.2 ho)
  · intro hne
    split_ifs at hne with hd
    · obtain ⟨u, hu⟩ := List.exists_mem_of_ne_nil _ hne
      exact ⟨hd, _, List.reduceOption_mem_iff.1 hu, rfl⟩
    · exact absurd rfl hne

theorem accepting_of_idle (hok : s.idle = true → i.enq = none) (hi : s.idle = true) :
    s.accepting i = [] := by
  simp [accepting, FetchBuffer.lanes, hok hi]

/-- The whole row goes when its last slot fires. -/
theorem do_deq_eq (hat : s.At h f) {g : ℕ} (hgC : g ≤ C)
    (hle : h * C + g ≤ s.accepted.length)
    (hfire : ∀ w, s.dec_fire i w = decide (f ≤ w.val ∧ w.val < g)) :
    s.dec_ready i = decide (g = C) ∧ s.do_deq i = decide (g = C) := by
  have hC := Nat.pos_of_neZero C
  have hlt := hat.lt
  have hready : s.dec_ready i = decide (g = C) := by
    rw [dec_ready, hfire]
    exact decide_eq_decide.2 (by dsimp only; omega)
  refine ⟨hready, ?_⟩
  rw [do_deq, hready]
  by_cases hg : g = C
  · have hno : s.fb.will_hit_tail = false := by
      rw [FetchBuffer.will_hit_tail, ← Bool.not_eq_true, List.any_eq_true]
      rintro ⟨w, -, hw⟩
      rw [slot_will_hit_tail_iff hat] at hw
      have := w.isLt
      omega
    rw [hno, Bool.not_false, Bool.and_true]
  · simp [hg]

/-- Without a clear, decode takes the rest of the row and moves on to the next,
    or takes some more of it. -/
theorem at_next (hF : p.fetchWidth < R * C) (hat : s.At h f)
    (hok : s.idle = true → i.enq = none) (hs : i.sfence_valid = false)
    (hr : i.redirect_flush = false) : ∃ h' f', (s.next i).At h' f' := by
  obtain ⟨g, hfg, hgC, hle, hfire⟩ := exists_fire hat i
  obtain ⟨hready, hdeq⟩ := do_deq_eq hat hgC hle hfire
  have hC := Nat.pos_of_neZero C
  have hacc : (s.next i).accepted = s.accepted ++ s.accepting i := by simp [next, hs, hr]
  have hfd : (s.next i).fired = s.accepted.take (h * C + g) := by
    rw [← fired_append_firing hat hfg hgC hle hfire]
    simp [next, hs, hr]
  have hlen : s.accepted.length ≤ (s.next i).accepted.length := by
    rw [hacc, List.length_append]
    exact Nat.le_add_right _ _
  have hfits : (s.next i).accepted.length ≤ h * C + R * C := by
    rw [hacc]
    exact accepting_fits hF hat i
  have hholds : Holds (h * C) (s.next i).accepted ((s.next i).fb.ram, (s.next i).fb.tail) := by
    have htail : (s.next i).fb.tail = (s.fb.enqueued i).2 := by simp [next, fb_next, hs, hr]
    rw [hacc, htail]
    exact holds_enqueued hF hat i
  have htake : (s.next i).fired = (s.next i).accepted.take (h * C + g) := by
    rw [hfd, hacc, List.take_append_of_le_length hle]
  have hidle : (s.next i).idle = s.idle := by simp [next, hs, hr]
  have hnil : (s.next i).idle = true → (s.next i).accepted = [] := by
    rw [hidle, hacc]
    intro hi
    rw [hat.idle hi, accepting_of_idle hok hi]
    rfl
  by_cases hg : g = C
  · subst hg
    rw [decide_eq_true rfl] at hready hdeq
    have hhead : (s.next i).fb.head = inc s.fb.head := by simp [next, fb_next, hs, hr, hdeq]
    have hfull : (s.next i).fb.maybe_full = false := by simp [next, fb_next, hdeq]
    refine ⟨h + 1, 0, ?_, ?_, ?_, ?_, ?_, hC, fun _ => hfull, ?_, ?_, hnil⟩
    · rw [hhead, hat.head, inc_oneHot, wrapInc_place]
    · exact hholds.mono (Nat.mul_le_mul_right _ (Nat.le_succ h))
    · rw [htake, Nat.succ_mul, Nat.add_zero]
    · rw [Nat.succ_mul]
      omega
    · rw [Nat.succ_mul]
      omega
    · rw [Nat.succ_mul]
      omega
    · intro _ w
      simp [next, hready]
  · rw [decide_eq_false hg] at hready hdeq
    have hhead : (s.next i).fb.head = s.fb.head := by simp [next, fb_next, hs, hr, hdeq]
    have hfull : (s.next i).fb.maybe_full =
        (s.fb.do_enq && (FetchBuffer.lanes i).any Option.isSome || s.fb.maybe_full) := by
      simp [next, fb_next, hs, hr, hdeq]
    refine ⟨h, g, hhead.trans hat.head, hholds, htake, hle.trans hlen, hfits, by omega, ?_, ?_, ?_,
      hnil⟩
    · intro he
      rw [hacc, List.length_append] at he
      have hb := hat.base_le
      have hnil : s.accepting i = [] := List.eq_nil_of_length_eq_zero (by omega)
      rw [hfull, Bool.or_eq_false_iff, ← Bool.not_eq_true, accepting_ne_nil, not_not]
      exact ⟨hnil, hat.empty (by omega)⟩
    · intro he
      rw [hfull, Bool.or_eq_true, accepting_ne_nil]
      by_cases hnil : s.accepting i = []
      · rw [hacc, hnil, List.append_nil] at he
        exact .inr (hat.full he)
      · exact .inl hnil
    · intro hi w
      rw [hidle] at hi
      have hm : (s.next i).dec_finished_mask w = (s.dec_fire i w || s.dec_finished_mask w) := by
        simp [next, hready, hr]
      rw [hm, hfire, hat.mask hi, ← Bool.decide_or]
      exact decide_eq_decide.2 (by omega)

/-- A clear empties the buffer; after a redirect decode begins a new row. -/
theorem at_clear (hc : (i.sfence_valid || i.redirect_flush) = true) : (s.next i).At 0 0 := by
  have hacc : (s.next i).accepted = [] := by simp [next, hc]
  have htail : (s.next i).fb.tail = oneHot (place _ 0) := by simp [next, fb_next, hc]
  have hfull : (s.next i).fb.maybe_full = false := by simp [next, fb_next, hc]
  have hRC := Nat.pos_of_neZero (R * C)
  refine ⟨by simp [next, fb_next, hc], ⟨?_, ?_⟩, by simp [next, hc], ?_, ?_, Nat.pos_of_neZero C,
    fun _ => hfull, ?_, ?_, fun _ => hacc⟩
  · rw [hacc]
    exact htail
  · intro k _ hk
    rw [hacc] at hk
    exact absurd hk (Nat.not_lt_zero k)
  · rw [hacc]
    simp
  · rw [hacc]
    simp
  · rw [hacc]
    intro he
    rw [List.length_nil] at he
    omega
  · intro hi w
    rw [Bool.or_eq_true] at hc
    have hidle : i.sfence_valid = false := by
      simp only [next, Bool.or_eq_false_iff] at hi
      exact hi.1
    have hr : i.redirect_flush = true := hc.resolve_left (by simp [hidle])
    simp [next, hr]

theorem at_start (hstart : (fetchBuffer p R C).start s) : s.At 0 0 := by
  obtain ⟨hhead, htail, hfull, hmask, hacc, hfd, hidle⟩ := hstart
  have hRC := Nat.pos_of_neZero (R * C)
  refine ⟨hhead, ⟨by rw [hacc]; exact htail, fun k _ hk => ?_⟩, by simp [hacc, hfd], by simp [hacc],
    by simp [hacc], Nat.pos_of_neZero C, fun _ => hfull, fun he => ?_, fun _ w => by simp [hmask],
    fun _ => hacc⟩
  · rw [hacc] at hk
    exact absurd hk (Nat.not_lt_zero k)
  · rw [hacc, List.length_nil] at he
    omega

theorem at_reach (hF : p.fetchWidth < R * C) (hreach : (fetchBuffer p R C).Reach s) :
    ∃ h f, s.At h f := by
  refine hreach.inv (P := fun s => ∃ h f, s.At h f) (fun s h0 => ⟨0, 0, at_start h0⟩) ?_
  rintro s i ⟨h, f, hat⟩ hok
  by_cases hc : (i.sfence_valid || i.redirect_flush) = true
  · exact ⟨0, 0, at_clear hc⟩
  · rw [Bool.not_eq_true, Bool.or_eq_false_iff] at hc
    exact at_next hF hat hok hc.1 hc.2

/-- Decode takes something as long as something waits and nothing holds it up. -/
theorem firing_ne_nil (hat : s.At h f) (hwait : s.fired ≠ s.accepted)
    (hgo : ∀ w, s.dec_hazards i w = false) : s.firing i ≠ [] := by
  obtain ⟨g, hfg, hgC, hle, hfire⟩ := exists_fire hat i
  have hmore : h * C + f < s.accepted.length := by
    by_contra hlt
    exact hwait (by rw [hat.fired, List.take_of_length_le (by omega)])
  have hf : s.dec_fire i ⟨f, hat.lt⟩ = true := by
    rw [dec_fire, Bool.and_eq_true, dec_valids_iff hat, dec_stalls]
    refine ⟨⟨hmore, le_rfl⟩, ?_⟩
    simp [hgo]
  rw [hfire, decide_eq_true_iff] at hf
  intro hnil
  have happ := fired_append_firing hat hfg hgC hle hfire
  rw [hnil, List.append_nil, hat.fired] at happ
  have hlen := congrArg List.length happ
  rw [List.length_take, List.length_take] at hlen
  dsimp only at hf
  omega

end FetchSys

/-- **Every uop is decoded exactly once and in order**: since the last clear,
    decode fired the first of the accepted uops, and goes on with the next; the
    others are in the ring, and a packet is accepted only if all of it fits in
    behind them. -/
theorem exactly_once [NeZero R] [NeZero C] (hF : p.fetchWidth < R * C) {s : FetchSys p R C}
    (h : (fetchBuffer p R C).Reach s) :
    (∀ k, s.fired.length ≤ k → k < s.accepted.length →
      s.accepted[k]? = some (s.fb.ram (place _ k))) ∧
    ∀ i, s.fired ++ s.firing i <+: s.accepted ∧
      (s.accepted ++ s.accepting i).length ≤ s.fired.length + R * C ∧
      ((∀ w, s.dec_hazards i w = false) → s.fired ≠ s.accepted → s.firing i ≠ []) := by
  obtain ⟨r, f, hat⟩ := FetchSys.at_reach hF h
  have hlen : s.fired.length = r * C + f := by
    rw [hat.fired, List.length_take, Nat.min_eq_left hat.le]
  refine ⟨fun k hk hlt => hat.holds.2 k (by omega) hlt, fun i => ⟨?_, ?_, fun hgo hwait => ?_⟩⟩
  · obtain ⟨g, hfg, hgC, hle, hfire⟩ := FetchSys.exists_fire hat i
    rw [FetchSys.fired_append_firing hat hfg hgC hle hfire]
    exact List.take_prefix _ _
  · have := FetchSys.accepting_fits hF hat i
    omega
  · exact FetchSys.firing_ne_nil hat hwait hgo

/-- Packets of two parcels. -/
def twoWide : Params := ⟨8, 2, 1, 4, 64⟩

/-- A packet of two instructions. -/
def packet (mask : Fin 2 → Bool) (insts : Fin 2 → BitVec 32) : FetchPacket twoWide where
  pc := 0
  mask := mask
  sfbs _ := false
  shadowed_mask _ := false
  edge_inst _ := false
  ftq_idx := 0
  exp_insts := insts
  insts := insts
  cfi_idx_valid := false
  cfi_idx := 0
  xcpt_pf_if := false
  xcpt_ae_if := false
  bp_debug_if_oh _ := false
  bp_xcpt_if_oh _ := false
  fsrc := 0

/-- A cycle with or without a packet, in which decode may go on. -/
def quiet (enq : Option (FetchPacket twoWide)) : FetchIn twoWide 2 where
  enq := enq
  sfence_valid := false
  redirect_flush := false
  dis_ready := true
  rollback := false
  dec_xcpt_stall := false
  branch_mask_full _ := false
  b1_mispredict := false
  b2_mispredict := false

/-- The buffer after reset. -/
def resetBuffer : FetchSys twoWide 2 2 where
  fb := ⟨fun _ => in_uops (packet (fun _ => false) fun _ => 0) (0 : Fin 2), oneHot 0, oneHot 0,
    false⟩
  dec_finished_mask _ := false
  accepted := []
  fired := []
  idle := false

/-- A row that is shown half filled, of which the second slot waits for a branch
    tag when it is there. -/
def halfRow : List (FetchIn twoWide 2) :=
  [quiet (some (packet (fun w => w = 0) fun _ => 10)),
    quiet (some (packet (fun _ => true) fun w => if w = 0 then 11 else 12)),
    { quiet none with branch_mask_full := fun w => w = 1 }]

theorem halfRow_reach :
    (fetchBuffer twoWide 2 2).Reach ((fetchBuffer twoWide 2 2).run resetBuffer halfRow) := by
  have test : ∀ (s : FetchSys twoWide 2 2) (i : FetchIn twoWide 2),
      (!s.idle) = true → (fetchBuffer twoWide 2 2).ok s i := by
    intro s i h hi
    rw [hi] at h
    contradiction
  exact Machine.reach_run _ (.start ⟨rfl, rfl, rfl, fun _ => rfl, rfl, rfl, rfl⟩)
    (Machine.accepts_of_passes test _ _ (by decide))

theorem exactly_once_halfRow :
    let s := (fetchBuffer twoWide 2 2).run resetBuffer halfRow
    s.accepted.map MicroOp.inst = [10, 11, 12] ∧ s.fired.map MicroOp.inst = [10] ∧
      s.fired ++ s.firing (quiet none) <+: s.accepted :=
  ⟨by decide, by decide, ((exactly_once (by decide) halfRow_reach).2 (quiet none)).1⟩

end BoomStop.Ifu
