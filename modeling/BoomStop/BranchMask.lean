/-
  Branch tags (`decode.scala`, `core.scala`): `BranchMaskGenerationLogic` gives
  every branch a tag and every uop the mask of the branches it depends on; the
  branch units give the tags back, and a misprediction kills by mask.

  * `allocate_mask`, `curr_mask`: the tags as they are given out over a bundle;
  * `b1`, `oldest_mispredict`: the branch resolutions of a cycle, merged;
  * `branchMask`: the logic in the core, with the uops in flight, youngest
    first;
  * `tags_exact`: what `branch_mask` and the masks of the uops say.

  A uop that rename drops behind an exception (`flush_frontend`) counts as in
  flight until what removes the exception kills it as well.
-/
import BoomStop.Issue
import BoomStop.Rob
import BoomStop.Lib.SpecTags

namespace BoomStop.BranchMask

open Sync Issue SpecTags

variable {W T : ℕ}

/-- A uop from decode until it commits or is killed. -/
structure Uop (T : ℕ) where
  /-- uops are numbered as they are decoded -/
  number : ℕ
  /-- the tag of an unresolved branch -/
  tag : Option (Fin T)
  br_mask : Fin T → Bool
  /-- the branch unit has seen it -/
  executed : Bool

/-- A valid `BrResolutionInfo`; the mask is the one the uop had when it was
    executed. -/
structure BrInfo (T : ℕ) where
  number : ℕ
  br_tag : Fin T
  mispredict : Bool
  br_mask : Fin T → Bool
  rob_idx : ℕ

/-- The registers of the mask logic and of the branch resolution, and the uops
    in flight. -/
structure Sys (T : ℕ) where
  branch_mask : Fin T → Bool
  brinfos : List (BrInfo T)
  b2_mispredict : Bool
  b2_br_mask : Fin T → Bool
  /-- `RegNext(rob.io.flush.valid)` -/
  flush_pipeline : Bool
  live : List (Uop T)
  count : ℕ

/-- A branch in a branch unit. -/
structure Exe where
  number : ℕ
  mispredict : Bool
  rob_idx : ℕ

/-- The inputs of a cycle. -/
structure In (W : ℕ) where
  /-- the slot of the row is valid -/
  valid : Fin W → Bool
  dec_finished_mask : Fin W → Bool
  allocate_brtag : Fin W → Bool
  /-- the reasons to stall decode other than those of the branches -/
  stall : Fin W → Bool
  exe : List Exe
  rob_flush : Bool
  rob_head_idx : ℕ
  commits : ℕ

namespace Sys

variable (s : Sys T) (i : In W)

/-! ## Resolution -/

/-- `brupdate.b1`. -/
def b1 : BrUpdate T where
  resolve_mask t := s.brinfos.any fun b => decide (b.br_tag = t)
  mispredict_mask t := s.brinfos.any fun b => b.mispredict && decide (b.br_tag = t)

/-- `use_this_mispredict`. -/
def older (head : ℕ) (old : Option (BrInfo T)) (b : BrInfo T) : Option (BrInfo T) :=
  match old with
  | none => if b.mispredict then some b else none
  | some o => if b.mispredict && Reorder.isOlder b.rob_idx o.rob_idx head then some b else some o

/-- The oldest of the mispredicted branches. -/
def oldest_mispredict : Option (BrInfo T) := s.brinfos.foldl (older i.rob_head_idx) none

/-! ## Decode -/

/-- `io.is_branch` -/
def is_branch (w : Fin W) : Bool := !i.dec_finished_mask w && i.allocate_brtag w

/-- The lowest free tag. -/
def freeTag (m : Fin T → Bool) : Option (Fin T) := (List.finRange T).find? fun t => !m t

/-- The tags that are taken when slot `k` chooses: each slot that may hold a
    branch takes one. -/
def allocate_mask : ℕ → Fin T → Bool
  | 0 => s.branch_mask
  | k + 1 => fun t => allocate_mask k t ||
      (if h : k < W then is_branch i ⟨k, h⟩ else false) && decide (freeTag (allocate_mask k) = some t)

/-- `io.br_tag`: the tag that is given to the branch. -/
def br_tag (w : Fin W) : Option (Fin T) := freeTag (s.allocate_mask i w)

/-- `io.is_full`: the branch finds no tag. -/
def is_full (w : Fin W) : Bool := ((List.finRange T).all fun t => s.allocate_mask i w t) && is_branch i w

/-- `dec_valids`. -/
def dec_valids (w : Fin W) : Bool := i.valid w && !i.dec_finished_mask w

/-- Decode also waits for a free tag, and while a misprediction or a flush is
    under way. -/
def dec_hazards (w : Fin W) : Bool :=
  dec_valids i w && (i.stall w || s.is_full i w || s.brinfos.any BrInfo.mispredict ||
    s.b2_mispredict || s.flush_pipeline)

/-- `dec_fire`. -/
def dec_fire (w : Fin W) : Bool :=
  dec_valids i w && !(List.finRange W).any fun w' => decide (w' ≤ w) && s.dec_hazards i w'

/-- `io.will_fire`: a branch is decoded. -/
def will_fire (w : Fin W) : Bool := s.dec_fire i w && i.allocate_brtag w

/-- The mask of slot `k`: the tags of the branches that fire before it are
    added. -/
def curr_mask : ℕ → Fin T → Bool
  | 0 => s.branch_mask
  | k + 1 => fun t => curr_mask k t ||
      (if h : k < W then s.will_fire i ⟨k, h⟩ && decide (s.br_tag i ⟨k, h⟩ = some t) else false)

/-- `io.br_mask`: the branches that the uop depends on. -/
def br_mask (w : Fin W) : Fin T → Bool := getNewBrMask s.b1 (s.curr_mask i w)

/-- The uops that fire in the slots before `k`, youngest first. -/
def decoded : ℕ → List (Uop T)
  | 0 => []
  | k + 1 =>
    if h : k < W then
      if s.dec_fire i ⟨k, h⟩ then
        { number := s.count + (decoded k).length
          tag := if i.allocate_brtag ⟨k, h⟩ then s.br_tag i ⟨k, h⟩ else none
          br_mask := s.br_mask i ⟨k, h⟩
          executed := false } :: decoded k
      else decoded k
    else decoded k

/-! ## One cycle -/

/-- A branch kills the uop. -/
def killed (u : Uop T) : Bool := isKilledByBranch s.b1 u.br_mask

/-- The uops that the misprediction leaves. -/
def survivors : List (Uop T) := s.live.filter fun u => !s.killed u

/-- What every uop does every cycle. -/
def update (u : Uop T) : Uop T :=
  { u with
    tag := u.tag.filter fun t => !s.b1.resolve_mask t
    br_mask := getNewBrMask s.b1 u.br_mask
    executed := u.executed || i.exe.any fun e => decide (e.number = u.number) }

/-- The branch information of a branch unit, unless its uop is killed. -/
def brinfo (e : Exe) : Option (BrInfo T) :=
  (s.live.find? fun u => u.number = e.number).bind fun u => u.tag.bind fun t =>
    if s.flush_pipeline || s.killed u then none
    else some ⟨u.number, t, e.mispredict, u.br_mask, e.rob_idx⟩

/-- One cycle. -/
def next : Sys T where
  branch_mask t :=
    !s.flush_pipeline && getNewBrMask s.b1 (s.curr_mask i W) t && (!s.b2_mispredict || s.b2_br_mask t)
  brinfos := if i.rob_flush then [] else i.exe.filterMap s.brinfo
  b2_mispredict := s.brinfos.any BrInfo.mispredict
  b2_br_mask :=
    match s.oldest_mispredict i with
    | some b => getNewBrMask s.b1 b.br_mask
    | none => s.b2_br_mask
  flush_pipeline := i.rob_flush
  live :=
    if s.flush_pipeline then []
    else (s.decoded i W ++ s.survivors.take (s.survivors.length - i.commits)).map (s.update i)
  count := s.count + (s.decoded i W).length

/-- What the rest of the core promises. -/
structure Ok : Prop where
  /-- a branch unit has a live branch that it has not seen before -/
  exe : ∀ e ∈ i.exe, ∃ u ∈ s.live, u.number = e.number ∧ u.tag.isSome ∧ u.executed = false
  /-- the reorder buffer indices go with the program order -/
  order : ∀ b ∈ s.brinfos, ∀ b' ∈ s.brinfos,
    Reorder.isOlder b.rob_idx b'.rob_idx i.rob_head_idx = true ↔ b.number < b'.number
  /-- branches commit when they are resolved -/
  commit : ∀ u ∈ s.survivors.drop (s.survivors.length - i.commits), (s.update i u).tag = none

end Sys

/-- The mask logic in the core. -/
def branchMask (W T : ℕ) : Machine (Sys T) (In W) where
  start s := (∀ t, s.branch_mask t = false) ∧ s.brinfos = [] ∧ s.b2_mispredict = false ∧
    s.flush_pipeline = false ∧ s.live = []
  ok s i := s.Ok i
  next s i := s.next i

/-! ## Tags as they are given out -/

namespace Sys

variable {s : Sys T} {i : In W} {t : Fin T} {k : ℕ}

theorem freeTag_free {m : Fin T → Bool} (h : freeTag m = some t) : m t = false := by
  simpa using List.find?_some h

theorem is_branch_of_will_fire {w : Fin W} (h : s.will_fire i w = true) : is_branch i w = true := by
  rw [will_fire, Bool.and_eq_true, dec_fire, Bool.and_eq_true, dec_valids, Bool.and_eq_true] at h
  rw [is_branch, h.1.1.2, h.2]
  rfl

/-- What holds up every slot holds up the whole row. -/
theorem not_hazard {w : Fin W} (h : s.dec_fire i w = true) :
    s.is_full i w = false ∧ s.brinfos.any BrInfo.mispredict = false ∧ s.b2_mispredict = false ∧
      s.flush_pipeline = false := by
  rw [dec_fire, Bool.and_eq_true, Bool.not_eq_true', ← Bool.not_eq_true, List.any_eq_true] at h
  obtain ⟨hv, hno⟩ := h
  have hw : s.dec_hazards i w = false := by
    by_contra hw
    exact hno ⟨w, List.mem_finRange w, by simpa using hw⟩
  simp only [dec_hazards, hv, Bool.true_and, Bool.or_eq_false_iff] at hw
  exact ⟨hw.1.1.1.2, hw.1.1.2, hw.1.2, hw.2⟩

theorem allocate_mask_succ : s.allocate_mask i (k + 1) t = (s.allocate_mask i k t ||
    (if h : k < W then is_branch i ⟨k, h⟩ else false) &&
      decide (freeTag (s.allocate_mask i k) = some t)) := rfl

theorem curr_mask_succ : s.curr_mask i (k + 1) t = (s.curr_mask i k t ||
    (if h : k < W then s.will_fire i ⟨k, h⟩ && decide (s.br_tag i ⟨k, h⟩ = some t) else false)) :=
  rfl

theorem branch_mask_le_curr_mask (h : s.branch_mask t = true) : s.curr_mask i k t = true := by
  induction k with
  | zero => exact h
  | succ k ih => rw [curr_mask_succ, ih, Bool.true_or]

/-- The tags of the branches that fire are among those given out. -/
theorem curr_mask_le_allocate_mask (h : s.curr_mask i k t = true) :
    s.allocate_mask i k t = true := by
  induction k with
  | zero => exact h
  | succ k ih =>
    rw [curr_mask_succ, Bool.or_eq_true] at h
    rw [allocate_mask_succ, Bool.or_eq_true]
    rcases h with h | h
    · exact .inl (ih h)
    · split_ifs at h with hk
      rw [Bool.and_eq_true, decide_eq_true_iff] at h
      right
      rw [dif_pos hk, is_branch_of_will_fire h.1, Bool.true_and, decide_eq_true_iff]
      exact h.2

/-- The tag of a slot is not yet in the mask it gets. -/
theorem br_tag_fresh {w : Fin W} (h : s.br_tag i w = some t) : s.curr_mask i w t = false := by
  by_contra hc
  have ha := curr_mask_le_allocate_mask (Bool.eq_true_of_not_eq_false hc)
  rw [freeTag_free h] at ha
  contradiction

/-- Nothing is decoded while a misprediction or a flush is under way. -/
theorem decoded_idle (h : ∀ w, s.dec_fire i w = false) :
    s.decoded i k = [] ∧ s.curr_mask i k = s.branch_mask := by
  induction k with
  | zero => exact ⟨rfl, rfl⟩
  | succ k ih =>
    constructor
    · rw [decoded]
      split_ifs with hk hf
      · rw [h] at hf
        contradiction
      · exact ih.1
      · exact ih.1
    · funext t
      rw [curr_mask_succ, ih.2]
      split_ifs with hk
      · rw [will_fire, h, Bool.false_and, Bool.false_and, Bool.or_false]
      · exact Bool.or_false _

/-! ## The invariant -/

/-- The tags that `branch_mask` stands for: in the cycle after a misprediction
    it still has those of the branches that were killed. -/
def mask (s : Sys T) (t : Fin T) : Bool := s.branch_mask t && (!s.b2_mispredict || s.b2_br_mask t)

/-- The branch information of a branch that is in flight: what its mask has too
    much was given back in the last cycle. -/
structure Info (s : Sys T) (b : BrInfo T) (u : Uop T) : Prop where
  mem : u ∈ s.live
  number : u.number = b.number
  tag : u.tag = some b.br_tag
  executed : u.executed = true
  le : ∀ t, u.br_mask t = true → b.br_mask t = true
  stale : ∀ t, b.br_mask t = true → u.br_mask t = true ∨ s.branch_mask t = false

/-- The invariant: a mask has the tags of the older branches in flight. -/
structure Inv (s : Sys T) : Prop where
  exact : Exact Uop.tag Uop.br_mask s.live
  mask : ∀ t, s.mask t = true ↔ Held Uop.tag s.live t
  sorted : s.live.Pairwise fun u v => v.number < u.number
  lt : ∀ u ∈ s.live, u.number < s.count
  infos : ∀ b ∈ s.brinfos, ∃ u, s.Info b u

theorem inv_start (h : (branchMask W T).start s) : s.Inv := by
  obtain ⟨hm, hb, -, -, hl⟩ := h
  refine ⟨?_, fun t => ?_, ?_, ?_, ?_⟩
  · rw [hl]
    trivial
  · simp [Sys.mask, hm, hl, Held]
  · simp [hl]
  · simp [hl]
  · simp [hb]

theorem eq_of_number (h : s.Inv) {u v : Uop T} (hu : u ∈ s.live) (hv : v ∈ s.live)
    (he : u.number = v.number) : u = v := by
  have hnd : (s.live.map Uop.number).Nodup := by
    rw [List.Nodup, List.pairwise_map]
    exact h.sorted.imp fun hlt => Nat.ne_of_gt hlt
  exact List.inj_on_of_nodup_map hnd hu hv he

/-- A uop and what is older than it. -/
theorem exists_older (h : s.Inv) {u : Uop T} (hu : u ∈ s.live) :
    ∃ young older, s.live = young ++ u :: older ∧ (∀ v ∈ young, u.number < v.number) ∧
      (∀ v ∈ older, v.number < u.number) ∧
      (∀ t, u.br_mask t = true ↔ Held Uop.tag older t) ∧
      ∀ t, u.tag = some t → ¬ Held Uop.tag older t := by
  obtain ⟨young, older, hsplit⟩ := List.append_of_mem hu
  have hsorted := h.sorted
  have hexact := h.exact
  rw [hsplit] at hsorted hexact
  obtain ⟨-, htail, hcross⟩ := List.pairwise_append.1 hsorted
  obtain ⟨hm, ht, -⟩ := exact_suffix hexact
  exact ⟨young, older, hsplit, fun v hv => hcross v hv u List.mem_cons_self,
    (List.pairwise_cons.1 htail).1, hm, ht⟩

/-- **A mask names the older branches.** -/
theorem br_mask_iff (h : s.Inv) {u : Uop T} (hu : u ∈ s.live) :
    u.br_mask t = true ↔ ∃ v ∈ s.live, v.tag = some t ∧ v.number < u.number := by
  obtain ⟨young, older, hsplit, hyoung, holder, hm, -⟩ := exists_older h hu
  rw [hm]
  constructor
  · rintro ⟨v, hv, ht⟩
    exact ⟨v, by rw [hsplit]; simp [hv], ht, holder v hv⟩
  · rintro ⟨v, hv, ht, hlt⟩
    rw [hsplit, List.mem_append, List.mem_cons] at hv
    rcases hv with hv | rfl | hv
    · exact absurd (hyoung v hv) (by omega)
    · omega
    · exact ⟨v, hv, ht⟩

/-- **No two branches hold the same tag.** -/
theorem eq_of_tag (h : s.Inv) {u v : Uop T} (hu : u ∈ s.live) (hv : v ∈ s.live)
    (htu : u.tag = some t) (htv : v.tag = some t) : u = v := by
  have hle : ∀ {u v : Uop T}, u ∈ s.live → v ∈ s.live → u.tag = some t → v.tag = some t →
      u.number ≤ v.number := by
    intro u v hu hv htu htv
    by_contra hlt
    have hm := (br_mask_iff h hu).2 ⟨v, hv, htv, by omega⟩
    obtain ⟨-, older, -, -, -, hmask, hfresh⟩ := exists_older h hu
    exact hfresh t htu ((hmask t).1 hm)
  exact eq_of_number h hu hv (le_antisymm (hle hu hv htu htv) (hle hv hu htv htu))

theorem killed_iff {u : Uop T} : s.killed u = true ↔
    ∃ t, s.b1.mispredict_mask t = true ∧ u.br_mask t = true := by
  simp [killed, isKilledByBranch, List.any_eq_true]

/-- **A misprediction kills precisely the younger uops.** -/
theorem killed_iff_younger (h : s.Inv) {u : Uop T} (hu : u ∈ s.live) :
    s.killed u = true ↔ ∃ b ∈ s.brinfos, b.mispredict = true ∧ b.number < u.number := by
  rw [killed_iff]
  simp only [b1, List.any_eq_true, Bool.and_eq_true, decide_eq_true_eq, br_mask_iff h hu]
  constructor
  · rintro ⟨t, ⟨b, hb, hmis, rfl⟩, v, hv, htv, hlt⟩
    obtain ⟨w, hw⟩ := h.infos b hb
    obtain rfl := eq_of_tag h hw.mem hv hw.tag htv
    exact ⟨b, hb, hmis, by rw [← hw.number]; exact hlt⟩
  · rintro ⟨b, hb, hmis, hlt⟩
    obtain ⟨w, hw⟩ := h.infos b hb
    exact ⟨b.br_tag, ⟨b, hb, hmis, rfl⟩, w, hw.mem, hw.tag, by rw [hw.number]; exact hlt⟩

/-! ## The oldest misprediction -/

/-- What the merge of the branch units is for. -/
def Oldest (l : List (BrInfo T)) : Option (BrInfo T) → Prop
  | none => ∀ b ∈ l, b.mispredict = false
  | some o => o ∈ l ∧ o.mispredict = true ∧ ∀ b ∈ l, b.mispredict = true → o.number ≤ b.number

theorem oldest_foldl {l : List (BrInfo T)} {head : ℕ}
    (hord : ∀ b ∈ l, ∀ b' ∈ l,
      Reorder.isOlder b.rob_idx b'.rob_idx head = true ↔ b.number < b'.number) :
    Oldest l (l.foldl (older head) none) := by
  induction l using List.reverseRecOn with
  | nil =>
    intro b hb
    contradiction
  | append_singleton l b ih =>
    have ih := ih fun b hb b' hb' =>
      hord b (List.mem_append_left _ hb) b' (List.mem_append_left _ hb')
    have hb : b ∈ l ++ [b] := List.mem_append_right _ List.mem_cons_self
    rw [List.foldl_concat]
    cases ho : l.foldl (older head) none with
    | none =>
      rw [ho] at ih
      rw [older]
      split_ifs with hm
      · refine ⟨hb, hm, fun b' hb' hm' => ?_⟩
        rcases List.mem_append.1 hb' with h | h
        · rw [ih b' h] at hm'
          contradiction
        · rw [List.mem_singleton.1 h]
      · intro b' hb'
        rcases List.mem_append.1 hb' with h | h
        · exact ih b' h
        · rw [List.mem_singleton.1 h]
          exact Bool.eq_false_of_not_eq_true hm
    | some o =>
      rw [ho] at ih
      obtain ⟨hmem, hmis, hmin⟩ := ih
      have hord := hord b hb o (List.mem_append_left _ hmem)
      rw [older]
      split_ifs with hm
      · rw [Bool.and_eq_true, hord] at hm
        refine ⟨hb, hm.1, fun b' hb' hm' => ?_⟩
        rcases List.mem_append.1 hb' with h | h
        · exact hm.2.le.trans (hmin b' h hm')
        · rw [List.mem_singleton.1 h]
      · refine ⟨List.mem_append_left _ hmem, hmis, fun b' hb' hm' => ?_⟩
        rcases List.mem_append.1 hb' with h | h
        · exact hmin b' h hm'
        · rw [List.mem_singleton.1 h] at hm' ⊢
          rw [hm', Bool.true_and, hord] at hm
          exact not_lt.1 hm

/-! ## Decode keeps the masks exact -/

theorem resolve_mask_iff : s.b1.resolve_mask t = true ↔ ∃ b ∈ s.brinfos, b.br_tag = t := by
  simp [b1, List.any_eq_true]

/-- What is given back is held. -/
theorem held_of_resolve (h : s.Inv) (ht : s.b1.resolve_mask t = true) : Held Uop.tag s.live t := by
  obtain ⟨b, hb, rfl⟩ := resolve_mask_iff.1 ht
  obtain ⟨u, hu⟩ := h.infos b hb
  exact ⟨u, hu.mem, hu.tag⟩

theorem branch_mask_of_held (h : s.Inv) (ht : Held Uop.tag s.live t) : s.branch_mask t = true :=
  (Bool.and_eq_true_iff.1 ((h.mask t).2 ht)).1

@[simp]
theorem update_tag (u : Uop T) : (s.update i u).tag = u.tag.filter fun t => !s.b1.resolve_mask t :=
  rfl

@[simp]
theorem update_br_mask (u : Uop T) :
    (s.update i u).br_mask t = (u.br_mask t && !s.b1.resolve_mask t) := rfl

theorem held_update (l : List (Uop T)) :
    Held Uop.tag (l.map (s.update i)) t ↔ Held Uop.tag l t ∧ s.b1.resolve_mask t = false :=
  held_map update_tag

theorem exact_update {l : List (Uop T)} (h : Exact Uop.tag Uop.br_mask l) :
    Exact Uop.tag Uop.br_mask (l.map (s.update i)) :=
  exact_map update_tag (fun _ _ => update_br_mask _) h

theorem br_mask_eq (w : Fin W) :
    s.br_mask i w t = (s.curr_mask i w t && !s.b1.resolve_mask t) := rfl

/-- The decoded uops on top of those in flight, as the cycle leaves them. -/
structure Decoded (s : Sys T) (i : In W) (k : ℕ) : Prop where
  exact : Exact Uop.tag Uop.br_mask (s.decoded i k ++ s.live.map (s.update i))
  held : ∀ t, Held Uop.tag (s.decoded i k ++ s.live.map (s.update i)) t ↔
    s.curr_mask i k t = true ∧ s.b1.resolve_mask t = false

theorem decoded_succ {hk : k < W} (hf : s.dec_fire i ⟨k, hk⟩ = true) :
    ∃ u, s.decoded i (k + 1) = u :: s.decoded i k ∧
      u.number = s.count + (s.decoded i k).length ∧ u.br_mask = s.br_mask i ⟨k, hk⟩ ∧
      u.executed = false ∧
      ∀ t, u.tag = some t ↔ s.will_fire i ⟨k, hk⟩ = true ∧ s.br_tag i ⟨k, hk⟩ = some t := by
  refine ⟨_, by rw [decoded, dif_pos hk, if_pos hf], rfl, rfl, rfl, fun t => ?_⟩
  simp only [will_fire, hf, Bool.true_and]
  split_ifs with ha
  · simp [ha]
  · simp [ha]

theorem decoded_skip (hf : ∀ hk : k < W, s.dec_fire i ⟨k, hk⟩ = false) :
    s.decoded i (k + 1) = s.decoded i k ∧ s.curr_mask i (k + 1) = s.curr_mask i k := by
  constructor
  · by_cases hk : k < W
    · rw [decoded, dif_pos hk, hf hk]
      rfl
    · rw [decoded, dif_neg hk]
  · funext t
    rw [curr_mask_succ]
    split_ifs with hk
    · rw [will_fire, hf hk, Bool.false_and, Bool.false_and, Bool.or_false]
    · exact Bool.or_false _

theorem decoded_exact (h : s.Inv) (hb2 : s.b2_mispredict = false) : s.Decoded i k := by
  induction k with
  | zero =>
    refine ⟨exact_update h.exact, fun t => ?_⟩
    rw [decoded, List.nil_append, held_update, ← h.mask, Sys.mask, hb2]
    simp [curr_mask]
  | succ k ih =>
    by_cases hf : ∃ hk : k < W, s.dec_fire i ⟨k, hk⟩ = true
    · obtain ⟨hk, hf⟩ := hf
      obtain ⟨u, hcons, -, hmask, -, htag⟩ := decoded_succ hf
      -- a tag that is given out now is not given back now
      have hfresh : ∀ t, u.tag = some t →
          s.curr_mask i k t = false ∧ s.b1.resolve_mask t = false := by
        intro t ht
        have hc := br_tag_fresh ((htag t).1 ht).2
        refine ⟨hc, ?_⟩
        by_contra hr
        have hm := branch_mask_of_held h (held_of_resolve h (Bool.eq_true_of_not_eq_false hr))
        rw [branch_mask_le_curr_mask hm] at hc
        contradiction
      have hheld : ∀ t, s.curr_mask i (k + 1) t = true ↔ u.tag = some t ∨ s.curr_mask i k t = true := by
        intro t
        rw [curr_mask_succ, dif_pos hk, htag]
        simp [or_comm]
      constructor
      · rw [hcons]
        refine ⟨fun t => ?_, fun t ht hh => ?_, ih.exact⟩
        · rw [hmask, br_mask_eq]
          exact Iff.trans (by simp) (ih.held t).symm
        · have hc := ((ih.held t).1 hh).1
          rw [(hfresh t ht).1] at hc
          contradiction
      · intro t
        rw [hcons, List.cons_append, held_cons, ih.held, hheld]
        constructor
        · rintro (ht | ⟨hc, hr⟩)
          · exact ⟨.inl ht, (hfresh t ht).2⟩
          · exact ⟨.inr hc, hr⟩
        · rintro ⟨ht | hc, hr⟩
          · exact .inl ht
          · exact .inr ⟨hc, hr⟩
    · push Not at hf
      obtain ⟨hd, hc⟩ := decoded_skip fun hk => Bool.eq_false_of_not_eq_true (hf hk)
      constructor
      · rw [hd]
        exact ih.exact
      · intro t
        rw [hd, hc]
        exact ih.held t

theorem number_decoded {u : Uop T} (hu : u ∈ s.decoded i k) :
    s.count ≤ u.number ∧ u.number < s.count + (s.decoded i k).length := by
  induction k with
  | zero => contradiction
  | succ k ih =>
    by_cases hf : ∃ hk : k < W, s.dec_fire i ⟨k, hk⟩ = true
    · obtain ⟨hk, hf⟩ := hf
      obtain ⟨v, hcons, hv, -⟩ := decoded_succ hf
      rw [hcons] at hu ⊢
      rw [List.length_cons]
      rcases List.mem_cons.1 hu with rfl | hu
      · omega
      · have := ih hu
        omega
    · push Not at hf
      obtain ⟨hd, -⟩ := decoded_skip fun hk => Bool.eq_false_of_not_eq_true (hf hk)
      rw [hd] at hu ⊢
      exact ih hu

theorem sorted_decoded : (s.decoded i k).Pairwise fun u v => v.number < u.number := by
  induction k with
  | zero => exact List.Pairwise.nil
  | succ k ih =>
    by_cases hf : ∃ hk : k < W, s.dec_fire i ⟨k, hk⟩ = true
    · obtain ⟨hk, hf⟩ := hf
      obtain ⟨v, hcons, hv, -⟩ := decoded_succ hf
      rw [hcons]
      refine List.pairwise_cons.2 ⟨fun u hu => ?_, ih⟩
      rw [hv]
      exact (number_decoded hu).2
    · push Not at hf
      obtain ⟨hd, -⟩ := decoded_skip fun hk => Bool.eq_false_of_not_eq_true (hf hk)
      rw [hd]
      exact ih

theorem mem_decoded {u : Uop T} (hu : u ∈ s.decoded i k) :
    u.executed = false ∧ ∃ w, u.br_mask = s.br_mask i w := by
  induction k with
  | zero => contradiction
  | succ k ih =>
    by_cases hf : ∃ hk : k < W, s.dec_fire i ⟨k, hk⟩ = true
    · obtain ⟨hk, hf⟩ := hf
      obtain ⟨v, hcons, -, hmask, hex, -⟩ := decoded_succ hf
      rw [hcons] at hu
      rcases List.mem_cons.1 hu with rfl | hu
      · exact ⟨hex, ⟨k, hk⟩, hmask⟩
      · exact ih hu
    · push Not at hf
      obtain ⟨hd, -⟩ := decoded_skip fun hk => Bool.eq_false_of_not_eq_true (hf hk)
      rw [hd] at hu
      exact ih hu

/-! ## A misprediction -/

theorem dec_fire_false (h : s.brinfos.any BrInfo.mispredict = true ∨ s.b2_mispredict = true ∨
    s.flush_pipeline = true) (w : Fin W) : s.dec_fire i w = false := by
  by_contra hf
  obtain ⟨-, hb1, hb2, hfl⟩ := not_hazard (Bool.eq_true_of_not_eq_false hf)
  rw [hb1, hb2, hfl] at h
  simp at h

theorem survivors_quiet (h : ∀ b ∈ s.brinfos, b.mispredict = false) : s.survivors = s.live := by
  rw [survivors, List.filter_eq_self]
  intro u _
  have hk : s.killed u = false := by
    by_contra hk
    obtain ⟨t, ht, -⟩ := killed_iff.1 (Bool.eq_true_of_not_eq_false hk)
    obtain ⟨b, hb, hm⟩ := List.any_eq_true.1 ht
    rw [h b hb, Bool.false_and] at hm
    contradiction
  rw [hk]
  rfl

/-- What a misprediction leaves are the oldest of the branches that were
    mispredicted and what is older. -/
theorem survivors_mispredict (h : s.Inv) {o : BrInfo T} (ho : Oldest s.brinfos (some o)) :
    ∃ u young older, s.Info o u ∧ s.live = young ++ u :: older ∧ s.survivors = u :: older ∧
      ∀ t, u.br_mask t = true ↔ Held Uop.tag older t := by
  obtain ⟨hmem, hmis, hmin⟩ := ho
  obtain ⟨u, hu⟩ := h.infos o hmem
  obtain ⟨young, older, hsplit, hyoung, holder, hmask, -⟩ := exists_older h hu.mem
  refine ⟨u, young, older, hu, hsplit, ?_, hmask⟩
  have hkilled : ∀ v ∈ s.live, s.killed v = true ↔ u.number < v.number := by
    intro v hv
    rw [killed_iff_younger h hv, hu.number]
    constructor
    · rintro ⟨b, hb, hm, hlt⟩
      exact (hmin b hb hm).trans_lt hlt
    · exact fun hlt => ⟨o, hmem, hmis, hlt⟩
  rw [hsplit] at hkilled
  rw [survivors, hsplit, List.filter_append, List.filter_eq_nil_iff.2, List.filter_eq_self.2,
    List.nil_append]
  · intro v hv
    have hle : v.number ≤ u.number := by
      rcases List.mem_cons.1 hv with rfl | hv
      · exact le_rfl
      · exact (holder v hv).le
    rw [Bool.not_eq_true', ← Bool.not_eq_true, hkilled v (List.mem_append_right _ hv)]
    exact not_lt.2 hle
  · intro v hv
    rw [Bool.not_eq_true', ← Bool.not_eq_true, not_not, hkilled v (List.mem_append_left _ hv)]
    exact hyoung v hv

/-! ## One cycle keeps the masks exact -/

theorem next_branch_mask (hfl : s.flush_pipeline = false) : (s.next i).branch_mask t =
    ((s.curr_mask i W t && !s.b1.resolve_mask t) && (!s.b2_mispredict || s.b2_br_mask t)) := by
  rw [next, hfl]
  rfl

/-- The uops of the next cycle but for those that commit. -/
def kept (s : Sys T) (i : In W) : List (Uop T) := s.decoded i W ++ s.survivors.map (s.update i)

/-- What is left of the uops in flight after a cycle. -/
structure Kept (s : Sys T) (i : In W) : Prop where
  exact : Exact Uop.tag Uop.br_mask (s.kept i)
  held : ∀ t, Held Uop.tag (s.kept i) t ↔ (s.next i).mask t = true

theorem kept_quiet (h : s.Inv) (hfl : s.flush_pipeline = false)
    (hq : s.brinfos.any BrInfo.mispredict = false) : s.Kept i := by
  have hlive := survivors_quiet fun b hb =>
    Bool.eq_false_of_not_eq_true (List.any_eq_false.1 hq b hb)
  have hmask : ∀ t, (s.next i).mask t = (s.next i).branch_mask t := by
    intro t
    rw [Sys.mask, show (s.next i).b2_mispredict = false from hq]
    simp
  cases hb2 : s.b2_mispredict with
  | false =>
    obtain ⟨hexact, hheld⟩ := decoded_exact (i := i) (k := W) h hb2
    refine ⟨?_, fun t => ?_⟩
    · rw [kept, hlive]
      exact hexact
    · rw [kept, hlive, hheld, hmask, next_branch_mask hfl, hb2]
      simp
  | true =>
    obtain ⟨hd, hc⟩ := decoded_idle (k := W) (dec_fire_false (i := i) (.inr (.inl hb2)))
    refine ⟨?_, fun t => ?_⟩
    · rw [kept, hd, hlive, List.nil_append]
      exact exact_update h.exact
    · rw [kept, hd, hlive, List.nil_append, held_update, ← h.mask, Sys.mask, hmask,
        next_branch_mask hfl, hc]
      simp only [Bool.and_eq_true, Bool.not_eq_true']
      tauto

theorem kept_mispredict (h : s.Inv) (hok : s.Ok i) (hfl : s.flush_pipeline = false)
    (hm : s.brinfos.any BrInfo.mispredict = true) : s.Kept i := by
  have hold := oldest_foldl hok.order
  change Oldest s.brinfos (s.oldest_mispredict i) at hold
  obtain ⟨hd, hc⟩ := decoded_idle (k := W) (dec_fire_false (i := i) (.inl hm))
  cases ho : s.oldest_mispredict i with
  | none =>
    rw [ho] at hold
    obtain ⟨b, hb, hmis⟩ := List.any_eq_true.1 hm
    rw [hold b hb] at hmis
    contradiction
  | some o =>
    rw [ho] at hold
    obtain ⟨u, young, older, hu, hsplit, hsurv, hmask⟩ := survivors_mispredict h hold
    have hexact := h.exact
    rw [hsplit] at hexact
    refine ⟨?_, fun t => ?_⟩
    · rw [kept, hd, hsurv, List.nil_append]
      exact exact_update (exact_suffix hexact)
    · -- of the tags that are left, the branch itself has one, which goes back
      have hres : s.b1.resolve_mask t = false → u.tag ≠ some t := by
        intro hr ht
        rw [hu.tag, Option.some.injEq] at ht
        rw [resolve_mask_iff.2 ⟨o, hold.1, ht⟩] at hr
        contradiction
      have hkept : Held Uop.tag (s.kept i) t ↔
          u.br_mask t = true ∧ s.b1.resolve_mask t = false := by
        rw [kept, hd, hsurv, List.nil_append, held_update, held_cons, ← hmask]
        constructor
        · rintro ⟨ht | ht, hr⟩
          · exact absurd ht (hres hr)
          · exact ⟨ht, hr⟩
        · exact fun ⟨ht, hr⟩ => ⟨.inr ht, hr⟩
      have hstale : s.mask t = true ∧ o.br_mask t = true ↔ u.br_mask t = true := by
        constructor
        · rintro ⟨ht, hb⟩
          rcases hu.stale t hb with h | h
          · exact h
          · rw [Sys.mask, h, Bool.false_and] at ht
            contradiction
        · refine fun ht => ⟨(h.mask t).2 ?_, hu.le t ht⟩
          rw [hsplit, held_append]
          exact .inr (held_cons.2 (.inr ((hmask t).1 ht)))
      have hb2 : (s.next i).b2_br_mask t = (o.br_mask t && !s.b1.resolve_mask t) := by
        rw [next, ho]
        rfl
      rw [hkept, ← hstale, Sys.mask, Sys.mask, next_branch_mask hfl, hc, hb2,
        show (s.next i).b2_mispredict = true from hm]
      simp only [Bool.and_eq_true, Bool.not_eq_true', Bool.not_true, Bool.false_or]
      tauto

theorem kept_next (h : s.Inv) (hok : s.Ok i) (hfl : s.flush_pipeline = false) : s.Kept i := by
  cases hm : s.brinfos.any BrInfo.mispredict with
  | false => exact kept_quiet h hfl hm
  | true => exact kept_mispredict h hok hfl hm

/-- The uops of this cycle are decoded with what it gives back already taken
    into account. -/
theorem update_decoded (h : s.Inv) (hok : s.Ok i) (hb2 : s.b2_mispredict = false) {u : Uop T}
    (hu : u ∈ s.decoded i k) : s.update i u = u := by
  obtain ⟨hex, w, hmask⟩ := mem_decoded hu
  have htag : (u.tag.filter fun t => !s.b1.resolve_mask t) = u.tag := by
    cases ht : u.tag with
    | none => rfl
    | some t =>
      have hheld : Held Uop.tag (s.decoded i k ++ s.live.map (s.update i)) t :=
        ⟨u, List.mem_append_left _ hu, ht⟩
      have hr := (((decoded_exact h hb2).held t).1 hheld).2
      simp [hr]
  have hbr : getNewBrMask s.b1 u.br_mask = u.br_mask := by
    funext t
    rw [hmask, getNewBrMask, br_mask_eq]
    simp
  have hany : (i.exe.any fun e => decide (e.number = u.number)) = false := by
    rw [List.any_eq_false]
    intro e he heq
    obtain ⟨v, hv, hnum, -⟩ := hok.exe e he
    have := h.lt v hv
    have := (number_decoded hu).1
    rw [decide_eq_true_iff] at heq
    omega
  rw [update, htag, hbr, hex, hany]
  cases u
  cases hex
  rfl

theorem live_next (h : s.Inv) (hok : s.Ok i) (hfl : s.flush_pipeline = false) :
    (s.next i).live = s.decoded i W ++
      (s.survivors.take (s.survivors.length - i.commits)).map (s.update i) := by
  have hd : (s.decoded i W).map (s.update i) = s.decoded i W := by
    cases hb2 : s.b2_mispredict with
    | false =>
      rw [List.map_congr_left fun u hu => update_decoded h hok hb2 hu, List.map_id']
    | true =>
      rw [(decoded_idle (k := W) (dec_fire_false (i := i) (.inr (.inl hb2)))).1]
      rfl
  rw [next, hfl, if_neg Bool.false_ne_true, List.map_append, hd]

theorem kept_eq (h : s.Inv) (hok : s.Ok i) (hfl : s.flush_pipeline = false) :
    s.kept i = (s.next i).live ++
      (s.survivors.drop (s.survivors.length - i.commits)).map (s.update i) := by
  rw [live_next h hok hfl, List.append_assoc, ← List.map_append, List.take_append_drop, kept]

theorem not_held_commit (hok : s.Ok i) : ¬ Held Uop.tag
    ((s.survivors.drop (s.survivors.length - i.commits)).map (s.update i)) t := by
  rintro ⟨v, hv, ht⟩
  obtain ⟨u, hu, rfl⟩ := List.mem_map.1 hv
  rw [hok.commit u hu] at ht
  contradiction

theorem info_next (h : s.Inv) (hok : s.Ok i) {b : BrInfo T} (hb : b ∈ (s.next i).brinfos) :
    ∃ u, (s.next i).Info b u := by
  have hb : b ∈ i.exe.filterMap s.brinfo := by
    rw [next] at hb
    dsimp only at hb
    split_ifs at hb
    · contradiction
    · exact hb
  obtain ⟨e, he, hbe⟩ := List.mem_filterMap.1 hb
  rw [brinfo, Option.bind_eq_some_iff] at hbe
  obtain ⟨u, hfind, hbe⟩ := hbe
  rw [Option.bind_eq_some_iff] at hbe
  obtain ⟨t, ht, hbe⟩ := hbe
  split_ifs at hbe with hkill
  cases hbe
  rw [Bool.or_eq_true, not_or, Bool.not_eq_true, Bool.not_eq_true] at hkill
  obtain ⟨hfl, hkill⟩ := hkill
  have hu := List.mem_of_find?_eq_some hfind
  have hnum : u.number = e.number := by simpa using List.find?_some hfind
  -- its tag is not given back yet: no branch is resolved twice
  have hres : s.b1.resolve_mask t = false := by
    by_contra hr
    obtain ⟨r, hmem, rfl⟩ := resolve_mask_iff.1 (Bool.eq_true_of_not_eq_false hr)
    obtain ⟨w, hw⟩ := h.infos r hmem
    obtain rfl := eq_of_tag h hw.mem hu hw.tag ht
    obtain ⟨v, hv, hvn, -, hvx⟩ := hok.exe e he
    obtain rfl := eq_of_number h hv hu (hvn.trans hnum.symm)
    rw [hw.executed] at hvx
    contradiction
  have htag : (s.update i u).tag = some t := by
    rw [update_tag, ht]
    simp [hres]
  refine ⟨s.update i u, ?_, rfl, htag, ?_, fun t' ht' => ?_, fun t' ht' => ?_⟩
  · have hkept : s.update i u ∈ s.kept i :=
      List.mem_append_right _ (List.mem_map_of_mem (List.mem_filter.2 ⟨hu, by rw [hkill]; rfl⟩))
    rw [kept_eq h hok hfl, List.mem_append] at hkept
    rcases hkept with hkept | hcommit
    · exact hkept
    · exact absurd ⟨_, hcommit, htag⟩ (not_held_commit hok)
  · rw [update, Bool.or_eq_true, List.any_eq_true]
    exact .inr ⟨e, he, by simp [hnum]⟩
  · rw [update_br_mask, Bool.and_eq_true] at ht'
    exact ht'.1
  · cases hr : s.b1.resolve_mask t' with
    | false =>
      left
      rw [update_br_mask, hr]
      exact Bool.and_eq_true_iff.2 ⟨ht', rfl⟩
    | true =>
      right
      rw [next_branch_mask hfl, hr]
      simp

theorem sorted_kept (h : s.Inv) : (s.kept i).Pairwise fun u v => v.number < u.number := by
  rw [kept, List.pairwise_append]
  refine ⟨sorted_decoded, ?_, fun u hu v hv => ?_⟩
  · rw [List.pairwise_map]
    exact h.sorted.filter _
  · obtain ⟨w, hw, rfl⟩ := List.mem_map.1 hv
    exact (h.lt w (List.mem_filter.1 hw).1).trans_le (number_decoded hu).1

theorem lt_kept (h : s.Inv) {u : Uop T} (hu : u ∈ s.kept i) : u.number < (s.next i).count := by
  rcases List.mem_append.1 hu with hu | hu
  · exact (number_decoded hu).2
  · obtain ⟨w, hw, rfl⟩ := List.mem_map.1 hu
    exact (h.lt w (List.mem_filter.1 hw).1).trans_le (Nat.le_add_right _ _)

theorem inv_next (h : s.Inv) (hok : s.Ok i) : (s.next i).Inv := by
  cases hfl : s.flush_pipeline with
  | true =>
    have hlive : (s.next i).live = [] := by
      rw [next, hfl]
      rfl
    have hmask : ∀ t, (s.next i).branch_mask t = false := by
      intro t
      rw [next, hfl]
      rfl
    refine ⟨?_, fun t => ?_, ?_, ?_, fun b hb => info_next h hok hb⟩
    · rw [hlive]
      trivial
    · rw [hlive, Sys.mask, hmask]
      simp [Held]
    · rw [hlive]
      exact List.Pairwise.nil
    · simp [hlive]
  | false =>
    obtain ⟨hexact, hheld⟩ := kept_next h hok hfl
    have hsorted := sorted_kept (i := i) h
    have hlt : ∀ u ∈ s.kept i, u.number < (s.next i).count := fun u hu => lt_kept h hu
    rw [kept_eq h hok hfl] at hexact hheld hsorted hlt
    refine ⟨?_, fun t => ?_, ?_, ?_, fun b hb => info_next h hok hb⟩
    · exact exact_prefix hexact fun t => not_held_commit hok
    · rw [← hheld, held_append, or_iff_left (not_held_commit hok)]
    · exact (List.pairwise_append.1 hsorted).1
    · exact fun u hu => hlt u (List.mem_append_left _ hu)

end Sys

theorem reach_inv {s : Sys T} (h : (branchMask W T).Reach s) : s.Inv :=
  h.inv (fun _ h0 => Sys.inv_start h0) fun _ _ h hok => Sys.inv_next h hok

/-- **The tags are exact**, but for the cycle after a misprediction: in it
    `branch_mask` still has the tags of the branches that were killed, its own
    part is what the mispredicted branch depended on, and no tag is given
    out. -/
theorem tags_exact {s : Sys T} (h : (branchMask W T).Reach s) :
    (∀ t, (s.branch_mask t && (!s.b2_mispredict || s.b2_br_mask t)) = true ↔
      ∃ u ∈ s.live, u.tag = some t) ∧
    (s.b2_mispredict = true → ∀ (i : In W) w, s.dec_fire i w = false) ∧
    (∀ u ∈ s.live, ∀ v ∈ s.live, ∀ t, u.tag = some t → v.tag = some t → u = v) ∧
    (∀ u ∈ s.live, ∀ t, u.br_mask t = true ↔
      ∃ v ∈ s.live, v.tag = some t ∧ v.number < u.number) ∧
    ∀ u ∈ s.live, s.killed u = true ↔
      ∃ b ∈ s.brinfos, b.mispredict = true ∧ b.number < u.number :=
  have hinv := reach_inv h
  ⟨hinv.mask, fun hb2 _ w => Sys.dec_fire_false (.inr (.inl hb2)) w,
    fun _ hu _ hv _ htu htv => Sys.eq_of_tag hinv hu hv htu htv,
    fun _ hu _ => Sys.br_mask_iff hinv hu, fun _ hu => Sys.killed_iff_younger hinv hu⟩

/-! ## The cycle after a misprediction -/

/-- The masks after reset. -/
def resetMask : Sys 2 := ⟨fun _ => false, [], false, fun _ => false, false, [], 0⟩

/-- A cycle of a core that decodes one instruction at a time. -/
def cycle (branch : Bool) (exe : List Exe) : In 1 :=
  ⟨fun _ => branch, fun _ => false, fun _ => true, fun _ => false, exe, false, 0, 0⟩

/-- Two branches are decoded, the first turns out to be mispredicted, and a cycle
    later the second is gone. -/
def twoBranches : List (In 1) :=
  [cycle true [], cycle true [], cycle false [⟨0, true, 0⟩], cycle false []]

theorem twoBranches_reach :
    (branchMask 1 2).Reach ((branchMask 1 2).run resetMask twoBranches) := by
  have test : ∀ (s : Sys 2) (i : In 1),
      (decide (∀ e ∈ i.exe, ∃ u ∈ s.live, u.number = e.number ∧ u.tag.isSome ∧ u.executed = false) &&
        decide (∀ b ∈ s.brinfos, ∀ b' ∈ s.brinfos,
          Reorder.isOlder b.rob_idx b'.rob_idx i.rob_head_idx = true ↔ b.number < b'.number) &&
        decide (∀ u ∈ s.survivors.drop (s.survivors.length - i.commits),
          (s.update i u).tag = none)) = true → (branchMask 1 2).ok s i := by
    intro s i h
    rw [Bool.and_eq_true, Bool.and_eq_true, decide_eq_true_iff, decide_eq_true_iff,
      decide_eq_true_iff] at h
    exact ⟨h.1.1, h.1.2, h.2⟩
  exact Machine.reach_run _ (.start ⟨fun _ => rfl, rfl, rfl, rfl, rfl⟩)
    (Machine.accepts_of_passes test _ _ (by decide))

/-- The tag of a branch that was killed is still in `branch_mask`. -/
theorem branch_mask_not_exact : ∃ s : Sys 2, (branchMask 1 2).Reach s ∧
    ¬ ∀ t, s.branch_mask t = true ↔ ∃ u ∈ s.live, u.tag = some t := by
  refine ⟨_, twoBranches_reach, fun h => ?_⟩
  exact absurd ((h 1).1 (by decide)) (by decide)

theorem tags_exact_twoBranches :
    let s := (branchMask 1 2).run resetMask twoBranches
    s.branch_mask 1 = true ∧ s.live.length = 1 ∧ ∀ (i : In 1) w, s.dec_fire i w = false :=
  ⟨by decide, by decide, (tags_exact twoBranches_reach).2.1 (by decide)⟩

end BoomStop.BranchMask
