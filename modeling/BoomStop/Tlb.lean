/-
  The data TLB (`lsu/tlb.scala`): sectored, superpage and special entries, the
  machine that has misses refilled by the page-table walker, and fences.

  * `Entry.hit`, `insert`, `invalidateVPN`, `invalidateNonGlobal`: an entry;
  * `NBDTLB.next`: a cycle; the walker answers with any page-table entry;
  * `no_stale_translation`: as long as no answer is taken that
    `invalidate_refill` is to cancel, nothing is translated with what was
    asked for before a fence;
  * `stale_after_sfence`: the flag is not looked at, and an answer that comes
    after a fence leaves a valid entry.

  The permissions of an entry are left out.
-/
import BoomStop.Lib.Machine
import BoomStop.Lib.OneHot
import Mathlib.Algebra.Order.Group.Nat
import Mathlib.Data.Nat.Bitwise
import Mathlib.Data.Nat.Log

namespace BoomStop.Tlb

open Sync OneHot

/-! ## Entries -/

/-- The sizes of the TLB. -/
structure Cfg where
  lgSectors : ℕ
  nSectored : ℕ
  nSuperpage : ℕ
  /-- there is a special entry, as protection may differ within a page -/
  special : Bool
  pgLevels : ℕ
  pgLevelBits : ℕ

/-- The width of a virtual page number. -/
def Cfg.vpnBits (c : Cfg) : ℕ := c.pgLevels * c.pgLevelBits

/-- A virtual page number. -/
abbrev Vpn (c : Cfg) := BitVec c.vpnBits

/-- The kinds of entries. -/
inductive Kind where
  | sectored | superpage | special
  deriving DecidableEq

namespace Kind

/-- `superpage`: the level of the entry tells which fields of the tag count. -/
def isSuperpage : Kind → Bool
  | sectored => false
  | superpage | special => true

/-- `superpageOnly`: the entry is for no page of the lowest level. -/
def superpageOnly : Kind → Bool
  | superpage => true
  | sectored | special => false

/-- The pages of an entry, as a logarithm. -/
def lgSectors (c : Cfg) : Kind → ℕ
  | sectored => c.lgSectors
  | superpage | special => 0

/-- How many entries of a kind there are. -/
def count (c : Cfg) : Kind → ℕ
  | sectored => c.nSectored
  | superpage => c.nSuperpage
  | special => c.special.toNat

end Kind

/-- `EntryData`. -/
structure EntryData where
  ppn : ℕ
  g : Bool
  fragmented_superpage : Bool
  /-- the cycle in which the walk was requested that brought it -/
  walk : ℕ

/-- An entry, with the data of its pages. -/
structure Entry (c : Cfg) (k : Kind) where
  level : ℕ
  tag : Vpn c
  data : Fin (2 ^ k.lgSectors c) → EntryData
  valid : Fin (2 ^ k.lgSectors c) → Bool

variable {c : Cfg} {k : Kind}

/-- The place of a page in its entry. -/
def sectorIdx (k : Kind) (vpn : Vpn c) : Fin (2 ^ k.lgSectors c) :=
  ⟨vpn.toNat % 2 ^ k.lgSectors c, Nat.mod_lt _ (Nat.two_pow_pos _)⟩

/-- The part of a page number that a level of the page table looks at. -/
def vpnField (vpn : Vpn c) (j : ℕ) : BitVec c.pgLevelBits :=
  vpn.extractLsb' (c.vpnBits - (j + 1) * c.pgLevelBits) c.pgLevelBits

namespace Entry

variable (e : Entry c k) (vpn : Vpn c)

/-- The data of the page. -/
def getData : EntryData := e.data (sectorIdx k vpn)

/-- Some page of the entry is valid. -/
def validOrR : Bool := (List.finRange (2 ^ k.lgSectors c)).any e.valid

/-- The page is one of those of the entry. -/
def sectorTagMatch : Bool := (e.tag ^^^ vpn) >>> k.lgSectors c == 0

/-- The entry is the one for the pages around this one. -/
def sectorHit : Bool := e.validOrR && e.sectorTagMatch vpn

/-- The level does not look at this part of the page number. -/
def ignores (j : ℕ) : Bool := e.level < j || (k.superpageOnly && j == c.pgLevels - 1)

/-- The entry has the page. -/
def hit : Bool :=
  if k.isSuperpage then
    e.valid ⟨0, Nat.two_pow_pos _⟩ &&
      (List.range c.pgLevels).all fun j => e.ignores j || vpnField e.tag j == vpnField vpn j
  else e.valid (sectorIdx k vpn) && e.sectorTagMatch vpn

/-- The page it translates to: what the level ignores comes from the virtual
    page. -/
def ppn : ℕ :=
  let ppn := (e.getData vpn).ppn
  if k.isSuperpage then
    (List.range' 1 (c.pgLevels - 1)).foldl (fun res j =>
      let from_vpn := if e.ignores j then vpn.toNat else 0
      res * 2 ^ c.pgLevelBits +
        ((from_vpn ||| ppn) >>> (c.vpnBits - (j + 1) * c.pgLevelBits)) % 2 ^ c.pgLevelBits)
      (ppn >>> (c.pgLevelBits * (c.pgLevels - 1)))
  else ppn

/-- A page is put in. -/
def insert (tag : Vpn c) (level : ℕ) (entry : EntryData) : Entry c k where
  level := level % 2 ^ Nat.clog 2 (c.pgLevels - k.superpageOnly.toNat)
  tag := tag
  data := Function.update e.data (sectorIdx k tag) entry
  valid := Function.update e.valid (sectorIdx k tag) true

/-- Every page of the entry is dropped. -/
def invalidate : Entry c k := { e with valid := fun _ => false }

/-- The sectors that `invalidateVPN` clears.  Of a superpage that protection
    splits, every page goes. -/
def invalidateVPN (x : Fin (2 ^ k.lgSectors c)) : Bool :=
  if k.isSuperpage then e.hit vpn
  else (e.sectorTagMatch vpn && x == sectorIdx k vpn) ||
    ((e.tag ^^^ vpn) >>> (c.pgLevelBits * (c.pgLevels - 1)) == 0 &&
      (e.data x).fragmented_superpage)

/-- The sectors that `invalidateNonGlobal` clears. -/
def invalidateNonGlobal (x : Fin (2 ^ k.lgSectors c)) : Bool := !(e.data x).g

end Entry

/-! ## Cycles -/

/-- The states of the walk. -/
inductive State where
  | s_ready | s_request | s_wait | s_wait_invalidate
  deriving DecidableEq

/-- A request of a port. -/
structure Req (c : Cfg) where
  valid : Bool
  vpn : Vpn c
  vm_enabled : Bool
  /-- the address is not a sign-extended one -/
  bad_va : Bool

/-- The operands of a fence. -/
structure SFence (c : Cfg) where
  rs1 : Bool
  rs2 : Bool
  vpn : Vpn c

/-- What the walker answers. -/
structure PTWResp where
  ppn : ℕ
  g : Bool
  level : ℕ
  fragmented_superpage : Bool
  homogeneous : Bool

/-- The inputs of a cycle. -/
structure In (c : Cfg) (m : ℕ) where
  req : Fin m → Req c
  sfence : Option (SFence c)
  kill : Bool
  ptw_req_ready : Bool
  ptw_resp : Option PTWResp
  /-- the ways that pseudo-LRU would replace -/
  sectored_plru : ℕ
  superpage_plru : ℕ

/-- A fence of all addresses and address spaces. -/
def SFence.full (f : SFence c) : Bool := !f.rs1 && !f.rs2

/-- The registers.  Ghosts: the time, the cycle in which the walk that is
    under way was requested, and the last full fence and the last fence of
    each page. -/
structure NBDTLB (c : Cfg) where
  entries : (k : Kind) → Fin (k.count c) → Entry c k
  state : State
  r_refill_tag : Vpn c
  r_superpage_repl_addr : ℕ
  r_sectored_repl_addr : ℕ
  r_sectored_hit_addr : ℕ
  r_sectored_hit : Bool
  now : ℕ
  walk : ℕ
  fence : ℕ
  page_fence : Vpn c → ℕ

/-- The answer to a port. -/
structure Resp where
  miss : Bool
  /-- the data of the entries that hit -/
  entries : List EntryData
  ppn : ℕ

/-- The entries, one kind after the other. -/
def allEntries (c : Cfg) : List ((k : Kind) × Fin (k.count c)) :=
  [Kind.sectored, .superpage, .special].flatMap fun k => (List.finRange (k.count c)).map (⟨k, ·⟩)

namespace NBDTLB

variable {m : ℕ} (s : NBDTLB c) (i : In c m)

/-- The sectored entries that are for the pages around the request. -/
def sector_hits (w : Fin m) (j : Fin (Kind.sectored.count c)) : Bool :=
  (s.entries .sectored j).sectorHit (i.req w).vpn

/-- The entries that hit. -/
def hits (w : Fin m) : List ((k : Kind) × Fin (k.count c)) :=
  (allEntries c).filter fun a => (i.req w).vm_enabled && (s.entries a.1 a.2).hit (i.req w).vpn

/-- No entry has the page. -/
def tlb_miss (w : Fin m) : Bool :=
  (i.req w).vm_enabled && !(i.req w).bad_va && (s.hits i w).isEmpty

/-- Two entries have the page. -/
def multipleHits (w : Fin m) : Bool := 2 ≤ (s.hits i w).length

/-- The answer to a port. -/
def resp (w : Fin m) : Resp where
  miss := i.ptw_resp.isSome || s.tlb_miss i w || s.multipleHits i w
  entries := (s.hits i w).map fun a => (s.entries a.1 a.2).getData (i.req w).vpn
  ppn :=
    if (i.req w).vm_enabled then
      (s.hits i w).foldl (fun p a => p ||| (s.entries a.1 a.2).ppn (i.req w).vpn) 0
    else (i.req w).vpn.toNat

/-- The walk that is under way is to be dropped. -/
def invalidate_refill : Bool :=
  s.state = .s_request || s.state = .s_wait_invalidate || i.sfence.isSome

/-- The walker takes the request. -/
def ptw_req_fire : Bool := s.state = .s_request && i.ptw_req_ready && !i.kill

/-- The last request that misses. -/
def missing : Option (Fin m) :=
  (List.finRange m).reverse.find? fun w => (i.req w).valid && s.tlb_miss i w

/-- An entry that is free, or the one to replace. -/
def replacementEntry (k : Kind) (alt : ℕ) : ℕ :=
  (((List.finRange (k.count c)).find? fun j => !(s.entries k j).validOrR).map (·.val)).getD alt

/-- The sectored entry that is refilled. -/
def waddr : ℕ := if s.r_sectored_hit then s.r_sectored_hit_addr else s.r_sectored_repl_addr

/-- The answer goes into this entry. -/
def inserts (r : PTWResp) : (k : Kind) → Fin (k.count c) → Bool
  | .special, _ => !r.homogeneous
  | .superpage, j =>
    !(c.special && !r.homogeneous) && r.level < c.pgLevels - 1 && s.r_superpage_repl_addr == j.val
  | .sectored, j =>
    !(c.special && !r.homogeneous) && !(r.level < c.pgLevels - 1 : Bool) && s.waddr == j.val

/-- The data of a page that comes from the walker. -/
def newEntry (r : PTWResp) : EntryData := ⟨r.ppn, r.g, r.fragmented_superpage, s.walk⟩

/-- A sectored entry that holds other sectors gives them up. -/
def kept (k : Kind) (j : Fin (k.count c)) : Entry c k :=
  if k = .sectored && !s.r_sectored_hit then (s.entries k j).invalidate else s.entries k j

/-- The entry as the answer of the walker leaves it. -/
def refilled (k : Kind) (j : Fin (k.count c)) : Entry c k :=
  match i.ptw_resp with
  | some r =>
    if s.inserts r k j then
      (s.kept k j).insert s.r_refill_tag (if k = .sectored then 0 else r.level) (s.newEntry r)
    else s.entries k j
  | none => s.entries k j

/-- What a fence does to the entry, as it was before the cycle. -/
def fenced (k : Kind) (j : Fin (k.count c)) (x : Fin (2 ^ k.lgSectors c)) : Bool :=
  let e := s.entries k j
  i.sfence.any fun f => (List.finRange m).any fun w =>
    if f.rs1 then e.invalidateVPN (i.req w).vpn x
    else if f.rs2 then e.invalidateNonGlobal x
    else true

/-- An entry, in the next cycle: the refill, then the fence, and all goes on a double
    hit. -/
def nextEntry (k : Kind) (j : Fin (k.count c)) : Entry c k :=
  let e := s.refilled i k j
  { e with valid := fun x =>
      e.valid x && !s.fenced i k j x && !(List.finRange m).any (s.multipleHits i) }

/-- The state of the walk, in the next cycle. -/
def nextState : State :=
  if i.ptw_resp.isSome then .s_ready
  else match s.state with
    | .s_ready => if (s.missing i).isSome then .s_request else .s_ready
    | .s_request =>
      if i.kill then .s_ready
      else if i.ptw_req_ready then if i.sfence.isSome then .s_wait_invalidate else .s_wait
      else if i.sfence.isSome then .s_ready else .s_request
    | .s_wait => if i.sfence.isSome then .s_wait_invalidate else .s_wait
    | .s_wait_invalidate => .s_wait_invalidate

/-- The request whose refill starts. -/
def refill : Option (Fin m) := if s.state = .s_ready then s.missing i else none

/-- One cycle. -/
def next : NBDTLB c where
  entries := s.nextEntry i
  state := s.nextState i
  r_refill_tag := ((s.refill i).map fun w => (i.req w).vpn).getD s.r_refill_tag
  r_superpage_repl_addr :=
    if (s.refill i).isSome then s.replacementEntry .superpage i.superpage_plru
    else s.r_superpage_repl_addr
  r_sectored_repl_addr :=
    if (s.refill i).isSome then s.replacementEntry .sectored i.sectored_plru
    else s.r_sectored_repl_addr
  r_sectored_hit_addr :=
    ((s.refill i).map fun w => ohToUInt (s.sector_hits i w)).getD s.r_sectored_hit_addr
  r_sectored_hit :=
    ((s.refill i).map fun w => (List.finRange _).any (s.sector_hits i w)).getD s.r_sectored_hit
  now := s.now + 1
  walk := if s.ptw_req_fire i then s.now else s.walk
  fence := if i.sfence.any SFence.full then s.now else s.fence
  page_fence := fun v =>
    if i.sfence.any fun f => f.rs1 && f.vpn == v then s.now else s.page_fence v

/-- What the other side promises: the walker answers what it was asked, and
    the fenced address is presented with the fence. -/
structure Ok : Prop where
  ptw_resp : i.ptw_resp.isSome = true → s.state = .s_wait ∨ s.state = .s_wait_invalidate
  sfence : ∀ f, i.sfence = some f → f.rs1 = true → ∀ w, (i.req w).vpn = f.vpn

end NBDTLB

/-- The TLB after reset. -/
def nbdtlb (c : Cfg) (m : ℕ) : Machine (NBDTLB c) (In c m) where
  start s := (∀ k j x, (s.entries k j).valid x = false) ∧ s.state = .s_ready ∧ s.fence = 0 ∧
    ∀ v, s.page_fence v = 0
  ok s i := s.Ok i
  next s i := s.next i

/-! ## One entry -/

namespace Entry

variable {e e' : Entry c k} {v t : Vpn c}

theorem sectorTagMatch_iff : e.sectorTagMatch v = true ↔
    e.tag.toNat / 2 ^ k.lgSectors c = v.toNat / 2 ^ k.lgSectors c := by
  have h0 : (0 : Vpn c).toNat = 0 := BitVec.toNat_zero
  rw [sectorTagMatch, beq_iff_eq, ← BitVec.toNat_inj, BitVec.toNat_ushiftRight, BitVec.toNat_xor,
    h0, Nat.shiftRight_xor_distrib, Nat.xor_eq_zero_iff, Nat.shiftRight_eq_div_pow,
    Nat.shiftRight_eq_div_pow]

theorem sectorIdx_of_isSuperpage (h : k.isSuperpage = true) (x : Fin (2 ^ k.lgSectors c)) :
    x = sectorIdx k v := by
  cases k with
  | sectored => contradiction
  | superpage | special =>
    have : ∀ a b : Fin (2 ^ 0), a = b := by decide
    exact this _ _

theorem valid_of_hit (h : e.hit v = true) : e.valid (sectorIdx k v) = true := by
  rw [hit] at h
  split_ifs at h with hk
  · rw [Bool.and_eq_true] at h
    rw [← sectorIdx_of_isSuperpage hk]
    exact h.1
  · rw [Bool.and_eq_true] at h
    exact h.1

/-- Clearing sectors makes no hit. -/
theorem hit_mono (hl : e'.level = e.level) (ht : e'.tag = e.tag)
    (hv : ∀ x, e'.valid x = true → e.valid x = true) (h : e'.hit v = true) : e.hit v = true := by
  rw [hit] at h ⊢
  split_ifs at h ⊢ with hk
  · rw [Bool.and_eq_true] at h ⊢
    refine ⟨hv _ h.1, ?_⟩
    simpa only [ignores, hl, ht] using h.2
  · rw [Bool.and_eq_true] at h ⊢
    refine ⟨hv _ h.1, ?_⟩
    simpa only [sectorTagMatch, ht] using h.2

/-- A fence of a page clears the sector that hits it. -/
theorem invalidateVPN_of_hit (h : e.hit v = true) :
    e.invalidateVPN v (sectorIdx k v) = true := by
  rw [invalidateVPN]
  split_ifs with hk
  · exact h
  · rw [hit, if_neg hk, Bool.and_eq_true] at h
    rw [h.2, beq_self_eq_true]
    rfl

theorem getData_insert_self {l : ℕ} {d : EntryData} (h : sectorIdx k v = sectorIdx k t) :
    (e.insert t l d).getData v = d := by
  rw [getData, insert, h]
  exact Function.update_self ..

theorem valid_insert {l : ℕ} {d : EntryData} {x : Fin (2 ^ k.lgSectors c)}
    (h : (e.insert t l d).valid x = true) : (e.insert t l d).data x = d ∨
      (e.valid x = true ∧ (e.insert t l d).data x = e.data x) := by
  by_cases hx : x = sectorIdx k t
  · rw [hx]
    exact .inl (Function.update_self ..)
  · have hv : (e.insert t l d).valid x = e.valid x := Function.update_of_ne hx ..
    exact .inr ⟨hv ▸ h, Function.update_of_ne hx ..⟩

/-- After an insertion a page hits the new data, or a sector beside it that was
    valid before. -/
theorem hit_insert {l : ℕ} {d : EntryData} (h : (e.insert t l d).hit v = true) :
    (e.insert t l d).getData v = d ∨
      (k = .sectored ∧ e.valid (sectorIdx k v) = true ∧
        v.toNat / 2 ^ k.lgSectors c = t.toNat / 2 ^ k.lgSectors c ∧
        (e.insert t l d).getData v = e.getData v) := by
  by_cases hx : sectorIdx k v = sectorIdx k t
  · exact .inl (getData_insert_self hx)
  · refine .inr ?_
    cases hk : k.isSuperpage with
    | true => exact absurd (sectorIdx_of_isSuperpage hk _) hx
    | false =>
      have hs : k = .sectored := by cases k <;> first | rfl | contradiction
      have hv := valid_of_hit h
      rw [hit, if_neg (by rw [hk]; exact Bool.false_ne_true), Bool.and_eq_true,
        sectorTagMatch_iff] at h
      have hval : (e.insert t l d).valid (sectorIdx k v) = e.valid (sectorIdx k v) :=
        Function.update_of_ne hx ..
      exact ⟨hs, hval ▸ hv, h.2.symm, Function.update_of_ne hx ..⟩

end Entry

/-! ## The invariant -/

namespace NBDTLB

variable {m : ℕ} {s : NBDTLB c} {i : In c m} {j : Fin (k.count c)}
  {x : Fin (2 ^ k.lgSectors c)} {v : Vpn c}

/-- A translation that was asked for before a fence of its page. -/
def Stale (s : NBDTLB c) (v : Vpn c) (d : EntryData) : Prop :=
  d.walk < s.fence ∨ d.walk < s.page_fence v

/-- No entry holds what was asked for before a fence. -/
structure Fresh (s : NBDTLB c) : Prop where
  valid : ∀ (k : Kind) (j : Fin (k.count c)) x, (s.entries k j).valid x = true →
    s.fence ≤ ((s.entries k j).data x).walk
  hit : ∀ (k : Kind) (j : Fin (k.count c)) v, (s.entries k j).hit v = true →
    s.page_fence v ≤ ((s.entries k j).getData v).walk

/-- The sectored entries that hold a sector of the refill. -/
def Holds (s : NBDTLB c) (j : Fin (Kind.sectored.count c)) (t : Vpn c) : Prop :=
  (∃ x, (s.entries .sectored j).valid x = true) ∧ (s.entries .sectored j).sectorTagMatch t = true

/-- Where the refill goes: to the one entry that holds its sector, if there is
    one. -/
structure Refills (s : NBDTLB c) : Prop where
  hit : s.r_sectored_hit = true → ∃ j : Fin (Kind.sectored.count c),
    j.val = s.r_sectored_hit_addr ∧ (s.entries .sectored j).sectorTagMatch s.r_refill_tag = true
  only : ∀ j, s.Holds j s.r_refill_tag → s.r_sectored_hit = true ∧ j.val = s.r_sectored_hit_addr

/-- No two sectored entries hold the same sector, and the refill that is under
    way keeps it so. -/
structure Rows (s : NBDTLB c) : Prop where
  unique : ∀ j j' t, s.Holds j t → s.Holds j' t → j = j'
  refills : s.state ≠ .s_ready → s.Refills

/-- The invariant: every entry is from a walk that no fence has overtaken. -/
structure Inv (s : NBDTLB c) : Prop where
  fresh : s.Fresh
  unique : ∀ j j' t, s.Holds j t → s.Holds j' t → j = j'
  refills : s.state ≠ .s_ready → s.Refills
  /-- no fence since the walk was requested -/
  waits : s.state = .s_wait → s.fence ≤ s.walk ∧ ∀ v, s.page_fence v ≤ s.walk
  past : s.fence ≤ s.now ∧ ∀ v, s.page_fence v ≤ s.now

theorem Inv.rows (h : s.Inv) : s.Rows := ⟨h.unique, h.refills⟩

/-- No answer is taken that `invalidate_refill` is to cancel, but in the cycle
    of a full fence. -/
def Obeys (s : NBDTLB c) (i : In c m) : Prop :=
  i.ptw_resp.isSome = true → s.invalidate_refill i = false ∨ i.sfence.any SFence.full = true

/-! ### What a cycle does to an entry -/

theorem valid_nextEntry (h : (s.nextEntry i k j).valid x = true) :
    (s.refilled i k j).valid x = true ∧ s.fenced i k j x = false := by
  simp only [nextEntry, Bool.and_eq_true, Bool.not_eq_true'] at h
  exact h.1

theorem hit_nextEntry (h : (s.nextEntry i k j).hit v = true) :
    (s.refilled i k j).hit v = true ∧ s.fenced i k j (sectorIdx k v) = false := by
  constructor
  · refine Entry.hit_mono ?_ ?_ (fun x hx => ?_) h
    · rfl
    · rfl
    · exact (valid_nextEntry hx).1
  · exact (valid_nextEntry (Entry.valid_of_hit h)).2

theorem refilled_cases (s : NBDTLB c) (i : In c m) (k : Kind) (j : Fin (k.count c)) :
    s.refilled i k j = s.entries k j ∨ ∃ r l, i.ptw_resp = some r ∧ s.inserts r k j = true ∧
      s.refilled i k j = (s.kept k j).insert s.r_refill_tag l (s.newEntry r) := by
  rw [refilled]
  split
  case h_1 r hr =>
    by_cases hins : s.inserts r k j = true
    · exact .inr ⟨r, _, hr, hins, if_pos hins⟩
    · exact .inl (if_neg hins)
  case h_2 => exact .inl rfl

theorem valid_kept (h : (s.kept k j).valid x = true) : s.kept k j = s.entries k j ∧
    (k = .sectored → s.r_sectored_hit = true) := by
  rw [kept] at h ⊢
  split_ifs at h ⊢ with hk
  · contradiction
  · refine ⟨rfl, fun hs => ?_⟩
    simpa [hs] using hk

/-- What is valid was there before, or comes with the answer. -/
theorem valid_refilled (h : (s.refilled i k j).valid x = true) :
    ((s.entries k j).valid x = true ∧ (s.refilled i k j).data x = (s.entries k j).data x) ∨
      ∃ r, i.ptw_resp = some r ∧ (s.refilled i k j).data x = s.newEntry r := by
  rcases s.refilled_cases i k j with he | ⟨r, l, hr, -, he⟩
  · rw [he] at h ⊢
    exact .inl ⟨h, rfl⟩
  · rw [he] at h ⊢
    rcases Entry.valid_insert h with hd | ⟨hv, hd⟩
    · exact .inr ⟨r, hr, hd⟩
    · have hk := (valid_kept hv).1
      rw [hk] at hv hd
      exact .inl ⟨hv, by rw [hk]; exact hd⟩

/-- What is hit was hit before, or comes with the answer. -/
theorem hit_refilled (hf : i.ptw_resp.isSome = true → s.Refills)
    (h : (s.refilled i k j).hit v = true) :
    ((s.entries k j).hit v = true ∧ (s.refilled i k j).getData v = (s.entries k j).getData v) ∨
      ∃ r, i.ptw_resp = some r ∧ (s.refilled i k j).getData v = s.newEntry r := by
  rcases s.refilled_cases i k j with he | ⟨r, l, hr, hins, he⟩
  · rw [he] at h ⊢
    exact .inl ⟨h, rfl⟩
  · rw [he] at h ⊢
    rcases Entry.hit_insert h with hd | ⟨rfl, hv, ht, hd⟩
    · exact .inr ⟨r, hr, hd⟩
    · -- a sector beside the new one: the entry is the one that held the sector already
      obtain ⟨hk, hsec⟩ := valid_kept hv
      rw [hk] at hv hd
      obtain ⟨j', hj', htag⟩ := (hf (by rw [hr]; rfl)).hit (hsec rfl)
      have hjj : j' = j := by
        rw [Fin.ext_iff, hj']
        rw [inserts, waddr, if_pos (hsec rfl), Bool.and_eq_true, beq_iff_eq] at hins
        exact hins.2
      rw [hjj, Entry.sectorTagMatch_iff] at htag
      refine .inl ⟨?_, by rw [hk]; exact hd⟩
      have hs : ¬ Kind.sectored.isSuperpage = true := Bool.false_ne_true
      rw [Entry.hit, if_neg hs, hv, Bool.true_and, Entry.sectorTagMatch_iff, htag, ht]

theorem tag_nextEntry (hr : i.ptw_resp = none) :
    (s.nextEntry i k j).tag = (s.entries k j).tag ∧
      ∀ x, (s.nextEntry i k j).valid x = true → (s.entries k j).valid x = true := by
  rcases s.refilled_cases i k j with he | ⟨r, l, hsome, -⟩
  · refine ⟨?_, fun x hx => by rw [← he]; exact (valid_nextEntry hx).1⟩
    rw [← he]
    rfl
  · rw [hr] at hsome
    contradiction

/-! ### Fences -/

theorem fenced_of_full [NeZero m] (h : i.sfence.any SFence.full = true) :
    s.fenced i k j x = true := by
  obtain ⟨f, hf, hfull⟩ := (Option.any_eq_true _ _).1 h
  rw [SFence.full, Bool.and_eq_true, Bool.not_eq_true', Bool.not_eq_true'] at hfull
  rw [fenced, hf, Option.any_some, List.any_eq_true]
  refine ⟨0, List.mem_finRange 0, ?_⟩
  rw [hfull.1, hfull.2]
  rfl

theorem fenced_of_page [NeZero m] (hok : s.Ok i)
    (h : (i.sfence.any fun f => f.rs1 && f.vpn == v) = true) (hh : (s.entries k j).hit v = true) :
    s.fenced i k j (sectorIdx k v) = true := by
  obtain ⟨f, hf, hv⟩ := (Option.any_eq_true _ _).1 h
  rw [Bool.and_eq_true, beq_iff_eq] at hv
  rw [fenced, hf, Option.any_some, List.any_eq_true]
  refine ⟨0, List.mem_finRange 0, ?_⟩
  rw [if_pos hv.1, hok.sfence f hf hv.1, hv.2]
  exact Entry.invalidateVPN_of_hit hh

/-- An answer that is taken without a fence is waited for. -/
theorem Obeys.waits (ho : s.Obeys i) (hok : s.Ok i) (hr : i.ptw_resp.isSome = true)
    (hf : ¬ i.sfence.any SFence.full = true) : s.state = .s_wait ∧ i.sfence = none := by
  have hinv := (ho hr).resolve_right hf
  simp only [invalidate_refill, Bool.or_eq_false_iff, decide_eq_false_iff_not,
    Option.isSome_eq_false_iff, Option.isNone_iff_eq_none] at hinv
  exact ⟨(hok.ptw_resp hr).resolve_right hinv.1.2, hinv.2⟩

/-! ### A cycle keeps the invariant -/

theorem Rows.refills_of_resp (h : s.Rows) (hok : s.Ok i) (hr : i.ptw_resp.isSome = true) :
    s.Refills := by
  refine h.refills fun hready => ?_
  rcases hok.ptw_resp hr with hs | hs <;> rw [hready] at hs <;> contradiction

theorem Inv.fresh_next [NeZero m] (h : s.Inv) (hok : s.Ok i) (ho : s.Obeys i) :
    (s.next i).Fresh := by
  have hrefills := h.rows.refills_of_resp hok
  by_cases hf : i.sfence.any SFence.full = true
  · -- nothing stays valid
    have hno (k : Kind) (j : Fin (k.count c)) x : ¬ ((s.next i).entries k j).valid x = true := by
      intro hv
      have := (valid_nextEntry hv).2
      rw [fenced_of_full hf] at this
      contradiction
    exact ⟨fun k j x hv => absurd hv (hno k j x),
      fun k j v hv => absurd (Entry.valid_of_hit hv) (hno k j _)⟩
  · refine ⟨fun k j x hv => ?_, fun k j v hv => ?_⟩
    · rw [show (s.next i).fence = s.fence from if_neg hf]
      rcases valid_refilled (valid_nextEntry hv).1 with ⟨hv, hd⟩ | ⟨r, hr, hd⟩
      · exact (congrArg EntryData.walk hd).symm ▸ h.fresh.valid k j x hv
      · have hw := ho.waits hok (by rw [hr]; rfl) hf
        exact (congrArg EntryData.walk hd).symm ▸ (h.waits hw.1).1
    · obtain ⟨hh, hnf⟩ := hit_nextEntry hv
      have hp : (s.next i).page_fence v = s.page_fence v := by
        refine if_neg fun hpage => ?_
        rcases hit_refilled hrefills hh with ⟨hh, -⟩ | ⟨r, hr, -⟩
        · rw [fenced_of_page hok hpage hh] at hnf
          contradiction
        · rw [(ho.waits hok (by rw [hr]; rfl) hf).2] at hpage
          contradiction
      rw [hp]
      rcases hit_refilled hrefills hh with ⟨hh, hd⟩ | ⟨r, hr, hd⟩
      · exact (congrArg EntryData.walk hd).symm ▸ h.fresh.hit k j v hh
      · have hw := ho.waits hok (by rw [hr]; rfl) hf
        exact (congrArg EntryData.walk hd).symm ▸ (h.waits hw.1).2 v

/-- An entry that holds a sector held it before, or gets it with the answer. -/
theorem holds_next {j : Fin (Kind.sectored.count c)} {t : Vpn c} (h : (s.next i).Holds j t) :
    s.Holds j t ∨ (j.val = s.waddr ∧ i.ptw_resp.isSome = true ∧
      t.toNat / 2 ^ Kind.sectored.lgSectors c =
        s.r_refill_tag.toNat / 2 ^ Kind.sectored.lgSectors c) := by
  obtain ⟨⟨x, hx⟩, ht⟩ := h
  have hx' := (valid_nextEntry hx).1
  have ht' : (s.refilled i .sectored j).sectorTagMatch t = true := ht
  rcases s.refilled_cases i .sectored j with he | ⟨r, l, hr, hins, he⟩
  · rw [he] at hx' ht'
    exact .inl ⟨⟨x, hx'⟩, ht'⟩
  · rw [he, Entry.sectorTagMatch_iff] at ht'
    rw [inserts, Bool.and_eq_true, beq_iff_eq] at hins
    exact .inr ⟨hins.2.symm, by rw [hr]; rfl, ht'.symm⟩

theorem Holds.congr {j : Fin (Kind.sectored.count c)} {t u : Vpn c} (h : s.Holds j t)
    (htu : t.toNat / 2 ^ Kind.sectored.lgSectors c = u.toNat / 2 ^ Kind.sectored.lgSectors c) :
    s.Holds j u := by
  refine ⟨h.1, ?_⟩
  have ht := h.2
  rw [Entry.sectorTagMatch_iff] at ht ⊢
  rw [ht, htu]

/-- If another entry held the sector of the refill, the refill goes there. -/
theorem Refills.eq_waddr (h : s.Refills) {j : Fin (Kind.sectored.count c)}
    (hj : s.Holds j s.r_refill_tag) : j.val = s.waddr := by
  obtain ⟨hs, he⟩ := h.only j hj
  rw [waddr, if_pos hs, he]

theorem Rows.unique_next (h : s.Rows) (hok : s.Ok i) {j j' : Fin (Kind.sectored.count c)}
    {t : Vpn c} (hj : (s.next i).Holds j t) (hj' : (s.next i).Holds j' t) : j = j' := by
  rcases holds_next hj with hj | ⟨hj, hr, ht⟩ <;> rcases holds_next hj' with hj' | ⟨hj', hr', ht'⟩
  · exact h.unique j j' t hj hj'
  · have := (h.refills_of_resp hok hr').eq_waddr (hj.congr ht')
    exact Fin.ext (this.trans hj'.symm)
  · have := (h.refills_of_resp hok hr).eq_waddr (hj'.congr ht)
    exact Fin.ext (hj.trans this.symm)
  · exact Fin.ext (hj.trans hj'.symm)

theorem sector_hits_iff {w : Fin m} {j : Fin (Kind.sectored.count c)} :
    s.sector_hits i w j = true ↔ s.Holds j (i.req w).vpn := by
  rw [sector_hits, Entry.sectorHit, Bool.and_eq_true, Entry.validOrR, List.any_eq_true]
  constructor
  · rintro ⟨⟨x, -, hx⟩, ht⟩
    exact ⟨⟨x, hx⟩, ht⟩
  · rintro ⟨⟨x, hx⟩, ht⟩
    exact ⟨⟨x, List.mem_finRange x, hx⟩, ht⟩

theorem Rows.refills_next (h : s.Rows) (hn : (s.next i).state ≠ .s_ready) : (s.next i).Refills := by
  have hr : i.ptw_resp = none := by
    by_contra hr
    exact hn (if_pos (Option.isSome_iff_ne_none.2 hr))
  have hold {j : Fin (Kind.sectored.count c)} {t} (hj : (s.next i).Holds j t) : s.Holds j t := by
    rcases holds_next hj with hj | ⟨-, hsome, -⟩
    · exact hj
    · rw [hr] at hsome
      contradiction
  have htag {j : Fin (Kind.sectored.count c)} {t}
      (hj : (s.entries .sectored j).sectorTagMatch t = true) :
      ((s.next i).entries .sectored j).sectorTagMatch t = true := by
    rw [Entry.sectorTagMatch_iff] at hj ⊢
    rw [← hj, show ((s.next i).entries .sectored j).tag = (s.entries .sectored j).tag from
      (tag_nextEntry hr).1]
  by_cases hs : s.state = .s_ready
  · -- a refill starts
    obtain ⟨w, hw⟩ : ∃ w, s.refill i = some w := by
      rw [refill, if_pos hs]
      by_contra hno
      have hm : s.missing i = none := by
        by_contra hm
        exact hno (Option.ne_none_iff_exists'.1 hm)
      refine hn ?_
      rw [next, nextState, hr, hs, hm]
      rfl
    have ht : (s.next i).r_refill_tag = (i.req w).vpn := by rw [next, hw]; rfl
    have ha : (s.next i).r_sectored_hit_addr = ohToUInt (s.sector_hits i w) := by
      rw [next, hw]
      rfl
    have hh : (s.next i).r_sectored_hit = (List.finRange _).any (s.sector_hits i w) := by
      rw [next, hw]
      rfl
    have hone {j : Fin (Kind.sectored.count c)} (hj : s.sector_hits i w j = true) :
        ohToUInt (s.sector_hits i w) = j.val :=
      ohToUInt_eq hj fun j' hj' =>
        h.unique j' j _ (sector_hits_iff.1 hj') (sector_hits_iff.1 hj)
    constructor
    · intro hany
      rw [hh, List.any_eq_true] at hany
      obtain ⟨j, -, hj⟩ := hany
      exact ⟨j, by rw [ha, hone hj], by rw [ht]; exact htag (sector_hits_iff.1 hj).2⟩
    · intro j hj
      rw [ht] at hj
      have hj := sector_hits_iff.2 (hold hj)
      exact ⟨by rw [hh]; exact List.any_eq_true.2 ⟨j, List.mem_finRange j, hj⟩,
        by rw [ha, hone hj]⟩
  · have hw : s.refill i = none := if_neg hs
    have ht : (s.next i).r_refill_tag = s.r_refill_tag := by rw [next, hw]; rfl
    have ha : (s.next i).r_sectored_hit_addr = s.r_sectored_hit_addr := by rw [next, hw]; rfl
    have hh : (s.next i).r_sectored_hit = s.r_sectored_hit := by rw [next, hw]; rfl
    constructor
    · intro hany
      rw [hh] at hany
      obtain ⟨j, hj, hm⟩ := (h.refills hs).hit hany
      exact ⟨j, by rw [ha, hj], by rw [ht]; exact htag hm⟩
    · intro j hj
      rw [ht] at hj
      rw [hh, ha]
      exact (h.refills hs).only j (hold hj)

theorem Rows.next (h : s.Rows) (hok : s.Ok i) : (s.next i).Rows :=
  ⟨fun _ _ _ => h.unique_next hok, h.refills_next⟩

theorem rows_of_start (h : (nbdtlb c m).start s) : s.Rows := by
  refine ⟨fun j _ t hj => ?_, fun hn => absurd h.2.1 hn⟩
  obtain ⟨⟨x, hx⟩, -⟩ := hj
  rw [h.1] at hx
  contradiction

theorem Inv.past_next (h : s.Inv) :
    (s.next i).fence ≤ s.now ∧ ∀ v, (s.next i).page_fence v ≤ s.now := by
  refine ⟨?_, fun v => ?_⟩
  · simp only [next]
    split_ifs
    · exact Nat.le_refl _
    · exact h.past.1
  · simp only [next]
    split_ifs
    · exact Nat.le_refl _
    · exact h.past.2 v

theorem Inv.waits_next (h : s.Inv) (hn : (s.next i).state = .s_wait) :
    (s.next i).fence ≤ (s.next i).walk ∧ ∀ v, (s.next i).page_fence v ≤ (s.next i).walk := by
  have hns : s.nextState i = .s_wait := hn
  have hr : ¬ i.ptw_resp.isSome = true := by
    intro hr
    rw [nextState, if_pos hr] at hns
    contradiction
  rw [nextState, if_neg hr] at hns
  cases hs : s.state with
  | s_ready =>
    simp only [hs] at hns
    split_ifs at hns
  | s_request =>
    -- the walk is requested in this cycle
    simp only [hs] at hns
    split_ifs at hns with hk hrdy hf
    have hw : (s.next i).walk = s.now := by
      refine if_pos ?_
      rw [ptw_req_fire, hs, hrdy, Bool.eq_false_iff.2 hk]
      rfl
    rw [hw]
    exact h.past_next
  | s_wait =>
    simp only [hs] at hns
    split_ifs at hns with hf
    rw [Bool.not_eq_true, Option.isSome_eq_false_iff, Option.isNone_iff_eq_none] at hf
    have hw : (s.next i).walk = s.walk := by
      refine if_neg ?_
      rw [ptw_req_fire, hs]
      exact Bool.false_ne_true
    rw [hw, next, hf]
    exact h.waits hs
  | s_wait_invalidate => simp only [hs, reduceCtorEq] at hns

theorem inv_of_start (h : (nbdtlb c m).start s) : s.Inv := by
  have hrows := rows_of_start h
  obtain ⟨hv, hs, hf, hp⟩ := h
  refine ⟨⟨fun k j x h => ?_, fun k j v h => ?_⟩, hrows.unique, hrows.refills, fun h => ?_, ?_⟩
  · rw [hv] at h
    contradiction
  · have := Entry.valid_of_hit h
    rw [hv] at this
    contradiction
  · rw [hs] at h
    contradiction
  · rw [hf]
    exact ⟨Nat.zero_le _, fun v => by rw [hp]; exact Nat.zero_le _⟩

theorem inv_of_reach [NeZero m] (h : ((nbdtlb c m).restrict Obeys).Reach s) : s.Inv := by
  refine h.inv (P := Inv) (fun s h0 => inv_of_start (m := m) h0) fun s i hi hok => ?_
  have hrows := hi.rows.next hok.1
  refine ⟨hi.fresh_next hok.1 hok.2, hrows.unique, hrows.refills, hi.waits_next, ?_⟩
  exact ⟨Nat.le_succ_of_le hi.past_next.1, fun v => Nat.le_succ_of_le (hi.past_next.2 v)⟩

/-! ## Responses -/

/-- A response that is no miss translates with one entry. -/
theorem resp_of_hit {w : Fin m} (h : (s.resp i w).miss = false)
    (hv : (i.req w).vm_enabled = true) (hb : (i.req w).bad_va = false) :
    ∃ a, s.hits i w = [a] ∧ (s.resp i w).ppn = (s.entries a.1 a.2).ppn (i.req w).vpn := by
  simp only [resp, Bool.or_eq_false_iff, tlb_miss, hv, hb, Bool.not_false, Bool.true_and,
    multipleHits, decide_eq_false_iff_not] at h
  match hh : s.hits i w with
  | [] =>
    rw [hh] at h
    exact absurd h.1.2 Bool.noConfusion
  | [a] => exact ⟨a, rfl, by rw [resp, if_pos hv, hh, List.foldl_cons, List.foldl_nil, Nat.zero_or]⟩
  | _ :: _ :: _ =>
    rw [hh] at h
    exact absurd (Nat.le_add_left 2 _) h.2

/-- The data of a response is that of an entry that hits. -/
theorem hit_of_mem_resp {w : Fin m} {d : EntryData} (h : d ∈ (s.resp i w).entries) :
    ∃ (k : Kind) (j : Fin (k.count c)), (s.entries k j).hit (i.req w).vpn = true ∧
      d = (s.entries k j).getData (i.req w).vpn := by
  obtain ⟨⟨k, j⟩, ha, rfl⟩ := List.mem_map.1 h
  have hh := (List.mem_filter.1 ha).2
  rw [Bool.and_eq_true] at hh
  exact ⟨k, j, hh.2, rfl⟩

theorem Fresh.not_stale {j : Fin (k.count c)} (h : s.Fresh) (hh : (s.entries k j).hit v = true) :
    ¬ s.Stale v ((s.entries k j).getData v) := by
  rintro (hlt | hlt)
  · exact absurd (h.valid k j _ (Entry.valid_of_hit hh)) (Nat.not_le_of_lt hlt)
  · exact absurd (h.hit k j v hh) (Nat.not_le_of_lt hlt)

/-- **As long as no answer of the walker is taken that `invalidate_refill` is
    to cancel**, no entry is valid, and nothing is translated, with what was
    asked for before a full fence or a fence of the page. -/
theorem no_stale_translation [NeZero m] (h : ((nbdtlb c m).restrict Obeys).Reach s) :
    s.Fresh ∧ ∀ (i : In c m) w, ∀ d ∈ (s.resp i w).entries, ¬ s.Stale (i.req w).vpn d := by
  have hf := (inv_of_reach h).fresh
  refine ⟨hf, fun i w d hd => ?_⟩
  obtain ⟨k, j, hh, rfl⟩ := hit_of_mem_resp hd
  exact hf.not_stale hh

end NBDTLB

/-! ### Runs -/

/-- One sectored entry and one for superpages. -/
def small : Cfg := ⟨0, 1, 1, false, 3, 9⟩

/-- Nothing is asked. -/
def idle : In small 1 where
  req _ := ⟨false, 0, true, false⟩
  sfence := none
  kill := false
  ptw_req_ready := false
  ptw_resp := none
  sectored_plru := 0
  superpage_plru := 0

/-- The TLB after reset. -/
def NBDTLB.reset (c : Cfg) : NBDTLB c where
  entries _ _ := ⟨0, 0, fun _ => ⟨0, false, false, 0⟩, fun _ => false⟩
  state := .s_ready
  r_refill_tag := 0
  r_superpage_repl_addr := 0
  r_sectored_repl_addr := 0
  r_sectored_hit_addr := 0
  r_sectored_hit := false
  now := 0
  walk := 0
  fence := 0
  page_fence _ := 0

theorem start_reset {m : ℕ} : (nbdtlb c m).start (.reset c) :=
  ⟨fun _ _ _ => rfl, rfl, rfl, fun _ => rfl⟩

/-- What the walker says of a page. -/
def answer : PTWResp := ⟨7, false, 2, false, true⟩

/-- A request of page 5. -/
def asked : In small 1 := { idle with req _ := ⟨true, 5, true, false⟩ }

/-- A miss, the request for its walk, and the answer. -/
def walk : List (In small 1) :=
  [asked, { idle with ptw_req_ready := true }, { idle with ptw_resp := some answer }]

/-- Page 5 is walked three times: a full fence and a fence of the page come between. -/
def walked : List (In small 1) :=
  walk ++ { idle with sfence := some ⟨false, false, 0⟩ } ::
    walk ++ { asked with sfence := some ⟨true, false, 5⟩ } :: walk

/-- The same with a fence while the walker is at work. -/
def fencedWalk : List (In small 1) :=
  [asked, { idle with ptw_req_ready := true }, { idle with sfence := some ⟨false, false, 0⟩ },
    { idle with ptw_resp := some answer }]

/-- The walker answers what it was asked, and the page that is fenced is presented. -/
def test {m : ℕ} (s : NBDTLB c) (i : In c m) : Bool :=
  (i.ptw_resp.isNone || s.state = .s_wait || s.state = .s_wait_invalidate) &&
    i.sfence.all fun f => !f.rs1 || (List.finRange m).all fun w => (i.req w).vpn == f.vpn

theorem ok_of_test {m : ℕ} (s : NBDTLB c) (i : In c m) (h : test s i = true) :
    (nbdtlb c m).ok s i := by
  simp only [test, Bool.and_eq_true, Bool.or_eq_true, decide_eq_true_eq, Option.isNone_iff_eq_none,
    Option.all_eq_true, Bool.not_eq_true', List.all_eq_true, beq_iff_eq] at h
  constructor
  · intro hr
    rcases h.1 with (hn | hs) | hs
    · rw [hn] at hr
      contradiction
    · exact .inl hs
    · exact .inr hs
  · intro f hf h1 w
    rcases h.2 f hf with hno | hall
    · rw [hno] at h1
      contradiction
    · exact hall w (List.mem_finRange w)

theorem obeys_of_test {m : ℕ} (s : NBDTLB c) (i : In c m)
    (h : (test s i && (i.ptw_resp.isNone || !s.invalidate_refill i)) = true) :
    ((nbdtlb c m).restrict NBDTLB.Obeys).ok s i := by
  rw [Bool.and_eq_true, Bool.or_eq_true, Bool.not_eq_true'] at h
  refine ⟨ok_of_test s i h.1, fun hr => ?_⟩
  rcases h.2 with hn | hi
  · rw [Option.isNone_iff_eq_none.1 hn] at hr
    contradiction
  · exact .inl hi

/-- After both fences page 5 is translated by its third walk only. -/
theorem no_stale_translation_walked :
    let s := (nbdtlb small 1).run (.reset small) walked
    s.fence = 3 ∧ s.page_fence 5 = 7 ∧ (s.resp asked 0).miss = false ∧
      (s.resp asked 0).entries.map (·.walk) = [9] ∧ s.Fresh ∧
      ∀ (i : In small 1) w, ∀ d ∈ (s.resp i w).entries, ¬s.Stale (i.req w).vpn d := by
  have h := NBDTLB.no_stale_translation (Machine.reach_run walked (.start (start_reset (m := 1)))
    (Machine.accepts_of_passes obeys_of_test _ _ (by decide +kernel)))
  exact ⟨by decide +kernel, by decide +kernel, by decide +kernel, by decide +kernel, h.1, h.2⟩

/-- The answer that comes after a fence leaves a valid entry. -/
theorem stale_after_sfence : ¬ ∀ (c : Cfg) (m : ℕ) (s : NBDTLB c), (nbdtlb c m).Reach s → s.Fresh := by
  intro h
  have hf := h small 1 _ (Machine.reach_run fencedWalk (.start (start_reset (m := 1)))
    (Machine.accepts_of_passes ok_of_test _ _ (by decide +kernel)))
  have := hf.valid .sectored ⟨0, by decide⟩ ⟨0, by decide⟩ (by decide +kernel)
  exact absurd this (by decide +kernel)

end BoomStop.Tlb
