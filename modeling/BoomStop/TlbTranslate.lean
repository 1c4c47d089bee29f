/-
  What the data TLB translates to (`lsu/tlb.scala`): the machine of `Tlb` with
  the permission bits of its entries, physical addresses and page faults.

  * `leafPpn`: the page that a leaf of some level maps a virtual page to;
    `Entry.ppn_eq`: what an entry computes;
  * `Dtlb`: the TLB with the permissions, and a record of what has filled each
    sector;
  * `Filled`: every valid sector has the data of an answer of the walker, for a
    tag that agrees with the entry's;
  * `hits_translate`: a response that is no miss has the page, the offset and
    the page faults of the answer that filled the sector.
-/
import BoomStop.Tlb

namespace BoomStop.Tlb

open Sync

variable {c : Cfg} {k : Kind} {m : ℕ}

/-! ## Pages of a level -/

/-- The bits of a page number below the part that a level looks at. -/
def lowBits (c : Cfg) (level : ℕ) : ℕ := c.pgLevelBits * (c.pgLevels - 1 - level)

/-- The page that a leaf maps a virtual page to: below its level the page
    number is that of the virtual page. -/
def leafPpn (level ppn : ℕ) (vpn : Vpn c) : ℕ :=
  2 ^ lowBits c level * (ppn / 2 ^ lowBits c level) + vpn.toNat % 2 ^ lowBits c level

/-- Two virtual pages are the same to a leaf of this level. -/
def SamePage (level : ℕ) (v t : Vpn c) : Prop :=
  v.toNat / 2 ^ lowBits c level = t.toNat / 2 ^ lowBits c level

section Fields

variable {level ppn p j : ℕ} {v t : Vpn c}

theorem testBit_leafPpn : (leafPpn level ppn v).testBit p =
    if p < lowBits c level then v.toNat.testBit p else ppn.testBit p := by
  have hlt : v.toNat % 2 ^ lowBits c level < 2 ^ lowBits c level :=
    Nat.mod_lt _ (Nat.two_pow_pos _)
  rw [leafPpn, Nat.testBit_two_pow_mul_add _ hlt]
  by_cases hp : p < lowBits c level
  · rw [if_pos hp, if_pos hp, Nat.testBit_mod_two_pow, decide_eq_true hp, Bool.true_and]
  · rw [if_neg hp, if_neg hp, Nat.testBit_div_two_pow, Nat.sub_add_cancel (Nat.le_of_not_lt hp)]

/-- An aligned page number has no bits below its level. -/
theorem testBit_of_aligned (hal : ppn % 2 ^ lowBits c level = 0) (hp : p < lowBits c level) :
    ppn.testBit p = false := by
  have h : (ppn % 2 ^ lowBits c level).testBit p = ppn.testBit p := by
    rw [Nat.testBit_mod_two_pow, decide_eq_true hp, Bool.true_and]
  rw [← h, hal, Nat.zero_testBit]

/-- Where the part of a page number starts that a level looks at. -/
theorem field_start (hj : j < c.pgLevels) :
    c.vpnBits - (j + 1) * c.pgLevelBits = c.pgLevelBits * (c.pgLevels - 1 - j) := by
  rw [Cfg.vpnBits, ← Nat.sub_mul, Nat.mul_comm]
  congr 1
  omega

/-- A part that the level ignores is that of the virtual page, and any other
    one that of the leaf. -/
theorem field_leafPpn (hal : ppn % 2 ^ lowBits c level = 0) (hj : j < c.pgLevels) :
    (((if level < j then v.toNat else 0) ||| ppn) >>> (c.pgLevelBits * (c.pgLevels - 1 - j))) %
        2 ^ c.pgLevelBits =
      ((leafPpn level ppn v) >>> (c.pgLevelBits * (c.pgLevels - 1 - j))) % 2 ^ c.pgLevelBits := by
  apply Nat.eq_of_testBit_eq
  intro p
  rw [Nat.testBit_mod_two_pow, Nat.testBit_mod_two_pow, Nat.testBit_shiftRight,
    Nat.testBit_shiftRight, testBit_leafPpn, Nat.testBit_or]
  by_cases hp : p < c.pgLevelBits
  · by_cases hl : level < j
    · have hlow : c.pgLevelBits * (c.pgLevels - 1 - j) + p < lowBits c level := by
        have he : c.pgLevels - 1 - level = c.pgLevels - 1 - j + (j - level) := by omega
        have hle : c.pgLevelBits * 1 ≤ c.pgLevelBits * (j - level) :=
          Nat.mul_le_mul_left _ (by omega)
        rw [lowBits, he, Nat.mul_add]
        omega
      rw [if_pos hl, if_pos hlow, testBit_of_aligned hal hlow, Bool.or_false]
    · have hlow : ¬ c.pgLevelBits * (c.pgLevels - 1 - j) + p < lowBits c level := by
        have hle : lowBits c level ≤ c.pgLevelBits * (c.pgLevels - 1 - j) :=
          Nat.mul_le_mul_left _ (by omega)
        omega
      rw [if_neg hl, if_neg hlow, Nat.zero_testBit, Bool.false_or]
  · rw [decide_eq_false hp, Bool.false_and, Bool.false_and]

/-- Pages that agree in the parts down to a level are the same to its leaf. -/
theorem samePage_of_fields
    (h : ∀ j < c.pgLevels, j ≤ level → vpnField v j = vpnField t j) : SamePage level v t := by
  apply Nat.eq_of_testBit_eq
  intro p
  rw [Nat.testBit_div_two_pow, Nat.testBit_div_two_pow]
  generalize hq : p + lowBits c level = q
  by_cases hlt : q < c.vpnBits
  · -- the part of the page number that the bit is in
    have hpos : 0 < c.pgLevelBits := by
      rw [Nat.pos_iff_ne_zero]
      intro h0
      rw [Cfg.vpnBits, h0, Nat.mul_zero] at hlt
      exact Nat.not_lt_zero q hlt
    have hdiv : q / c.pgLevelBits < c.pgLevels := by
      rw [Nat.div_lt_iff_lt_mul hpos]
      exact hlt
    have hge : c.pgLevels - 1 - level ≤ q / c.pgLevelBits := by
      rw [Nat.le_div_iff_mul_le hpos, Nat.mul_comm]
      exact hq ▸ Nat.le_add_left _ _
    have hf := h (c.pgLevels - 1 - q / c.pgLevelBits) (by omega) (by omega)
    have hbit := congrArg (·.getLsbD (q % c.pgLevelBits)) hf
    have hstart : c.pgLevels - 1 - (c.pgLevels - 1 - q / c.pgLevelBits) = q / c.pgLevelBits := by
      omega
    simp only [vpnField, BitVec.getLsbD_extractLsb', decide_eq_true (Nat.mod_lt q hpos),
      Bool.true_and, field_start (c := c) (j := c.pgLevels - 1 - q / c.pgLevelBits) (by omega),
      hstart, Nat.div_add_mod] at hbit
    exact hbit
  · rw [Nat.testBit_lt_two_pow (lt_of_lt_of_le v.isLt (Nat.pow_le_pow_right Nat.two_pos (by omega))),
      Nat.testBit_lt_two_pow (lt_of_lt_of_le t.isLt (Nat.pow_le_pow_right Nat.two_pos (by omega)))]

end Fields

namespace Entry

variable {e : Entry c k} {v : Vpn c} {level : ℕ}

/-- A superpage entry holds a level that it can tell from the others. -/
def HoldsLevel (e : Entry c k) (level : ℕ) : Prop :=
  e.level = level ∧ (k = .superpage → level < c.pgLevels - 1)

theorem ignores_eq (h : e.HoldsLevel level) {j : ℕ} : e.ignores j = decide (level < j) := by
  obtain ⟨rfl, hk⟩ := h
  cases k with
  | superpage =>
    have hlast := hk rfl
    unfold ignores
    by_cases hj' : j = c.pgLevels - 1
    · have hlt : e.level < j := hj' ▸ hlast
      simp [hlt]
    · have hne : (j == c.pgLevels - 1) = false := beq_eq_false_iff_ne.2 hj'
      simp [hne]
  | sectored | special => simp [ignores, Kind.superpageOnly]

/-- The parts that have been put together are the upper part of the page. -/
theorem foldl_ppn (h : e.HoldsLevel level)
    (hal : (e.getData v).ppn % 2 ^ lowBits c level = 0) {n : ℕ} (hn : n ≤ c.pgLevels - 1) :
    (List.range' 1 n).foldl (fun res j =>
        res * 2 ^ c.pgLevelBits + (((if e.ignores j then v.toNat else 0) ||| (e.getData v).ppn) >>>
          (c.vpnBits - (j + 1) * c.pgLevelBits)) % 2 ^ c.pgLevelBits)
        ((e.getData v).ppn >>> (c.pgLevelBits * (c.pgLevels - 1))) =
      leafPpn level (e.getData v).ppn v >>> (c.pgLevelBits * (c.pgLevels - 1 - n)) := by
  induction n with
  | zero =>
    apply Nat.eq_of_testBit_eq
    intro p
    have hlow : lowBits c level ≤ c.pgLevelBits * (c.pgLevels - 1) :=
      Nat.mul_le_mul_left _ (Nat.sub_le _ _)
    rw [List.range'_zero, List.foldl_nil, Nat.sub_zero, Nat.testBit_shiftRight,
      Nat.testBit_shiftRight, testBit_leafPpn, if_neg (by omega)]
  | succ n ih =>
    have hj : 1 + 1 * n < c.pgLevels := by omega
    rw [List.range'_concat, List.foldl_append, ih (by omega), List.foldl_cons, List.foldl_nil,
      ignores_eq h, field_start hj]
    simp only [decide_eq_true_eq]
    rw [field_leafPpn hal hj]
    have hsplit : c.pgLevels - 1 - n = c.pgLevels - 1 - (1 + 1 * n) + 1 := by omega
    have he : c.pgLevels - 1 - (n + 1) = c.pgLevels - 1 - (1 + 1 * n) := by omega
    rw [hsplit, he, Nat.mul_succ, Nat.shiftRight_add, Nat.shiftRight_eq_div_pow _ c.pgLevelBits]
    exact Nat.div_add_mod' _ _

/-- An entry for superpages translates to the page of its leaf. -/
theorem ppn_eq_leafPpn (hk : k.isSuperpage = true) (h : e.HoldsLevel level)
    (hal : (e.getData v).ppn % 2 ^ lowBits c level = 0) :
    e.ppn v = leafPpn level (e.getData v).ppn v := by
  rw [ppn, if_pos hk]
  exact (foldl_ppn h hal le_rfl).trans (by rw [Nat.sub_self, Nat.mul_zero, Nat.shiftRight_zero])

/-- A hit of a superpage entry is the same page to its leaf. -/
theorem samePage_of_hit (hk : k.isSuperpage = true) (h : e.HoldsLevel level)
    (hh : e.hit v = true) : SamePage level e.tag v := by
  rw [hit, if_pos hk, Bool.and_eq_true, List.all_eq_true] at hh
  refine samePage_of_fields fun j hj hle => ?_
  have hf := hh.2 j (List.mem_range.2 hj)
  rw [ignores_eq h, decide_eq_false (Nat.not_lt_of_le hle), Bool.false_or, beq_iff_eq] at hf
  exact hf

/-- A hit of a sectored entry is a page with its tag. -/
theorem sector_of_hit (hk : k.isSuperpage = false) (hh : e.hit v = true) :
    e.tag.toNat / 2 ^ k.lgSectors c = v.toNat / 2 ^ k.lgSectors c := by
  rw [hit, if_neg (by rw [hk]; exact Bool.false_ne_true), Bool.and_eq_true, sectorTagMatch_iff] at hh
  exact hh.2

end Entry

/-- The sector and the tag make the page number. -/
theorem eq_of_sector {v t : Vpn c}
    (h : v.toNat / 2 ^ k.lgSectors c = t.toNat / 2 ^ k.lgSectors c)
    (hs : sectorIdx k v = sectorIdx k t) : v = t := by
  have hmod : v.toNat % 2 ^ k.lgSectors c = t.toNat % 2 ^ k.lgSectors c := congrArg Fin.val hs
  apply BitVec.eq_of_toNat_eq
  rw [← Nat.div_add_mod v.toNat (2 ^ k.lgSectors c), h, hmod, Nat.div_add_mod]

/-! ## Permissions -/

/-- The rest of `EntryData`: what the walker says of a page. -/
structure Perms where
  u : Bool
  ae : Bool
  sr : Bool
  sw : Bool
  sx : Bool
  deriving DecidableEq

/-- What the walker answers, with the permissions. -/
structure Walk extends PTWResp where
  perms : Perms

/-- The entry of the page table is a leaf: one can read or execute the page. -/
def Walk.leaf (r : Walk) : Bool := r.perms.sr || r.perms.sx

/-- `io.ptw.status`, and whether `ptbr` has translation on. -/
structure Status where
  dprv : BitVec 2
  sum : Bool
  mxr : Bool
  mode : Bool

namespace Perms

variable (p : Perms) (st : Status)

/-- The access is made as supervisor. -/
def priv_s (st : Status) : Bool := st.dprv.getLsbD 0

/-- `priv_rw_ok`, for a page. -/
def priv_rw_ok : Bool :=
  (if !priv_s st || st.sum then p.u else false) || (if priv_s st then !p.u else false)

/-- `priv_x_ok`, for a page. -/
def priv_x_ok : Bool := if priv_s st then !p.u else p.u

/-- The bit of the entry in `r_array`, -/
def r : Bool := p.priv_rw_ok st && (p.sr || if st.mxr then p.sx else false)

/-- in `w_array`, -/
def w : Bool := p.priv_rw_ok st && p.sw

/-- and in `x_array`. -/
def x : Bool := p.priv_x_ok st && p.sx

/-! What the privileged architecture says. -/

/-- Pages of user mode are for user mode, and for loads and stores of the
    supervisor under SUM; the other pages are for the supervisor. -/
def mayData : Prop := if st.dprv = 1 then p.u = true → st.sum = true else p.u = true

/-- The privilege may execute the page. -/
def mayFetch : Prop := if st.dprv = 1 then p.u = false else p.u = true

instance : Decidable (p.mayData st) := inferInstanceAs (Decidable (ite _ _ _))

instance : Decidable (p.mayFetch st) := inferInstanceAs (Decidable (ite _ _ _))

/-- A load needs a readable page, or under MXR an executable one. -/
def mayLoad : Prop := p.mayData st ∧ (p.sr = true ∨ st.mxr = true ∧ p.sx = true)

/-- A store may use the page. -/
def mayStore : Prop := p.mayData st ∧ p.sw = true

/-- A fetch may use the page. -/
def mayExecute : Prop := p.mayFetch st ∧ p.sx = true

instance : Decidable (p.mayLoad st) := inferInstanceAs (Decidable (_ ∧ _))

instance : Decidable (p.mayStore st) := inferInstanceAs (Decidable (_ ∧ _))

instance : Decidable (p.mayExecute st) := inferInstanceAs (Decidable (_ ∧ _))

variable {p st}

/-- With translation on, the lowest bit of the privilege tells the supervisor. -/
theorem priv_s_eq (h : st.dprv ≤ 1) : priv_s st = decide (st.dprv = 1) := by
  have hall : ∀ d : BitVec 2, d ≤ 1 → d.getLsbD 0 = decide (d = 1) := by decide
  exact hall _ h

theorem priv_rw_ok_iff (h : st.dprv ≤ 1) : p.priv_rw_ok st = true ↔ p.mayData st := by
  rw [priv_rw_ok, mayData, priv_s_eq h]
  by_cases hs : st.dprv = 1 <;> cases hu : p.u <;> cases hm : st.sum <;> simp [hs]

theorem r_iff (h : st.dprv ≤ 1) : p.r st = true ↔ p.mayLoad st := by
  rw [r, mayLoad, Bool.and_eq_true, priv_rw_ok_iff h]
  cases hm : st.mxr <;> simp

theorem w_iff (h : st.dprv ≤ 1) : p.w st = true ↔ p.mayStore st := by
  rw [w, mayStore, Bool.and_eq_true, priv_rw_ok_iff h]

theorem x_iff (h : st.dprv ≤ 1) : p.x st = true ↔ p.mayExecute st := by
  rw [x, mayExecute, Bool.and_eq_true, priv_x_ok, mayFetch, priv_s_eq h]
  by_cases hs : st.dprv = 1 <;> simp [hs]

end Perms

/-! ## The TLB with permissions -/

/-- `pgIdxBits`. -/
def pgIdxBits : ℕ := 12

/-- A request of a port, with its address. -/
structure DReq (c : Cfg) where
  valid : Bool
  vaddr : BitVec (c.vpnBits + pgIdxBits)
  passthrough : Bool
  bad_va : Bool
  cmd_read : Bool
  cmd_write_perms : Bool

/-- The page of the address. -/
def DReq.vpn (r : DReq c) : Vpn c := r.vaddr.extractLsb' pgIdxBits c.vpnBits

/-- The inputs of a cycle. -/
structure DIn (c : Cfg) (m : ℕ) where
  req : Fin m → DReq c
  status : Status
  sfence : Option (SFence c)
  kill : Bool
  ptw_req_ready : Bool
  ptw_resp : Option Walk
  sectored_plru : ℕ
  superpage_plru : ℕ

namespace DIn

variable (i : DIn c m)

/-- `vm_enabled`: the address is translated. -/
def vm_enabled (w : Fin m) : Bool :=
  i.status.mode && decide (i.status.dprv ≤ 1) && !(i.req w).passthrough

/-- The inputs of the TLB. -/
def toIn : In c m where
  req w := ⟨(i.req w).valid, (i.req w).vpn, i.vm_enabled w, (i.req w).bad_va⟩
  sfence := i.sfence
  kill := i.kill
  ptw_req_ready := i.ptw_req_ready
  ptw_resp := i.ptw_resp.map Walk.toPTWResp
  sectored_plru := i.sectored_plru
  superpage_plru := i.superpage_plru

end DIn

/-- What has filled a sector: the page that missed, and the answer. -/
structure Fill (c : Cfg) where
  tag : Vpn c
  walk : Walk

/-- The registers.  Ghosts: what has filled each sector last, and all answers. -/
structure Dtlb (c : Cfg) where
  tlb : NBDTLB c
  perms : (k : Kind) → Fin (k.count c) → Fin (2 ^ k.lgSectors c) → Perms
  fill : (k : Kind) → Fin (k.count c) → Fin (2 ^ k.lgSectors c) → Fill c
  log : List (Fill c)

/-- The page faults of an access. -/
structure PageFaults where
  ld : Bool
  st : Bool
  inst : Bool
  deriving DecidableEq

namespace Dtlb

variable (s : Dtlb c) (i : DIn c m)

/-- What an answer writes to the sector of the refill, for the data `d` that
    the entries have beside those in `Tlb`. -/
def write {α : Type} (d : (k : Kind) → Fin (k.count c) → Fin (2 ^ k.lgSectors c) → α)
    (new : Walk → α) (k : Kind) (j : Fin (k.count c)) : Fin (2 ^ k.lgSectors c) → α :=
  match i.ptw_resp with
  | some r =>
    if s.tlb.inserts r.toPTWResp k j then
      Function.update (d k j) (sectorIdx k s.tlb.r_refill_tag) (new r)
    else d k j
  | none => d k j

/-- One cycle. -/
def next : Dtlb c where
  tlb := s.tlb.next i.toIn
  perms := s.write i s.perms Walk.perms
  fill := s.write i s.fill (⟨s.tlb.r_refill_tag, ·⟩)
  log := s.log ++ (i.ptw_resp.map (⟨s.tlb.r_refill_tag, ·⟩)).toList

/-- The entries that hit, -/
def hits (w : Fin m) : List ((k : Kind) × Fin (k.count c)) := s.tlb.hits i.toIn w

/-- `io.resp.miss` -/
def miss (w : Fin m) : Bool := (s.tlb.resp i.toIn w).miss

/-- `io.resp.paddr` -/
def paddr (w : Fin m) : ℕ :=
  (s.tlb.resp i.toIn w).ppn * 2 ^ pgIdxBits + ((i.req w).vaddr.extractLsb' 0 pgIdxBits).toNat

/-- and their permissions. -/
def hitPerms (w : Fin m) (a : (k : Kind) × Fin (k.count c)) : Perms :=
  s.perms a.1 a.2 (sectorIdx a.1 (i.req w).vpn)

/-- `pf`.  Without translation the arrays have a set bit for the hit, which
    makes no fault. -/
def pf (w : Fin m) : PageFaults where
  ld := ((i.req w).bad_va && (i.req w).cmd_read) || (s.hits i w).any fun a =>
    (i.req w).cmd_read && !((s.hitPerms i w a).r i.status || (s.hitPerms i w a).ae)
  st := ((i.req w).bad_va && (i.req w).cmd_write_perms) || (s.hits i w).any fun a =>
    (i.req w).cmd_write_perms && !((s.hitPerms i w a).w i.status || (s.hitPerms i w a).ae)
  inst := (i.req w).bad_va || (s.hits i w).any fun a =>
    !((s.hitPerms i w a).x i.status || (s.hitPerms i w a).ae)

/-- What the walker promises: it answers what it was asked; the level is as
    wide as its port; and a leaf for a superpage is aligned, as the others are
    not leaves. -/
structure Ok : Prop where
  tlb : s.tlb.Ok i.toIn
  level : ∀ r, i.ptw_resp = some r → r.level < 2 ^ Nat.clog 2 c.pgLevels
  aligned : ∀ r, i.ptw_resp = some r → r.leaf = true → r.ppn % 2 ^ lowBits c r.level = 0

end Dtlb

/-- The page faults that the permissions of a page ask for. -/
def Perms.faults (p : Perms) (st : Status) (cmd_read cmd_write_perms : Bool) : PageFaults where
  ld := cmd_read && !decide (p.mayLoad st)
  st := cmd_write_perms && !decide (p.mayStore st)
  inst := !decide (p.mayExecute st)

/-- The TLB, from reset. -/
def dtlb (c : Cfg) (m : ℕ) : Machine (Dtlb c) (DIn c m) where
  start s := (nbdtlb c m).start s.tlb ∧ s.log = []
  ok s i := s.Ok i
  next s i := s.next i

/-! ## The invariant -/

namespace Dtlb

variable {s : Dtlb c} {i : DIn c m} {j : Fin (k.count c)} {x : Fin (2 ^ k.lgSectors c)}

/-- The sector `x` of the entry has been filled with `f`. -/
structure FilledWith (e : Entry c k) (x : Fin (2 ^ k.lgSectors c)) (p : Perms) (f : Fill c) :
    Prop where
  ppn : (e.data x).ppn = f.walk.ppn
  perms : p = f.walk.perms
  sector : sectorIdx k f.tag = x
  tag : e.tag.toNat / 2 ^ k.lgSectors c = f.tag.toNat / 2 ^ k.lgSectors c
  /-- the level of an entry for superpages -/
  level : k.isSuperpage = true → e.HoldsLevel f.walk.level
  /-- the others hold pages of the last level -/
  last : k.isSuperpage = false → c.pgLevels - 1 ≤ f.walk.level

/-- The invariant: each valid page has what the walker answered for it. -/
structure Inv (s : Dtlb c) : Prop where
  rows : s.tlb.Rows
  filled : ∀ (k : Kind) (j : Fin (k.count c)) x, (s.tlb.entries k j).valid x = true →
    s.fill k j x ∈ s.log ∧ FilledWith (s.tlb.entries k j) x (s.perms k j x) (s.fill k j x)
  aligned : ∀ f ∈ s.log, f.walk.leaf = true → f.walk.ppn % 2 ^ lowBits c f.walk.level = 0

theorem write_of_inserts {α : Type} {d : (k : Kind) → Fin (k.count c) → Fin (2 ^ k.lgSectors c) → α}
    {new : Walk → α} {r : Walk} (hr : i.ptw_resp = some r)
    (hins : s.tlb.inserts r.toPTWResp k j = true) :
    s.write i d new k j = Function.update (d k j) (sectorIdx k s.tlb.r_refill_tag) (new r) := by
  rw [write, hr]
  exact if_pos hins

/-- Without an insertion the entry and the rest of its data stay. -/
theorem write_of_not_inserts {α : Type}
    {d : (k : Kind) → Fin (k.count c) → Fin (2 ^ k.lgSectors c) → α} {new : Walk → α}
    (h : ∀ r, i.ptw_resp = some r → s.tlb.inserts r.toPTWResp k j = false) :
    s.write i d new k j = d k j := by
  unfold write
  cases hr : i.ptw_resp with
  | none => rfl
  | some r => exact if_neg (Bool.eq_false_iff.1 (h r hr))

/-- The levels of an entry for superpages are told apart by its bits. -/
theorem holdsLevel_insert {e : Entry c k} {t : Vpn c} {r : Walk} {d : EntryData}
    (hok : s.Ok i) (hr : i.ptw_resp = some r) (hins : s.tlb.inserts r.toPTWResp k j = true)
    (hk : k.isSuperpage = true) :
    (e.insert t (if k = .sectored then 0 else r.level) d).HoldsLevel r.level := by
  cases k with
  | sectored => contradiction
  | superpage =>
    rw [NBDTLB.inserts, Bool.and_eq_true, Bool.and_eq_true, decide_eq_true_eq] at hins
    have hlt : r.level < 2 ^ Nat.clog 2 (c.pgLevels - 1) :=
      lt_of_lt_of_le hins.1.2 (Nat.le_pow_clog Nat.one_lt_two _)
    exact ⟨Nat.mod_eq_of_lt hlt, fun _ => hins.1.2⟩
  | special =>
    refine ⟨Nat.mod_eq_of_lt (hok.level r hr), ?_⟩
    rintro ⟨⟩

/-- An answer that goes into a sectored entry is of the last level, and the
    entry is the one that was chosen when the page missed. -/
theorem inserts_sectored (hk : k.isSuperpage = false) {r : PTWResp}
    (hins : s.tlb.inserts r k j = true) :
    c.pgLevels - 1 ≤ r.level ∧ k = .sectored ∧ s.tlb.waddr = j.val := by
  cases k with
  | sectored =>
    rw [NBDTLB.inserts, Bool.and_eq_true, Bool.and_eq_true, beq_iff_eq] at hins
    have hlevel := hins.1.2
    rw [Bool.not_eq_true', decide_eq_false_iff_not] at hlevel
    exact ⟨Nat.le_of_not_lt hlevel, rfl, hins.2⟩
  | superpage | special => contradiction

/-- The sector that is written. -/
theorem filledWith_new {r : Walk} (hok : s.Ok i) (hr : i.ptw_resp = some r)
    (hins : s.tlb.inserts r.toPTWResp k j = true) :
    FilledWith ((s.tlb.kept k j).insert s.tlb.r_refill_tag (if k = .sectored then 0 else r.level)
      (s.tlb.newEntry r.toPTWResp)) (sectorIdx k s.tlb.r_refill_tag) r.perms
      ⟨s.tlb.r_refill_tag, r⟩ where
  ppn := by
    simp only [Entry.insert, Function.update_self]
    rfl
  perms := rfl
  sector := rfl
  tag := rfl
  level := holdsLevel_insert hok hr hins
  last hk := (inserts_sectored hk hins).1

/-- A sector beside it stays only if the entry had the same upper tag. -/
theorem filledWith_beside {r : Walk} (h : s.Inv) (hok : s.Ok i) (hr : i.ptw_resp = some r)
    (hins : s.tlb.inserts r.toPTWResp k j = true) (hne : x ≠ sectorIdx k s.tlb.r_refill_tag)
    (hx : (s.tlb.kept k j).valid x = true) :
    (s.tlb.entries k j).valid x = true ∧
      FilledWith ((s.tlb.kept k j).insert s.tlb.r_refill_tag
        (if k = .sectored then 0 else r.level) (s.tlb.newEntry r.toPTWResp)) x (s.perms k j x)
        (s.fill k j x) := by
  cases hk : k.isSuperpage with
  | true => exact absurd (Entry.sectorIdx_of_isSuperpage hk x) hne
  | false =>
    obtain ⟨hkept, hsec⟩ := NBDTLB.valid_kept hx
    obtain ⟨hlast, hks, haddr⟩ := inserts_sectored hk hins
    rw [hkept] at hx ⊢
    have hf := (h.filled k j x hx).2
    refine ⟨hx, ?_⟩
    constructor
    · exact (congrArg EntryData.ppn (Function.update_of_ne hne ..)).trans hf.ppn
    · exact hf.perms
    · exact hf.sector
    · -- the entry was chosen as it held the sector of the refill
      subst hks
      have hsome : i.toIn.ptw_resp.isSome = true := by
        rw [DIn.toIn, hr]
        rfl
      obtain ⟨j', hj', htag⟩ := (h.rows.refills_of_resp hok.tlb hsome).hit (hsec rfl)
      have hjj : j' = j := by
        rw [Fin.ext_iff, hj', ← haddr, NBDTLB.waddr, if_pos (hsec rfl)]
      rw [hjj, Entry.sectorTagMatch_iff] at htag
      exact htag.symm.trans hf.tag
    · intro hs
      rw [hk] at hs
      contradiction
    · exact hf.last

theorem mem_log_next {f : Fill c} (h : f ∈ s.log) : f ∈ (s.next i).log := List.mem_append_left _ h

theorem Inv.filled_next (h : s.Inv) (hok : s.Ok i)
    (hx : ((s.next i).tlb.entries k j).valid x = true) :
    (s.next i).fill k j x ∈ (s.next i).log ∧
      FilledWith ((s.next i).tlb.entries k j) x ((s.next i).perms k j x)
        ((s.next i).fill k j x) := by
  have hv : (s.tlb.refilled i.toIn k j).valid x = true := (NBDTLB.valid_nextEntry hx).1
  suffices hsuff : (s.next i).fill k j x ∈ (s.next i).log ∧
      FilledWith (s.tlb.refilled i.toIn k j) x ((s.next i).perms k j x) ((s.next i).fill k j x) from
    ⟨hsuff.1, hsuff.2.ppn, hsuff.2.perms, hsuff.2.sector, hsuff.2.tag, hsuff.2.level,
      hsuff.2.last⟩
  by_cases hins : ∃ r, i.ptw_resp = some r ∧ s.tlb.inserts r.toPTWResp k j = true
  · obtain ⟨r, hr, hins⟩ := hins
    have he : s.tlb.refilled i.toIn k j = (s.tlb.kept k j).insert s.tlb.r_refill_tag
        (if k = .sectored then 0 else r.level) (s.tlb.newEntry r.toPTWResp) := by
      simp only [NBDTLB.refilled, DIn.toIn, hr, Option.map_some]
      exact if_pos hins
    have hp : (s.next i).perms k j = _ := write_of_inserts hr hins
    have hf : (s.next i).fill k j = _ := write_of_inserts hr hins
    rw [he] at hv ⊢
    rw [hp, hf]
    by_cases hxs : x = sectorIdx k s.tlb.r_refill_tag
    · subst hxs
      rw [Function.update_self, Function.update_self]
      refine ⟨?_, filledWith_new hok hr hins⟩
      rw [next, hr]
      exact List.mem_append_right _ (List.mem_singleton_self _)
    · rw [Function.update_of_ne hxs, Function.update_of_ne hxs]
      have hkv : (s.tlb.kept k j).valid x = true := by
        rw [← hv]
        exact (Function.update_of_ne hxs ..).symm
      obtain ⟨hold, hfill⟩ := filledWith_beside h hok hr hins hxs hkv
      exact ⟨mem_log_next (h.filled k j x hold).1, hfill⟩
  · have hno : ∀ r, i.ptw_resp = some r → s.tlb.inserts r.toPTWResp k j = false :=
      fun r hr => Bool.eq_false_iff.2 fun ht => hins ⟨r, hr, ht⟩
    have he : s.tlb.refilled i.toIn k j = s.tlb.entries k j := by
      unfold NBDTLB.refilled DIn.toIn
      cases hr : i.ptw_resp with
      | none => rfl
      | some r => exact if_neg (Bool.eq_false_iff.1 (hno r hr))
    have hp : (s.next i).perms k j = s.perms k j := write_of_not_inserts hno
    have hf : (s.next i).fill k j = s.fill k j := write_of_not_inserts hno
    rw [he] at hv ⊢
    rw [hp, hf]
    exact ⟨mem_log_next (h.filled k j x hv).1, (h.filled k j x hv).2⟩

theorem Inv.aligned_next (h : s.Inv) (hok : s.Ok i) {f : Fill c} (hf : f ∈ (s.next i).log)
    (hl : f.walk.leaf = true) : f.walk.ppn % 2 ^ lowBits c f.walk.level = 0 := by
  rcases List.mem_append.1 hf with hold | hnew
  · exact h.aligned f hold hl
  · obtain ⟨r, hr, rfl⟩ := Option.map_eq_some_iff.1 (Option.mem_toList.1 hnew)
    exact hok.aligned r hr hl

theorem inv_of_reach (h : (dtlb c m).Reach s) : s.Inv := by
  refine h.inv (P := Inv) (fun s h0 => ?_) fun s i hi hok => ?_
  · refine ⟨NBDTLB.rows_of_start h0.1, fun k j x hx => ?_, fun f hf => ?_⟩
    · rw [h0.1.1] at hx
      contradiction
    · rw [h0.2] at hf
      contradiction
  · exact ⟨hi.rows.next hok.tlb, fun k j x => hi.filled_next hok,
      fun f => hi.aligned_next hok⟩

/-! ## Responses -/

variable {w : Fin m} {a : (k : Kind) × Fin (k.count c)}

/-- The sector that translates the page was filled for the same page. -/
theorem FilledWith.samePage {e : Entry c k} {v : Vpn c} {p : Perms} {f : Fill c}
    (h : FilledWith e (sectorIdx k v) p f) (hh : e.hit v = true) :
    SamePage f.walk.level f.tag v := by
  cases hk : k.isSuperpage with
  | true =>
    have htag : e.tag = f.tag := eq_of_sector h.tag (Entry.sectorIdx_of_isSuperpage hk _)
    exact htag ▸ Entry.samePage_of_hit hk (h.level hk) hh
  | false =>
    have hv : f.tag = v := eq_of_sector (h.tag.symm.trans (Entry.sector_of_hit hk hh)) h.sector
    rw [hv, SamePage]

/-- It translates the page as the leaf does. -/
theorem FilledWith.ppn_eq {e : Entry c k} {v : Vpn c} {p : Perms} {f : Fill c}
    (h : FilledWith e (sectorIdx k v) p f)
    (hal : f.walk.ppn % 2 ^ lowBits c f.walk.level = 0) :
    e.ppn v = leafPpn f.walk.level f.walk.ppn v := by
  have hppn : (e.getData v).ppn = f.walk.ppn := h.ppn
  cases hk : k.isSuperpage with
  | true =>
    rw [Entry.ppn_eq_leafPpn hk (h.level hk) (by rwa [hppn]), hppn]
  | false =>
    have hlow : lowBits c f.walk.level = 0 := by
      rw [lowBits, Nat.sub_eq_zero_of_le (h.last hk), Nat.mul_zero]
    rw [Entry.ppn, if_neg (by rw [hk]; exact Bool.false_ne_true), hppn, leafPpn, hlow, Nat.pow_zero,
      Nat.one_mul, Nat.div_one, Nat.mod_one, Nat.add_zero]

/-- One hit gives the page faults of its permissions, or none if the walker
    has had an access exception. -/
theorem pf_of_hit (ha : s.hits i w = [a]) (hb : (i.req w).bad_va = false)
    (hst : i.status.dprv ≤ 1) :
    s.pf i w = if (s.hitPerms i w a).ae then ⟨false, false, false⟩
      else (s.hitPerms i w a).faults i.status (i.req w).cmd_read (i.req w).cmd_write_perms := by
  have hr : (s.hitPerms i w a).r i.status = decide ((s.hitPerms i w a).mayLoad i.status) := by
    rw [Bool.eq_iff_iff, decide_eq_true_iff, Perms.r_iff hst]
  have hw : (s.hitPerms i w a).w i.status = decide ((s.hitPerms i w a).mayStore i.status) := by
    rw [Bool.eq_iff_iff, decide_eq_true_iff, Perms.w_iff hst]
  have hx : (s.hitPerms i w a).x i.status = decide ((s.hitPerms i w a).mayExecute i.status) := by
    rw [Bool.eq_iff_iff, decide_eq_true_iff, Perms.x_iff hst]
  rw [pf, ha, hb]
  simp only [List.any_cons, List.any_nil, Bool.false_and, Bool.false_or, Bool.or_false]
  cases hae : (s.hitPerms i w a).ae with
  | true => simp
  | false => simp only [Bool.or_false, hr, hw, hx, Bool.false_eq_true, if_false, Perms.faults]

/-- A response is what the fill of a sector says. -/
structure Translates (s : Dtlb c) (i : DIn c m) (w : Fin m) (f : Fill c) : Prop where
  same : SamePage f.walk.level f.tag (i.req w).vpn
  paddr : f.walk.leaf = true → s.paddr i w =
    leafPpn f.walk.level f.walk.ppn (i.req w).vpn * 2 ^ pgIdxBits +
      ((i.req w).vaddr.extractLsb' 0 pgIdxBits).toNat
  pf : s.pf i w = if f.walk.perms.ae then ⟨false, false, false⟩
    else f.walk.perms.faults i.status (i.req w).cmd_read (i.req w).cmd_write_perms

theorem Inv.translates (h : s.Inv) (hm : s.miss i w = false) (hv : i.vm_enabled w = true)
    (hb : (i.req w).bad_va = false) : ∃ a, s.hits i w = [a] ∧
      s.fill a.1 a.2 (sectorIdx a.1 (i.req w).vpn) ∈ s.log ∧
      s.Translates i w (s.fill a.1 a.2 (sectorIdx a.1 (i.req w).vpn)) := by
  obtain ⟨a, ha, hppn⟩ := NBDTLB.resp_of_hit hm hv hb
  have hmem : a ∈ s.hits i w := by
    rw [hits, ha]
    exact List.mem_singleton_self a
  have hhit : (s.tlb.entries a.1 a.2).hit (i.req w).vpn = true := by
    have hf := (List.mem_filter.1 hmem).2
    rw [Bool.and_eq_true] at hf
    exact hf.2
  obtain ⟨hlog, hfill⟩ := h.filled a.1 a.2 _ (Entry.valid_of_hit hhit)
  have hst : i.status.dprv ≤ 1 := by
    rw [DIn.vm_enabled, Bool.and_eq_true, Bool.and_eq_true, decide_eq_true_eq] at hv
    exact hv.1.2
  refine ⟨a, ha, hlog, hfill.samePage hhit, fun hleaf => ?_, ?_⟩
  · rw [paddr, hppn]
    exact congrArg (· * 2 ^ pgIdxBits + _) (hfill.ppn_eq (h.aligned _ hlog hleaf))
  · rw [← hfill.perms]
    exact pf_of_hit ha hb hst

/-- Two hits are a miss, and leave no valid entry. -/
theorem miss_of_hits (h : 2 ≤ (s.hits i w).length) : s.miss i w = true ∧
    ∀ (k : Kind) (j : Fin (k.count c)) x, ((s.next i).tlb.entries k j).valid x = false := by
  have hm : s.tlb.multipleHits i.toIn w = true := decide_eq_true h
  constructor
  · rw [miss, NBDTLB.resp, hm, Bool.or_true]
  · intro k j x
    have hany : (List.finRange m).any (s.tlb.multipleHits i.toIn) = true :=
      List.any_eq_true.2 ⟨w, List.mem_finRange w, hm⟩
    simp only [next, NBDTLB.next, NBDTLB.nextEntry, hany, Bool.not_true, Bool.and_false]

/-- **TLB hits translate correctly**: in every run, a response that is no miss
    comes from one entry; its page is the one that the leaf has which filled
    the sector, for the page that is asked for; and its page faults are those
    of the leaf, but for an access exception of the walker, after which there
    are none.  An entry holds sectors with one upper tag, and two hits are a
    miss and invalidate all entries. -/
theorem hits_translate (h : (dtlb c m).Reach s) (i : DIn c m) (w : Fin m) :
    (s.miss i w = false → i.vm_enabled w = true → (i.req w).bad_va = false →
      ∃ a, s.hits i w = [a] ∧ s.fill a.1 a.2 (sectorIdx a.1 (i.req w).vpn) ∈ s.log ∧
        s.Translates i w (s.fill a.1 a.2 (sectorIdx a.1 (i.req w).vpn))) ∧
    (∀ (k : Kind) (j : Fin (k.count c)) x y, (s.tlb.entries k j).valid x = true →
      (s.tlb.entries k j).valid y = true → (s.fill k j x).tag.toNat / 2 ^ k.lgSectors c =
        (s.fill k j y).tag.toNat / 2 ^ k.lgSectors c) ∧
    (2 ≤ (s.hits i w).length → s.miss i w = true ∧
      ∀ (k : Kind) (j : Fin (k.count c)) x, ((s.next i).tlb.entries k j).valid x = false) := by
  have hinv := inv_of_reach h
  refine ⟨hinv.translates, fun k j x y hx hy => ?_, miss_of_hits⟩
  rw [← (hinv.filled k j x hx).2.tag, (hinv.filled k j y hy).2.tag]

end Dtlb

/-! ### Runs -/

/-- Nothing is asked. -/
def idleD : DIn small 1 where
  req _ := ⟨false, 0, false, false, false, false⟩
  status := ⟨1, false, false, true⟩
  sfence := none
  kill := false
  ptw_req_ready := false
  ptw_resp := none
  sectored_plru := 0
  superpage_plru := 0

/-- A load of the supervisor. -/
def load : DIn small 1 := { idleD with req _ := ⟨true, 0x5123, false, false, true, false⟩ }

/-- The TLB after reset. -/
def Dtlb.reset (c : Cfg) : Dtlb c where
  tlb := .reset c
  perms _ _ _ := ⟨false, false, false, false, false⟩
  fill _ _ _ := ⟨0, ⟨0, false, 0, false, false⟩, ⟨false, false, false, false, false⟩⟩
  log := []

/-- The load misses, the walk is requested, and the walker answers. -/
def walkedD (r : Walk) : List (DIn small 1) :=
  [load, { idleD with ptw_req_ready := true }, { idleD with ptw_resp := some r }]

/-- The page is readable and of the last level. -/
def readable : Walk := ⟨⟨7, false, 2, false, true⟩, ⟨false, false, true, false, false⟩⟩

/-- The table could not be read. -/
def unreadable : Walk := ⟨⟨7, false, 2, false, true⟩, ⟨false, true, false, false, false⟩⟩

/-- What `Dtlb.Ok` asks of a cycle. -/
def testD (s : Dtlb small) (i : DIn small 1) : Bool :=
  test s.tlb i.toIn && i.ptw_resp.all fun r => r.level == 2

theorem ok_of_testD (s : Dtlb small) (i : DIn small 1) (h : testD s i = true) :
    (dtlb small 1).ok s i := by
  rw [testD, Bool.and_eq_true, Option.all_eq_true] at h
  refine ⟨ok_of_test _ _ h.1, fun r hr => ?_, fun r hr _ => ?_⟩
  · rw [beq_iff_eq.1 (h.2 r hr)]
    decide
  · rw [beq_iff_eq.1 (h.2 r hr)]
    exact Nat.mod_one _

theorem reach_walkedD {r : Walk} (h : (dtlb small 1).passes testD (.reset small) (walkedD r) = true) :
    (dtlb small 1).Reach ((dtlb small 1).run (.reset small) (walkedD r)) :=
  Machine.reach_run _ (.start ⟨start_reset (m := 1), rfl⟩)
    (Machine.accepts_of_passes ok_of_testD _ _ h)

/-- The load then has the page 7. -/
theorem hits_translate_walked :
    ((dtlb small 1).run (.reset small) (walkedD readable)).paddr load 0 = 0x7123 ∧
      ∃ a, ((dtlb small 1).run (.reset small) (walkedD readable)).hits load 0 = [a] := by
  refine ⟨by decide +kernel, ?_⟩
  obtain ⟨a, ha, -⟩ := (Dtlb.hits_translate (reach_walkedD (r := readable) (by decide +kernel)) load 0).1
    (by decide +kernel) (by decide +kernel) (by decide +kernel)
  exact ⟨a, ha⟩

/-- After an access exception of the walker the page faults are not those of
    the permissions. -/
theorem pf_masked_by_ae : ¬ ∀ (c : Cfg) (m : ℕ) (s : Dtlb c), (dtlb c m).Reach s →
    ∀ (i : DIn c m) w, s.miss i w = false → i.vm_enabled w = true → (i.req w).bad_va = false →
      ∀ a, s.hits i w = [a] → s.pf i w =
        (s.fill a.1 a.2 (sectorIdx a.1 (i.req w).vpn)).walk.perms.faults i.status
          (i.req w).cmd_read (i.req w).cmd_write_perms := by
  intro h
  have hpf := h small 1 _ (reach_walkedD (r := unreadable) (by decide +kernel)) load 0
    (by decide +kernel) (by decide +kernel) (by decide +kernel) ⟨.sectored, ⟨0, by decide⟩⟩
    (by decide +kernel)
  exact absurd hpf (by decide +kernel)

end BoomStop.Tlb
