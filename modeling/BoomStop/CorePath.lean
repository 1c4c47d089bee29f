/-
  The path that commits is the path of the program, whatever is predicted
  (`frontend.scala`, `fetch-target-queue.scala`, `functional-unit.scala`,
  `core.scala`), with the optimisation of short forward branches off.

  * `Core`, `core`: packets enter, uops read the queue and execute in any order,
    mispredictions kill and redirect, uops commit in order, flushes restart;
  * `CoreInv`: each uop is where the one before it leads, as far as that is
    known;
  * `path_architectural`: of two uops that commit one after the other, the second
    is at the architectural successor of the first.
-/
import BoomStop.PathOrder
import BoomStop.Lib.Machine

namespace BoomStop.Exu

open Ifu Sync

variable {p : Params}

/-! ## The core -/

/-- A uop on its way to commit: what it has read of the queue, and its operands
    once its branch is resolved. -/
structure RobUop (p : Params) where
  uop : MicroOp p
  ftq : Option (GetPCFromFtq p)
  operands : Option (BitVec 64 × BitVec 64)

/-- A branch or a `JALR`, which the unit resolves. -/
def RobUop.resolves (u : RobUop p) : Bool := cs_is_br u.uop.inst || cs_is_jalr u.uop.inst

/-- The frontend's stage and next address, the queue of packets, the uops since
    the last flush with the number of those that have committed, and the
    misprediction on its way to the frontend. -/
structure Core (p : Params) where
  regs : F3Regs
  next_fetch : BitVec p.va
  ftq : List (BitVec p.va × FTQBundle p)
  uops : List (RobUop p)
  committed : ℕ
  b2 : Option (BrResolutionInfo p)

/-- What happens in the core. -/
inductive CoreStep (p : Params)
  /-- a packet goes on -/
  | fetch (x : F3In p) (info : PacketInfo)
  /-- a uop reads the queue; a place behind the last packet holds an old address -/
  | get_ftq_pc (k : ℕ) (old_pc : BitVec p.va)
  /-- the unit resolves a branch or a `JALR` -/
  | exec (k : ℕ) (rs1 rs2 : BitVec 64)
  /-- the misprediction reaches the frontend -/
  | redirect
  | commit
  /-- the pipeline is flushed -/
  | flush (redirect_pc : BitVec p.va)

/-- The queue's update of a mispredicted packet. -/
def BrResolutionInfo.toFtq (b : BrResolutionInfo p) : BrResolution 1 :=
  ⟨b.mispredict, b.taken, 0, b.uop.pc_lob⟩

namespace Core

variable (s : Core p)

/-- The address of a packet in the queue. -/
def fetchPc (ftq_idx : ℕ) : BitVec p.va := ((s.ftq[ftq_idx]?).map Prod.fst).getD 0

/-- `get_ftq_pc`. -/
def get_ftq_pc (u : RobUop p) (old_pc : BitVec p.va) : Option (GetPCFromFtq p) :=
  (s.ftq[u.uop.ftq_idx]?).map fun e =>
    { entry := e.2
      next_val := (s.ftq[u.uop.ftq_idx + 1]?).isSome
      next_pc := ((s.ftq[u.uop.ftq_idx + 1]?).map Prod.fst).getD old_pc }

/-- A packet goes on; what enters behind a misprediction is killed with it. -/
def fetch (cfg : F3Cfg) (x : F3In p) (info : PacketInfo) : Core p :=
  { s with
    regs := F3Regs.fire cfg x s.regs
    next_fetch := f3_predicted_target cfg x s.regs
    ftq := s.ftq ++ [(x.pc, (fetch_bundle cfg x s.regs info).new_entry)]
    uops := if s.b2.isSome then s.uops
      else s.uops ++ (enq_uops cfg x s.regs info s.ftq.length).map fun u => ⟨u, none, none⟩ }

/-- A uop is resolved; a misprediction kills the younger ones. -/
def exec (vaddrBits : ℕ) (k : ℕ) (u : RobUop p) (ftq : GetPCFromFtq p) (rs1 rs2 : BitVec 64) :
    Core p :=
  let b := brinfo vaddrBits u.uop rs1 rs2 ftq
  let u' := { u with operands := some (rs1, rs2) }
  if b.mispredict then { s with uops := s.uops.take k ++ [u'], b2 := some b }
  else { s with uops := s.uops.set k u' }

/-- The frontend goes to the target of a mispredicted branch. -/
def redirect (b : BrResolutionInfo p) : Core p :=
  { s with
    regs := s.regs.clear
    next_fetch := mispredict_target (s.fetchPc b.uop.ftq_idx) b
    ftq := s.ftq.take b.uop.ftq_idx ++
      ((s.ftq[b.uop.ftq_idx]?).map fun e => (e.1, e.2.redirected b.toFtq)).toList
    b2 := none }

end Core

/-- The core, for any order of its steps and anything that is predicted; each
    packet is where the one before it says. -/
def core (cfg : F3Cfg) (vaddrBits : ℕ) (p : Params) : Machine (Core p) (CoreStep p) where
  start s := s.regs.f3_prev_is_half = false ∧ s.ftq = [] ∧ s.uops = [] ∧ s.committed = 0 ∧
    s.b2 = none
  ok s i :=
    match i with
    | .fetch x _ => x.pc = s.next_fetch
    | .exec k _ _ => ∃ u, s.uops[k]? = some u ∧ u.resolves = true ∧ u.ftq.isSome ∧ u.operands = none
    -- a branch is busy until it is resolved
    | .commit => ∃ u, s.uops[s.committed]? = some u ∧ (u.resolves = true → u.operands.isSome)
    | .get_ftq_pc _ _ | .redirect | .flush _ => True
  next s i :=
    match i with
    | .fetch x info => s.fetch cfg x info
    | .get_ftq_pc k old_pc =>
      match s.uops[k]? with
      | some u => { s with uops := s.uops.set k { u with ftq := s.get_ftq_pc u old_pc } }
      | none => s
    | .exec k rs1 rs2 =>
      match s.uops[k]?, (s.uops[k]?).bind RobUop.ftq with
      | some u, some ftq => s.exec vaddrBits k u ftq rs1 rs2
      | _, _ => s
    | .redirect =>
      match s.b2 with
      | some b => s.redirect b
      | none => s
    | .commit => { s with committed := s.committed + 1 }
    | .flush redirect_pc => ⟨s.regs.clear, redirect_pc, [], [], 0, none⟩

/-! ## Where a uop leads -/

section Path

variable {cfg : F3Cfg} {vaddrBits : ℕ} {s : Core p} {u v : RobUop p}

/-- Where a uop leads, given the addresses of the packets and where the next one
    will be; a `JALR` that is not resolved leads to the next packet. -/
def nextPc (vaddrBits : ℕ) (ftq : List (BitVec p.va × FTQBundle p)) (next_fetch : BitVec p.va)
    (u : RobUop p) : BitVec p.va :=
  match u.operands with
  | some (rs1, rs2) => archNext vaddrBits u.uop.inst u.uop.is_rvc u.uop.debug_pc rs1 rs2
  | none =>
    if cs_is_jalr u.uop.inst then
      halfAlign (((ftq[u.uop.ftq_idx + 1]?).map Prod.fst).getD next_fetch)
    else pathNext u.uop

/-- The path through a list of uops. -/
structure Path (vaddrBits : ℕ) (ftq : List (BitVec p.va × FTQBundle p)) (next_fetch : BitVec p.va)
    (uops : List (RobUop p)) : Prop where
  link : ∀ (k : ℕ) (u v : RobUop p), uops[k]? = some u → uops[k + 1]? = some v →
    v.uop.debug_pc = nextPc vaddrBits ftq next_fetch u
  order : ∀ (j k : ℕ) (u v : RobUop p), j < k → uops[j]? = some u → uops[k]? = some v →
    u.uop.ftq_idx ≤ v.uop.ftq_idx ∧
      (cs_is_jalr u.uop.inst = true → u.uop.ftq_idx < v.uop.ftq_idx)
  entry : ∀ u ∈ uops, ∃ e, ftq[u.uop.ftq_idx]? = some e ∧ Placed e.1 u.uop
  whole : ∀ u ∈ uops, u.uop.is_sfb = false ∧ halfAlign u.uop.debug_pc = u.uop.debug_pc

/-- What a `JALR` has read of the queue is still there when it is resolved. -/
def Fresh (ftq : List (BitVec p.va × FTQBundle p)) (u : RobUop p) : Prop :=
  u.operands = none → cs_is_jalr u.uop.inst = true → ∀ f, u.ftq = some f → f.next_val = true →
    (ftq[u.uop.ftq_idx + 1]?).map Prod.fst = some f.next_pc

/-- The misprediction on its way is that of the youngest uop. -/
def Pending (vaddrBits : ℕ) (uops : List (RobUop p)) (b : BrResolutionInfo p) : Prop :=
  ∃ u rs1 rs2 f, uops.getLast? = some u ∧ u.resolves = true ∧ u.operands = some (rs1, rs2) ∧
    b = brinfo vaddrBits u.uop rs1 rs2 f

/-- What holds in every reachable state. -/
structure CoreInv (vaddrBits : ℕ) (s : Core p) : Prop where
  path : Path vaddrBits s.ftq s.next_fetch s.uops
  fresh : ∀ u ∈ s.uops, Fresh s.ftq u
  tail : s.b2 = none → ∀ u, s.uops.getLast? = some u →
    tailPc s.next_fetch s.regs = nextPc vaddrBits s.ftq s.next_fetch u
  regs : RegsOk s.next_fetch s.regs
  pending : ∀ b, s.b2 = some b → Pending vaddrBits s.uops b
  committed_le : s.committed ≤ s.uops.length
  done : ∀ k < s.committed, ∀ u, s.uops[k]? = some u → u.resolves = true → u.operands.isSome

/-- Each uop of the one list is a uop of the other that leads to the same place,
    the last one apart. -/
def Leads (vaddrBits : ℕ) (ftq ftq' : List (BitVec p.va × FTQBundle p))
    (next_fetch next_fetch' : BitVec p.va) (uops uops' : List (RobUop p)) : Prop :=
  ∀ (k : ℕ) (u' : RobUop p), uops'[k]? = some u' → ∃ u, uops[k]? = some u ∧ u'.uop = u.uop ∧
    (k + 1 < uops'.length →
      nextPc vaddrBits ftq' next_fetch' u' = nextPc vaddrBits ftq next_fetch u)

theorem Path.of_leads {ftq ftq' : List (BitVec p.va × FTQBundle p)}
    {next_fetch next_fetch' : BitVec p.va} {uops uops' : List (RobUop p)}
    (h : Path vaddrBits ftq next_fetch uops)
    (hl : Leads vaddrBits ftq ftq' next_fetch next_fetch' uops uops')
    (he : ∀ u ∈ uops', (ftq'[u.uop.ftq_idx]?).map Prod.fst = (ftq[u.uop.ftq_idx]?).map Prod.fst) :
    Path vaddrBits ftq' next_fetch' uops' := by
  have hmem {u' : RobUop p} (hu' : u' ∈ uops') : ∃ u ∈ uops, u'.uop = u.uop := by
    obtain ⟨k, hk⟩ := List.mem_iff_getElem?.1 hu'
    obtain ⟨u, hu, heq, -⟩ := hl k u' hk
    exact ⟨u, List.mem_of_getElem? hu, heq⟩
  refine ⟨?_, ?_, ?_, ?_⟩
  · intro k u' v' hu' hv'
    obtain ⟨u, hu, -, hnext⟩ := hl k u' hu'
    obtain ⟨v, hv, hvv, -⟩ := hl (k + 1) v' hv'
    rw [hvv, h.link k u v hu hv, hnext (List.getElem?_eq_some_iff.1 hv').1]
  · intro j k u' v' hjk hu' hv'
    obtain ⟨u, hu, huu, -⟩ := hl j u' hu'
    obtain ⟨v, hv, hvv, -⟩ := hl k v' hv'
    rw [huu, hvv]
    exact h.order j k u v hjk hu hv
  · intro u' hu'
    obtain ⟨u, hu, heq⟩ := hmem hu'
    obtain ⟨e, hent, hplaced⟩ := h.entry u hu
    have hfst := he u' hu'
    rw [heq, hent] at hfst
    obtain ⟨e', he', hee⟩ := Option.map_eq_some_iff.1 hfst
    rw [heq]
    exact ⟨e', he', hee ▸ hplaced⟩
  · intro u' hu'
    obtain ⟨u, hu, heq⟩ := hmem hu'
    rw [heq]
    exact h.whole u hu

theorem Path.append {ftq : List (BitVec p.va × FTQBundle p)} {next_fetch : BitVec p.va}
    {l l' : List (RobUop p)} (h : Path vaddrBits ftq next_fetch l)
    (h' : Path vaddrBits ftq next_fetch l')
    (hlink : ∀ u v, l.getLast? = some u → l'.head? = some v →
      v.uop.debug_pc = nextPc vaddrBits ftq next_fetch u)
    (hlt : ∀ u ∈ l, ∀ v ∈ l', u.uop.ftq_idx < v.uop.ftq_idx) :
    Path vaddrBits ftq next_fetch (l ++ l') := by
  refine ⟨?_, ?_, ?_, ?_⟩
  · intro k u v hu hv
    rcases Nat.lt_trichotomy (k + 1) l.length with hk | hk | hk
    · rw [List.getElem?_append_left (by omega)] at hu
      rw [List.getElem?_append_left hk] at hv
      exact h.link k u v hu hv
    · rw [List.getElem?_append_left (by omega)] at hu
      rw [List.getElem?_append_right (by omega), hk, Nat.sub_self, ← List.head?_eq_getElem?] at hv
      refine hlink u v ?_ hv
      rw [List.getLast?_eq_getElem?, ← hk]
      exact hu
    · rw [List.getElem?_append_right (by omega)] at hu hv
      rw [Nat.sub_add_comm (by omega)] at hv
      exact h'.link _ u v hu hv
  · intro j k u v hjk hu hv
    by_cases hk : k < l.length
    · rw [List.getElem?_append_left (by omega)] at hu
      rw [List.getElem?_append_left hk] at hv
      exact h.order j k u v hjk hu hv
    · rw [List.getElem?_append_right (by omega)] at hv
      by_cases hj : j < l.length
      · rw [List.getElem?_append_left hj] at hu
        have := hlt u (List.mem_of_getElem? hu) v (List.mem_of_getElem? hv)
        exact ⟨Nat.le_of_lt this, fun _ => this⟩
      · rw [List.getElem?_append_right (by omega)] at hu
        exact h'.order _ _ u v (by omega) hu hv
  · intro u hu
    exact (List.mem_append.1 hu).elim (h.entry u) (h'.entry u)
  · intro u hu
    exact (List.mem_append.1 hu).elim (h.whole u) (h'.whole u)

/-! ## A packet enters -/

theorem nextPc_fetch {ftq : List (BitVec p.va × FTQBundle p)} {next_fetch : BitVec p.va}
    (hu : u.uop.ftq_idx < ftq.length) (e : FTQBundle p) (next_fetch' : BitVec p.va) :
    nextPc vaddrBits (ftq ++ [(next_fetch, e)]) next_fetch' u =
      nextPc vaddrBits ftq next_fetch u := by
  have hget : (((ftq ++ [(next_fetch, e)])[u.uop.ftq_idx + 1]?).map Prod.fst).getD next_fetch' =
      ((ftq[u.uop.ftq_idx + 1]?).map Prod.fst).getD next_fetch := by
    rcases Nat.lt_or_eq_of_le (Nat.succ_le_of_lt hu) with hlt | heq
    · rw [List.getElem?_append_left hlt, List.getElem?_eq_getElem hlt]
      rfl
    · rw [Nat.succ_eq_add_one] at heq
      rw [heq, List.getElem?_concat_length, List.getElem?_eq_none (Nat.le_refl _)]
      rfl
  rw [nextPc, nextPc, hget]

theorem nextPc_new {ftq : List (BitVec p.va × FTQBundle p)} {next_fetch : BitVec p.va}
    {w : MicroOp p} (hr : cs_is_jalr w.inst = false) :
    nextPc vaddrBits ftq next_fetch ⟨w, none, none⟩ = pathNext w := by
  simp only [nextPc, hr, Bool.false_eq_true, if_false]

theorem SeqFrom.head {a : BitVec p.va} {l : List (FetchedInst p)} (h : SeqFrom a l)
    {v : FetchedInst p} (hv : l.head? = some v) : v.pc = a := by
  cases l with
  | nil => cases hv
  | cons w l =>
    cases hv
    exact h.1

theorem SeqFrom.link {l : List (FetchedInst p)} : ∀ {a : BitVec p.va}, SeqFrom a l →
    ∀ {k : ℕ} {u v : FetchedInst p}, l[k]? = some u → l[k + 1]? = some v →
      v.pc = u.pc + instSize u.is_rvc := by
  induction l with
  | nil =>
    intro a _ k u v hu
    cases hu
  | cons w l ih =>
    intro a h k u v hu hv
    cases k with
    | zero =>
      cases hu
      exact h.2.head (List.head?_eq_getElem?.trans hv)
    | succ k => exact ih h.2 hu hv

theorem nextOf_last (a : BitVec p.va) {l : List (FetchedInst p)} {u : FetchedInst p}
    (hu : l.getLast? = some u) : nextOf a l = u.pc + instSize u.is_rvc := by
  rw [← List.dropLast_append_getLast? u hu, nextOf_concat]

theorem mem_dropLast_of_lt {α : Type*} {l : List α} {k : ℕ} {u : α} (hu : l[k]? = some u)
    (hk : k + 1 < l.length) : u ∈ l.dropLast := by
  refine List.mem_of_getElem? (i := k) ?_
  rw [List.getElem?_dropLast, if_pos (by omega), hu]

section Packet

variable {x : F3In p} {r : F3Regs} {n : ℕ} {us : List (MicroOp p)}

/-- The path through a packet. -/
theorem PacketUops.path (h : PacketUops cfg x r n us) {ftq : List (BitVec p.va × FTQBundle p)}
    (he : (ftq[n]?).map Prod.fst = some x.pc) (next_fetch : BitVec p.va) :
    Path vaddrBits ftq next_fetch (us.map fun u => ⟨u, none, none⟩) := by
  have hback {k : ℕ} {u : RobUop p} (hu : (us.map fun u => (⟨u, none, none⟩ : RobUop p))[k]? =
      some u) : us[k]? = some u.uop ∧ u = ⟨u.uop, none, none⟩ := by
    rw [List.getElem?_map, Option.map_eq_some_iff] at hu
    obtain ⟨w, hw, rfl⟩ := hu
    exact ⟨hw, rfl⟩
  have hmem {u : RobUop p} (hu : u ∈ us.map fun u => (⟨u, none, none⟩ : RobUop p)) :
      Entered x.pc n u.uop := by
    obtain ⟨w, hw, rfl⟩ := List.mem_map.1 hu
    exact h.entered w hw
  -- only the last one is taken
  have hstop {k : ℕ} {u : RobUop p} (hu : us[k]? = some u.uop) (hk : k + 1 < us.length) :
      u.uop.taken = false ∧ Entered x.pc n u.uop :=
    ⟨h.stop _ (mem_dropLast_of_lt hu hk), h.entered _ (List.mem_of_getElem? hu)⟩
  refine ⟨?_, ?_, ?_, ?_⟩
  · intro k u v hu hv
    obtain ⟨hu, heq⟩ := hback hu
    obtain ⟨hv, -⟩ := hback hv
    obtain ⟨ht, hent⟩ := hstop hu (List.getElem?_eq_some_iff.1 hv).1
    rw [heq, nextPc_new (hent.not_jalr ht), hent.pathNext_of_not_taken ht]
    exact h.seq.link (u := uopFetched u.uop) (v := uopFetched v.uop) (k := k)
      (by rw [List.getElem?_map, hu]; rfl) (by rw [List.getElem?_map, hv]; rfl)
  · intro j k u v hjk hu hv
    have hidx : u.uop.ftq_idx = v.uop.ftq_idx := by
      rw [(hmem (List.mem_of_getElem? hu)).ftq_idx, (hmem (List.mem_of_getElem? hv)).ftq_idx]
    obtain ⟨hu, -⟩ := hback hu
    obtain ⟨hv, -⟩ := hback hv
    have hlt := (List.getElem?_eq_some_iff.1 hv).1
    obtain ⟨ht, hent⟩ := hstop hu (by omega)
    refine ⟨Nat.le_of_eq hidx, fun hr => ?_⟩
    rw [hent.not_jalr ht] at hr
    cases hr
  · intro u hu
    obtain ⟨e, hent, hpc⟩ := Option.map_eq_some_iff.1 he
    refine ⟨e, ?_, hpc ▸ (hmem hu).placed⟩
    rw [(hmem hu).ftq_idx, hent]
  · intro u hu
    exact ⟨(hmem hu).is_sfb, (hmem hu).even⟩

theorem pathNext_even {u : MicroOp p} (hpc : halfAlign u.debug_pc = u.debug_pc)
    (h : cs_is_jal u.inst = true ∨ cs_is_br u.inst = true ∧ u.taken = true) :
    halfAlign (pathNext u) = pathNext u := by
  rw [pathNext]
  cases hj : cs_is_jal u.inst with
  | true => exact halfAlign_add hpc (immJ_even _ _)
  | false =>
    obtain ⟨hb, ht⟩ := h.resolve_left (by rw [hj]; exact Bool.false_ne_true)
    rw [hb, ht]
    exact halfAlign_add hpc (immB_even _ _)

/-- The last uop of a packet leads to the next packet. -/
theorem PacketUops.tail (h : PacketUops cfg x r n us) {ftq : List (BitVec p.va × FTQBundle p)}
    (hn : ftq.length = n + 1) {u : MicroOp p} (hu : us.getLast? = some u) :
    tailPc (f3_predicted_target cfg x r) (F3Regs.fire cfg x r) =
      nextPc vaddrBits ftq (f3_predicted_target cfg x r) ⟨u, none, none⟩ := by
  have hent := h.entered u (List.mem_of_getLast? hu)
  cases hv : cfi_idx_valid cfg x r with
  | false =>
    obtain ⟨hno, hnext⟩ := h.goes_on hv
    have ht := hno u (List.mem_of_getLast? hu)
    rw [← hnext, nextPc_new (hent.not_jalr ht), hent.pathNext_of_not_taken ht]
    exact nextOf_last _ (u := uopFetched u) (by rw [List.getLast?_map, hu]; rfl)
  | true =>
    have hhalf : (F3Regs.fire cfg x r).f3_prev_is_half = false := by
      rw [F3Regs.fire, hv, Bool.not_true, Bool.and_false]
    obtain ⟨w, hw, ht, htarget⟩ := h.leaves hv
    obtain rfl : w = u := Option.some.inj (hw.symm.trans hu)
    rw [tailPc, hhalf, if_neg Bool.false_ne_true]
    cases hr : cs_is_jalr w.inst with
    | true =>
      have hnone : ftq[w.ftq_idx + 1]? = none := by
        rw [hent.ftq_idx]
        exact List.getElem?_eq_none (Nat.le_of_eq hn)
      simp only [nextPc, hr, if_true, hnone, Option.map_none, Option.getD_none]
    | false =>
      rw [nextPc_new hr, htarget hr]
      refine pathNext_even hent.even ?_
      rcases hent.taken.1 ht with hj | hr' | hb
      · exact .inl hj
      · rw [hr] at hr'
        cases hr'
      · exact .inr hb

/-- A packet without uops is passed over. -/
theorem PacketUops.tail_nil (h : PacketUops cfg x r n []) :
    tailPc (f3_predicted_target cfg x r) (F3Regs.fire cfg x r) = tailPc x.pc r := by
  cases hv : cfi_idx_valid cfg x r with
  | false => exact (h.goes_on hv).2.symm
  | true =>
    obtain ⟨w, hw, -⟩ := h.leaves hv
    cases hw

end Packet

variable {m n : ℕ}

theorem fetch_leads {ftq : List (BitVec p.va × FTQBundle p)} {next_fetch : BitVec p.va}
    {uops : List (RobUop p)} (h : Path vaddrBits ftq next_fetch uops) (e : FTQBundle p)
    (next_fetch' : BitVec p.va) : Path vaddrBits (ftq ++ [(next_fetch, e)]) next_fetch' uops := by
  have hlt {u : RobUop p} (hu : u ∈ uops) : u.uop.ftq_idx < ftq.length := by
    obtain ⟨e, he, -⟩ := h.entry u hu
    exact (List.getElem?_eq_some_iff.1 he).1
  refine h.of_leads ?_ ?_
  · intro k u hu
    exact ⟨u, hu, rfl, fun _ => nextPc_fetch (hlt (List.mem_of_getElem? hu)) e next_fetch'⟩
  · intro u hu
    rw [List.getElem?_append_left (hlt hu)]

theorem Fresh.fetch {ftq : List (BitVec p.va × FTQBundle p)} (h : Fresh ftq u)
    (e : BitVec p.va × FTQBundle p) : Fresh (ftq ++ [e]) u := by
  intro ho hr f hf hv
  have hget := h ho hr f hf hv
  obtain ⟨e', he', hpc⟩ := Option.map_eq_some_iff.1 hget
  rw [List.getElem?_append_left (List.getElem?_eq_some_iff.1 he').1]
  exact hget

theorem coreInv_fetch (h : p.Shape m n) (hc : cfg.ReadsLower) (hinv : CoreInv vaddrBits s)
    {x : F3In p} (info : PacketInfo) (hx : x.pc = s.next_fetch) :
    CoreInv vaddrBits (s.fetch cfg x info) := by
  have hregs : RegsOk x.pc s.regs := hx ▸ hinv.regs
  have hpacket := packetUops info h hc hregs s.ftq.length
  have hlt {u : RobUop p} (hu : u ∈ s.uops) : u.uop.ftq_idx < s.ftq.length := by
    obtain ⟨e, he, -⟩ := hinv.path.entry u hu
    exact (List.getElem?_eq_some_iff.1 he).1
  have hold := fetch_leads hinv.path (fetch_bundle cfg x s.regs info).new_entry
    (f3_predicted_target cfg x s.regs)
  rw [← hx] at hold
  have hfresh (u : RobUop p) (hu : u ∈ s.uops) : Fresh (s.fetch cfg x info).ftq u :=
    (hinv.fresh u hu).fetch _
  cases hb : s.b2 with
  | some b =>
    have huops : (s.fetch cfg x info).uops = s.uops := by
      rw [Core.fetch, hb]
      rfl
    refine ⟨huops ▸ hold, huops ▸ hfresh, ?_, hpacket.regs, ?_, huops ▸ hinv.committed_le,
      huops ▸ hinv.done⟩
    · intro hn
      exact absurd (hb.symm.trans hn) nofun
    · intro b' hb'
      rw [huops]
      exact hinv.pending b' hb'
  | none =>
    have huops : (s.fetch cfg x info).uops = s.uops ++
        (enq_uops cfg x s.regs info s.ftq.length).map fun u => ⟨u, none, none⟩ := by
      rw [Core.fetch, hb]
      rfl
    have hentry : ((s.fetch cfg x info).ftq[s.ftq.length]?).map Prod.fst = some x.pc := by
      rw [Core.fetch, List.getElem?_concat_length]
      rfl
    have hnew : Path vaddrBits (s.fetch cfg x info).ftq (f3_predicted_target cfg x s.regs)
        ((enq_uops cfg x s.regs info s.ftq.length).map fun u => ⟨u, none, none⟩) :=
      hpacket.path hentry (f3_predicted_target cfg x s.regs)
    -- the tail of the path so far is the head of the packet
    have htail (u : RobUop p) (hu : s.uops.getLast? = some u) : tailPc x.pc s.regs =
        nextPc vaddrBits (s.fetch cfg x info).ftq (f3_predicted_target cfg x s.regs) u := by
      rw [hx, hinv.tail hb u hu, Core.fetch, hx, nextPc_fetch (hlt (List.mem_of_getLast? hu))]
    refine ⟨?_, ?_, ?_, hpacket.regs, ?_, ?_, ?_⟩
    · rw [huops]
      refine hold.append hnew ?_ ?_
      · intro u v hu hv
        refine Eq.trans ?_ (htail u hu)
        rw [List.head?_map, Option.map_eq_some_iff] at hv
        obtain ⟨w, hw, rfl⟩ := hv
        exact hpacket.seq.head (v := uopFetched w) (by rw [List.head?_map, hw]; rfl)
      · intro u hu v hv
        obtain ⟨w, hw, rfl⟩ := List.mem_map.1 hv
        exact Nat.lt_of_lt_of_eq (hlt hu) (hpacket.entered w hw).ftq_idx.symm
    · rw [huops]
      intro u hu
      rcases List.mem_append.1 hu with hu | hu
      · exact hfresh u hu
      · obtain ⟨w, -, rfl⟩ := List.mem_map.1 hu
        intro _ _ f hf
        cases hf
    · intro _ u hu
      rw [huops] at hu
      cases hus : enq_uops cfg x s.regs info s.ftq.length with
      | nil =>
        rw [hus, List.map_nil, List.append_nil] at hu
        rw [hus] at hpacket
        exact hpacket.tail_nil.trans (htail u hu)
      | cons w ws =>
        rw [List.getLast?_append_of_ne_nil _ (by rw [hus]; exact List.cons_ne_nil _ _),
          List.getLast?_map, Option.map_eq_some_iff] at hu
        obtain ⟨w, hw, rfl⟩ := hu
        exact hpacket.tail (by rw [Core.fetch, List.length_append]; rfl) hw
    · intro b hb'
      exact absurd (hb.symm.trans hb') nofun
    · rw [huops, List.length_append]
      exact Nat.le_add_right_of_le hinv.committed_le
    · intro k hk u hu
      rw [huops, List.getElem?_append_left (Nat.lt_of_lt_of_le hk hinv.committed_le)] at hu
      exact hinv.done k hk u hu

/-! ## A uop is resolved -/

theorem instSize_even (va : ℕ) (is_rvc : Bool) : (instSize is_rvc : BitVec va).getLsbD 0 = false := by
  cases is_rvc <;> simp [instSize, BitVec.ofNat_eq_ofNat, BitVec.getLsbD_ofNat, Nat.testBit_zero]

/-- A branch and a `JALR` lead to an even address. -/
theorem archNext_even (hv : 2 ≤ vaddrBits) {inst : BitVec 32} (is_rvc : Bool) {pc : BitVec p.va}
    (hpc : halfAlign pc = pc) (h : cs_is_br inst = true ∨ cs_is_jalr inst = true)
    (rs1 rs2 : BitVec 64) : halfAlign (archNext vaddrBits inst is_rvc pc rs1 rs2) =
      archNext vaddrBits inst is_rvc pc rs1 rs2 := by
  rcases h with hb | hr
  · obtain ⟨hj, hr⟩ := not_jal_of_br hb
    rw [archNext, hj, hr, hb, Bool.true_and, if_neg Bool.false_ne_true, if_neg Bool.false_ne_true]
    cases branchTaken inst rs1 rs2 with
    | true => exact halfAlign_add hpc (immB_even _ _)
    | false => exact halfAlign_add hpc (instSize_even _ _)
  · rw [archNext, (not_jal_of_jalr hr).1, hr, if_neg Bool.false_ne_true, if_pos rfl,
      ← encodeVirtualAddress_and hv, halfAlign, BitVec.and_assoc, BitVec.and_self]

/-- Without a misprediction, the place a uop leads to stays. -/
theorem nextPc_resolved (hv : 2 ≤ vaddrBits) {ftq : List (BitVec p.va × FTQBundle p)}
    {next_fetch : BitVec p.va} (hres : u.resolves = true) (ho : u.operands = none)
    (hw : u.uop.is_sfb = false ∧ halfAlign u.uop.debug_pc = u.uop.debug_pc) (hf : Fresh ftq u)
    {f : GetPCFromFtq p} (hread : u.ftq = some f) {rs1 rs2 : BitVec 64}
    (hm : (brinfo vaddrBits u.uop rs1 rs2 f).mispredict = false) :
    nextPc vaddrBits ftq next_fetch { u with operands := some (rs1, rs2) } =
      nextPc vaddrBits ftq next_fetch u := by
  have hnew : nextPc vaddrBits ftq next_fetch { u with operands := some (rs1, rs2) } =
      archNext vaddrBits u.uop.inst u.uop.is_rvc u.uop.debug_pc rs1 rs2 := rfl
  rw [hnew, nextPc, ho]
  rcases Bool.or_eq_true_iff.1 hres with hb | hr
  · obtain ⟨hj, hr⟩ := not_jal_of_br hb
    simp only [archNext, pathNext, instSize, hj, hr, hb, taken_of_not_mispredict hw.1 hb hm,
      Bool.false_eq_true, if_false]
  · obtain ⟨hval, hnext⟩ := next_of_not_mispredict hv hr hm
    simp only [hr, if_true, hf ho hr f hread hval, Option.getD_some]
    rw [hnext, archNext_even hv _ hw.2 (.inr hr)]

theorem getElem?_take_concat {α : Type*} {l : List α} {k : ℕ} (hk : k < l.length) (a : α) (i : ℕ) :
    (l.take k ++ [a])[i]? = if i < k then l[i]? else if i = k then some a else none := by
  have hlen : (l.take k).length = k := List.length_take_of_le (Nat.le_of_lt hk)
  split_ifs with hi heq
  · rw [List.getElem?_append_left (by omega), List.getElem?_take_of_lt hi]
  · subst heq
    rw [List.getElem?_append_right (by omega), hlen, Nat.sub_self]
    rfl
  · rw [List.getElem?_eq_none]
    rw [List.length_append, hlen, List.length_singleton]
    omega

theorem committed_le_of_not_done (hinv : CoreInv vaddrBits s) {k : ℕ} (hu : s.uops[k]? = some u)
    (hres : u.resolves = true) (ho : u.operands = none) : s.committed ≤ k := by
  by_contra hk
  have := hinv.done k (by omega) u hu hres
  rw [ho] at this
  cases this

theorem coreInv_kill (hinv : CoreInv vaddrBits s) {k : ℕ} (hu : s.uops[k]? = some u)
    (hres : u.resolves = true) (ho : u.operands = none) {f : GetPCFromFtq p} {rs1 rs2 : BitVec 64}
    (hm : (brinfo vaddrBits u.uop rs1 rs2 f).mispredict = true) :
    CoreInv vaddrBits (s.exec vaddrBits k u f rs1 rs2) := by
  have hk := (List.getElem?_eq_some_iff.1 hu).1
  have hcom := committed_le_of_not_done hinv hu hres ho
  have hs : s.exec vaddrBits k u f rs1 rs2 =
      { s with uops := s.uops.take k ++ [{ u with operands := some (rs1, rs2) }],
               b2 := some (brinfo vaddrBits u.uop rs1 rs2 f) } := if_pos hm
  have hlen : (s.uops.take k ++ [{ u with operands := some (rs1, rs2) }]).length = k + 1 := by
    rw [List.length_append, List.length_take_of_le (Nat.le_of_lt hk)]
    rfl
  have hget := getElem?_take_concat hk { u with operands := some (rs1, rs2) }
  rw [hs]
  refine ⟨?_, ?_, nofun, hinv.regs, ?_, ?_, ?_⟩
  · refine hinv.path.of_leads ?_ fun _ _ => rfl
    intro i u' hu'
    rw [hget] at hu'
    split_ifs at hu' with hi heq
    · exact ⟨u', hu', rfl, fun _ => rfl⟩
    · cases hu'
      exact ⟨u, heq ▸ hu, rfl, fun hlt => absurd (Nat.lt_of_lt_of_eq hlt hlen) (by omega)⟩
  · intro u' hu'
    rcases List.mem_append.1 hu' with hu' | hu'
    · exact hinv.fresh u' (List.mem_of_mem_take hu')
    · cases List.mem_singleton.1 hu'
      exact nofun
  · rintro b ⟨⟩
    exact ⟨_, rs1, rs2, f, List.getLast?_concat, hres, rfl, rfl⟩
  · exact Nat.le_of_lt (Nat.lt_of_le_of_lt hcom (Nat.lt_of_lt_of_eq (Nat.lt_succ_self k) hlen.symm))
  · intro i hi u' hu'
    rw [hget, if_pos (Nat.lt_of_lt_of_le hi hcom)] at hu'
    exact hinv.done i hi u' hu'

/-- A uop learns something, and leads to the same place. -/
theorem coreInv_set (hinv : CoreInv vaddrBits s) {k : ℕ} (hu : s.uops[k]? = some u)
    (huv : v.uop = u.uop) (hnext : nextPc vaddrBits s.ftq s.next_fetch v =
      nextPc vaddrBits s.ftq s.next_fetch u) (hfresh : Fresh s.ftq v)
    (hop : u.operands.isSome → v.operands = u.operands) :
    CoreInv vaddrBits { s with uops := s.uops.set k v } := by
  have hk := (List.getElem?_eq_some_iff.1 hu).1
  have hget (i : ℕ) : (s.uops.set k v)[i]? = if i = k then some v else s.uops[i]? := by
    rw [List.getElem?_set]
    by_cases hi : i = k
    · subst hi
      rw [if_pos rfl, if_pos hk, if_pos rfl]
    · rw [if_neg (Ne.symm hi), if_neg hi]
  have hres : v.resolves = u.resolves := by rw [RobUop.resolves, RobUop.resolves, huv]
  have hlast (w : RobUop p) (hw : (s.uops.set k v).getLast? = some w) :
      ∃ w', s.uops.getLast? = some w' ∧ w.uop = w'.uop ∧ nextPc vaddrBits s.ftq s.next_fetch w =
        nextPc vaddrBits s.ftq s.next_fetch w' ∧ (w'.operands.isSome → w.operands = w'.operands) := by
    rw [List.getLast?_eq_getElem?, List.length_set, hget] at hw
    rw [List.getLast?_eq_getElem?]
    split_ifs at hw with hi
    · cases hw
      exact ⟨u, hi ▸ hu, huv, hnext, hop⟩
    · exact ⟨w, hw, rfl, rfl, fun _ => rfl⟩
  refine ⟨?_, ?_, ?_, hinv.regs, ?_, ?_, ?_⟩
  · refine hinv.path.of_leads ?_ fun _ _ => rfl
    intro i w hw
    rw [hget] at hw
    split_ifs at hw with hi
    · cases hw
      exact ⟨u, hi ▸ hu, huv, fun _ => hnext⟩
    · exact ⟨w, hw, rfl, fun _ => rfl⟩
  · intro w hw
    rcases List.mem_or_eq_of_mem_set hw with hw | rfl
    · exact hinv.fresh w hw
    · exact hfresh
  · intro hb w hw
    obtain ⟨w', hw', -, heq, -⟩ := hlast w hw
    exact (hinv.tail hb w' hw').trans heq.symm
  · intro b hb
    obtain ⟨w, rs1, rs2, f, hw, hwr, hwo, hbr⟩ := hinv.pending b hb
    have hsome : ∃ w', (s.uops.set k v).getLast? = some w' := by
      rw [← Option.isSome_iff_exists, List.getLast?_isSome]
      rintro hnil
      rw [List.set_eq_nil_iff] at hnil
      rw [hnil] at hu
      cases hu
    obtain ⟨w', hw'⟩ := hsome
    obtain ⟨w'', hw'', heq, -, hkeep⟩ := hlast w' hw'
    obtain rfl := Option.some.inj (hw''.symm.trans hw)
    refine ⟨w', rs1, rs2, f, hw', ?_, ?_, ?_⟩
    · rwa [RobUop.resolves, heq]
    · rw [hkeep (by rw [hwo]; rfl), hwo]
    · rw [heq, hbr]
  · rw [List.length_set]
    exact hinv.committed_le
  · intro i hi w hw hwr
    rw [hget] at hw
    split_ifs at hw with hik
    · cases hw
      have hdone := hinv.done i hi u (hik ▸ hu) (hres ▸ hwr)
      rw [hop hdone]
      exact hdone
    · exact hinv.done i hi w hw hwr

/-! ## The frontend is redirected -/

theorem nextPc_congr {ftq ftq' : List (BitVec p.va × FTQBundle p)}
    {next_fetch next_fetch' : BitVec p.va}
    (h : u.operands = none → cs_is_jalr u.uop.inst = true →
      ((ftq'[u.uop.ftq_idx + 1]?).map Prod.fst).getD next_fetch' =
        ((ftq[u.uop.ftq_idx + 1]?).map Prod.fst).getD next_fetch) :
    nextPc vaddrBits ftq' next_fetch' u = nextPc vaddrBits ftq next_fetch u := by
  rw [nextPc, nextPc]
  cases ho : u.operands with
  | some o => rfl
  | none =>
    cases hr : cs_is_jalr u.uop.inst with
    | true => simp only [if_true, h ho hr]
    | false => rfl

theorem resolves_iff (u : RobUop p) :
    u.resolves = true ↔ cs_is_br u.uop.inst = true ∨ cs_is_jalr u.uop.inst = true :=
  Bool.or_eq_true_iff

/-- The frontend goes where the mispredicted uop leads. -/
theorem redirect_target (hv : 2 ≤ vaddrBits) (hinv : CoreInv vaddrBits s)
    {b : BrResolutionInfo p} (hb : s.b2 = some b) :
    ∃ u, s.uops.getLast? = some u ∧ u.resolves = true ∧ u.operands.isSome ∧
      b.uop.ftq_idx = u.uop.ftq_idx ∧
      (∃ e, s.ftq[u.uop.ftq_idx]? = some e ∧ Placed e.1 u.uop) ∧
      mispredict_target (s.fetchPc u.uop.ftq_idx) b =
        nextPc vaddrBits s.ftq s.next_fetch u := by
  obtain ⟨u, rs1, rs2, f, hu, hres, ho, rfl⟩ := hinv.pending b hb
  obtain ⟨e, he, hplaced⟩ := hinv.path.entry u (List.mem_of_getLast? hu)
  have hpc : s.fetchPc u.uop.ftq_idx = e.1 := by
    rw [Core.fetchPc, he]
    rfl
  refine ⟨u, hu, hres, by rw [ho]; rfl, rfl, ⟨e, he, hplaced⟩, ?_⟩
  rw [hpc, redirect_exact hv hplaced (hinv.path.whole u (List.mem_of_getLast? hu)).1 rs1 rs2 f
    ((resolves_iff u).1 hres), nextPc, ho]

theorem redirect_regs (s : Core p) (b : BrResolutionInfo p) :
    (s.redirect b).regs.f3_prev_is_half = false := rfl

theorem redirect_next_fetch (s : Core p) (b : BrResolutionInfo p) :
    (s.redirect b).next_fetch = mispredict_target (s.fetchPc b.uop.ftq_idx) b := rfl

theorem redirect_b2 (s : Core p) (b : BrResolutionInfo p) : (s.redirect b).b2 = none := rfl

theorem coreInv_redirect (hv : 2 ≤ vaddrBits) (hinv : CoreInv vaddrBits s)
    {b : BrResolutionInfo p} (hb : s.b2 = some b) : CoreInv vaddrBits (s.redirect b) := by
  obtain ⟨u, hu, hres, ho, hidx, ⟨e, he, -⟩, htarget⟩ := redirect_target hv hinv hb
  have hlt := (List.getElem?_eq_some_iff.1 he).1
  have hlast : s.uops[s.uops.length - 1]? = some u := List.getLast?_eq_getElem?.symm.trans hu
  have hftq : (s.redirect b).ftq =
      s.ftq.take u.uop.ftq_idx ++ [(e.1, e.2.redirected b.toFtq)] := by
    rw [Core.redirect, hidx, he]
    rfl
  have hpcs {i : ℕ} (hi : i ≤ u.uop.ftq_idx) :
      ((s.redirect b).ftq[i]?).map Prod.fst = (s.ftq[i]?).map Prod.fst := by
    rw [hftq, getElem?_take_concat hlt]
    rcases Nat.lt_or_eq_of_le hi with hi | rfl
    · rw [if_pos hi]
    · rw [if_neg (Nat.lt_irrefl _), if_pos rfl, he]
      rfl
  -- a `JALR` that is not resolved is not the last uop
  have hbefore {k : ℕ} {w : RobUop p} (hw : s.uops[k]? = some w) (hk : k + 1 < s.uops.length)
      (hr : cs_is_jalr w.uop.inst = true) : w.uop.ftq_idx + 1 ≤ u.uop.ftq_idx :=
    (hinv.path.order k _ w u (by omega) hw hlast).2 hr
  have hnext (u : RobUop p) (hu : u.operands.isSome) :
      nextPc vaddrBits (s.redirect b).ftq (s.redirect b).next_fetch u =
        nextPc vaddrBits s.ftq s.next_fetch u := by
    refine nextPc_congr fun ho => ?_
    rw [ho] at hu
    cases hu
  refine ⟨?_, ?_, ?_, RegsOk.of_clear (redirect_regs s b), fun b' hb' => ?_, hinv.committed_le,
    hinv.done⟩
  · refine hinv.path.of_leads ?_ ?_
    · intro k w hw
      refine ⟨w, hw, rfl, fun hk => nextPc_congr fun _ hr => ?_⟩
      have hle := hbefore hw hk hr
      rw [hpcs hle, List.getElem?_eq_getElem (Nat.lt_of_le_of_lt hle hlt)]
      rfl
    · intro w hw
      refine hpcs ?_
      obtain ⟨k, hk⟩ := List.mem_iff_getElem?.1 hw
      have hkl := (List.getElem?_eq_some_iff.1 hk).1
      rcases Nat.lt_or_eq_of_le (Nat.le_sub_one_of_lt hkl) with hlt | rfl
      · exact (hinv.path.order k _ w u hlt hk hlast).1
      · rw [Option.some.inj (hk.symm.trans hlast)]
  · intro w hw hwo hr f hf hval
    obtain ⟨k, hk⟩ := List.mem_iff_getElem?.1 hw
    have hkl : k < s.uops.length := (List.getElem?_eq_some_iff.1 hk).1
    have hne : k + 1 ≠ s.uops.length := by
      rintro heq
      have : w = u := Option.some.inj (hk.symm.trans (by rw [← hlast, ← heq]; rfl))
      rw [← this, hwo] at ho
      cases ho
    rw [hpcs (hbefore hk (by omega) hr)]
    exact hinv.fresh w hw hwo hr f hf hval
  · intro _ w hw
    obtain rfl : w = u := Option.some.inj (hw.symm.trans hu)
    have hclear : tailPc (s.redirect b).next_fetch (s.redirect b).regs =
        halfAlign (s.redirect b).next_fetch := by
      rw [tailPc, redirect_regs, if_neg Bool.false_ne_true]
    have hgo : (s.redirect b).next_fetch = nextPc vaddrBits s.ftq s.next_fetch w := by
      rw [← htarget, ← hidx, redirect_next_fetch]
    rw [hnext w ho, hclear, hgo]
    obtain ⟨⟨rs1, rs2⟩, hops⟩ := Option.isSome_iff_exists.1 ho
    rw [nextPc, hops]
    exact archNext_even hv _ (hinv.path.whole w (List.mem_of_getLast? hu)).2
      ((resolves_iff w).1 hres) rs1 rs2
  · rw [redirect_b2] at hb'
    cases hb'

/-! ## Runs -/

theorem coreInv_nil {s : Core p} (hu : s.uops = []) (hc : s.committed = 0) (hb : s.b2 = none)
    (hr : s.regs.f3_prev_is_half = false) : CoreInv vaddrBits s := by
  have hnone {k : ℕ} {u : RobUop p} : s.uops[k]? ≠ some u := by
    rw [hu]
    exact nofun
  have hmem {u : RobUop p} : u ∉ s.uops := by
    rw [hu]
    exact List.not_mem_nil
  refine ⟨⟨fun k u v h => absurd h hnone, fun j k u v _ h => absurd h hnone,
    fun u h => absurd h hmem, fun u h => absurd h hmem⟩, fun u h => absurd h hmem,
    fun _ u h => absurd (List.mem_of_getLast? h) hmem, RegsOk.of_clear hr, fun b h => ?_, ?_,
    fun k h => ?_⟩
  · rw [hb] at h
    cases h
  · rw [hc]
    exact Nat.zero_le _
  · rw [hc] at h
    exact absurd h (Nat.not_lt_zero k)

/-- Reading the queue keeps what is known. -/
theorem coreInv_get_ftq_pc (hinv : CoreInv vaddrBits s) {k : ℕ} (hu : s.uops[k]? = some u)
    (old_pc : BitVec p.va) : CoreInv vaddrBits
      { s with uops := s.uops.set k { u with ftq := s.get_ftq_pc u old_pc } } := by
  refine coreInv_set hinv hu rfl rfl ?_ fun _ => rfl
  intro _ _ f hf hval
  obtain ⟨e, -, rfl⟩ := Option.map_eq_some_iff.1 hf
  obtain ⟨e', he'⟩ := Option.isSome_iff_exists.1 hval
  simp only [he', Option.map_some, Option.getD_some]

theorem coreInv_exec (hv : 2 ≤ vaddrBits) (hinv : CoreInv vaddrBits s) {k : ℕ}
    (hu : s.uops[k]? = some u) (hres : u.resolves = true) (ho : u.operands = none)
    {f : GetPCFromFtq p} (hf : u.ftq = some f) (rs1 rs2 : BitVec 64) :
    CoreInv vaddrBits (s.exec vaddrBits k u f rs1 rs2) := by
  cases hm : (brinfo vaddrBits u.uop rs1 rs2 f).mispredict with
  | true => exact coreInv_kill hinv hu hres ho hm
  | false =>
    have hmem := List.mem_of_getElem? hu
    have hs : s.exec vaddrBits k u f rs1 rs2 =
        { s with uops := s.uops.set k { u with operands := some (rs1, rs2) } } :=
      if_neg (by rw [hm]; exact Bool.false_ne_true)
    rw [hs]
    refine coreInv_set hinv hu rfl ?_ nofun ?_
    · exact nextPc_resolved hv hres ho (hinv.path.whole u hmem) (hinv.fresh u hmem) hf hm
    · rw [ho]
      exact nofun

theorem coreInv_commit (hinv : CoreInv vaddrBits s) (hu : s.uops[s.committed]? = some u)
    (hdone : u.resolves = true → u.operands.isSome) :
    CoreInv vaddrBits { s with committed := s.committed + 1 } := by
  refine ⟨hinv.path, hinv.fresh, hinv.tail, hinv.regs, hinv.pending, ?_, ?_⟩
  · exact (List.getElem?_eq_some_iff.1 hu).1
  · intro k hk w hw hres
    rcases Nat.lt_succ_iff_lt_or_eq.1 hk with hk | rfl
    · exact hinv.done k hk w hw hres
    · obtain rfl := Option.some.inj (hw.symm.trans hu)
      exact hdone hres

theorem coreInv_reach (h : p.Shape m n) (hc : cfg.ReadsLower) (hv : 2 ≤ vaddrBits)
    (hs : (core cfg vaddrBits p).Reach s) : CoreInv vaddrBits s := by
  refine hs.inv (P := CoreInv vaddrBits) ?_ ?_
  · rintro s ⟨hr, -, hu, hcom, hb⟩
    exact coreInv_nil hu hcom hb hr
  · intro s i hinv hok
    cases i with
    | fetch x info => exact coreInv_fetch h hc hinv info hok
    | get_ftq_pc k old_pc =>
      show CoreInv vaddrBits (match s.uops[k]? with | some u => _ | none => s)
      cases hu : s.uops[k]? with
      | none => exact hinv
      | some u => exact coreInv_get_ftq_pc hinv hu old_pc
    | exec k rs1 rs2 =>
      obtain ⟨u, hu, hres, hread, ho⟩ := hok
      obtain ⟨f, hf⟩ := Option.isSome_iff_exists.1 hread
      have hnext : (core cfg vaddrBits p).next s (.exec k rs1 rs2) =
          s.exec vaddrBits k u f rs1 rs2 := by
        simp only [core, hu, Option.bind_some, hf]
      rw [hnext]
      exact coreInv_exec hv hinv hu hres ho hf rs1 rs2
    | redirect =>
      show CoreInv vaddrBits (match s.b2 with | some b => _ | none => s)
      cases hb : s.b2 with
      | none => exact hinv
      | some b => exact coreInv_redirect hv hinv hb
    | commit =>
      obtain ⟨u, hu, hdone⟩ := hok
      exact coreInv_commit hinv hu hdone
    | flush redirect_pc => exact coreInv_nil rfl rfl rfl rfl

/-- The address that the core rebuilds is that of the uop. -/
theorem uop_pc_eq (hinv : CoreInv vaddrBits s) (hu : u ∈ s.uops) :
    uop_pc (s.fetchPc u.uop.ftq_idx) u.uop = u.uop.debug_pc := by
  obtain ⟨e, he, hplaced⟩ := hinv.path.entry u hu
  rw [Core.fetchPc, he]
  exact hplaced.uop_pc

/-- The next uop of one whose branch is resolved, or that has none. -/
theorem debug_pc_eq_archNext (hinv : CoreInv vaddrBits s) {k : ℕ} (hu : s.uops[k]? = some u)
    (hv : s.uops[k + 1]? = some v) (hdone : u.resolves = true → u.operands.isSome) :
    ∃ rs1 rs2, (u.resolves = true → u.operands = some (rs1, rs2)) ∧
      v.uop.debug_pc = archNext vaddrBits u.uop.inst u.uop.is_rvc u.uop.debug_pc rs1 rs2 := by
  rw [hinv.path.link k u v hu hv, nextPc]
  cases ho : u.operands with
  | some o => exact ⟨o.1, o.2, fun _ => rfl, rfl⟩
  | none =>
    have hres : u.resolves = false := by
      by_contra hres
      have := hdone (Bool.not_eq_false _ ▸ hres)
      rw [ho] at this
      cases this
    have hno := hres
    rw [RobUop.resolves, Bool.or_eq_false_iff] at hno
    refine ⟨0, 0, fun h => ?_, ?_⟩
    · rw [hres] at h
      cases h
    · simp only [pathNext, archNext, instSize, hno.1, hno.2, Bool.false_and, Bool.false_eq_true,
        if_false]

/-- **Predictions do not change the path.** Of two uops that commit one after the
    other, the second is at the architectural successor of the first; a branch or
    a `JALR` that is resolved without a misprediction is followed by its
    successor; and a misprediction redirects to the successor. Addresses are
    rebuilt from the queue. -/
theorem path_architectural (hp : p.Supported) (hc : cfg.ReadsLower) (hv : 2 ≤ vaddrBits)
    {s : Core p} (hs : (core cfg vaddrBits p).Reach s) :
    let pc (u : RobUop p) := uop_pc (s.fetchPc u.uop.ftq_idx) u.uop
    let successor (u : RobUop p) := archNext vaddrBits u.uop.inst u.uop.is_rvc (pc u)
    (∀ u ∈ s.uops, (s.ftq[u.uop.ftq_idx]?).isSome) ∧
    (∀ k u v, k + 1 < s.committed → s.uops[k]? = some u → s.uops[k + 1]? = some v →
      ∃ rs1 rs2, (u.resolves = true → u.operands = some (rs1, rs2)) ∧
        pc v = successor u rs1 rs2) ∧
    (∀ k u f rs1 rs2, s.uops[k]? = some u → u.resolves = true → u.operands = none →
      u.ftq = some f → (brinfo vaddrBits u.uop rs1 rs2 f).mispredict = false →
      (∀ v, s.uops[k + 1]? = some v → pc v = successor u rs1 rs2) ∧
      (s.uops.length = k + 1 → tailPc s.next_fetch s.regs = successor u rs1 rs2)) ∧
    (∀ b, s.b2 = some b → ∃ u rs1 rs2, s.uops.getLast? = some u ∧ b.uop = u.uop ∧
      u.operands = some (rs1, rs2) ∧
      ((core cfg vaddrBits p).next s .redirect).next_fetch = successor u rs1 rs2) := by
  obtain ⟨m, n, h⟩ := hp.shape
  have hinv := coreInv_reach h hc hv hs
  intro pc successor
  have hpc {k : ℕ} {u : RobUop p} (hu : s.uops[k]? = some u) : pc u = u.uop.debug_pc :=
    uop_pc_eq hinv (List.mem_of_getElem? hu)
  have hsucc {k : ℕ} {u : RobUop p} (hu : s.uops[k]? = some u) : successor u =
      archNext vaddrBits u.uop.inst u.uop.is_rvc u.uop.debug_pc := by
    show archNext vaddrBits u.uop.inst u.uop.is_rvc (pc u) = _
    rw [hpc hu]
  refine ⟨?_, ?_, ?_, ?_⟩
  · intro u hu
    obtain ⟨e, he, -⟩ := hinv.path.entry u hu
    rw [he]
    rfl
  · intro k u v hk hu hv
    rw [hpc hv, hsucc hu]
    exact debug_pc_eq_archNext hinv hu hv (hinv.done k (by omega) u hu)
  · intro k u f rs1 rs2 hu hres ho hf hm
    have hmem := List.mem_of_getElem? hu
    have hnext : nextPc vaddrBits s.ftq s.next_fetch { u with operands := some (rs1, rs2) } =
        nextPc vaddrBits s.ftq s.next_fetch u :=
      nextPc_resolved hv hres ho (hinv.path.whole u hmem) (hinv.fresh u hmem) hf hm
    refine ⟨fun v hv => ?_, fun hlen => ?_⟩
    · rw [hpc hv, hsucc hu, hinv.path.link k u v hu hv, ← hnext]
      rfl
    · have hlast : s.uops.getLast? = some u := by
        rw [List.getLast?_eq_getElem?, hlen]
        exact hu
      have hb : s.b2 = none := by
        cases hb : s.b2 with
        | none => rfl
        | some b =>
          obtain ⟨w, hw, -, hops, -⟩ := redirect_target hv hinv hb
          rw [Option.some.inj (hw.symm.trans hlast), ho] at hops
          cases hops
      rw [hsucc hu, hinv.tail hb u hlast, ← hnext]
      rfl
  · intro b hb
    obtain ⟨u, rs1, rs2, f, hu, hres, ho, hbr⟩ := hinv.pending b hb
    obtain ⟨u', hu', -, -, hidx, -, htarget⟩ := redirect_target hv hinv hb
    obtain rfl := Option.some.inj (hu'.symm.trans hu)
    have hget := List.getLast?_eq_getElem?.symm.trans hu
    have hstep : (core cfg vaddrBits p).next s .redirect = s.redirect b := by
      simp only [core, hb]
    refine ⟨u', rs1, rs2, hu, by rw [hbr]; rfl, ho, ?_⟩
    rw [hstep, redirect_next_fetch, hidx, htarget, hsucc hget, nextPc, ho]

end Path

/-! ## A run with a misprediction -/

/-- `beq x0, x0, 8` at `0x1000`, and `c.nop`s, with nothing predicted. -/
def branchIn (pc : BitVec wideFetch.va) : F3In wideFetch :=
  ⟨pc, fun i => if pc = 0x1000 ∧ i = 0 then 0x0463 else if pc = 0x1000 ∧ i = 1 then 0 else 1,
    fun _ => false, fun _ => 0, 0⟩

/-- Nothing is known of the packet. -/
def noInfo : PacketInfo := ⟨false, false, fun _ => false, fun _ => false, 0, 0⟩

/-- The core before its first packet. -/
def branchStart : Core wideFetch := ⟨⟨0, false⟩, 0x1000, [], [], 0, none⟩

/-- A packet whose branch is mispredicted, and the packet that it goes to. -/
def branchRun : List (CoreStep wideFetch) :=
  [.fetch (branchIn 0x1000) noInfo, .get_ftq_pc 0 0, .exec 0 5 5, .redirect,
    .fetch (branchIn 0x1008) noInfo, .commit, .commit]

/-- The decision procedure for the steps of the run. -/
def stepTest (s : Core p) : CoreStep p → Bool
  | .fetch x _ => x.pc == s.next_fetch
  | .exec k _ _ => (s.uops[k]?).any fun u => u.resolves && u.ftq.isSome && u.operands.isNone
  | .commit => (s.uops[s.committed]?).any fun u => !u.resolves || u.operands.isSome
  | .get_ftq_pc _ _ | .redirect | .flush _ => true

theorem ok_of_stepTest {cfg : F3Cfg} {vaddrBits : ℕ} (s : Core p) (i : CoreStep p)
    (h : stepTest s i = true) : (core cfg vaddrBits p).ok s i := by
  cases i with
  | fetch x info => exact beq_iff_eq.1 h
  | exec k rs1 rs2 =>
    obtain ⟨u, hu, hok⟩ := (Option.any_eq_true _ _).1 h
    rw [Bool.and_eq_true, Bool.and_eq_true, Option.isNone_iff_eq_none] at hok
    exact ⟨u, hu, hok.1.1, hok.1.2, hok.2⟩
  | commit =>
    obtain ⟨u, hu, hok⟩ := (Option.any_eq_true _ _).1 h
    refine ⟨u, hu, fun hres => ?_⟩
    rwa [hres, Bool.not_true, Bool.false_or] at hok
  | get_ftq_pc k old_pc => trivial
  | redirect => trivial
  | flush pc => trivial

theorem branchRun_reach : (core nopCfg 39 wideFetch).Reach
    ((core nopCfg 39 wideFetch).run branchStart branchRun) :=
  Machine.reach_run _ (.start ⟨rfl, rfl, rfl, rfl, rfl⟩)
    (Machine.accepts_of_passes ok_of_stepTest _ _ (by decide +kernel))

theorem path_architectural_branch :
    let s := (core nopCfg 39 wideFetch).run branchStart branchRun
    let pc (u : RobUop wideFetch) := uop_pc (s.fetchPc u.uop.ftq_idx) u.uop
    let successor (u : RobUop wideFetch) := archNext 39 u.uop.inst u.uop.is_rvc (pc u)
    ((∀ u ∈ s.uops, (s.ftq[u.uop.ftq_idx]?).isSome) ∧
    (∀ k u v, k + 1 < s.committed → s.uops[k]? = some u → s.uops[k + 1]? = some v →
      ∃ rs1 rs2, (u.resolves = true → u.operands = some (rs1, rs2)) ∧
        pc v = successor u rs1 rs2) ∧
    (∀ k u f rs1 rs2, s.uops[k]? = some u → u.resolves = true → u.operands = none →
      u.ftq = some f → (brinfo 39 u.uop rs1 rs2 f).mispredict = false →
      (∀ v, s.uops[k + 1]? = some v → pc v = successor u rs1 rs2) ∧
      (s.uops.length = k + 1 → tailPc s.next_fetch s.regs = successor u rs1 rs2)) ∧
    (∀ b, s.b2 = some b → ∃ u rs1 rs2, s.uops.getLast? = some u ∧ b.uop = u.uop ∧
      u.operands = some (rs1, rs2) ∧
      ((core nopCfg 39 wideFetch).next s .redirect).next_fetch = successor u rs1 rs2)) ∧
    s.committed = 2 ∧ (s.uops.take 2).map pc = [0x1000, 0x1008] :=
  ⟨path_architectural wideFetch_supported nopCfg_readsLower (by decide) branchRun_reach,
    by decide +kernel, by decide +kernel⟩

end BoomStop.Exu
