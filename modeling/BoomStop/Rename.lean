/-
  Register renaming (`rename-freelist.scala`, `rename-maptable.scala`,
  `rename-stage.scala`): the free list with its two pipeline registers per
  slot and its allocation list per branch, the map table with its snapshot per
  branch, and the second rename stage that drives both, for the integer and
  the floating-point pipeline.

  * `FreeList.next`, `MapTable.next` are the two modules, one cycle each;
  * `Stage` adds the rename2 registers and, in program order and youngest
    first, the uops in flight; `stage` is its machine, driven by decode,
    dispatch, commit, branch resolution and the rollback of the ROB;
  * `Stage.ok` states what the surroundings promise: a slot fires only with a
    valid uop and a register to allocate, branch tags and masks are exact, a
    mispredict finds its branch in flight and rename2 flushed, and a rollback,
    once begun, empties the machine.
-/
import Mathlib.Data.Fintype.Basic
import Mathlib.Data.List.FinRange
import BoomStop.Lib.Sizes
import BoomStop.Lib.Machine
import BoomStop.Lib.UndoLog

namespace BoomStop.Rename

open Sync

/-- The register class of a destination. -/
inductive RType
  | RT_FIX | RT_FLT | RT_X | RT_PAS
  deriving DecidableEq

/-- A uop in rename2: `W` slots, `L` logical and `N` physical registers, `T`
    branch tags are the parameters throughout. -/
structure RenUop (L N T : ℕ) where
  ldst : Fin L
  ldst_val : Bool
  dst_rtype : RType
  stale_pdst : Fin N
  allocate_brtag : Bool
  br_tag : Fin T
  br_mask : Fin T → Bool

/-- A dispatched uop until it commits or is killed. -/
structure InFlight (L N T : ℕ) where
  ldst : Fin L
  /-- it has a destination of this pipeline -/
  writes : Bool
  pdst : Fin N
  stale_pdst : Fin N
  /-- the tag of an unresolved branch -/
  tag : Option (Fin T)
  br_mask : Fin T → Bool

variable {W L N T : ℕ}

/-! ## Free list -/

/-- `PriorityEncoderOH`: the lowest set bit. -/
def priorityEncoderOH (m : Fin N → Bool) : Option (Fin N) := (List.finRange N).find? m

/-- The mask that is left after `k` selections of `SelectFirstN`. -/
def selMask (m : Fin N → Bool) : ℕ → Fin N → Bool
  | 0 => m
  | k + 1 => fun p => selMask m k p && priorityEncoderOH (selMask m k) ≠ some p

/-- The `k`-th selection of `SelectFirstN`. -/
def sels (m : Fin N → Bool) (k : ℕ) : Option (Fin N) := priorityEncoderOH (selMask m k)

/-- The state of `RenameFreeList`. -/
structure FreeList (W N T : ℕ) where
  free_list : Fin N → Bool
  br_alloc_lists : Fin T → Fin N → Bool
  r_valid : Fin W → Bool
  r_sel : Fin W → Fin N

namespace FreeList

/-- The inputs of `RenameFreeList`; the deallocated registers are those of the
    valid ports. -/
structure In (W N T : ℕ) where
  reqs : Fin W → Bool
  dealloc_pregs : List (Fin N)
  /-- the tag of a branch that is dispatched in the slot -/
  ren_br_tags : Fin W → Option (Fin T)
  /-- `b2.mispredict` and its tag -/
  mispredict : Option (Fin T)

variable (f : FreeList W N T) (i : In W N T)

/-- `alloc_masks(j)`: the registers allocated in the slots from `j` on. -/
def alloc_masks (j : ℕ) (p : Fin N) : Bool :=
  (List.finRange W).any fun w => decide (j ≤ w.val) && i.reqs w && decide (f.r_sel w = p)

/-- `sel_fire`: a new register is selected for the port. -/
def sel_fire (w : Fin W) : Bool := (!f.r_valid w || i.reqs w) && (sels f.free_list w).isSome

/-- `sel_mask`: the registers that are selected. -/
def sel_mask (p : Fin N) : Bool :=
  (List.finRange W).any fun w => f.sel_fire i w && decide (sels f.free_list w = some p)

/-- `br_deallocs`: the registers that were given out after the branch. -/
def br_deallocs (p : Fin N) : Bool :=
  match i.mispredict with
  | some t => f.br_alloc_lists t p
  | none => false

/-- `dealloc_mask`: the registers that come back. -/
def dealloc_mask (p : Fin N) : Bool := decide (p ∈ i.dealloc_pregs) || f.br_deallocs i p

/-- One cycle of the free list. -/
def next [NeZero N] : FreeList W N T where
  free_list p := (f.free_list p && !f.sel_mask i p || f.dealloc_mask i p) && decide (p ≠ 0)
  br_alloc_lists t p :=
    if (List.finRange W).any fun w => decide (i.ren_br_tags w = some t) then
      (List.finRange W).any fun w =>
        decide (i.ren_br_tags w = some t) && f.alloc_masks i (w + 1) p
    else f.br_alloc_lists t p && !f.br_deallocs i p || f.alloc_masks i 0 p
  r_valid w := f.r_valid w && !i.reqs w || (sels f.free_list w).isSome
  r_sel w := if f.sel_fire i w then (sels f.free_list w).getD (f.r_sel w) else f.r_sel w

/-- A register is free in the list, or parked for a slot. -/
def IsFree (p : Fin N) : Prop := f.free_list p = true ∨ ∃ w, f.r_valid w = true ∧ f.r_sel w = p

end FreeList

/-! ## Map table -/

/-- The state of `RenameMapTable`. -/
structure MapTable (L N T : ℕ) where
  map_table : Fin L → Fin N
  br_snapshots : Fin T → Fin L → Fin N

/-- `remap_table` after the given valid remap requests: in the integer table
    entry `0` stays `0`. -/
def remap_table [NeZero L] [NeZero N] (float : Bool) (m : Fin L → Fin N)
    (reqs : List (Fin L × Fin N)) : Fin L → Fin N := fun l =>
  if l = 0 ∧ float = false then 0
  else reqs.foldl (fun pdst r => if r.1 = l then r.2 else pdst) (m l)

/-- One cycle: `reqs j` are the remap requests of the slots before `j`. -/
def MapTable.next [NeZero L] [NeZero N] (m : MapTable L N T) (float : Bool)
    (reqs : ℕ → List (Fin L × Fin N)) (ren_br_tags : Fin W → Option (Fin T))
    (mispredict : Option (Fin T)) : MapTable L N T where
  map_table := match mispredict with
    | some t => m.br_snapshots t
    | none => remap_table float m.map_table (reqs W)
  br_snapshots t :=
    match (List.finRange W).reverse.find? fun w => decide (ren_br_tags w = some t) with
    | some w => remap_table float m.map_table (reqs (w + 1))
    | none => m.br_snapshots t

/-! ## The rename stage -/

/-- The rename stage and the uops in flight, youngest first. -/
structure Stage (W L N T : ℕ) where
  freelist : FreeList W N T
  maptable : MapTable L N T
  ren2_valid : Fin W → Bool
  ren2_uop : Fin W → RenUop L N T
  inflight : List (InFlight L N T)
  /-- the ROB was rolling back in the last cycle -/
  rolling : Bool

/-- The inputs of a cycle. -/
structure In (W L N T : ℕ) where
  dec_fire : Fin W → Bool
  dec_uops : Fin W → RenUop L N T
  kill : Bool
  dis_fire : Fin W → Bool
  dis_ready : Bool
  /-- the number of uops that commit -/
  commits : ℕ
  /-- the number of uops in the row that is rolled back -/
  rollback : Option ℕ
  /-- the branches that resolve as predicted -/
  resolve : Fin T → Bool
  /-- `b2.mispredict` and its tag -/
  mispredict : Option (Fin T)

/-- `BypassAllocations` for the destination: the youngest older slot that
    allocates the same logical register gives the stale one. -/
def bypassStale (older : List (Fin L × Fin N)) (ldst : Fin L) (stale_pdst : Fin N) : Fin N :=
  older.foldl (fun st r => if r.1 = ldst then r.2 else st) stale_pdst

/-- The logged assignment of a uop with a destination. -/
def InFlight.entry (u : InFlight L N T) : Option (UndoLog.Entry (Fin L) (Fin N)) :=
  if u.writes then some ⟨u.ldst, u.pdst, u.stale_pdst⟩ else none

/-- The assignments of a list of uops. -/
def logOf (us : List (InFlight L N T)) : List (UndoLog.Entry (Fin L) (Fin N)) :=
  us.filterMap InFlight.entry

/-- Some uop of the list is an unresolved branch with tag `t`. -/
def pending (us : List (InFlight L N T)) (t : Fin T) : Bool := us.any fun u => u.tag = some t

/-- Every uop of the list, youngest first, is masked by exactly the older
    unresolved branches, and their tags differ. -/
def MasksExact : List (InFlight L N T) → Prop
  | [] => True
  | u :: older => (∀ t, u.br_mask t = pending older t) ∧
      (∀ t, u.tag = some t → pending older t = false) ∧ MasksExact older

/-- Branch resolution as a uop sees it. -/
def InFlight.resolve (r : Fin T → Bool) (u : InFlight L N T) : InFlight L N T :=
  { u with
    tag := u.tag.filter fun t => !r t
    br_mask := fun t => u.br_mask t && !r t }

namespace Stage

variable [NeZero L] [NeZero N] (float : Bool) (s : Stage W L N T) (i : In W L N T)

/-- `RT_FLT` for the floating-point pipeline, `RT_FIX` for the integer one. -/
def rtype : RType := if float then .RT_FLT else .RT_FIX

/-- `ren2_alloc_reqs`. -/
def ren2_alloc_reqs (w : Fin W) : Bool :=
  (s.ren2_uop w).ldst_val && decide ((s.ren2_uop w).dst_rtype = rtype float) && i.dis_fire w

/-- The register offered to the uop of the slot. -/
def pdst (w : Fin W) : Fin N :=
  if (s.ren2_uop w).ldst ≠ 0 ∨ float = true then s.freelist.r_sel w else 0

/-- `ren2_br_tags`. -/
def ren2_br_tags (w : Fin W) : Option (Fin T) :=
  if i.dis_fire w && (s.ren2_uop w).allocate_brtag then some (s.ren2_uop w).br_tag else none

/-- The remap request of a slot. -/
def slotReq (w : Fin W) : Option (Fin L × Fin N) :=
  if s.ren2_alloc_reqs float i w then some ((s.ren2_uop w).ldst, s.pdst float w) else none

/-- The valid remap requests of the slots before `j`. -/
def slotReqs (j : ℕ) : List (Fin L × Fin N) :=
  ((List.finRange W).take j).filterMap (s.slotReq float i)

/-- The uop of a slot as it is dispatched. -/
def dispatchSlot (w : Fin W) : Option (InFlight L N T) :=
  let u := s.ren2_uop w
  if i.dis_fire w then some
    { ldst := u.ldst
      writes := u.ldst_val && decide (u.dst_rtype = rtype float)
      pdst := s.pdst float w
      stale_pdst := bypassStale (s.slotReqs float i w) u.ldst u.stale_pdst
      tag := s.ren2_br_tags i w
      br_mask := u.br_mask }
  else none

/-- The uops dispatched from the slots before `j`, youngest first. -/
def dispatched (j : ℕ) : List (InFlight L N T) :=
  (((List.finRange W).take j).filterMap (s.dispatchSlot float i)).reverse

/-- The uops that a mispredict and a rollback leave. -/
def survivors : List (InFlight L N T) :=
  match i.mispredict, i.rollback with
  | some t, _ => s.inflight.filter fun u => !u.br_mask t
  | none, some k => s.inflight.drop k
  | none, none => s.inflight

/-- The uops that commit. -/
def committed : List (InFlight L N T) :=
  (s.survivors i).drop ((s.survivors i).length - i.commits)

/-- The uops of the row that is rolled back. -/
def row : List (InFlight L N T) := s.inflight.take (i.rollback.getD 0)

/-- The tags that leave all masks in this cycle. -/
def cleared (t : Fin T) : Bool := i.resolve t || decide (i.mispredict = some t)

/-- What the free list is asked for. -/
def freelistIn : FreeList.In W N T where
  reqs := s.ren2_alloc_reqs float i
  dealloc_pregs := (logOf (s.row i)).map (·.new) ++ (logOf (s.committed i)).map (·.old)
  ren_br_tags := s.ren2_br_tags i
  mispredict := i.mispredict

/-- What the map table is asked for: a rollback restores the stale registers
    of its row, youngest first. -/
def remapReqs (j : ℕ) : List (Fin L × Fin N) :=
  if i.rollback.isSome then (logOf (s.row i)).map fun e => (e.dst, e.old)
  else s.slotReqs float i j

/-- One cycle. -/
def next : Stage W L N T where
  freelist := s.freelist.next (s.freelistIn float i)
  maptable := s.maptable.next float (s.remapReqs float i) (s.ren2_br_tags i) i.mispredict
  ren2_valid w :=
    if i.kill then false
    else if i.dis_ready then i.dec_fire w
    else s.ren2_valid w && !i.dis_fire w
  ren2_uop w :=
    let next_uop := if !i.kill && i.dis_ready then
        { i.dec_uops w with stale_pdst := s.maptable.map_table (i.dec_uops w).ldst }
      else s.ren2_uop w
    { next_uop with
      stale_pdst := bypassStale (s.slotReqs float i W) next_uop.ldst next_uop.stale_pdst
      br_mask := fun t => next_uop.br_mask t && !i.resolve t }
  inflight := (s.dispatched float i W ++
    (s.survivors i).take ((s.survivors i).length - i.commits)).map (InFlight.resolve (cleared i))
  rolling := i.rollback.isSome

/-- After reset everything but register `0` is free and every logical
    register maps to it. -/
structure Reset : Prop where
  free : ∀ p, s.freelist.free_list p = decide (p ≠ 0)
  parked : ∀ w, s.freelist.r_valid w = false
  mapped : ∀ l, s.maptable.map_table l = 0
  ren2 : ∀ w, s.ren2_valid w = false
  inflight : s.inflight = []
  rolling : s.rolling = false

/-- What the rest of the core promises in a cycle. -/
structure Ok : Prop where
  /-- only valid uops are dispatched -/
  fire_valid : ∀ w, i.dis_fire w = true → s.ren2_valid w = true
  /-- `ren_stalls` holds a uop back until a register is parked for it -/
  fire_alloc : ∀ w, s.ren2_alloc_reqs float i w = true → s.freelist.r_valid w = true
  /-- decode clears `ldst_val` for `x0` -/
  dec_x0 : ∀ w, i.dec_fire w = true → (i.dec_uops w).ldst_val = true →
    (i.dec_uops w).dst_rtype = .RT_FIX → (i.dec_uops w).ldst ≠ 0
  /-- dispatched branches carry fresh tags and exact masks -/
  masks : MasksExact s.inflight → MasksExact (s.dispatched float i W ++ s.inflight)
  /-- a mispredict is that of an unresolved branch, with decode and dispatch
      held and rename2 flushed -/
  mispredict : ∀ t, i.mispredict = some t → pending s.inflight t = true ∧ i.kill = true ∧
    i.rollback = none ∧ ∀ w, i.dis_fire w = false
  /-- a rollback finds rename2 empty and nothing else going on -/
  rollback : i.rollback.isSome = true → i.mispredict = none ∧ i.commits = 0 ∧
    ∀ w, i.dis_fire w = false ∧ i.dec_fire w = false ∧ s.ren2_valid w = false
  /-- and goes on until nothing is in flight -/
  rolling : s.rolling = true → s.inflight ≠ [] → i.rollback.isSome = true
  /-- resolved uops commit, oldest first -/
  commit : i.commits ≤ (s.survivors i).length ∧
    ∀ u ∈ s.committed i, u.tag.filter (fun t => !cleared i t) = none

end Stage

/-- The rename stage with its surroundings. -/
def stage [NeZero L] [NeZero N] (float : Bool) : Machine (Stage W L N T) (In W L N T) where
  start := Stage.Reset
  ok s i := s.Ok float i
  next s i := s.next float i

end BoomStop.Rename
