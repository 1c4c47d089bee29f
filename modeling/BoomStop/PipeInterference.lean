/-
  Whether the pipes of the data cache interfere (`dcache.scala`, `lsu.scala`): the
  answer of a pipe against the request that sits in another one.

  * `sched`: the operations of the LSU that fire in one cycle, pipe by pipe;
  * `sends_both`: a store commit in pipe 0 and a page-table read in the last pipe;
  * `Own`: the bytes that a request asks for;
  * `same_iff`: two runs that differ in the other pipes answer alike, with the
    bytes of the address, exactly when no failing SC sits in pipe 0 or the answer
    is odd anyway;
  * `ptw_sees_sc`: the page-table walker reads the failure flag of an SC.
-/
import BoomStop.DCachePipe

namespace BoomStop.PipeInterference

open DCache

variable {T M n : ℕ}

/-! ## Scheduling -/

/-- The operations of a pipe of the LSU. -/
inductive Op
  | load_incoming | stad_incoming | sta_incoming | std_incoming | sfence | release
  | hella_incoming | hella_wakeup | load_retry | sta_retry | load_wakeup | store_commit
  deriving DecidableEq

/-- The resources of a pipe. -/
structure Avail where
  tlb : Bool
  dc : Bool
  lcam : Bool
  rob : Bool

/-- The resources an operation uses: `uses_tlb`, `uses_dc`, `uses_lcam`, `uses_rob`. -/
def Op.uses : Op → Avail
  | load_incoming => ⟨true, true, true, false⟩
  | stad_incoming => ⟨true, false, true, true⟩
  | sta_incoming => ⟨true, false, true, true⟩
  | std_incoming => ⟨false, false, false, true⟩
  | sfence => ⟨true, false, false, true⟩
  | release => ⟨false, false, true, false⟩
  | hella_incoming => ⟨true, true, false, false⟩
  | hella_wakeup => ⟨false, true, false, false⟩
  | load_retry => ⟨true, true, true, false⟩
  | sta_retry => ⟨true, false, true, true⟩
  | load_wakeup => ⟨false, true, true, false⟩
  | store_commit => ⟨false, true, false, false⟩

/-- The order of the statements is the priority. -/
def priority : List Op :=
  [.load_incoming, .stad_incoming, .sta_incoming, .std_incoming, .sfence, .release,
    .hella_incoming, .hella_wakeup, .load_retry, .sta_retry, .load_wakeup, .store_commit]

/-- `lsu_sched`: what an operation finds, and what it leaves. -/
def Avail.covers (a u : Avail) : Bool :=
  !(u.tlb && !a.tlb) && !(u.lcam && !a.lcam) && !(u.dc && !a.dc) && !(u.rob && !a.rob)

/-- What is left after a use. -/
def Avail.minus (a u : Avail) : Avail :=
  ⟨a.tlb && !u.tlb, a.dc && !u.dc, a.lcam && !u.lcam, a.rob && !u.rob⟩

/-- Two uses want the same. -/
def Avail.meets (u v : Avail) : Bool :=
  u.tlb && v.tlb || u.lcam && v.lcam || u.dc && v.dc || u.rob && v.rob

/-- The operations of one pipe that fire. -/
def sched (can_fire : Op → Bool) : Avail → List Op → List Op
  | _, [] => []
  | a, op :: ops =>
    if can_fire op && a.covers op.uses then op :: sched can_fire (a.minus op.uses) ops
    else sched can_fire a ops

/-- The pipes in which an operation can fire at all. -/
def Op.allowed : Op → Fin (M + 1) → Bool
  | release, w | hella_incoming, w | hella_wakeup, w | load_retry, w | sta_retry, w
  | load_wakeup, w => w = Fin.last M
  | store_commit, w => w = 0
  | _, _ => true

/-- The requests of a pipe that are served. -/
def will_fire (ready : Fin (M + 1) → Op → Bool) (w : Fin (M + 1)) : List Op :=
  sched (fun op => op.allowed w && ready w op) ⟨true, true, true, true⟩ priority

/-- `dmem_req(w)`: the request of the operation that got the cache port, unless its
    translation missed. -/
def dmem_req (ready : Fin (M + 1) → Op → Bool) (send : Op → Option (Req T)) (w : Fin (M + 1)) :
    Option (Req T) :=
  ((will_fire ready w).find? fun op => op.uses.dc).bind send

section
variable {can_fire : Op → Bool} {a : Avail} {ops : List Op} {op : Op}

theorem covers_minus {u v : Avail} (h : a.covers u = true) (hd : u.meets v = false) :
    (a.minus v).covers u = true := by
  have hbit : ∀ x y z : Bool, !(x && !y) → (x && z) = false → !(x && !(y && !z)) := by decide
  simp only [Avail.covers, Avail.meets, Avail.minus, Bool.and_eq_true, Bool.or_eq_false_iff] at *
  exact ⟨⟨⟨hbit _ _ _ h.1.1.1 hd.1.1.1, hbit _ _ _ h.1.1.2 hd.1.1.2⟩, hbit _ _ _ h.1.2 hd.1.2⟩,
    hbit _ _ _ h.2 hd.2⟩

/-- An operation fires unless an earlier one takes a resource of it. -/
theorem mem_sched (hc : can_fire op = true) :
    ∀ {ops : List Op} {a : Avail}, op ∈ ops → a.covers op.uses = true →
      (∀ o ∈ ops.takeWhile (· ≠ op), can_fire o = true → op.uses.meets o.uses = false) →
        op ∈ sched can_fire a ops
  | x :: xs, a, h, ha, hd => by
    by_cases hx : x = op
    · subst hx
      simp [sched, hc, ha]
    · have hmem : op ∈ xs := (List.mem_cons.1 h).resolve_left (Ne.symm hx)
      have htake : (x :: xs).takeWhile (· ≠ op) = x :: xs.takeWhile (· ≠ op) := by simp [hx]
      rw [htake] at hd
      have hd' : ∀ o ∈ xs.takeWhile (· ≠ op), can_fire o = true → op.uses.meets o.uses = false :=
        fun o ho => hd o (List.mem_cons_of_mem _ ho)
      rw [sched]
      split_ifs with hf
      · have hfx := hd x List.mem_cons_self (Bool.and_eq_true_iff.1 hf).1
        exact List.mem_cons_of_mem _ (mem_sched hc hmem (covers_minus ha hfx) hd')
      · exact mem_sched hc hmem ha hd'

/-- Without the cache port no operation fires that needs it. -/
theorem not_dc_of_mem : ∀ {ops : List Op} {a : Avail}, a.dc = false →
    ∀ o ∈ sched can_fire a ops, o.uses.dc = false
  | [], _, _, _, ho => nomatch ho
  | x :: xs, a, ha, o, ho => by
    rw [sched] at ho
    split_ifs at ho with hf
    · rcases List.mem_cons.1 ho with rfl | ho
      · simp only [Avail.covers, ha] at hf
        grind
      · exact not_dc_of_mem (a := a.minus x.uses) (by simp [Avail.minus, ha]) o ho
    · exact not_dc_of_mem ha o ho

/-- One operation has the cache port. -/
theorem find_dc (hdc : op.uses.dc = true) :
    ∀ {ops : List Op} {a : Avail}, op ∈ sched can_fire a ops →
      (sched can_fire a ops).find? (fun o => o.uses.dc) = some op
  | [], _, h => nomatch h
  | x :: xs, a, h => by
    rw [sched] at h ⊢
    split_ifs at h ⊢ with hf
    · by_cases hx : x.uses.dc = true
      · rcases List.mem_cons.1 h with rfl | h
        · simp [hx]
        · have := not_dc_of_mem (a := a.minus x.uses) (by simp [Avail.minus, hx]) op h
          simp [hdc] at this
      · rcases List.mem_cons.1 h with rfl | h
        · exact absurd hdc hx
        · simpa [hx] using find_dc hdc h
    · exact find_dc hdc h

end

theorem sends_store {ready : Fin (M + 2) → Op → Bool} (send : Op → Option (Req T))
    (hst : ready 0 .store_commit = true) (hld : ready 0 .load_incoming = false) :
    dmem_req ready send 0 = send .store_commit := by
  have hmem : Op.store_commit ∈ will_fire ready 0 := by
    refine mem_sched (by simp [Op.allowed, hst]) (by decide) rfl ?_
    have hl : (0 : Fin (M + 2)) ≠ Fin.last (M + 1) := by simp [Fin.ext_iff]
    simp [priority, Op.uses, Op.allowed, Avail.meets, hld, hl]
  rw [dmem_req, will_fire, find_dc rfl hmem]
  rfl

theorem sends_hella {ready : Fin (M + 2) → Op → Bool} (send : Op → Option (Req T))
    (hptw : ready (Fin.last (M + 1)) .hella_wakeup = true)
    (hld : ready (Fin.last (M + 1)) .load_incoming = false)
    (hinc : ready (Fin.last (M + 1)) .hella_incoming = false) :
    dmem_req ready send (Fin.last (M + 1)) = send .hella_wakeup := by
  have hmem : Op.hella_wakeup ∈ will_fire ready (Fin.last (M + 1)) := by
    refine mem_sched (by simp [Op.allowed, hptw]) (by decide) rfl ?_
    simp [priority, Op.uses, Op.allowed, Avail.meets, hld, hinc]
  rw [dmem_req, will_fire, find_dc rfl hmem]
  rfl

/-- **A store commit and a page-table read go out together**: nothing orders the
    operations of different pipes. -/
theorem sends_both {ready : Fin (M + 2) → Op → Bool} (send : Op → Option (Req T))
    (hst : ready 0 .store_commit = true) (hptw : ready (Fin.last (M + 1)) .hella_wakeup = true)
    (hld : ∀ w, ready w .load_incoming = false) (hinc : ∀ w, ready w .hella_incoming = false) :
    dmem_req ready send 0 = send .store_commit ∧
      dmem_req ready send (Fin.last (M + 1)) = send .hella_wakeup :=
  ⟨sends_store send hst (hld _), sends_hella send hptw (hld _) (hinc _)⟩

/-! ## Answers -/

section
variable (c : Params) (r : Rocket) (s s' : State T (M + 1) n) (i i' j j' k k' : In T (M + 1) n)
  (w : Fin (M + 1))

/-- The bytes that the request of a pipe asks for. -/
def own : BitVec 64 :=
  let q := i.s0_req w
  let x := s.contents c r i j
  bytesAt q.uop.mem_size q.uop.mem_signed q.addr (x.word c q.addr (x.ways c r q i.grant i.way_en))

/-- The state in which the request of a cycle answers. -/
def answering : State T (M + 1) n := (s.next c r i).next c r j

/-- No failing SC sits in pipe 0, or its flag is no news. -/
def Clean : Prop := (answering c r s i j).s2_sc_fail c = true → (own c r s i j w).getLsbD 0 = true

/-- Two runs agree on what the request of a pipe reads, and on the request. -/
structure Agree : Prop where
  contents : s.contents c r i j = s'.contents c r i' j'
  req : i.s0_req w = i'.s0_req w
  grant : i.grant = i'.grant
  way_en : i.way_en = i'.way_en

variable {c r s s' i i' j j' k k' w} {d d' : BitVec 64}

/-- Two runs from one state that differ in the requests of a cycle see the same
    contents when these answer. -/
theorem contents_of_requests (g : Option ReqType) (v : Fin (M + 1) → Bool)
    (q : Fin (M + 1) → Req T) (e : Fin n → Bool) :
    s.contents c r { i with grant := g, lsu_valid := v, s0_req := q, way_en := e } j =
      s.contents c r i j := rfl

theorem or_flag_eq_iff (x : BitVec 64) (b : Bool) :
    x ||| BitVec.ofNat 64 b.toNat = x ↔ (b = true → x.getLsbD 0 = true) := by
  cases b with
  | false => simp
  | true =>
    constructor
    · intro h _
      rw [← h]
      simp
    · intro h
      ext n hn
      have h := h rfl
      cases n <;> simp_all [BitVec.getLsbD_eq_getElem]

/-- An answer is the bytes of the address, or'ed with the flag. -/
theorem cacheResp_eq (hsc : (i.s0_req w).uop.mem_cmd ≠ .M_XSC)
    (h : (answering c r s i j).cacheResp c r k w = some d) :
    d = own c r s i j w ||| BitVec.ofNat 64 ((answering c r s i j).s2_sc_fail c).toNat := by
  have hzero : ((answering c r s i j).s2_sc && w = 0) = false := by
    by_cases hw : w = 0
    · subst hw
      have hcmd : (answering c r s i j).cmd 0 ≠ .M_XSC := hsc
      simp [State.s2_sc, hcmd]
    · simp [hw]
  have hd : (answering c r s i j).loadgen_data c r w = own c r s i j w := by
    rw [State.loadgen_data, hzero, r.loadGen_eq, answering, State.s2_data_word_eq h]
    rfl
  rw [State.cacheResp, hd] at h
  split_ifs at h
  exact (Option.some.inj h).symm

theorem own_eq (h : Agree c r s s' i i' j j' w) : own c r s i j w = own c r s' i' j' w := by
  simp only [own, h.contents, h.req, h.grant, h.way_en]

/-- **Two runs that differ in the other pipes** answer alike, with the bytes of the
    address, exactly when both are clean. -/
theorem same_iff (ha : Agree c r s s' i i' j j' w) (hsc : (i.s0_req w).uop.mem_cmd ≠ .M_XSC)
    (h : (answering c r s i j).cacheResp c r k w = some d)
    (h' : (answering c r s' i' j').cacheResp c r k' w = some d') :
    (d = d' ∧ d = own c r s i j w) ↔ (Clean c r s i j w ∧ Clean c r s' i' j' w) := by
  have hd := cacheResp_eq hsc h
  have hd' := cacheResp_eq (ha.req ▸ hsc) h'
  have hclean : d = own c r s i j w ↔ Clean c r s i j w := by
    rw [hd, or_flag_eq_iff, Clean]
  have hclean' : d' = own c r s' i' j' w ↔ Clean c r s' i' j' w := by
    rw [hd', or_flag_eq_iff, Clean]
  rw [← hclean, ← hclean', ← own_eq ha]
  constructor
  · rintro ⟨rfl, h⟩
    exact ⟨h, h⟩
  · rintro ⟨h, h'⟩
    exact ⟨h.trans h'.symm, h⟩

end

/-! ## A page-table read beside a failing SC -/

/-- `ClientMetadata` with the states `Nothing`, `Branch`, `Trunk`, `Dirty`; the ALU
    only replaces the word. -/
def rocket : Rocket where
  isValid coh := coh ≠ 0
  onAccess coh cmd :=
    if cmd.isWrite then (2 ≤ coh, if 2 ≤ coh then 3 else coh)
    else if cmd = .M_XLR || cmd = .M_PFW then (2 ≤ coh, coh)
    else (coh ≠ 0, coh)
  loadGen typ signed addr dat zero := if zero then 0 else bytesAt typ signed addr dat
  loadGen_eq _ _ _ _ := rfl
  amoalu _ _ _ _ rhs := rhs

/-- Two words to a row, two banks. -/
def params : Params := ⟨2, 64, 1, 2, 8, 80, 3⟩

/-- A uop that reads. -/
def idleUop : Uop 1 := ⟨.M_XRD, 0, false, false, false, fun _ => false, 0⟩

/-- A request that nobody made. -/
def idleReq : Req 1 := ⟨idleUop, 0, 0, false⟩

/-- An SC to line `0`, and the read of a page-table entry in line `1`. -/
def scReq : Req 1 := ⟨{ idleUop with mem_cmd := .M_XSC, mem_size := 3, uses_stq := true }, 0, 7, false⟩

/-- A read of the page-table walker, in the next line. -/
def ptwReq : Req 1 := ⟨{ idleUop with mem_size := 3 }, 72, 0, true⟩

/-- Nothing is asked. -/
def idleIn : In 1 2 1 where
  grant := none
  lsu_valid _ := false
  s0_req _ := idleReq
  way_en _ := false
  s1_kill _ := false
  exception := false
  brupdate := ⟨fun _ => false, fun _ => false⟩
  prober_idx := none
  wb_idx := none
  block_hit _ := false
  secondary_miss _ := false
  mshr_ready _ := true
  replaced_way _ := true
  meta_write := none
  refill := none

/-- The LSU has something to send: the page-table walker, and a store or nothing. -/
def ready (store : Bool) : Fin 2 → Op → Bool
  | 0, .store_commit => store
  | 1, .hella_wakeup => true
  | _, _ => false

/-- The SC and the read. -/
def send : Op → Option (Req 1)
  | .store_commit => some scReq
  | .hella_wakeup => some ptwReq
  | _ => none

/-- The requests that the LSU sends. -/
def sendIn (store : Bool) : In 1 2 1 :=
  let req := dmem_req (ready store) send
  { idleIn with
    grant := some .t_lsu
    lsu_valid := fun w => (req w).isSome
    s0_req := fun w => (req w).getD idleReq }

/-- The registers of the data array after reset. -/
def emptyRegs : DataRegs 1 2 :=
  ⟨fun _ => 0, fun _ => 0, fun _ => false, fun _ _ _ => 0, fun _ _ _ => 0, fun _ => 0,
    fun _ => false, fun _ _ _ => 0, fun _ _ _ => 0⟩

/-- An empty stage. -/
def emptyStage : Stage 1 2 := ⟨fun _ => false, fun _ => idleReq, .t_replay, fun _ => false⟩

/-- After reset; the data array holds zeros. -/
def reset : State 1 2 1 where
  tags _ _ := ⟨0, 0⟩
  data _ _ _ _ := 0
  data_regs := emptyRegs
  s1 := emptyStage
  s1_meta _ _ := ⟨0, 0⟩
  s1_way_en _ := false
  s2 := emptyStage
  s2_meta _ _ := ⟨0, 0⟩
  s2_tag_match_way _ _ := false
  s2_nack_hit _ := false
  s2_wb_idx_matches _ := false
  s2_replaced_way_en _ := false
  s3 := ⟨false, 0, 0, fun _ => false⟩
  s4 := ⟨false, 0, 0, fun _ => false⟩
  s5 := ⟨false, 0, 0, fun _ => false⟩
  lrsc_count := 0
  lrsc_addr := 0

/-- The line of the page table has been filled. -/
def filled : State 1 2 1 :=
  reset.next params rocket { idleIn with meta_write := some (1, fun _ => true, ⟨0, 1⟩) }

/-- The walker's read goes out in either case. -/
theorem sends_ptw (store : Bool) : (sendIn store).s0_req 1 = ptwReq := by
  have hsend : dmem_req (ready store) send 1 = some ptwReq := sends_hella send rfl rfl rfl
  simp [sendIn, hsend]

theorem agree_send (a b : Bool) :
    Agree params rocket filled filled (sendIn a) (sendIn b) idleIn idleIn 1 where
  contents :=
    (contents_of_requests (i := idleIn) _ _ _ _).trans (contents_of_requests (i := idleIn) _ _ _ _).symm
  req := (sends_ptw a).trans (sends_ptw b).symm
  grant := rfl
  way_en := rfl

set_option maxRecDepth 4000 in
theorem sees_one :
    (answering params rocket filled (sendIn true) idleIn).cacheResp params rocket idleIn 1 =
      some 1 := by
  decide +kernel

set_option maxRecDepth 4000 in
theorem sees_zero :
    (answering params rocket filled (sendIn false) idleIn).cacheResp params rocket idleIn 1 =
      some 0 := by
  decide +kernel

set_option maxRecDepth 4000 in
/-- **The walker reads the flag of an SC**: an entry that is `0` in memory is read as
    `1`, an entry that is valid, when a failing SC goes out with the read. -/
theorem ptw_sees_sc :
    ¬ ∀ (s s' : State 1 2 1) (i i' j j' k k' : In 1 2 1) (w : Fin 2) (d d' : BitVec 64),
      Agree params rocket s s' i i' j j' w → (i.s0_req w).uop.mem_cmd ≠ .M_XSC →
      (answering params rocket s i j).cacheResp params rocket k w = some d →
      (answering params rocket s' i' j').cacheResp params rocket k' w = some d' →
      (answering params rocket s i j).s2_hit rocket k w = true →
      (answering params rocket s' i' j').s2_hit rocket k' w = true →
      d = d' ∧ d = own params rocket s i j w := by
  intro h
  have h := h filled filled (sendIn true) (sendIn false) idleIn idleIn idleIn idleIn 1 1 0
    (agree_send true false) (by decide) sees_one sees_zero (by decide +kernel) (by decide +kernel)
  exact absurd h.1 (by decide +kernel)

/-- The same two runs, on which both sides of `same_iff` fail, and two runs without
    a store, on which both hold. -/
theorem same_iff_ptw :
    ((1 : BitVec 64) = 0 ∧ 1 = own params rocket filled (sendIn true) idleIn 1 ↔
        Clean params rocket filled (sendIn true) idleIn 1 ∧
          Clean params rocket filled (sendIn false) idleIn 1) ∧
      ((0 : BitVec 64) = 0 ∧ 0 = own params rocket filled (sendIn false) idleIn 1 ↔
        Clean params rocket filled (sendIn false) idleIn 1 ∧
          Clean params rocket filled (sendIn false) idleIn 1) :=
  ⟨same_iff (agree_send true false) (by decide) sees_one sees_zero,
    same_iff (agree_send false false) (by decide) sees_zero sees_zero⟩

end BoomStop.PipeInterference
