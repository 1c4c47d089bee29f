/-
  The execute-stage writes of the custom registers (`core.scala`): a write is
  made when its uop is in `exe_reg_uops`, before it commits, and the writes
  performed are those of the instructions that commit.

  * `Pipe.Phase`: where a write is on its way, `Pipe.Inv` and `inv_step`;
  * `writes_commit`: the writes performed are those of the instructions that
    commit, in order, except for one that is the last and will commit.
-/
import BoomStop.CustomPipe

namespace BoomStop.CustomWrite

open Sync Reorder
open Issue (Slot isKilledByBranch)
open Sampling (Core)

variable {N W T va I : ℕ}

/-! ## The way of a write -/

namespace Pipe

/-- A valid entry that is not marked, of a uop that writes. -/
def Writer (s : Pipe N W T va I) (a : RobIdx N W) : Prop :=
  s.core.sys.Val a ∧ (s.core.sys.rob.bank a.1 a.2).exception = false ∧
    setsUCSR (s.core.sys.rob.bank a.1 a.2).uop.toMicroOp = true

/-- The instructions that have committed and write. -/
def commits (s : Pipe N W T va I) : List (Item W) :=
  s.core.sys.committed.filter fun x => setsUCSR x.uop

/-- Nothing writes of what waits, or of what is in some ports. -/
abbrev Clear (uops : Fin I → Option (Flight N W T)) : Prop := Free setsUCSR uops

/-- No custom write waits. -/
abbrev ClearQueue (queue : List (Waiting N W T)) : Prop := FreeQueue setsUCSR queue

/-- One uop writes. -/
abbrev Only (uops : Fin I → Option (Flight N W T)) (p : Fin I) (x : Item W) : Prop :=
  Single setsUCSR uops p x

/-- One custom write waits. -/
abbrev OnlyQueue (queue : List (Waiting N W T)) (x : Item W) : Prop := SingleQueue setsUCSR queue x

/-- Where the write is on its way, and that all others have committed. -/
inductive Phase (s : Pipe N W T va I) : Prop
  | idle : (∀ a, ¬ s.Writer a) → ClearQueue s.queue → Clear s.rrd_uops → Clear s.exe_reg_uops →
      s.performed = s.commits → Phase s
  | waiting (a : RobIdx N W) : s.Writer a → (s.core.sys.rob.bank a.1 a.2).bsy = true →
      OnlyQueue s.queue (s.core.sys.item a) → Clear s.rrd_uops → Clear s.exe_reg_uops →
      s.performed = s.commits → Phase s
  | reading (a : RobIdx N W) (p : Fin I) : s.Writer a →
      (s.core.sys.rob.bank a.1 a.2).bsy = true → ClearQueue s.queue →
      Only s.rrd_uops p (s.core.sys.item a) → s.rrd_valids p = true → Clear s.exe_reg_uops →
      s.performed = s.commits → Phase s
  | executing (a : RobIdx N W) (p : Fin I) : s.Writer a →
      (s.core.sys.rob.bank a.1 a.2).bsy = true → ClearQueue s.queue → Clear s.rrd_uops →
      Only s.exe_reg_uops p (s.core.sys.item a) → s.exe_reg_valids p = true →
      s.performed = s.commits → Phase s
  | done (a : RobIdx N W) : s.Writer a → ClearQueue s.queue → Clear s.rrd_uops →
      Clear s.exe_reg_uops → s.performed = s.commits ++ [s.core.sys.item a] → Phase s

/-- The invariant: where the custom write is on its way, and what has been written. -/
structure Inv (s : Pipe N W T va I) : Prop where
  front : s.Front
  executed : ∀ x ∈ s.executed, setsUCSR x.uop = true → x ∈ s.performed
  phase : s.Phase

end Pipe

section

variable {s : Pipe N W T va I} {i : In N W T va I}

theorem custom_sets : Custom setsUCSR := by
  intro u h
  rw [setsUCSR, Bool.and_eq_true] at h
  exact h.1

theorem alone_of_writer (h : s.Front) {a : RobIdx N W} (ha : s.Writer a) :
    (s.core.sys.rob.bank a.1 a.2).uop.uopc = uopADDI ∧
      (s.core.sys.rob.bank a.1 a.2).uop.is_unique = true ∧ ∀ b, s.core.sys.Val b → b = a :=
  alone_of_holder custom_sets h ha

/-! ### Commit -/

/-- What commits and writes is a writer. -/
theorem writer_of_commit {w : Fin W} (hc : s.core.sys.rob.will_commit (s.robIn i).toIn w = true)
    (hset : setsUCSR (s.core.sys.item (s.core.sys.rob.rob_head, w)).uop = true) :
    s.Writer (s.core.sys.rob.rob_head, w) := by
  obtain ⟨hval, -, hexc⟩ := val_of_commit hc
  exact ⟨hval, hexc, hset⟩

theorem commitNow_of_idle (hno : ∀ a, ¬ s.Writer a) :
    (s.core.sys.commitNow (s.robIn i)).filter (fun x => setsUCSR x.uop) = [] := by
  refine List.filter_eq_nil_iff.2 fun x hx hset => ?_
  obtain ⟨w, hc, rfl⟩ := mem_commitNow.1 hx
  exact hno _ (writer_of_commit hc hset)

/-- Beside a writer nothing commits. -/
theorem commitNow_of_writer (h : s.Front) {a : RobIdx N W} (ha : s.Writer a)
    (hc : s.core.sys.rob.commit_at (s.robIn i).toIn a.1 a.2 = false) :
    s.core.sys.commitNow (s.robIn i) = [] := by
  refine List.eq_nil_iff_forall_not_mem.2 fun x hx => ?_
  obtain ⟨w, hw, -⟩ := mem_commitNow.1 hx
  obtain rfl := (alone_of_writer h ha).2.2 _ (val_of_commit hw).1
  simp [Rob.commit_at, hw] at hc

theorem commitNow_of_commit (h : s.Front) {a : RobIdx N W} (ha : s.Writer a)
    (hc : s.core.sys.rob.commit_at (s.robIn i).toIn a.1 a.2 = true) :
    s.core.sys.commitNow (s.robIn i) = [s.core.sys.item a] := by
  simp only [Rob.commit_at, Bool.and_eq_true, decide_eq_true_eq] at hc
  obtain ⟨hrow, hcom⟩ := hc
  have hone : ∀ w, s.core.sys.rob.will_commit (s.robIn i).toIn w = true → w = a.2 := by
    intro w hw
    exact congrArg Prod.snd ((alone_of_writer h ha).2.2 _ (val_of_commit hw).1)
  have hitem := item_of_commit hcom
  rw [show (s.core.sys.rob.rob_head, a.2) = a from Prod.ext hrow.symm rfl] at hitem
  rw [hitem]
  exact filterMap_single (if_pos hcom) fun w hw => if_neg fun hc => hw (hone w hc)

section Next

variable [NeZero N] [NeZero W]

theorem commits_next : (s.next i).commits = s.commits ++
    (s.core.sys.commitNow (s.robIn i)).filter fun x => setsUCSR x.uop :=
  List.filter_append ..

omit [NeZero N] [NeZero W] in
/-- What is in the ROB has not committed. -/
theorem item_not_committed (h : s.Front) {a : RobIdx N W} (ha : s.Writer a) :
    s.core.sys.item a ∉ s.commits := by
  intro hin
  have hlt := h.sys.left _ (List.mem_filter.1 hin).1 a ha.1
  unfold RingOrder.LexLt at hlt
  simp only [Sys.item, lt_irrefl, and_false, or_self] at hlt

/-! ### Writes -/

omit [NeZero N] [NeZero W] in
theorem writing_of_clear (hc : Pipe.Clear s.exe_reg_uops) : s.writing = [] := by
  refine List.filterMap_eq_nil_iff.2 fun p _ => ?_
  rw [Option.map_eq_none_iff, Option.filter_eq_none_iff]
  intro f hf
  rw [hc p f hf]
  simp

omit [NeZero N] [NeZero W] in
theorem writing_of_only {p : Fin I} {x : Item W} (hx : setsUCSR x.uop = true)
    (hc : Pipe.Only s.exe_reg_uops p x) : s.writing.map (·.2.item) = [x] := by
  obtain ⟨f, hf, rfl⟩ := hc.here
  have hone : s.writing = [(p, f)] := by
    refine filterMap_single (k := p) ?_ fun q hq => ?_
    · rw [hf, Option.filter_some, if_pos (by exact hx)]
      rfl
    · rw [Option.map_eq_none_iff, Option.filter_eq_none_iff]
      intro g hg
      rw [hc.rest q g hq hg]
      simp
  rw [hone]
  rfl

theorem performed_next : (s.next i).performed = s.performed ++ s.writing.map (·.2.item) := rfl

/-- What was valid in execute and writes has written. -/
theorem executed_next (he : ∀ x ∈ s.executed, setsUCSR x.uop = true → x ∈ s.performed) :
    ∀ x ∈ (s.next i).executed, setsUCSR x.uop = true → x ∈ (s.next i).performed := by
  intro x hx hset
  rw [performed_next]
  rcases List.mem_append.1 hx with hold | hnew
  · exact List.mem_append_left _ (he x hold hset)
  · obtain ⟨p, hp, hex⟩ := List.mem_filterMap.1 hnew
    split_ifs at hex
    obtain ⟨f, hf, rfl⟩ := Option.map_eq_some_iff.1 hex
    refine List.mem_append_right _ (List.mem_map.2 ⟨(p, f), List.mem_filterMap.2 ⟨p, hp, ?_⟩, rfl⟩)
    rw [hf, Option.filter_some, if_pos (by exact hset)]
    rfl

/-! ### One cycle -/

/-- Without a write on its way, one may come in. -/
theorem phase_idle (h : s.Front) (ok : s.Ok i) (hno : ∀ a, ¬ s.Writer a)
    (hq : Pipe.ClearQueue s.queue) (hr : Pipe.Clear s.rrd_uops) (hx : Pipe.Clear s.exe_reg_uops)
    (hp : s.performed = s.commits) : (s.next i).Phase := by
  have hperf : (s.next i).performed = (s.next i).commits := by
    rw [performed_next, commits_next, writing_of_clear hx, commitNow_of_idle hno, hp]
    rfl
  by_cases hw : ∃ w, s.core.dis_fire (s.coreIn i) w = true ∧
    (s.core.ren2_uop w).exception = false ∧ setsUCSR (s.core.ren2_uop w).toMicroOp = true
  · obtain ⟨w, hf, hexc, hset⟩ := hw
    obtain ⟨e, hd, hitem, hstate, hpois⟩ := dispatched_of_fire custom_sets h ok hf hexc hset
    obtain ⟨a, ha, hb, hent⟩ := holder_of_fire custom_sets h ok hf hexc hset
    refine .waiting a ha hb ?_ (free_rrd_next hq) (free_exe_next hr) hperf
    rw [hent, ← hitem]
    exact single_queue_enter hd hstate hpois hq
  · have hnone : ∀ w, s.core.dis_fire (s.coreIn i) w = true →
        (s.core.ren2_uop w).exception = false → setsUCSR (s.core.ren2_uop w).toMicroOp = false := by
      intro w hf hexc
      by_contra hset
      exact hw ⟨w, hf, hexc, by simpa using hset⟩
    refine .idle (fun a ha => ?_) (free_queue_next hq (free_dispatched hnone)) (free_rrd_next hq)
      (free_exe_next hr) hperf
    rcases holder_prev h ok ha with hold | hnew
    · exact hno a hold
    · exact hw ⟨a.2, hnew⟩

theorem phase_next (h : s.Inv) (ok : s.Ok i) : (s.next i).Phase := by
  have hf := h.front
  -- a busy writer stays, and nothing commits
  have hstay : ∀ a, s.Writer a → (s.core.sys.rob.bank a.1 a.2).bsy = true →
      s.performed = s.commits → (s.next i).Writer a ∧
        ((s.next i).core.sys.rob.bank a.1 a.2).bsy = true ∧
        (s.next i).core.sys.item a = s.core.sys.item a ∧ (s.next i).commits = s.commits := by
    intro a ha hb hp
    have hc := not_commit_of_bsy (i := i) hb
    obtain ⟨hw, hitem⟩ := holder_next custom_sets hf ok ha hc
    refine ⟨hw, bsy_next hf ok ha.1 hb ?_, hitem, ?_⟩
    · -- it is answered only after its write has been made
      by_contra hun
      have hin := (ok.answers a (by simpa using hun)).2 (alone_of_writer hf ha).1
      refine item_not_committed hf ha ?_
      rw [← hp]
      exact h.executed _ hin ha.2.2
    · rw [commits_next, commitNow_of_writer hf ha hc, List.filter_nil, List.append_nil]
  cases h.phase with
  | idle hno hq hr hx hp => exact phase_idle hf ok hno hq hr hx hp
  | waiting a ha hb hq hr hx hp =>
    obtain ⟨hw, hbn, hitem, hcn⟩ := hstay a ha hb hp
    have hpn : (s.next i).performed = (s.next i).commits := by
      rw [performed_next, writing_of_clear hx, hcn, hp]
      exact List.append_nil _
    rw [← hitem] at hq
    rcases single_queue_next (calm_of_holder custom_sets hf ok ha) ok hq with
      ⟨hqn, hrn⟩ | ⟨hqn, p, hrn, hv⟩
    · exact .waiting a hw hbn hqn hrn (free_exe_next hr) hpn
    · exact .reading a p hw hbn hqn hrn hv (free_exe_next hr) hpn
  | reading a p ha hb hq hr hv hx hp =>
    obtain ⟨hw, hbn, hitem, hcn⟩ := hstay a ha hb hp
    have hcalm := calm_of_holder custom_sets hf ok ha
    rw [← hitem] at hr
    obtain ⟨hxn, hvn⟩ := single_exe_next hcalm hr hv
    refine .executing a p hw hbn (free_queue_calm hcalm hq) (free_rrd_next hq) hxn hvn ?_
    rw [performed_next, writing_of_clear hx, hcn, hp]
    exact List.append_nil _
  | executing a p ha hb hq hr hx hv hp =>
    obtain ⟨hw, -, hitem, hcn⟩ := hstay a ha hb hp
    refine .done a hw (free_queue_calm (calm_of_holder custom_sets hf ok ha) hq) (free_rrd_next hq)
      (free_exe_next hr) ?_
    rw [performed_next, writing_of_only ha.2.2 hx, hcn, hp, hitem]
  | done a ha hq hr hx hp =>
    have hqn : Pipe.ClearQueue (s.next i).queue :=
      free_queue_calm (calm_of_holder custom_sets hf ok ha) hq
    have hpn : (s.next i).performed = s.performed := by
      rw [performed_next, writing_of_clear hx]
      exact List.append_nil _
    cases hc : s.core.sys.rob.commit_at (s.robIn i).toIn a.1 a.2 with
    | false =>
      obtain ⟨hw, hitem⟩ := holder_next custom_sets hf ok ha hc
      refine .done a hw hqn (free_rrd_next hq) (free_exe_next hr) ?_
      rw [hpn, hp, hitem, commits_next, commitNow_of_writer hf ha hc, List.filter_nil,
        List.append_nil]
    | true =>
      refine .idle (fun b hb => ?_) hqn (free_rrd_next hq) (free_exe_next hr) ?_
      · rcases holder_prev hf ok hb with hold | ⟨hfire, -⟩
        · obtain rfl := (alone_of_writer hf ha).2.2 b hold.1
          exact absurd ((val_next.1 hb.1).2.2.2.symm.trans hc) (by simp)
        · obtain ⟨-, hready, -⟩ := Sampling.open_of_fire hfire
          obtain ⟨-, hu, -⟩ := alone_of_writer hf ha
          have hblock := (calm_of_alone hf.xcpt hf.flushing ha.1 hu ha.2.1).2.2
          exact absurd (hready.symm.trans hblock) (by simp)
      · have hkeep : [s.core.sys.item a].filter (fun x => setsUCSR x.uop) = [s.core.sys.item a] :=
          List.filter_eq_self.2 fun x hx => by rw [List.mem_singleton.1 hx]; exact ha.2.2
        rw [hpn, hp, commits_next, commitNow_of_commit hf ha hc, hkeep]

/-! ## All runs -/

omit [NeZero N] [NeZero W] in
theorem inv_reset (h : s.Reset) : s.Inv where
  front := front_reset h
  executed x hx := by
    rw [h.executed] at hx
    exact absurd hx List.not_mem_nil
  phase := by
    refine .idle (fun a ha => ?_) (fun e he => ?_) (fun p f hf => ?_) (fun p f hf => ?_) ?_
    · exact absurd (ha.1.symm.trans (h.core.sys.val a.1 a.2)) (by simp)
    · rw [h.queue] at he
      exact absurd he List.not_mem_nil
    · exact absurd (hf.symm.trans (h.rrd_uops p)) (by simp)
    · exact absurd (hf.symm.trans (h.exe_reg_uops p)) (by simp)
    · rw [h.performed, Pipe.commits, h.core.sys.committed]
      rfl

theorem inv_step (h : s.Inv) (ok : s.Ok i) : (s.next i).Inv where
  front := front_next h.front ok
  executed := executed_next h.executed
  phase := phase_next h ok

theorem inv_reach (h : pipe.Reach s) : s.Inv :=
  h.inv (fun _ h0 => inv_reset h0) fun _ _ hi ok => inv_step hi ok

omit [NeZero N] [NeZero W] in
/-- What writes in execute is valid there, and is the writer of the ROB. -/
theorem executing_writer (h : s.Inv) {p : Fin I} {f : Flight N W T}
    (hf : s.exe_reg_uops p = some f) (hset : setsUCSR f.uop.toMicroOp = true) :
    s.exe_reg_valids p = true ∧ ∃ a, s.Writer a ∧ s.core.sys.item a = f.item := by
  have hno : Pipe.Clear s.exe_reg_uops → False := fun hx => by
    exact absurd (hset.symm.trans (hx p f hf)) (by simp)
  cases h.phase with
  | idle _ _ _ hx _ => exact (hno hx).elim
  | waiting _ _ _ _ _ hx _ => exact (hno hx).elim
  | reading _ _ _ _ _ _ _ hx _ => exact (hno hx).elim
  | done _ _ _ _ hx _ => exact (hno hx).elim
  | executing a q ha _ _ _ hx hv _ =>
    have hpq : p = q := by
      by_contra hne
      exact absurd (hset.symm.trans (hx.rest p f hne hf)) (by simp)
    subst hpq
    obtain ⟨g, hg, hitem⟩ := hx.here
    obtain rfl := Option.some.inj (hf.symm.trans hg)
    exact ⟨hv, a, ha, hitem.symm⟩

omit [NeZero N] [NeZero W] in
/-- Ports without a uop do not write. -/
theorem ucsr_writes_eq (ok : s.Ok i) : s.ucsr_writes i =
    s.writing.map fun x => (instTag x.2.uop.inst, i.rs1_data x.1) := by
  rw [Pipe.ucsr_writes, Pipe.writing, List.map_filterMap, ← List.filterMap_eq_map,
    List.filterMap_filter]
  refine List.filterMap_congr fun p _ => ?_
  cases hf : s.exe_reg_uops p with
  | none =>
    have huop : s.exe_uop i p = i.nullMicroOp := by rw [Pipe.exe_uop, hf]
    rw [huop, ok.null]
    rfl
  | some f =>
    have huop : s.exe_uop i p = f.uop.toMicroOp := by rw [Pipe.exe_uop, hf]
    rw [huop, Option.filter_some]
    cases setsUCSR f.uop.toMicroOp with
    | true =>
      rw [if_pos rfl, if_pos rfl, Function.comp_apply, huop]
      rfl
    | false => rfl

omit [NeZero N] [NeZero W] in
/-- The custom writes are what `Sampling` takes them for. -/
theorem writes_executing (h : s.Inv) (ok : s.Ok i) : ∀ p ∈ s.ucsr_writes i,
    s.core.Executing fun u =>
      u.ucsrInst = true ∧ u.is_unique = true ∧ u.inst.extractLsb' 20 12 = p.1 := by
  intro p hp
  rw [ucsr_writes_eq ok] at hp
  obtain ⟨x, hx, rfl⟩ := List.mem_map.1 hp
  obtain ⟨q, -, hq⟩ := List.mem_filterMap.1 hx
  obtain ⟨f, hf, rfl⟩ := Option.map_eq_some_iff.1 hq
  obtain ⟨hport, hset⟩ := Option.filter_eq_some_iff.1 hf
  obtain ⟨-, a, ha, hitem⟩ := executing_writer h hport hset
  have huop : (s.core.sys.rob.bank a.1 a.2).uop.toMicroOp = f.uop.toMicroOp :=
    congrArg Item.uop hitem
  refine ⟨a, ha.1, ha.2.1, ?_, (alone_of_writer h.front ha).2.1, ?_⟩
  · exact custom_sets _ ha.2.2
  · rw [huop]
    rfl

/-- **Custom writes are not speculative.**  The writes performed are, in order
    and one by one, those of the instructions that have committed, but for one
    at most at the end, whose entry is in the ROB; without such an entry the two
    are equal.  That entry is not marked as excepting, and leaves only by its
    commit.  A uop that writes is valid in execute: no branch, flush or missed
    load has taken it away. -/
theorem writes_commit (h : pipe.Reach s) :
    (∃ l, s.performed = s.commits ++ l ∧ (l = [] ∨ ∃ a, s.Writer a ∧ l = [s.core.sys.item a])) ∧
    ((∀ a, ¬ s.Writer a) → s.performed = s.commits) ∧
    (∀ a i, s.Writer a → s.Ok i →
      (s.next i).Writer a ∧ (s.next i).core.sys.item a = s.core.sys.item a ∨
        s.core.sys.item a ∈ (s.next i).commits) ∧
    (∀ p f, s.exe_reg_uops p = some f → setsUCSR f.uop.toMicroOp = true →
      s.exe_reg_valids p = true ∧ ∃ a, s.Writer a ∧ s.core.sys.item a = f.item) := by
  have hi := inv_reach h
  have hone : ∃ l, s.performed = s.commits ++ l ∧
      (l = [] ∨ ∃ a, s.Writer a ∧ l = [s.core.sys.item a]) := by
    cases hi.phase with
    | idle _ _ _ _ hp => exact ⟨[], by rw [hp, List.append_nil], .inl rfl⟩
    | waiting _ _ _ _ _ _ hp => exact ⟨[], by rw [hp, List.append_nil], .inl rfl⟩
    | reading _ _ _ _ _ _ _ _ hp => exact ⟨[], by rw [hp, List.append_nil], .inl rfl⟩
    | executing _ _ _ _ _ _ _ _ hp => exact ⟨[], by rw [hp, List.append_nil], .inl rfl⟩
    | done a ha _ _ _ hp => exact ⟨_, hp, .inr ⟨a, ha, rfl⟩⟩
  refine ⟨hone, fun hno => ?_, fun a i ha ok => ?_, fun p f hf hset => executing_writer hi hf hset⟩
  · obtain ⟨l, hl, rfl | ⟨a, ha, -⟩⟩ := hone
    · rw [hl, List.append_nil]
    · exact absurd ha (hno a)
  · cases hc : s.core.sys.rob.commit_at (s.robIn i).toIn a.1 a.2 with
    | false => exact .inl (holder_next custom_sets hi.front ok ha hc)
    | true =>
      right
      rw [commits_next, commitNow_of_commit hi.front ha hc]
      exact List.mem_append_right _ (List.mem_filter.2 ⟨List.mem_singleton_self _, ha.2.2⟩)

end Next

end

/-! ## A run -/

section Run

open Sampling (resetCore userUop calm ok_of_calm)

/-- A write of `procTag`. -/
def setUop : RobUop 2 1 1 :=
  { userUop none with uopc := uopADDI, inst := setUCSR_ProcTag.setWidth 32 <<< 20 }

/-- The pipeline after reset. -/
def resetPipe : Pipe 2 1 1 40 1 := ⟨resetCore, [], fun _ => false, fun _ => none, fun _ => false,
  fun _ => none, [], []⟩

/-- A cycle that may decode a uop, issue one from a place of the queue, and
    write one back. -/
def cycle (dec : Option (RobUop 2 1 1)) (grant : Option ℕ) (wb : List (Fin 2)) : In 2 1 1 40 1 where
  core := Sampling.cycle dec wb [] 3
  nullMicroOp := (userUop none).toMicroOp
  ren_uops _ := ⟨.other 0, 0, 0, .RT_FIX, .RT_X, false, 1, 0, 0, 0, false, false, false, false,
    false, false, .s_valid_1, fun _ => false, false, false, false⟩
  iq_types _ := [.INT]
  grants k := if grant = some k then some 0 else none
  ld_miss := false
  wakeup_ports := []
  spec_ld_wakeup := []
  rs1_data _ := 0x1234567

/-- What `Pipe.Ok` asks of such a cycle. -/
def cycleOk (s : Pipe 2 1 1 40 1) (i : In 2 1 1 40 1) : Bool :=
  calm s.core (s.coreIn i) &&
  (decide ((i.core.dec_uops 0).uopc = uopADDI → (i.core.dec_uops 0).is_fence = false ∧
    (i.core.dec_uops 0).is_fencei = false) &&
    decide ((i.core.dec_uops 0).flush_on_commit = true → (i.core.dec_uops 0).is_unique = true)) &&
  (List.finRange 2).all fun r => !Rob.unbusy_at (s.robIn i).toIn r 0 ||
    (s.core.sys.rob.bank r 0).val && s.executed.contains (s.core.sys.item (r, 0))

theorem ok_of_cycleOk {s : Pipe 2 1 1 40 1} {i : In 2 1 1 40 1} (h : cycleOk s i = true)
    (hnull : setsUCSR i.nullMicroOp = false) (hiq : ∀ w, i.iq_types w = [.INT])
    (hlx : i.core.back.lxcpt = none) (hold : i.core.back.oldest = none)
    (hspec : i.spec_ld_wakeup = [])
    (hgrants : ∀ k l p, i.grants k = some p → i.grants l = some p → k = l) : s.Ok i := by
  simp only [cycleOk, Bool.and_eq_true, decide_eq_true_eq, List.all_eq_true, Bool.or_eq_true,
    Bool.not_eq_true'] at h
  obtain ⟨⟨hcalm, haddi, hflush⟩, hans⟩ := h
  refine
    { rob := (ok_of_calm _ _ hcalm).rob
      null := hnull
      row_addi := fun w => by rw [Subsingleton.elim w 0]; exact haddi
      row_flush := fun w => by rw [Subsingleton.elim w 0]; exact hflush
      row_iq := fun w _ _ => hiq w
      lxcpt := fun x hx => absurd (hx.symm.trans hlx) (by simp)
      branch := fun b hb => absurd (hb.symm.trans hold) (by simp)
      grants := hgrants
      spec := fun x hx => absurd (hspec ▸ hx) List.not_mem_nil
      answers := ?_ }
  rintro ⟨r, w⟩ hun
  obtain rfl : w = 0 := Subsingleton.elim w 0
  rcases hans r (List.mem_finRange r) with hno | ⟨hv, hin⟩
  · exact absurd (hno.symm.trans hun) (by simp)
  · exact ⟨hv, fun _ => List.contains_iff_mem.1 hin⟩

/-- A port takes the uop of one place. -/
theorem grants_inj (dec : Option (RobUop 2 1 1)) (grant : Option ℕ) (wb : List (Fin 2)) (k l : ℕ)
    (p : Fin 1) (hk : (cycle dec grant wb).grants k = some p)
    (hl : (cycle dec grant wb).grants l = some p) : k = l := by
  simp only [cycle, Option.ite_none_right_eq_some] at hk hl
  exact Option.some.inj (hk.1.symm.trans hl.1)

/-- A write of `procTag` is decoded, dispatched, issued and made; its uop is
    written back, and commits. -/
def setRun : List (Option (RobUop 2 1 1) × Option ℕ × List (Fin 2)) :=
  [(some setUop, none, []), (none, none, []), (none, some 0, []), (none, none, []),
    (none, none, []), (none, none, [0]), (none, none, [])]

set_option maxRecDepth 20000 in
theorem writes_commit_setRun :
    let s := pipe.run resetPipe (setRun.map fun x => cycle x.1 x.2.1 x.2.2)
    s.performed = s.commits ∧ s.performed.length = 1 ∧ s.core.ucsr.procTag = 0x1234567 := by
  have hreset : resetPipe.Reset :=
    ⟨Sampling.resetCore_reset, rfl, fun _ => rfl, fun _ => rfl, rfl, rfl⟩
  have hreach : pipe.Reach (pipe.run resetPipe (setRun.map fun x => cycle x.1 x.2.1 x.2.2)) := by
    refine Machine.reach_run _ (.start hreset) ⟨?_, ?_, ?_, ?_, ?_, ?_, ?_, trivial⟩ <;>
      exact ok_of_cycleOk (by decide) rfl (fun _ => rfl) rfl rfl rfl (grants_inj _ _ _)
  have hval : ∀ r, ((pipe.run resetPipe (setRun.map fun x =>
      cycle x.1 x.2.1 x.2.2)).core.sys.rob.bank r 0).val = false := by decide
  refine ⟨(writes_commit hreach).2.1 fun a ha => ?_, by decide, by decide⟩
  have hno := hval a.1
  rw [show (0 : Fin 1) = a.2 from Subsingleton.elim _ _] at hno
  exact absurd (ha.1.symm.trans hno) (by simp)

end Run

end BoomStop.CustomWrite