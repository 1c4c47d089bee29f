/-
  The miss file in the data cache: the pipeline and memory keep what they promise to it, so
  the data cache runs its miss file as the machine of the miss file with its memory does.

  * `file_ok`, `answers_of_ok`: the promises;
  * `misses_traced`: the result.
-/
import BoomStop.LineWays

namespace BoomStop.Coherence

open Sync
open Misses (Traced tracedFile)
open Issue (getNewBrMask)

variable {T n S R B N K M : ℕ}

namespace Cache

variable [NeZero S] [NeZero B] [NeZero R] [NeZero N]
variable {g : Cfg B} {s : Cache T n S R B N K M} {i : CacheIn T n M}

omit [NeZero R] [NeZero N] in
/-- What the pipeline asks for is in order: its stores are not speculative, and what it
    prefetches is cached. -/
theorem file_ok (ht : Typed g s.pipe.s2) : s.mshrs.Ok g.toCfg (s.fileIn g i) := by
  constructor
  · intro b hb
    unfold Misses.File.new at hb
    split_ifs at hb
    obtain rfl := Option.some.inj hb
    rfl
  · intro hv hw
    obtain ⟨h2, -, hd, -⟩ := of_mshr_valid hv
    -- what is prefetched is no store
    have hty : s.pipe.s2.type = .t_lsu := by
      rcases hd with hd | hd
      · exact hd
      · rcases ht.write _ h2 hw with hl | hr
        · exact hl
        · rw [hd] at hr
          cases hr
    obtain ⟨hm, hu⟩ := ht.store _ h2 hty hw
    refine ⟨fun t => ?_, hu⟩
    change getNewBrMask _ _ t = false
    simp [getNewBrMask, hm]
  · intro hv hp
    obtain ⟨h2, -, hd, -⟩ := of_mshr_valid hv
    rcases hd with hd | hd
    · have hno := ht.demand _ h2 hd
      change (s.pipe.s2.req _).uop.mem_cmd.isPrefetch = true at hp
      rw [hno] at hp
      cases hp
    · exact ht.prefetch _ h2 hd

omit [NeZero R] [NeZero N] in
/-- What memory grants to the data cache is in order for each MSHR. -/
theorem answers_of_ok (hok : s.Ok g i) (j : Fin N) :
    (s.mshrs.mshrs j).Answers g.client (s.mshrs.mshrIn g.toCfg (s.fileIn g i) j) := by
  have hgrant : ∀ d, (s.mshrs.mshrIn g.toCfg (s.fileIn g i) j).mem_grant = some d →
      i.grant = some d ∧ d.source = j.val := by
    intro d hd
    obtain ⟨hd, hj⟩ := Option.filter_eq_some_iff.1 hd
    exact ⟨(Option.filter_eq_some_iff.1 hd).1, of_decide_eq_true hj⟩
  constructor
  · intro d hd
    obtain ⟨hg, hj⟩ := hgrant d hd
    exact hok.burst d j hg hj
  · intro d hd
    obtain ⟨hg, hj⟩ := hgrant d hd
    exact hok.upgrade d j hg hj

/-- **The data cache runs its miss file**: in each state that it reaches, the miss file is in a
    state that it reaches with its memory. -/
theorem misses_traced (h : (dcache g).Reach s) :
    ∃ t : Traced T n S R B N K, (tracedFile g.toCfg (M := M)).Reach t ∧ t.file = s.mshrs := by
  induction h with
  | @start s h0 =>
    exact ⟨⟨s.mshrs, fun _ => [], fun _ => []⟩, .start ⟨h0.mshrs, fun _ => rfl⟩, rfl⟩
  | @step s i hr hok ih =>
    obtain ⟨t, ht, hfile⟩ := ih
    have hstep : t.Ok g.toCfg (s.fileIn g i) := by
      constructor
      · rw [hfile]
        exact file_ok (typed_of_reach hr).2
      · rw [hfile]
        exact answers_of_ok hok
    refine ⟨t.next g.toCfg (s.fileIn g i), ht.step hstep, ?_⟩
    change t.file.next g.toCfg (s.fileIn g i) = s.mshrs.next g.toCfg (s.fileIn g i)
    rw [hfile]

end Cache

/-- MSHR 0 waits for the acknowledgement of the line that it gave up. -/
theorem misses_traced_missed : ((Small.missed 16).mshrs.mshrs 0).valid = true ∧
    ∃ t : Traced 1 2 2 2 2 2 1, (tracedFile Small.cfg.toCfg (M := 0)).Reach t ∧
      t.file = (Small.missed 16).mshrs :=
  ⟨by decide +kernel, Cache.misses_traced (Small.reach_missed 16)⟩

end BoomStop.Coherence
