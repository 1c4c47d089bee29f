/-
  What `loadelf` touches (`elf_load.cpp`): the records of the text, which it
  reads into the mapping of `main`, the one mapping that it makes for the text,
  and the bytes that it reads there from the ELF file.

  * `mainLoad_log`: the memory follows from the accesses;
  * `Recorded`: text that is recorded from its first address to its last, in one
    segment of the file and away from the records;
  * `loadelf_exact`: such text is loaded, and loaded exactly;
  * `not_loads_exactly`: each of these conditions is needed.
-/
import BoomStop.Restore

namespace BoomStop

/-! ## The memory after the accesses -/

/-- Nothing happens to memory but the accesses. -/
def Logged.Runs (os : Os) (s : Space) (x : Logged Space) : Prop :=
  x.log.foldlM (Access.apply os) s = x.val

section

variable {os : Os} {s : Space}

theorem runs_run (x : Access) : (x.run os s).Runs os s := by
  simp only [Logged.Runs, Access.run, List.foldlM_cons, List.foldlM_nil]
  exact bind_pure _

theorem runs_bind {x : Logged Space} {f : Space → Logged Space} (hx : x.Runs os s)
    (hf : ∀ s', x.val = some s' → (f s').Runs os s') : (x >>= f).Runs os s := by
  cases hval : x.val with
  | none =>
    have hbind : x >>= f = ⟨x.log ++ x.val.elim [] fun a => (f a).log,
      x.val.bind fun a => (f a).val⟩ := rfl
    rw [Logged.Runs, hbind, hval, Option.elim_none, List.append_nil]
    exact hx.trans hval
  | some s' =>
    have hbind : (x >>= f).val = (f s').val := congrArg (Option.bind · _) hval
    rw [Logged.Runs, Logged.bind_log hval, hbind, List.foldlM_append, hx, hval]
    exact hf s' hval

theorem loadRanges_runs (elf : File) (ph : Phdr) (pos : ℕ) (i : BitVec 64) (n : ℕ) :
    (loadRanges os elf ph s pos i n).Runs os s := by
  induction n generalizing s pos i with
  | zero => rfl
  | succ n ih =>
    refine runs_bind (runs_run _) fun s₁ _ => ?_
    exact runs_bind (runs_run _) fun s₂ _ => ih _ _

theorem loadSections_runs (elf : File) (eh : Ehdr) (shdr : File) (pos c n : ℕ) :
    (loadSections os elf eh shdr s pos c n).Runs os s := by
  induction n generalizing s shdr pos c with
  | zero => rfl
  | succ n ih =>
    rw [loadSections]
    simp only
    split_ifs
    · exact runs_bind (runs_run _) fun s₁ _ => ih _ _ _
    · exact ih _ _ _

theorem loadText_runs (elf : File) (numinfos : BitVec 64) :
    (loadText os s elf numinfos).Runs os s := by
  unfold loadText
  cases textPhdr os elf with
  | none => rfl
  | some seg =>
    refine runs_bind (loadRanges_runs ..) fun s₁ _ => ?_
    split_ifs
    · exact loadSections_runs ..
    · rfl

/-- **The memory follows from the accesses.** -/
theorem loadelf_runs (elf ckptinfo : File) : (loadelf os s elf ckptinfo).Runs os s :=
  runs_bind (runs_run _) fun _ _ => runs_bind (runs_run _) fun _ _ =>
    runs_bind (runs_run _) fun _ _ => runs_bind (runs_run _) fun _ _ => loadText_runs ..

end

/-! ## Text that is recorded from its first address to its last -/

/-- The first record is the lowest, and the last one ends last. -/
def Spans (rs : List MemRangeInfo) : Prop :=
  ∀ first last, rs.head? = some first → rs.getLast? = some last →
    last.addr.toNat + last.size.toNat + 4096 < 2 ^ 64 + first.addr.toNat ∧
    ∀ r ∈ rs, first.addr.toNat ≤ r.addr.toNat ∧
      r.addr.toNat + r.size.toNat ≤ last.addr.toNat + last.size.toNat

/-- `text_seg` is away from the records. -/
def Clears (rs : List MemRangeInfo) : Prop :=
  ∀ first last, rs.head? = some first → rs.getLast? = some last →
    ∀ a, (textSeg first last).Maps a → 16 * rs.length ≤ (a - runningInfoAddr).toNat

/-- The records are in the segment, which is in a file: offsets are signed. -/
structure InSegment (ph : Phdr) (rs : List MemRangeInfo) : Prop where
  range : ∀ r ∈ rs, (r.addr - ph.p_vaddr).toNat + r.size.toNat ≤ ph.p_filesz.toNat
  offset : ph.p_offset.toNat + ph.p_filesz.toNat < 2 ^ 63

/-- Text that `loadelf` is made for. -/
structure Recorded (ph : Phdr) (rs : List MemRangeInfo) : Prop where
  nonempty : rs ≠ []
  /-- the records fit into the space of `main` -/
  fits : rs.length ≤ 512
  spans : Spans rs
  clear : Clears rs
  segment : InSegment ph rs

/-- The address is in a recorded range. -/
def MemRangeInfo.Holds (r : MemRangeInfo) (a : BitVec 64) : Prop :=
  (a - r.addr).toNat < r.size.toNat

/-- `textinfo` is only looked into where there are records. -/
def InTable (log : List Access) (n : ℕ) : Prop := ∀ i, .record i ∈ log → i.toNat < n

/-- The records are read first, into the space of `main`. -/
def TableFits (log : List Access) : Prop :=
  ∃ q rest, log = .fread runningInfoAddr q :: rest ∧ q.length ≤ 8192

namespace Recorded

variable {os : Os} {elf : File} {ph : Phdr} {pos : ℕ} {rs : List MemRangeInfo}

/-- `text_seg` is mapped over every recorded range. -/
theorem maps (h : Recorded ph rs) {first last r : MemRangeInfo} (hf : rs.head? = some first)
    (hl : rs.getLast? = some last) (hr : r ∈ rs) {a : BitVec 64} (ha : r.Holds a) :
    (textSeg first last).Maps a := by
  obtain ⟨hend, hspan⟩ := h.spans first last hf hl
  obtain ⟨h1, h2⟩ := hspan r hr
  rw [MemRangeInfo.Holds] at ha
  have hsize : (textSeg first last).size.toNat =
      last.addr.toNat + last.size.toNat + 4096 - first.addr.toNat := by
    simp only [textSeg]
    bv_omega
  have hat : (a - (textSeg first last).addr).toNat < (textSeg first last).size.toNat := by
    rw [hsize]
    simp only [textSeg]
    bv_omega
  refine ⟨fun hzero => ?_, Nat.lt_of_lt_of_le hat ?_⟩
  · rw [hzero] at hat
    exact absurd hat (Nat.not_lt_zero _)
  · unfold pages
    omega

/-- The byte that is read for an address is the one that the segment has. -/
theorem piece_byte (h : Recorded ph rs) (elf : File) {r : MemRangeInfo} (hr : r ∈ rs) :
    (ph.piece r).off.msb = false ∧ ∀ a, r.Holds a → (ph.piece r).byte elf a =
      elf[ph.p_offset.toNat + (a - ph.p_vaddr).toNat]? := by
  have hseg := h.segment.range r hr
  have hfile := h.segment.offset
  have hoff : (ph.piece r).off.toNat = (r.addr - ph.p_vaddr).toNat + ph.p_offset.toNat := by
    rw [Phdr.piece, BitVec.toNat_add]
    exact Nat.mod_eq_of_lt (by omega)
  have hmsb : (ph.piece r).off.msb = false := by
    rw [BitVec.msb_eq_false_iff_two_mul_lt, hoff]
    omega
  refine ⟨hmsb, fun a ha => ?_⟩
  have hat : (a - ph.p_vaddr).toNat = (r.addr - ph.p_vaddr).toNat + (a - r.addr).toNat := by
    rw [MemRangeInfo.Holds] at ha
    bv_omega
  have hin : (a - (ph.piece r).addr).toNat < (ph.piece r).size.toNat := ha
  have hpos : (ph.piece r).off.toNat + (a - (ph.piece r).addr).toNat =
      ph.p_offset.toNat + (a - ph.p_vaddr).toNat := by
    change _ + (a - r.addr).toNat = _
    omega
  rw [Piece.byte, hmsb, if_neg Bool.false_ne_true, if_pos hin, hpos]

theorem textPieces_eq (h : Recorded ph rs) {ckptinfo : File} (hrs : textRanges ckptinfo = rs)
    (hph : textPhdr os elf = some (ph, pos)) :
    textPieces os elf ckptinfo = rs.map ph.piece := by
  cases rs with
  | nil => exact absurd rfl h.nonempty
  | cons r rs => simp only [textPieces, hph, hrs]

/-- Recorded text keeps away from the records. -/
theorem layout (h : Recorded ph rs) {ckptinfo : File} (hrs : textRanges ckptinfo = rs)
    (hph : textPhdr os elf = some (ph, pos)) : Layout os elf ckptinfo (16 * rs.length) := by
  have hpieces := h.textPieces_eq hrs hph
  have hmem {q : Piece} (hq : q ∈ textPieces os elf ckptinfo) : ∃ r ∈ rs, ph.piece r = q := by
    rw [hpieces] at hq
    exact List.mem_map.1 hq
  refine ⟨by rw [hrs]; exact h.fits, Nat.le_of_eq (by rw [hrs]), fun first last hf hl => ?_,
    fun q hq a ha => ?_, fun q hq => ?_, fun q hq q' hq' a b b' hb hb' => ?_⟩
  · rw [hrs] at hf hl ⊢
    exact h.clear first last hf hl
  · obtain ⟨r, hr, rfl⟩ := hmem hq
    have hf := List.head?_eq_some_head h.nonempty
    have hl := List.getLast?_eq_some_getLast h.nonempty
    exact h.clear _ _ hf hl a (h.maps hf hl hr ha)
  · obtain ⟨r, hr, rfl⟩ := hmem hq
    exact (h.piece_byte elf hr).1
  · obtain ⟨r, hr, rfl⟩ := hmem hq
    obtain ⟨r', hr', rfl⟩ := hmem hq'
    have holds {r : MemRangeInfo} {b : BitVec 8} (hb : (ph.piece r).byte elf a = some b) :
        r.Holds a := by
      rw [Piece.byte] at hb
      split_ifs at hb with _ ha
      exact ha
    rw [(h.piece_byte elf hr).2 a (holds hb)] at hb
    rw [(h.piece_byte elf hr').2 a (holds hb')] at hb'
    exact Option.some.inj (hb'.symm.trans hb)

end Recorded

/-! ## What `loadelf` does with it -/

/-- Text that is loaded as it is recorded. -/
structure LoadsText (os : Os) (elf : File) (ph : Phdr) (rs : List MemRangeInfo)
    (first last : MemRangeInfo) (s : Space) (x : Logged Space) : Prop where
  /-- the accesses are all that happens to memory -/
  runs : x.Runs os s
  records : InTable x.log rs.length
  table : TableFits x.log
  /-- one mapping, from the first record to a page behind the last one -/
  maps : ∀ r, .mmap r ∈ x.log ↔ r = textSeg first last
  covers : ∀ r ∈ rs, ∀ a, r.Holds a → (textSeg first last).Maps a
  /-- it only ends the program where the system refuses that mapping -/
  returns : x.val.isSome = os.mmapFixed (textSeg first last).addr (textSeg first last).size
  /-- the byte of the segment at every recorded address -/
  bytes : ∀ s', x.val = some s' → ∀ r ∈ rs, ∀ a, r.Holds a → ∀ b,
    elf[ph.p_offset.toNat + (a - ph.p_vaddr).toNat]? = some b → s'.mem a = b

section

variable {os : Os} {s : Space} {elf ckptinfo : File} {ph : Phdr}

theorem Logged.bind_eq {α β : Type} {x : Logged α} {a : α} (h : x.val = some a)
    (f : α → Logged β) : x >>= f = ⟨x.log ++ (f a).log, (f a).val⟩ := by
  change Logged.mk (x.log ++ x.val.elim [] fun a => (f a).log) (x.val.bind fun a => (f a).val) = _
  rw [h, Option.elim_some, Option.bind_some]

theorem Logged.mem_log {α β : Type} {x : Logged α} {f : α → Logged β} {y : Access} :
    y ∈ (x >>= f).log ↔ y ∈ x.log ∨ ∃ a, x.val = some a ∧ y ∈ (f a).log := by
  change y ∈ x.log ++ x.val.elim [] (fun a => (f a).log) ↔ _
  cases x.val <;> simp

/-- The loop looks into the records in turn, and maps nothing. -/
theorem of_mem_loadRanges {pos i n : ℕ} {x : Access}
    (h : x ∈ (loadRanges os elf ph s pos (BitVec.ofNat 64 i) n).log) :
    (∀ j, x = .record j → j.toNat < i + n) ∧ ∀ r, x ≠ .mmap r := by
  induction n generalizing s pos i with
  | zero => cases h
  | succ n ih =>
    rw [loadRanges, Logged.mem_log] at h
    rcases h with h | ⟨s₁, -, h⟩
    · obtain rfl := List.mem_singleton.1 h
      refine ⟨fun j hj => ?_, fun r hr => absurd hr (by simp)⟩
      cases hj
      have hmod := Nat.mod_le i (2 ^ 64)
      rw [BitVec.toNat_ofNat]
      omega
    simp only [Logged.mem_log] at h
    rcases h with h | ⟨s₂, -, h⟩
    · obtain rfl := List.mem_singleton.1 h
      exact ⟨fun j hj => absurd hj (by simp), fun r hr => absurd hr (by simp)⟩
    · rw [show BitVec.ofNat 64 i + 1 = BitVec.ofNat 64 (i + 1) from (BitVec.ofNat_add ..).symm] at h
      obtain ⟨hj, hr⟩ := ih h
      exact ⟨fun j hx => by have := hj j hx; omega, hr⟩

theorem of_mem_loadText {pos : ℕ} {n : BitVec 64} (hph : textPhdr os elf = some (ph, pos))
    (hn : n ≠ 0) {x : Access} (h : x ∈ (loadText os s elf n).log) :
    (∀ j, x = .record j → j.toNat < n.toNat) ∧ ∀ r, x ≠ .mmap r := by
  simp only [loadText, hph, Logged.mem_log, if_neg hn] at h
  rcases h with h | ⟨s₁, -, h⟩
  · have hx := of_mem_loadRanges (i := 0) h
    rwa [Nat.zero_add] at hx
  · cases h

/-- Where `textinfo` and the ranges are mapped, all of them are read. -/
theorem loadRanges_returns {rs : List MemRangeInfo} {i k : ℕ} (pos : ℕ)
    (hi : 16 * (i + rs.length) ≤ k) (hk : k ≤ 8192)
    (hinfo : ∀ j r, rs[j]? = some r → textinfo s.mem (BitVec.ofNat 64 (i + j)) = r)
    (hclear : ∀ r ∈ rs, ∀ a, r.Holds a → k ≤ (a - runningInfoAddr).toNat)
    (hoff : ∀ r ∈ rs, (ph.piece r).off.msb = false)
    (htable : ∀ a, (a - runningInfoAddr).toNat < 8192 → s.mapped a = true)
    (hmapped : ∀ r ∈ rs, ∀ a, r.Holds a → s.mapped a = true) :
    ∃ s', (loadRanges os elf ph s pos (BitVec.ofNat 64 i) rs.length).val = some s' := by
  induction rs generalizing s i pos with
  | nil => exact ⟨s, rfl⟩
  | cons r rs ih =>
    rw [List.length_cons] at hi
    have hr : textinfo s.mem (BitVec.ofNat 64 i) = r := hinfo 0 r rfl
    have hrecord : ((Access.record (BitVec.ofNat 64 i)).run os s).val = some s := by
      refine if_pos fun x hx => htable _ ?_
      have haddr : BitVec.ofNat 64 i * sizeof_MemRangeInfo = BitVec.ofNat 64 (16 * i) := by
        rw [Nat.mul_comm, BitVec.ofNat_mul]
        rfl
      rw [haddr, BitVec.add_assoc, BitVec.add_comm, BitVec.add_sub_cancel]
      bv_omega
    have hread : ∀ q : File, q.length ≤ r.size.toNat →
        ((Access.fread r.addr q).run os s).val =
          some { s with mem := freadRest s.mem r.addr q } := by
      refine fun q hq => if_pos fun x hx => hmapped r List.mem_cons_self _ ?_
      have hsize := r.size.isLt
      rw [MemRangeInfo.Holds, BitVec.add_comm, BitVec.add_sub_cancel, BitVec.toNat_ofNat]
      exact Nat.lt_of_le_of_lt (Nat.mod_le ..) (by omega)
    have hlen : ∀ p, (bytesAt elf p r.size).length ≤ r.size.toNat := fun p => by
      rw [bytesAt, List.length_take]
      exact Nat.min_le_left ..
    have hnext : BitVec.ofNat 64 i + 1 = BitVec.ofNat 64 (i + 1) := (BitVec.ofNat_add ..).symm
    rw [List.length_cons, loadRanges, Logged.bind_eq hrecord]
    simp only [hr]
    rw [Logged.bind_eq (hread _ (hlen _)), hnext]
    have hload := freadRest_piece (hoff r List.mem_cons_self) elf s.mem pos
    exact ih _ (by omega) (loaded_info hi hk hinfo (hclear r List.mem_cons_self) hload)
      (fun r' hr' => hclear r' (List.mem_cons_of_mem _ hr'))
      (fun r' hr' => hoff r' (List.mem_cons_of_mem _ hr')) htable
      (fun r' hr' => hmapped r' (List.mem_cons_of_mem _ hr'))

/-- What is recorded is read once `text_seg` is mapped. -/
theorem loadText_returns {pos : ℕ} {first last : MemRangeInfo}
    (hph : textPhdr os elf = some (ph, pos)) (hrec : Recorded ph (textRanges ckptinfo))
    (hf : (textRanges ckptinfo).head? = some first)
    (hl : (textRanges ckptinfo).getLast? = some last)
    (hinfo : ∀ i r, (textRanges ckptinfo)[i]? = some r →
      textinfo s.mem (BitVec.ofNat 64 i) = r)
    (htable : ∀ a, (a - runningInfoAddr).toNat < 8192 → s.mapped a = true) :
    ∃ s', (loadText os (s.mmap (textSeg first last).addr (textSeg first last).size.toNat) elf
      (fread64 [] ckptinfo).1).val = some s' := by
  have hlen := textRanges_length ckptinfo
  have hfits := hrec.fits
  have hn : (fread64 [] ckptinfo).1 ≠ 0 := by
    intro h0
    rw [h0] at hlen
    exact hrec.nonempty (List.length_eq_zero_iff.1 hlen)
  have hclear := hrec.clear first last hf hl
  obtain ⟨s', hs'⟩ : ∃ s', (loadRanges os elf ph
      (s.mmap (textSeg first last).addr (textSeg first last).size.toNat) pos 0
      (textRanges ckptinfo).length).val = some s' := by
    refine loadRanges_returns (i := 0) pos (Nat.le_of_eq (by rw [Nat.zero_add])) (by omega)
      (fun j r hj => ?_) (fun r hr a ha => hclear a (hrec.maps hf hl hr ha))
      (fun r hr => (hrec.piece_byte elf hr).1) (fun a ha => ?_) (fun r hr a ha => ?_)
    · rw [Nat.zero_add]
      exact mapped_info hfits hclear hinfo j r hj
    · rw [Space.mmap_mapped, htable a ha, Bool.or_true]
    · rw [Space.mmap_mapped, decide_eq_true (hrec.maps hf hl hr ha).2, Bool.true_or]
  rw [hlen] at hs'
  refine ⟨s', ?_⟩
  simp only [loadText, hph]
  rw [Logged.bind_eq hs', if_neg hn]
  rfl

/-- The accesses of `loadelf` where it is called: the mapping of `main` holds
    the records, and they are as the checkpoint has them. -/
theorem loadelf_eq {first last : MemRangeInfo} (hrec : Recorded ph (textRanges ckptinfo))
    (hf : (textRanges ckptinfo).head? = some first)
    (hl : (textRanges ckptinfo).getLast? = some last) :
    ∃ s₁ : Space, (∀ i r, (textRanges ckptinfo)[i]? = some r →
        textinfo s₁.mem (BitVec.ofNat 64 i) = r) ∧
      (∀ a, (a - runningInfoAddr).toNat < 8192 → s₁.mapped a = true) ∧
      (loadelf os (mainSpace s) elf ckptinfo).log =
        [.fread runningInfoAddr (tableBytes ckptinfo), .record 0,
          .record ((fread64 [] ckptinfo).1 - 1)] ++
        ((Access.mmap (textSeg first last)).run os s₁ >>= fun s =>
          loadText os s elf (fread64 [] ckptinfo).1).log ∧
      (loadelf os (mainSpace s) elf ckptinfo).val =
        ((Access.mmap (textSeg first last)).run os s₁ >>= fun s =>
          loadText os s elf (fread64 [] ckptinfo).1).val := by
  have hlen := textRanges_length ckptinfo
  have hfits := hrec.fits
  have hpos := List.length_pos_iff.2 hrec.nonempty
  have htable : ∀ a, (a - runningInfoAddr).toNat < 8192 → (mainSpace s).mapped a = true := by
    intro a ha
    have hpage : (a - runningInfoAddr).toNat < pages 8192 := ha
    simp only [mainSpace, Space.mmap, decide_eq_true hpage, Bool.true_or]
  have hread : ((Access.fread runningInfoAddr (tableBytes ckptinfo)).run os (mainSpace s)).val =
      some ⟨freadRest (mainSpace s).mem runningInfoAddr (tableBytes ckptinfo),
        (mainSpace s).mapped⟩ := by
    refine if_pos fun k hk => htable _ ?_
    have hq : (tableBytes ckptinfo).length ≤ 16 * (textRanges ckptinfo).length := by
      rw [tableBytes, List.length_take, hlen]
      bv_omega
    rw [BitVec.add_comm, BitVec.add_sub_cancel, BitVec.toNat_ofNat]
    exact Nat.lt_of_le_of_lt (Nat.mod_le ..) (by omega)
  have hinfo : ∀ i r, (textRanges ckptinfo)[i]? = some r → textinfo
      (freadRest (mainSpace s).mem runningInfoAddr (tableBytes ckptinfo)) (BitVec.ofNat 64 i) = r :=
    fun i r hr => textinfo_read hfits (fun a ha => mmap_info s ha) hr
  generalize freadRest (mainSpace s).mem runningInfoAddr (tableBytes ckptinfo) = m at hread hinfo
  have hrecord : ∀ i : BitVec 64, i.toNat < 512 →
      ((Access.record i).run os ⟨m, (mainSpace s).mapped⟩).val =
        some ⟨m, (mainSpace s).mapped⟩ := by
    refine fun i hi => if_pos fun k hk => htable _ ?_
    have hmul : (i * sizeof_MemRangeInfo).toNat = i.toNat * 16 := by
      rw [BitVec.toNat_mul]
      exact Nat.mod_eq_of_lt (show i.toNat * 16 < 2 ^ 64 by omega)
    rw [BitVec.add_assoc, BitVec.add_comm, BitVec.add_sub_cancel]
    bv_omega
  obtain ⟨first', last', hf', hl', hseg⟩ := text_seg_eq hinfo hrec.nonempty
  obtain rfl := Option.some.inj (hf.symm.trans hf')
  obtain rfl := Option.some.inj (hl.symm.trans hl')
  refine ⟨⟨m, (mainSpace s).mapped⟩, hinfo, htable, ?_⟩
  unfold loadelf
  simp only
  rw [show (fread64 [] ckptinfo).2.take (16 * (fread64 [] ckptinfo).1).toNat =
      tableBytes ckptinfo from rfl, Logged.bind_eq hread, Logged.bind_eq (hrecord 0 (by decide)),
    Logged.bind_eq (hrecord ((fread64 [] ckptinfo).1 - 1) (by bv_omega)), hseg]
  exact ⟨rfl, rfl⟩

/-- **Text that is recorded from its first address to its last is loaded, and
    loaded exactly.** -/
theorem loadelf_exact {pos : ℕ} {first last : MemRangeInfo}
    (hph : textPhdr os elf = some (ph, pos)) (hrec : Recorded ph (textRanges ckptinfo))
    (hf : (textRanges ckptinfo).head? = some first)
    (hl : (textRanges ckptinfo).getLast? = some last) :
    LoadsText os elf ph (textRanges ckptinfo) first last (mainSpace s)
      (loadelf os (mainSpace s) elf ckptinfo) := by
  have hlen := textRanges_length ckptinfo
  have hfits := hrec.fits
  have hpos := List.length_pos_iff.2 hrec.nonempty
  have hn : (fread64 [] ckptinfo).1 ≠ 0 := by
    intro h0
    rw [h0] at hlen
    exact absurd hlen (by simpa using Nat.ne_of_gt hpos)
  obtain ⟨s₁, hinfo, htable, hlog, hval⟩ := @loadelf_eq os s elf _ _ _ _ hrec hf hl
  refine ⟨loadelf_runs .., fun i hi => ?_, ⟨_, _, hlog, ?_⟩, fun r => ?_,
    fun r hr a ha => hrec.maps hf hl hr ha, ?_, fun s' hs' r hr a ha b hb => ?_⟩
  · rw [hlog, List.mem_append] at hi
    rcases hi with hi | hi
    · simp only [List.mem_cons, Access.record.injEq, reduceCtorEq, List.not_mem_nil, false_or,
        or_false] at hi
      rcases hi with rfl | rfl
      · exact hpos
      · bv_omega
    · rcases Logged.mem_log.1 hi with hi | ⟨s₂, -, hi⟩
      · cases List.mem_singleton.1 hi
      · rw [hlen]
        exact (of_mem_loadText hph hn hi).1 i rfl
  · rw [tableBytes, List.length_take]
    bv_omega
  · rw [hlog, List.mem_append, Logged.mem_log]
    constructor
    · rintro (h | h | ⟨s₂, -, h⟩)
      · simp only [List.mem_cons, reduceCtorEq, List.not_mem_nil, or_self] at h
      · cases List.mem_singleton.1 h
        rfl
      · exact absurd rfl ((of_mem_loadText hph hn h).2 r)
    · rintro rfl
      exact .inr (.inl (List.mem_singleton.2 rfl))
  · rw [hval]
    cases hgrant : os.mmapFixed (textSeg first last).addr (textSeg first last).size with
    | false =>
      have hnone : ((Access.mmap (textSeg first last)).run os s₁).val = none :=
        if_neg (by rw [hgrant]; exact Bool.false_ne_true)
      exact congrArg Option.isSome (congrArg (Option.bind · _) hnone)
    | true =>
      have hsome : ((Access.mmap (textSeg first last)).run os s₁).val =
          some (s₁.mmap (textSeg first last).addr (textSeg first last).size.toNat) := if_pos hgrant
      obtain ⟨s', hs'⟩ := loadText_returns hph hrec hf hl hinfo htable
      rw [Logged.bind_eq hsome, hs']
      rfl
  · have htext : TextByte os elf ckptinfo a b := by
      refine ⟨ph.piece r, ?_, ((hrec.piece_byte elf hr).2 a ha).trans hb⟩
      rw [hrec.textPieces_eq rfl hph]
      exact List.mem_map_of_mem hr
    exact loadelf_text (hrec.layout rfl hph) (by omega) (fun a ha => mmap_info s ha) hs' htext

end

open Replay (le64 sampleOs)

/-- The loader before it maps anything. -/
def noSpace : Space := ⟨fun _ => 0, fun _ => false⟩

/-- Two instructions at `0x200000`. -/
def twoElf : File := textElf 0x200000 8 [0x13, 0, 0, 0, 0x73, 0, 0, 0]

/-- A record of each. -/
def twoText : File := le64 2 ++ le64 0x200000 ++ le64 4 ++ le64 0x200004 ++ le64 4

theorem textRanges_twoText : textRanges twoText = [⟨0x200000, 4⟩, ⟨0x200004, 4⟩] := by
  decide +kernel

theorem recorded_twoText : Recorded ⟨1, 5, 120, 0x200000, 8, 8⟩ (textRanges twoText) := by
  rw [textRanges_twoText]
  refine ⟨List.cons_ne_nil _ _, by decide, fun first last hf hl => ?_,
    fun first last hf hl a ha => ?_, by decide, by decide⟩
  · cases hf
    cases hl
    decide
  · cases hf
    cases hl
    have hlt : (a - 0x200000).toNat < 8192 := ha.2
    change 32 ≤ (a - 0x150000).toNat
    bv_omega

/-- Both are loaded. -/
theorem loadelf_exact_two :
    (loadelf sampleOs (mainSpace noSpace) twoElf twoText).val.isSome = true ∧
      LoadsText sampleOs twoElf ⟨1, 5, 120, 0x200000, 8, 8⟩ (textRanges twoText) ⟨0x200000, 4⟩
        ⟨0x200004, 4⟩ (mainSpace noSpace) (loadelf sampleOs (mainSpace noSpace) twoElf twoText) := by
  have hph : textPhdr sampleOs twoElf = some (⟨1, 5, 120, 0x200000, 8, 8⟩, 120) := by
    decide +kernel
  have hloads := loadelf_exact (s := noSpace) hph recorded_twoText (by rw [textRanges_twoText]; rfl)
    (by rw [textRanges_twoText]; rfl)
  exact ⟨hloads.returns, hloads⟩

/-! ## What it does not do -/

/-- Every page that is mapped is one of a recorded range. -/
def MapsRecorded (rs : List MemRangeInfo) (log : List Access) : Prop :=
  ∀ s, .mmap s ∈ log → ∀ a, s.Maps a → ∃ r ∈ rs, ∃ c, r.Holds c ∧ c.toNat / 4096 = a.toNat / 4096

/-- A segment of the file has a byte for an address. -/
def ElfByte (elf : File) (a : BitVec 64) (b : BitVec 8) : Prop :=
  ∃ i < (Ehdr.ofBytes elf).e_phnum.toNat, ∃ ph, ph = Phdr.ofBytes (elf.drop
      ((Ehdr.ofBytes elf).e_phoff.toNat + i * (Ehdr.ofBytes elf).e_phentsize.toNat)) ∧
    ph.p_type = 1 ∧ (a - ph.p_vaddr).toNat < ph.p_filesz.toNat ∧
    elf[ph.p_offset.toNat + (a - ph.p_vaddr).toNat]? = some b

/-- If every mapping is granted, `loadelf` returns, and every recorded address
    has the byte of the file. -/
def Loads (os : Os) (s : Space) (elf ckptinfo : File) : Prop :=
  (∀ a n, os.mmapFixed a n = true) → ∃ s',
    (loadelf os (mainSpace s) elf ckptinfo).val = some s' ∧
    ∀ r ∈ textRanges ckptinfo, ∀ a, r.Holds a → ∀ b, ElfByte elf a b → s'.mem a = b

/-- No text is recorded, or more than there is space for. -/
def noText : File := le64 0

/-- A checkpoint with more records than the array has places for. -/
def manyText : File := le64 513 ++ List.replicate 8208 0

/-- One record. -/
def oneText (addr : BitVec 64) : File := le64 1 ++ le64 addr ++ le64 4

/-- Two segments of text, and a record in each. -/
def splitElf : File :=
  List.replicate 32 0 ++ le64 64 ++ le64 0 ++ List.replicate 6 0 ++ [56, 0, 2, 0] ++
    List.replicate 6 0 ++ [1, 0, 0, 0, 5, 0, 0, 0] ++ le64 176 ++ le64 0x200000 ++ le64 0 ++
    le64 4 ++ le64 4 ++ le64 0 ++ [1, 0, 0, 0, 5, 0, 0, 0] ++ le64 180 ++ le64 0x300000 ++
    le64 0 ++ le64 4 ++ le64 4 ++ le64 0 ++ [0x13, 0, 0, 0, 0x73, 0, 0, 0]

/-- Two text ranges, in two segments. -/
def splitText : File := le64 2 ++ le64 0x200000 ++ le64 4 ++ le64 0x300000 ++ le64 4

/-- A segment of more than a page, with a record behind a later one. -/
def farElf : File := textElf 0x200000 0x1004 [0x13, 0, 0, 0]

/-- Two text ranges, the higher one first. -/
def farText : File := le64 2 ++ le64 0x201000 ++ le64 4 ++ le64 0x200000 ++ le64 4

/-- Files whose text is not loaded as it is recorded: an address in a range has a
    byte of the ELF file, which is not there after the load. -/
structure Missed where
  elf : File
  ckptinfo : File
  ph : Phdr
  ranges : List MemRangeInfo
  addr : BitVec 64
  byte : BitVec 8
  textPhdr_eq : textPhdr sampleOs elf = some (ph, 120)
  textRanges_eq : textRanges ckptinfo = ranges
  recorded : ∃ r ∈ ranges, r.Holds addr
  elfByte : ElfByte elf addr byte
  missed : ((loadelf sampleOs (mainSpace noSpace) elf ckptinfo).val.all
    fun s => s.mem addr ≠ byte) = true

theorem Missed.not_loads (m : Missed) : ¬Loads sampleOs noSpace m.elf m.ckptinfo := by
  intro h
  obtain ⟨s', hs', hbytes⟩ := h fun _ _ => rfl
  obtain ⟨r, hr, ha⟩ := m.recorded
  have hb := hbytes r (by rw [m.textRanges_eq]; exact hr) _ ha _ m.elfByte
  have hmissed := m.missed
  rw [hs', Option.all_some, decide_eq_true_iff] at hmissed
  exact hmissed hb

/-- What is recorded of the second segment is not loaded. -/
def missedSplit : Missed where
  elf := splitElf
  ckptinfo := splitText
  ph := ⟨1, 5, 176, 0x200000, 4, 4⟩
  ranges := [⟨0x200000, 4⟩, ⟨0x300000, 4⟩]
  addr := 0x300000
  byte := 0x73
  textPhdr_eq := by decide +kernel
  textRanges_eq := by decide +kernel
  recorded := ⟨⟨0x300000, 4⟩, by decide, by rw [MemRangeInfo.Holds]; decide⟩
  elfByte := ⟨1, by decide +kernel, _, rfl, by decide +kernel, by decide +kernel, by decide +kernel⟩
  missed := by decide +kernel

/-- A record below the first one is not mapped. -/
def missedFar : Missed where
  elf := farElf
  ckptinfo := farText
  ph := ⟨1, 5, 120, 0x200000, 0x1004, 0x1004⟩
  ranges := [⟨0x201000, 4⟩, ⟨0x200000, 4⟩]
  addr := 0x200000
  byte := 0x13
  textPhdr_eq := by decide +kernel
  textRanges_eq := by decide +kernel
  recorded := ⟨⟨0x200000, 4⟩, by decide, by rw [MemRangeInfo.Holds]; decide⟩
  elfByte := ⟨0, by decide +kernel, _, rfl, by decide +kernel, by decide +kernel, by decide +kernel⟩
  missed := by decide +kernel

/-- What the mapping of the loader itself covers is lost. -/
def missedBelow : Missed where
  elf := nopElf 0x14f000
  ckptinfo := oneText 0x14f000
  ph := ⟨1, 5, 120, 0x14f000, 4, 4⟩
  ranges := [⟨0x14f000, 4⟩]
  addr := 0x14f000
  byte := 0x13
  textPhdr_eq := by decide +kernel
  textRanges_eq := by decide +kernel
  recorded := ⟨⟨0x14f000, 4⟩, by decide, by rw [MemRangeInfo.Holds]; decide⟩
  elfByte := ⟨0, by decide +kernel, _, rfl, by decide +kernel, by decide +kernel, by decide +kernel⟩
  missed := by decide +kernel

/-- `textinfo` is read more than there is space for. -/
theorem not_tableFits :
    ¬TableFits (loadelf sampleOs (mainSpace noSpace) (nopElf 0x200000) manyText).log := by
  rintro ⟨q, rest, hlog, hle⟩
  have hhead : (loadelf sampleOs (mainSpace noSpace) (nopElf 0x200000) manyText).log.head? =
      some (.fread runningInfoAddr (tableBytes manyText)) := rfl
  rw [hlog, List.head?_cons] at hhead
  cases Option.some.inj hhead
  have hcount : (16 * (fread64 [] manyText).1).toNat = 8208 := by decide +kernel
  rw [tableBytes, hcount, fread64, manyText, List.drop_left' (by decide), List.length_take,
    List.length_replicate] at hle
  exact absurd hle (by decide)

/-- It looks for a record where there is none, reads more of them than there is
    space for, maps a page behind the text, loads one segment only, ends the
    program at a record below the first one, and loses records that its own
    mapping covers. -/
theorem not_loads_exactly :
    (¬∀ os s elf ckptinfo, InTable (loadelf os (mainSpace s) elf ckptinfo).log
      (textRanges ckptinfo).length) ∧
    (¬∀ os s elf ckptinfo, TableFits (loadelf os (mainSpace s) elf ckptinfo).log) ∧
    (¬∀ os s elf ckptinfo, MapsRecorded (textRanges ckptinfo)
      (loadelf os (mainSpace s) elf ckptinfo).log) ∧
    (¬∀ os s elf ckptinfo, textRanges ckptinfo ≠ [] → (textRanges ckptinfo).length ≤ 512 →
      Spans (textRanges ckptinfo) → Clears (textRanges ckptinfo) → Loads os s elf ckptinfo) ∧
    (¬∀ os s elf ckptinfo ph pos, textPhdr os elf = some (ph, pos) → textRanges ckptinfo ≠ [] →
      (textRanges ckptinfo).length ≤ 512 → Clears (textRanges ckptinfo) →
      InSegment ph (textRanges ckptinfo) → Loads os s elf ckptinfo) ∧
    ¬∀ os s elf ckptinfo ph pos, textPhdr os elf = some (ph, pos) → textRanges ckptinfo ≠ [] →
      (textRanges ckptinfo).length ≤ 512 → Spans (textRanges ckptinfo) →
      InSegment ph (textRanges ckptinfo) → Loads os s elf ckptinfo := by
  refine ⟨fun h => ?_, fun h => not_tableFits (h ..), fun h => ?_,
    fun h => missedSplit.not_loads (h _ _ _ _ ?_ ?_ ?_ ?_),
    fun h => missedFar.not_loads (h _ _ _ _ _ _ missedFar.textPhdr_eq ?_ ?_ ?_ ?_),
    fun h => missedBelow.not_loads (h _ _ _ _ _ _ missedBelow.textPhdr_eq ?_ ?_ ?_ ?_)⟩
  · have hin := h sampleOs noSpace (nopElf 0x200000) noText 0 (by decide +kernel)
    exact absurd hin (by decide +kernel)
  · have hmem : .mmap ⟨0x200000, 4100⟩ ∈
        (loadelf sampleOs (mainSpace noSpace) (nopElf 0x200000) (oneText 0x200000)).log := by
      decide +kernel
    obtain ⟨r, hr, c, hc, hpage⟩ := h _ _ _ _ _ hmem 0x201000 (by decide)
    rw [show textRanges (oneText 0x200000) = [⟨0x200000, 4⟩] by decide +kernel] at hr
    obtain rfl := List.mem_singleton.1 hr
    rw [MemRangeInfo.Holds] at hc
    simp only at hc
    have hpage' : c.toNat / 4096 = 0x201 := hpage
    bv_omega
  · rw [missedSplit.textRanges_eq]
    exact List.cons_ne_nil _ _
  · rw [missedSplit.textRanges_eq]
    decide
  · rw [missedSplit.textRanges_eq]
    intro first last hf hl
    cases hf
    cases hl
    decide
  · rw [missedSplit.textRanges_eq]
    intro first last hf hl a ha
    cases hf
    cases hl
    have hlt : (a - 0x200000).toNat < 0x102000 := ha.2
    change 32 ≤ (a - 0x150000).toNat
    bv_omega
  · rw [missedFar.textRanges_eq]
    exact List.cons_ne_nil _ _
  · rw [missedFar.textRanges_eq]
    decide
  · rw [missedFar.textRanges_eq]
    intro first last hf hl a ha
    cases hf
    cases hl
    have hlt : (a - 0x201000).toNat < 4096 := ha.2
    change 32 ≤ (a - 0x150000).toNat
    bv_omega
  · rw [missedFar.textRanges_eq]
    exact ⟨by decide, by decide⟩
  · rw [missedBelow.textRanges_eq]
    exact List.cons_ne_nil _ _
  · rw [missedBelow.textRanges_eq]
    decide
  · rw [missedBelow.textRanges_eq]
    intro first last hf hl
    cases hf
    cases hl
    decide
  · rw [missedBelow.textRanges_eq]
    exact ⟨by decide, by decide⟩

end BoomStop
