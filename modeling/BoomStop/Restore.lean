/-
  Checkpoint start-up before the first replayed instruction (`main`,
  `loadelf`, and steps 1 to 4 of `read_ckptinfo`): the program text is mapped
  and read from the ELF file, then the recorded memory ranges are mapped and
  the first loads stored.

  * `loadelf` and `boot`: the loader up to step 2, over the memory of
    `Checkpoint.lean`, with the accesses that it makes;
  * `setFistLoad_apply`, `alloc_memrange_apply`: what steps 3 and 4 leave at
    every address;
  * `TextByte`: the byte the ELF file has for an address of the recorded text;
  * `intact_iff`: text and first loads are both there afterwards exactly when
    no mapped range lies over a byte of the text that is not zero.
-/
import BoomStop.Checkpoint

namespace BoomStop

/-! ## The ELF file -/

/-- The fields of `Elf64_Ehdr` that `loadelf` uses. -/
structure Ehdr where
  e_phoff : BitVec 64
  e_shoff : BitVec 64
  e_phentsize : BitVec 16
  e_phnum : BitVec 16
  e_shentsize : BitVec 16
  e_shnum : BitVec 16
  e_shstrndx : BitVec 16

/-- The fields of `Elf64_Phdr` that `loadelf` uses. -/
structure Phdr where
  p_type : BitVec 32
  p_flags : BitVec 32
  p_offset : BitVec 64
  p_vaddr : BitVec 64
  p_filesz : BitVec 64
  p_memsz : BitVec 64
  deriving DecidableEq

/-- The fields of `Elf64_Shdr` that `loadelf` uses. -/
structure Shdr where
  sh_flags : BitVec 64
  sh_addr : BitVec 64
  sh_offset : BitVec 64
  sh_size : BitVec 64

/-- A field of 16 bits. -/
def ld16 (m : Mem) (a : BitVec 64) : BitVec 16 := m (a + 1) ++ m a

/-- The structure in the bytes of the variable. -/
def Ehdr.ofBytes (ehdr : File) : Ehdr where
  e_phoff := (bytes ehdr).ld64 32
  e_shoff := (bytes ehdr).ld64 40
  e_phentsize := ld16 (bytes ehdr) 54
  e_phnum := ld16 (bytes ehdr) 56
  e_shentsize := ld16 (bytes ehdr) 58
  e_shnum := ld16 (bytes ehdr) 60
  e_shstrndx := ld16 (bytes ehdr) 62

/-- The structure in the bytes of the variable. -/
def Phdr.ofBytes (phdr : File) : Phdr where
  p_type := (bytes phdr).ld32 0
  p_flags := (bytes phdr).ld32 4
  p_offset := (bytes phdr).ld64 8
  p_vaddr := (bytes phdr).ld64 16
  p_filesz := (bytes phdr).ld64 32
  p_memsz := (bytes phdr).ld64 40

/-- The structure in the bytes of the variable. -/
def Shdr.ofBytes (shdr : File) : Shdr where
  sh_flags := (bytes shdr).ld64 8
  sh_addr := (bytes shdr).ld64 16
  sh_offset := (bytes shdr).ld64 24
  sh_size := (bytes shdr).ld64 32

/-- `sizeof(Elf64_Ehdr)`. -/
def sizeof_Ehdr : ℕ := 64

/-- `sizeof(Elf64_Phdr)`. -/
def sizeof_Phdr : ℕ := 56

/-- `sizeof(Elf64_Shdr)`. -/
def sizeof_Shdr : ℕ := 64

/-- The file position after `fseek(fp, off, SEEK_SET)`: a negative offset is
    refused. -/
def seek (pos : ℕ) (off : BitVec 64) : ℕ := if off.msb then pos else off.toNat

/-- `fread` of `n` bytes at a position, with the position it leaves. -/
def freadAt (elf : File) (pos n : ℕ) (old : File) : File × ℕ :=
  ((fread n old (elf.drop pos)).1, pos + ((elf.drop pos).take n).length)

/-- A segment that is loaded and can be executed. -/
def Phdr.isText (ph : Phdr) : Prop :=
  ph.p_type = 1 ∧ ph.p_memsz ≠ 0 ∧ 0 < ph.p_filesz ∧ ph.p_flags.getLsbD 0 = true

instance (ph : Phdr) : Decidable ph.isText :=
  inferInstanceAs (Decidable (_ ∧ _))

/-- A section that is not empty and can be executed. -/
def Shdr.isText (sh : Shdr) : Prop := sh.sh_size ≠ 0 ∧ sh.sh_flags.getLsbD 2 = true

instance (sh : Shdr) : Decidable sh.isText := inferInstanceAs (Decidable (_ ∧ _))

/-- The file header. -/
def readEhdr (os : Os) (elf : File) : Ehdr × ℕ :=
  let (ehdr, pos) := freadAt elf 0 sizeof_Ehdr os.fresh.ehdr
  (Ehdr.ofBytes ehdr, pos)

/-- The search for the first text segment, from program header `i` on, with
    the position it leaves. -/
def findText (elf : File) (eh : Ehdr) (phdr : File) (pos i : ℕ) : ℕ → Option (Phdr × ℕ)
  | 0 => none
  | n + 1 =>
    let pos := seek pos (eh.e_phoff + BitVec.ofNat 64 (i * eh.e_phentsize.toNat))
    let (phdr, pos) := freadAt elf pos sizeof_Phdr phdr
    if (Phdr.ofBytes phdr).isText then some (Phdr.ofBytes phdr, pos)
    else findText elf eh phdr pos (i + 1) n

/-- The first text segment. -/
def textPhdr (os : Os) (elf : File) : Option (Phdr × ℕ) :=
  let (eh, pos) := readEhdr os elf
  findText elf eh os.fresh.phdr pos 0 eh.e_phnum.toNat

/-- The header of the section names is read, and left behind. -/
def skipNames (os : Os) (elf : File) (eh : Ehdr) (pos : ℕ) : ℕ :=
  let pos := seek pos
    (eh.e_shoff + BitVec.ofNat 64 (eh.e_shstrndx.toNat * eh.e_shentsize.toNat))
  let (string_shdr, pos) := freadAt elf pos sizeof_Shdr os.fresh.string_shdr
  let str := Shdr.ofBytes string_shdr
  seek pos (str.sh_offset + str.sh_size)

/-! ## `loadelf` -/

/-- `sizeof(MemRangeInfo)`. -/
def sizeof_MemRangeInfo : BitVec 64 := 16

/-- `text_seg`, from the first and the last text range. -/
def textSeg (first last : MemRangeInfo) : MemRangeInfo :=
  ⟨first.addr, last.addr + last.size + 4096 - first.addr⟩

/-- `textinfo[i]`: the array lies where `RunningInfo` will be. -/
def textinfo (m : Mem) (i : BitVec 64) : MemRangeInfo :=
  let a := runningInfoAddr + i * sizeof_MemRangeInfo
  ⟨m.ld64 a, m.ld64 (a + 8)⟩

/-- What `loadelf` does to memory. -/
inductive Access
  /-- `textinfo[i]` -/
  | record (i : BitVec 64)
  /-- what a file has goes to memory -/
  | fread (dst : BitVec 64) (q : File)
  | mmap (r : MemRangeInfo)
  deriving DecidableEq

/-- The memory after it; `none` if it ends the program. -/
def Access.apply (os : Os) (s : Space) : Access → Option Space
  | record i => if s.Has (runningInfoAddr + i * sizeof_MemRangeInfo) 16 then some s else none
  | fread dst q => s.fread dst q
  | mmap r => if os.mmapFixed r.addr r.size then some (s.mmap r.addr r.size.toNat) else none

/-- A piece of the loader: its accesses up to its end, or to the one that ends
    the program, and what it leaves. -/
structure Logged (α : Type) where
  log : List Access
  val : Option α

instance : Monad Logged where
  pure a := ⟨[], some a⟩
  bind x f := ⟨x.log ++ x.val.elim [] fun a => (f a).log, x.val.bind fun a => (f a).val⟩

/-- One access. -/
def Access.run (x : Access) (os : Os) (s : Space) : Logged Space := ⟨[x], x.apply os s⟩

/-- What one `fread(dst, size, 1, fp)` finds at `pos`. -/
def bytesAt (elf : File) (pos : ℕ) (size : BitVec 64) : File := (elf.drop pos).take size.toNat

/-- The loop over the recorded text ranges. -/
def loadRanges (os : Os) (elf : File) (ph : Phdr) (s : Space) (pos : ℕ) (i : BitVec 64) :
    ℕ → Logged Space
  | 0 => pure s
  | n + 1 => do
    let s ← (Access.record i).run os s
    let r := textinfo s.mem i
    let pos := seek pos (r.addr - ph.p_vaddr + ph.p_offset)
    let q := bytesAt elf pos r.size
    let s ← (Access.fread r.addr q).run os s
    loadRanges os elf ph s (pos + q.length) (i + 1) n

/-- The loop over the sections, for a checkpoint without text ranges. -/
def loadSections (os : Os) (elf : File) (eh : Ehdr) (shdr : File) (s : Space) (pos c : ℕ) :
    ℕ → Logged Space
  | 0 => pure s
  | n + 1 => do
    let pos := seek pos (eh.e_shoff + BitVec.ofNat 64 (c * eh.e_shentsize.toNat))
    let (shdr, pos) := freadAt elf pos sizeof_Shdr shdr
    let sh := Shdr.ofBytes shdr
    if sh.isText then
      let pos := seek pos sh.sh_offset
      let q := bytesAt elf pos sh.sh_size
      let s ← (Access.fread sh.sh_addr q).run os s
      loadSections os elf eh shdr s (pos + q.length) (c + 1) n
    else loadSections os elf eh shdr s pos (c + 1) n

/-- The part of `loadelf` that reads the program. -/
def loadText (os : Os) (s : Space) (elf : File) (numinfos : BitVec 64) : Logged Space :=
  match textPhdr os elf with
  | none => pure s
  | some (ph, pos) => do
    let s ← loadRanges os elf ph s pos 0 numinfos.toNat
    if numinfos = 0 then
      -- without ranges the loop has left `pos` where it was
      let eh := (readEhdr os elf).1
      loadSections os elf eh os.fresh.shdr s (skipNames os elf eh pos) 0 eh.e_shnum.toNat
    else pure s

/-- `loadelf`. -/
def loadelf (os : Os) (s : Space) (elf ckptinfo : File) : Logged Space := do
  let (numinfos, p) := fread64 [] ckptinfo
  let s ← (Access.fread runningInfoAddr (p.take (16 * numinfos).toNat)).run os s
  let s ← (Access.record 0).run os s
  let s ← (Access.record (numinfos - 1)).run os s
  let text_seg := textSeg (textinfo s.mem 0) (textinfo s.mem (numinfos - 1))
  let s ← (Access.mmap text_seg).run os s
  loadText os s elf numinfos

/-- The mapping of `main`. -/
def mainSpace (s : Space) : Space := s.mmap runningInfoAddr 8192

/-- `main` up to the call of `read_ckptinfo`. -/
def mainLoad (os : Os) (s : Space) (elf ckptinfo : File) : Option Space :=
  if os.mmapFixed runningInfoAddr 8192 then (loadelf os (mainSpace s) elf ckptinfo).val else none

/-- The loader up to step 3. -/
def boot (os : Os) (s : Space) (elf ckptinfo : File) : Option (Space × File) := do
  let s ← mainLoad os s elf ckptinfo
  let (_, s, p) ← ckptHead os s ckptinfo
  some (s, p)

/-! ## What the checkpoint records -/

/-- The address ranges of the text, at the head of a checkpoint; a record that
    the file does not have is zero. -/
def textRanges (ckptinfo : File) : List MemRangeInfo :=
  let (numinfos, p) := fread64 [] ckptinfo
  (List.range numinfos.toNat).map fun i =>
    ⟨(bytes p).ld64 (BitVec.ofNat 64 (16 * i)), (bytes p).ld64 (BitVec.ofNat 64 (16 * i) + 8)⟩

/-- The values of `memrange`. -/
def readRanges (memrange : File) : ℕ → File → List MemRangeInfo
  | 0, _ => []
  | n + 1, p =>
    let (memrange, p) := fread 16 memrange p
    MemRangeInfo.ofBytes memrange :: readRanges memrange n p

/-- The memory ranges of a checkpoint. -/
def memRanges (os : Os) (p : File) : List MemRangeInfo :=
  let (mrange_num, p) := fread64 [] p
  readRanges os.fresh.memrange mrange_num.toNat p

/-- How many first loads the file has. -/
def loadCount (p : File) : ℕ :=
  let (loadnum, p) := fread64 [] p
  min loadnum.toNat (p.length / 16)

/-- The first loads of a checkpoint. -/
def firstLoads (p : File) : List LoadInfo := loadInfos (fread64 [] p).2 (loadCount p)

/-- What the loader stores for first loads that the file does not have. -/
def missingLoads (os : Os) (p : File) : List LoadInfo :=
  let (loadnum, q) := fread64 [] p
  (loadInfos (fread (16 * loadnum.toNat) os.fresh.linfos q).1 loadnum.toNat).drop (loadCount p)

/-- The pages of a range that is not empty. -/
def MemRangeInfo.Maps (r : MemRangeInfo) (a : BitVec 64) : Prop :=
  r.size ≠ 0 ∧ (a - r.addr).toNat < pages r.size.toNat

instance (r : MemRangeInfo) (a : BitVec 64) : Decidable (r.Maps a) :=
  inferInstanceAs (Decidable (_ ∧ _))

/-- Some range is mapped over `a`. -/
def Mapped (rs : List MemRangeInfo) (a : BitVec 64) : Prop := ∃ r ∈ rs, r.Maps a

instance (rs : List MemRangeInfo) (a : BitVec 64) : Decidable (Mapped rs a) :=
  inferInstanceAs (Decidable (∃ r ∈ rs, r.Maps a))

/-- The byte a first load gives to `a`. -/
def LoadInfo.byte (l : LoadInfo) (a : BitVec 64) : Option (BitVec 8) :=
  if (a - l.addr).toNat < 8 then some (l.data.extractLsb' (8 * (a - l.addr).toNat) 8) else none

/-- The byte the first loads give to `a`: the last one that covers it decides. -/
def recorded : List LoadInfo → BitVec 64 → Option (BitVec 8)
  | [], _ => none
  | l :: ls, a => (recorded ls a).or (l.byte a)

/-! ## The bytes of the program text -/

/-- A piece of text: where it goes, and where it lies in the ELF file. -/
structure Piece where
  addr : BitVec 64
  off : BitVec 64
  size : BitVec 64
  deriving DecidableEq

/-- The byte the ELF file has for `a`. -/
def Piece.byte (elf : File) (r : Piece) (a : BitVec 64) : Option (BitVec 8) :=
  if r.off.msb then none
  else if (a - r.addr).toNat < r.size.toNat then elf[r.off.toNat + (a - r.addr).toNat]?
  else none

/-- A text range of the checkpoint, in the segment it belongs to. -/
def Phdr.piece (ph : Phdr) (r : MemRangeInfo) : Piece :=
  ⟨r.addr, r.addr - ph.p_vaddr + ph.p_offset, r.size⟩

/-- The text sections of the ELF file from header `c` on. -/
def textSections (elf : File) (eh : Ehdr) (shdr : File) (pos c : ℕ) : ℕ → List Piece
  | 0 => []
  | n + 1 =>
    let pos := seek pos (eh.e_shoff + BitVec.ofNat 64 (c * eh.e_shentsize.toNat))
    let (shdr, pos) := freadAt elf pos sizeof_Shdr shdr
    let sh := Shdr.ofBytes shdr
    if sh.isText then
      let q := bytesAt elf (seek pos sh.sh_offset) sh.sh_size
      ⟨sh.sh_addr, sh.sh_offset, sh.sh_size⟩ ::
        textSections elf eh shdr (seek pos sh.sh_offset + q.length) (c + 1) n
    else textSections elf eh shdr pos (c + 1) n

/-- The text of a checkpointed program: the recorded ranges of its first text
    segment, or all its text sections where the checkpoint records none. -/
def textPieces (os : Os) (elf ckptinfo : File) : List Piece :=
  match textPhdr os elf with
  | none => []
  | some (ph, pos) =>
    match textRanges ckptinfo with
    | [] =>
      let eh := (readEhdr os elf).1
      textSections elf eh os.fresh.shdr (skipNames os elf eh pos) 0 eh.e_shnum.toNat
    | rs => rs.map ph.piece

/-- `b` is the ELF's byte at the text address `a`. -/
def TextByte (os : Os) (elf ckptinfo : File) (a : BitVec 64) (b : BitVec 8) : Prop :=
  ∃ r ∈ textPieces os elf ckptinfo, r.byte elf a = some b

/-- Text and first loads are both in memory. -/
structure Intact (os : Os) (elf ckptinfo : File) (ls : List LoadInfo) (m : Mem) : Prop where
  text : ∀ a b, TextByte os elf ckptinfo a b → recorded ls a = none → m a = b
  loads : ∀ a b, recorded ls a = some b → m a = b

/-! ## What a read from a file leaves in memory -/

/-- The bytes of the file where it goes, the rest unchanged. -/
theorem freadRest_apply (q : File) (m : Mem) (dst a : BitVec 64) (hq : q.length ≤ 2 ^ 64) :
    freadRest m dst q a = (q[(a - dst).toNat]?).getD (m a) := by
  induction q generalizing m dst with
  | nil => rfl
  | cons b q ih =>
    rw [List.length_cons] at hq
    rw [freadRest, ih _ _ (by omega)]
    by_cases ha : a = dst
    · subst ha
      have hnone : q[(a - (a + 1)).toNat]? = none := List.getElem?_eq_none (by bv_omega)
      rw [hnone, BitVec.sub_self]
      have hbyte : m.st8 a (b.setWidth 64) a = b := by
        rw [Mem.st8, Mem.store_of_lt (by rw [BitVec.sub_self]; decide), BitVec.sub_self]
        ext i hi
        simp [BitVec.getLsbD_eq_getElem hi, show i < 64 by omega]
      exact hbyte
    · have hsucc : (a - dst).toNat = (a - (dst + 1)).toNat + 1 := by bv_omega
      rw [hsucc, List.getElem?_cons_succ, Mem.st8, Mem.store_of_le (by omega)]

/-- Beyond what is read nothing changes. -/
theorem freadRest_of_le {q : File} {m : Mem} {dst a : BitVec 64} (hq : q.length ≤ 2 ^ 64)
    (ha : q.length ≤ (a - dst).toNat) : freadRest m dst q a = m a := by
  rw [freadRest_apply _ _ _ _ hq, List.getElem?_eq_none ha, Option.getD_none]

/-- What the file has is what the variable holds. -/
theorem bytes_fread {n : ℕ} {old p : File} {a : BitVec 64} (hn : a.toNat < n)
    (hp : a.toNat < p.length) : bytes (fread n old p).1 a = bytes p a := by
  have hlt : a.toNat < (p.take n).length := by
    rw [List.length_take]
    omega
  rw [fread, bytes, List.getElem?_append_left hlt, List.getElem?_take, if_pos hn, bytes]

theorem Space.st64_some {s s' : Space} {a v : BitVec 64} (h : s.st64 a v = some s') :
    s'.mem = s.mem.st64 a v ∧ s'.mapped = s.mapped := by
  unfold Space.st64 at h
  split_ifs at h
  cases h
  exact ⟨rfl, rfl⟩

theorem Space.fread_some {s s' : Space} {dst : BitVec 64} {q : File}
    (h : s.fread dst q = some s') : s'.mem = freadRest s.mem dst q ∧ s'.mapped = s.mapped := by
  unfold Space.fread at h
  split_ifs at h
  cases h
  exact ⟨rfl, rfl⟩

theorem st64_apply (m : Mem) (l : LoadInfo) (a : BitVec 64) :
    m.st64 l.addr l.data a = (l.byte a).getD (m a) := by
  simp only [Mem.st64, Mem.store, LoadInfo.byte]
  split_ifs <;> rfl

/-- At every address the byte of the last store that covers it. -/
theorem storeLoads_apply {ls : List LoadInfo} {s s' : Space} (h : storeLoads s ls = some s')
    (a : BitVec 64) : s'.mem a = (recorded ls a).getD (s.mem a) := by
  induction ls generalizing s with
  | nil =>
    cases h
    rfl
  | cons l ls ih =>
    obtain ⟨s₁, h₁, h⟩ := Option.bind_eq_some_iff.1 h
    rw [ih h, (Space.st64_some h₁).1, st64_apply, recorded]
    cases recorded ls a <;> rfl

theorem recorded_append (ls ls' : List LoadInfo) (a : BitVec 64) :
    recorded (ls ++ ls') a = (recorded ls' a).or (recorded ls a) := by
  induction ls with
  | nil => rw [List.nil_append, recorded, Option.or_none]
  | cons l ls ih => rw [List.cons_append, recorded, ih, recorded, Option.or_assoc]

/-- The records the file has come first. -/
theorem loadInfos_fread (old q : File) (n : ℕ) :
    (loadInfos (fread (16 * n) old q).1 n).take (min n (q.length / 16)) =
      loadInfos q (min n (q.length / 16)) := by
  rw [loadInfos, ← List.map_take, List.take_range, Nat.min_eq_left (Nat.min_le_left ..), loadInfos]
  refine List.map_congr_left fun j hj => ?_
  have hj := List.mem_range.1 hj
  have hword : ∀ x : BitVec 64, x.toNat + 8 ≤ 16 * j + 16 →
      (bytes (fread (16 * n) old q).1).ld64 x = (bytes q).ld64 x := fun x hx =>
    Mem.ld64_congr fun k hk => bytes_fread (by bv_omega) (by bv_omega)
  rw [hword _ (by rw [BitVec.toNat_ofNat]; omega), hword _ (by rw [BitVec.toNat_ofNat]; omega)]

/-- **Step 4**: at every address the byte of the last first load that covers
    it, and of what the loader takes for first loads that are missing. -/
theorem setFistLoad_apply {os : Os} {s s' : Space} {p p' : File}
    (h : setFistLoad os s p = some (s', p')) (a : BitVec 64) :
    s'.mem a = ((recorded (missingLoads os p) a).or (recorded (firstLoads p) a)).getD (s.mem a) := by
  unfold setFistLoad at h
  simp only at h
  split_ifs at h
  obtain ⟨s₁, h₁, h⟩ := Option.bind_eq_some_iff.1 h
  cases h
  have hsplit := List.take_append_drop (loadCount p)
    (loadInfos (fread (16 * (fread64 [] p).1.toNat) os.fresh.linfos (fread64 [] p).2).1
      (fread64 [] p).1.toNat)
  rw [loadCount, loadInfos_fread] at hsplit
  rw [storeLoads_apply h₁, ← recorded_append]
  exact congrArg (fun ls => (recorded ls a).getD _) hsplit.symm

/-- The ranges are mapped one after the other. -/
theorem allocRanges_apply {os : Os} {n : ℕ} {s s' : Space} {memrange p p' : File}
    (h : allocRanges os s memrange n p = some (s', p')) (a : BitVec 64) :
    s'.mem a = if Mapped (readRanges memrange n p) a then 0 else s.mem a := by
  induction n generalizing s memrange p with
  | zero =>
    obtain ⟨rfl, -⟩ := Prod.mk.inj (Option.some.inj h)
    refine (if_neg ?_).symm
    rintro ⟨r, hr, -⟩
    exact absurd hr List.not_mem_nil
  | succ n ih =>
    rcases hread : fread 16 memrange p with ⟨memrange', q⟩
    simp only [allocRanges, hread] at h
    simp only [readRanges, hread]
    generalize MemRangeInfo.ofBytes memrange' = r at h ⊢
    have hcons : Mapped (r :: readRanges memrange' n q) a ↔
        r.Maps a ∨ Mapped (readRanges memrange' n q) a := by
      simp only [Mapped, List.mem_cons, exists_eq_or_imp]
    split_ifs at h with hsize hmap
    · rw [ih h]
      refine if_congr ?_ rfl rfl
      rw [hcons, or_iff_right]
      exact fun hr => hr.1 hsize
    · rw [ih h]
      by_cases hrest : Mapped (readRanges memrange' n q) a
      · rw [if_pos hrest, if_pos (hcons.2 (.inr hrest))]
      · rw [if_neg hrest, Space.mmap]
        refine if_congr ?_ rfl rfl
        rw [hcons, or_iff_left hrest]
        exact ⟨fun ha => ⟨hsize, ha⟩, fun hr => hr.2⟩

/-- **Step 3**: zero on the pages of every range, the rest unchanged. -/
theorem alloc_memrange_apply {os : Os} {s s' : Space} {p p' : File}
    (h : alloc_memrange os s p = some (s', p')) (a : BitVec 64) :
    s'.mem a = if Mapped (memRanges os p) a then 0 else s.mem a := allocRanges_apply h a

/-! ## The text where `loadelf` puts it -/

/-- Two memories with the same first `n` bytes of `RunningInfo`. -/
def SameInfo (n : ℕ) (m m' : Mem) : Prop := ∀ a, (a - runningInfoAddr).toNat < n → m' a = m a

theorem SameInfo.textinfo {n : ℕ} {m m' : Mem} (h : SameInfo n m m') {i : BitVec 64}
    (hi : 16 * (i.toNat + 1) ≤ n) (hn : n ≤ 8192) : textinfo m' i = BoomStop.textinfo m i := by
  have hmul : (i * sizeof_MemRangeInfo).toNat = i.toNat * 16 := by
    rw [BitVec.toNat_mul]
    exact Nat.mod_eq_of_lt (show i.toNat * 16 < 2 ^ 64 by omega)
  have hbyte : ∀ k : BitVec 64, k.toNat < 16 →
      m' (runningInfoAddr + i * sizeof_MemRangeInfo + k) =
        m (runningInfoAddr + i * sizeof_MemRangeInfo + k) := by
    intro k hk
    refine h _ ?_
    generalize i * sizeof_MemRangeInfo = x at hmul
    bv_omega
  have haddr := Mem.ld64_congr fun k hk => hbyte k (by omega)
  have hsize : m'.ld64 (runningInfoAddr + i * sizeof_MemRangeInfo + 8) =
      m.ld64 (runningInfoAddr + i * sizeof_MemRangeInfo + 8) := by
    refine Mem.ld64_congr fun k hk => ?_
    rw [BitVec.add_assoc]
    exact hbyte (8 + k) (by bv_omega)
  simp only [BoomStop.textinfo, haddr, hsize]

/-- What `fread` does to the memory. -/
def Piece.load (elf : File) (m : Mem) (r : Piece) : Mem := fun a => (r.byte elf a).getD (m a)

theorem freadRest_piece {r : Piece} (hoff : r.off.msb = false) (elf : File) (m : Mem) (pos : ℕ) :
    freadRest m r.addr (bytesAt elf (seek pos r.off) r.size) = r.load elf m := by
  funext a
  have hlen : (bytesAt elf (seek pos r.off) r.size).length ≤ 2 ^ 64 := by
    have := r.size.isLt
    rw [bytesAt, List.length_take]
    omega
  rw [freadRest_apply _ _ _ _ hlen, Piece.load, bytesAt, List.getElem?_take, Piece.byte, hoff]
  simp only [seek, hoff, Bool.false_eq_true, if_false, List.getElem?_drop]

/-- The load of a piece outside `RunningInfo`. -/
theorem sameInfo_load {elf : File} {r : Piece} {n : ℕ}
    (h : ∀ a, (a - r.addr).toNat < r.size.toNat → n ≤ (a - runningInfoAddr).toNat) (m : Mem) :
    SameInfo n m (r.load elf m) := by
  intro a ha
  have hout : ¬ (a - r.addr).toNat < r.size.toNat := fun hin => absurd (h a hin) (by omega)
  simp only [Piece.load, Piece.byte, if_neg hout, ite_self, Option.getD_none]

section

variable {os : Os} {s s' : Space}

theorem Logged.bind_some {α β : Type} {x : Logged α} {f : α → Logged β} {b : β} :
    (x >>= f).val = some b ↔ ∃ a, x.val = some a ∧ (f a).val = some b := Option.bind_eq_some_iff

theorem Logged.bind_log {α β : Type} {x : Logged α} {f : α → Logged β} {a : α}
    (h : x.val = some a) : (x >>= f).log = x.log ++ (f a).log := by
  change x.log ++ x.val.elim [] (fun a => (f a).log) = _
  rw [h, Option.elim_some]

theorem run_record {i : BitVec 64} (h : ((Access.record i).run os s).val = some s') : s = s' := by
  simp only [Access.run, Access.apply] at h
  split_ifs at h
  exact Option.some.inj h

theorem run_fread {dst : BitVec 64} {q : File}
    (h : ((Access.fread dst q).run os s).val = some s') :
    s'.mem = freadRest s.mem dst q ∧ s'.mapped = s.mapped := Space.fread_some h

theorem run_mmap {r : MemRangeInfo} (h : ((Access.mmap r).run os s).val = some s') :
    os.mmapFixed r.addr r.size = true ∧ s.mmap r.addr r.size.toNat = s' := by
  simp only [Access.run, Access.apply] at h
  split_ifs at h with hgrant
  exact ⟨hgrant, Option.some.inj h⟩

/-- The other records are still there after the load of one. -/
theorem loaded_info {elf : File} {ph : Phdr} {r : MemRangeInfo} {rs : List MemRangeInfo} {m m' : Mem}
    {i k : ℕ} (hi : 16 * (i + (rs.length + 1)) ≤ k) (hk : k ≤ 8192)
    (hinfo : ∀ j r', (r :: rs)[j]? = some r' → textinfo m (BitVec.ofNat 64 (i + j)) = r')
    (hclear : ∀ a, (a - r.addr).toNat < r.size.toNat → k ≤ (a - runningInfoAddr).toNat)
    (hload : m' = (ph.piece r).load elf m) (j : ℕ) (r' : MemRangeInfo) (hj : rs[j]? = some r') :
    textinfo m' (BitVec.ofNat 64 (i + 1 + j)) = r' := by
  have hsame : SameInfo k m m' := by
    rw [hload]
    exact sameInfo_load (r := ph.piece r) hclear m
  have hlt : j < rs.length := (List.getElem?_eq_some_iff.1 hj).1
  have hmod := Nat.mod_le (i + (j + 1)) (2 ^ 64)
  rw [show i + 1 + j = i + (j + 1) by omega, ← hinfo (j + 1) r' hj]
  refine hsame.textinfo ?_ hk
  rw [BitVec.toNat_ofNat]
  omega

theorem loadRanges_eq {elf : File} {ph : Phdr} {rs : List MemRangeInfo} {i k : ℕ} (pos : ℕ)
    (hi : 16 * (i + rs.length) ≤ k) (hk : k ≤ 8192)
    (hinfo : ∀ j r, rs[j]? = some r → textinfo s.mem (BitVec.ofNat 64 (i + j)) = r)
    (hclear : ∀ r ∈ rs, ∀ a, (a - r.addr).toNat < r.size.toNat → k ≤ (a - runningInfoAddr).toNat)
    (hoff : ∀ r ∈ rs, (ph.piece r).off.msb = false)
    (h : (loadRanges os elf ph s pos (BitVec.ofNat 64 i) rs.length).val = some s') :
    s'.mem = (rs.map ph.piece).foldl (Piece.load elf) s.mem := by
  induction rs generalizing s i pos with
  | nil =>
    obtain rfl := Option.some.inj h
    rfl
  | cons r rs ih =>
    have hr : textinfo s.mem (BitVec.ofNat 64 i) = r := hinfo 0 r rfl
    rw [List.length_cons] at hi h
    rw [loadRanges] at h
    obtain ⟨s₁, h₁, h⟩ := Logged.bind_some.1 h
    obtain rfl := run_record h₁
    simp only [hr] at h
    obtain ⟨s₂, h₂, h⟩ := Logged.bind_some.1 h
    have hload : s₂.mem = (ph.piece r).load elf s.mem :=
      (run_fread h₂).1.trans (freadRest_piece (hoff r List.mem_cons_self) elf s.mem pos)
    have hnext : BitVec.ofNat 64 i + 1 = BitVec.ofNat 64 (i + 1) := (BitVec.ofNat_add ..).symm
    rw [hnext] at h
    rw [List.map_cons, List.foldl_cons, ← hload]
    exact ih _ (by omega) (loaded_info hi hk hinfo (hclear r List.mem_cons_self) hload)
      (fun r' hr' => hclear r' (List.mem_cons_of_mem _ hr'))
      (fun r' hr' => hoff r' (List.mem_cons_of_mem _ hr')) h

theorem loadSections_eq {elf : File} {eh : Ehdr} {shdr : File} {n pos c : ℕ}
    (hoff : ∀ r ∈ textSections elf eh shdr pos c n, r.off.msb = false)
    (h : (loadSections os elf eh shdr s pos c n).val = some s') :
    s'.mem = (textSections elf eh shdr pos c n).foldl (Piece.load elf) s.mem := by
  induction n generalizing s shdr pos c with
  | zero =>
    obtain rfl := Option.some.inj h
    rfl
  | succ n ih =>
    simp only [loadSections] at h
    simp only [textSections] at hoff ⊢
    split_ifs at h hoff ⊢ with htext
    · obtain ⟨s₁, h₁, h⟩ := Logged.bind_some.1 h
      have hload := (run_fread h₁).1.trans
        (freadRest_piece (hoff _ List.mem_cons_self) elf s.mem _)
      rw [List.foldl_cons, ← hload]
      exact ih (fun r hr => hoff r (List.mem_cons_of_mem _ hr)) h
    · exact ih hoff h

end

/-- Pieces that agree leave their bytes. -/
theorem loaded_apply {elf : File} {rs : List Piece} {a : BitVec 64} {b : BitVec 8}
    (hagree : ∀ r ∈ rs, ∀ b', r.byte elf a = some b' → b' = b) (m : Mem)
    (h : m a = b ∨ ∃ r ∈ rs, r.byte elf a = some b) : rs.foldl (Piece.load elf) m a = b := by
  induction rs generalizing m with
  | nil =>
    rcases h with h | ⟨r, hr, -⟩
    · exact h
    · exact absurd hr List.not_mem_nil
  | cons r rs ih =>
    refine ih (fun r' hr' => hagree r' (List.mem_cons_of_mem _ hr')) _ ?_
    have hr := hagree r List.mem_cons_self
    rw [Piece.load]
    cases hbyte : r.byte elf a with
    | some b' => exact .inl (hr b' hbyte)
    | none =>
      rcases h with h | ⟨r', hr', hb⟩
      · exact .inl h
      · rcases List.mem_cons.1 hr' with rfl | hr'
        · rw [hbyte] at hb
          exact absurd hb (by simp)
        · exact .inr ⟨r', hr', hb⟩

/-! ### Start-up -/

/-- The first `n` bytes of `RunningInfo` are kept clear of the program. -/
structure Layout (os : Os) (elf ckptinfo : File) (n : ℕ) : Prop where
  /-- `textinfo` fits in the mapping of `main` -/
  infos : (textRanges ckptinfo).length ≤ 512
  table : 16 * (textRanges ckptinfo).length ≤ n
  seg : ∀ r r', (textRanges ckptinfo).head? = some r → (textRanges ckptinfo).getLast? = some r' →
    ∀ a, (textSeg r r').Maps a → 16 * (textRanges ckptinfo).length ≤ (a - runningInfoAddr).toNat
  text : ∀ r ∈ textPieces os elf ckptinfo, ∀ a, (a - r.addr).toNat < r.size.toNat →
    n ≤ (a - runningInfoAddr).toNat
  /-- every piece starts in the file -/
  offs : ∀ r ∈ textPieces os elf ckptinfo, r.off.msb = false
  agree : ∀ r ∈ textPieces os elf ckptinfo, ∀ r' ∈ textPieces os elf ckptinfo, ∀ a b b',
    r.byte elf a = some b → r'.byte elf a = some b' → b' = b

theorem textRanges_length (ckptinfo : File) :
    (textRanges ckptinfo).length = (fread64 [] ckptinfo).1.toNat := by
  simp only [textRanges, List.length_map, List.length_range]

/-- The recorded text ranges are where `textinfo` points. -/
theorem textinfo_read {m : Mem} {ckptinfo : File} (hlen : (textRanges ckptinfo).length ≤ 512)
    (hzero : ∀ a, (a - runningInfoAddr).toNat < 8192 → m a = 0) {i : ℕ} {r : MemRangeInfo}
    (hr : (textRanges ckptinfo)[i]? = some r) :
    textinfo (freadRest m runningInfoAddr ((fread64 [] ckptinfo).2.take
      (16 * (fread64 [] ckptinfo).1).toNat)) (BitVec.ofNat 64 i) = r := by
  have hlt := (List.getElem?_eq_some_iff.1 hr).1
  rw [textRanges_length] at hlen hlt
  simp only [textRanges, List.getElem?_map, List.getElem?_range hlt, Option.map_some] at hr
  generalize (fread64 [] ckptinfo).1 = n at hlen hlt
  generalize (fread64 [] ckptinfo).2 = q at hr ⊢
  have hsize : (16 * n).toNat = 16 * n.toNat := by bv_omega
  -- every byte of the table is that of the file, or zero
  have hbyte : ∀ k : BitVec 64, k.toNat < 16 * n.toNat →
      freadRest m runningInfoAddr (q.take (16 * n).toNat) (runningInfoAddr + k) = bytes q k := by
    intro k hk
    have hsub : runningInfoAddr + k - runningInfoAddr = k := by
      rw [BitVec.add_comm, BitVec.add_sub_cancel]
    rw [freadRest_apply _ _ _ _ (by rw [List.length_take]; omega), hsub, hsize, List.getElem?_take,
      if_pos hk, hzero _ (by rw [hsub]; omega), bytes]
  have hword : ∀ k : BitVec 64, k.toNat + 8 ≤ 16 * n.toNat →
      Mem.ld64 (freadRest m runningInfoAddr (q.take (16 * n).toNat)) (runningInfoAddr + k) =
        (bytes q).ld64 k := by
    intro k hk
    refine Mem.ld64_congr fun x hx => ?_
    rw [BitVec.add_assoc]
    exact hbyte (k + x) (by bv_omega)
  have haddr : BitVec.ofNat 64 i * sizeof_MemRangeInfo = BitVec.ofNat 64 (16 * i) := by
    rw [Nat.mul_comm, BitVec.ofNat_mul]
    rfl
  have hi : (BitVec.ofNat 64 (16 * i)).toNat = 16 * i := by
    rw [BitVec.toNat_ofNat]
    omega
  rw [← Option.some.inj hr, textinfo]
  simp only [haddr]
  rw [hword _ (by omega), BitVec.add_assoc, hword _ (by bv_omega)]

/-- `text_seg` comes from the first and the last range. -/
theorem text_seg_eq {m : Mem} {ckptinfo : File}
    (hinfo : ∀ i r, (textRanges ckptinfo)[i]? = some r → textinfo m (BitVec.ofNat 64 i) = r)
    (hne : textRanges ckptinfo ≠ []) :
    ∃ first last, (textRanges ckptinfo).head? = some first ∧
      (textRanges ckptinfo).getLast? = some last ∧
      textSeg (textinfo m 0) (textinfo m ((fread64 [] ckptinfo).1 - 1)) = textSeg first last := by
  have hlen := textRanges_length ckptinfo
  have hpos := List.length_pos_iff.2 hne
  have hlast : (fread64 [] ckptinfo).1 - 1 =
      BitVec.ofNat 64 ((textRanges ckptinfo).length - 1) := by
    bv_omega
  refine ⟨_, _, List.head?_eq_some_head hne, List.getLast?_eq_some_getLast hne, ?_⟩
  rw [hlast, hinfo _ _ (List.getLast?_eq_getElem? ▸ List.getLast?_eq_some_getLast hne)]
  refine congrArg (textSeg · _) (hinfo 0 _ ?_)
  rw [← List.head?_eq_getElem?, List.head?_eq_some_head hne]

/-- The program is read piece by piece. -/
theorem loadText_eq {os : Os} {s s' : Space} {elf ckptinfo : File} {n : ℕ}
    (hlay : Layout os elf ckptinfo n) (hn : n ≤ 8192)
    (hinfo : ∀ i r, (textRanges ckptinfo)[i]? = some r → textinfo s.mem (BitVec.ofNat 64 i) = r)
    (h : (loadText os s elf (fread64 [] ckptinfo).1).val = some s') :
    s'.mem = (textPieces os elf ckptinfo).foldl (Piece.load elf) s.mem := by
  have hlen := textRanges_length ckptinfo
  have htable := hlay.table
  have htext := hlay.text
  have hoffs := hlay.offs
  generalize (fread64 [] ckptinfo).1 = num at hlen h
  unfold loadText at h
  unfold textPieces at htext hoffs ⊢
  cases hseg : textPhdr os elf with
  | none =>
    simp only [hseg] at h ⊢
    obtain rfl := Option.some.inj h
    rfl
  | some seg =>
    obtain ⟨ph, pos⟩ := seg
    simp only [hseg] at h htext hoffs ⊢
    obtain ⟨s₁, h₁, h⟩ := Logged.bind_some.1 h
    cases hrs : textRanges ckptinfo with
    | nil =>
      have hzero : num = 0 := BitVec.eq_of_toNat_eq (by rw [← hlen, hrs]; rfl)
      subst hzero
      simp only [hrs] at hoffs ⊢
      obtain rfl := Option.some.inj h₁
      rw [if_pos rfl] at h
      exact loadSections_eq hoffs h
    | cons r rs =>
      have hne : num ≠ 0 := by
        rintro rfl
        rw [hrs] at hlen
        exact absurd hlen (by simp)
      simp only [hrs] at htext hoffs ⊢
      rw [hrs] at hlen htable hinfo
      rw [if_neg hne] at h
      obtain rfl := Option.some.inj h
      rw [← hlen] at h₁
      refine loadRanges_eq pos (i := 0) (by simpa using htable) hn (fun j r' hj => ?_)
        (fun r' hr' => htext _ (List.mem_map_of_mem hr'))
        (fun r' hr' => hoffs _ (List.mem_map_of_mem hr')) h₁
      rw [Nat.zero_add]
      exact hinfo j r' hj

/-- Zeros outside the first `n` bytes of `RunningInfo`. -/
theorem sameInfo_mmapZero {r : MemRangeInfo} {n : ℕ}
    (h : ∀ a, r.Maps a → n ≤ (a - runningInfoAddr).toNat) (m : Mem) :
    SameInfo n m (mmapZero m r.addr r.size.toNat) := by
  intro a ha
  refine if_neg fun hin => absurd (h a ⟨?_, hin⟩) (by omega)
  rintro hzero
  rw [hzero] at hin
  exact absurd hin (Nat.not_lt_zero _)

/-- The records are still there when the text is mapped. -/
theorem mapped_info {m : Mem} {ckptinfo : File} {seg : MemRangeInfo}
    (hfits : (textRanges ckptinfo).length ≤ 512)
    (hclear : ∀ a, seg.Maps a → 16 * (textRanges ckptinfo).length ≤ (a - runningInfoAddr).toNat)
    (hinfo : ∀ i r, (textRanges ckptinfo)[i]? = some r → textinfo m (BitVec.ofNat 64 i) = r)
    (i : ℕ) (r : MemRangeInfo) (hr : (textRanges ckptinfo)[i]? = some r) :
    textinfo (mmapZero m seg.addr seg.size.toNat) (BitVec.ofNat 64 i) = r := by
  have hi := (List.getElem?_eq_some_iff.1 hr).1
  have hmod := Nat.mod_le i (2 ^ 64)
  rw [← hinfo i r hr]
  refine (sameInfo_mmapZero hclear m).textinfo ?_ (by omega)
  rw [BitVec.toNat_ofNat]
  omega

/-- What `loadelf` has read for `textinfo`. -/
def tableBytes (ckptinfo : File) : File :=
  (fread64 [] ckptinfo).2.take (16 * (fread64 [] ckptinfo).1).toNat

/-- The accesses of `loadelf` that come to its end. -/
theorem loadelf_some {os : Os} {s s' : Space} {elf ckptinfo : File}
    (h : (loadelf os s elf ckptinfo).val = some s') :
    ∃ (s₁ : Space) (seg : MemRangeInfo),
      s₁.mem = freadRest s.mem runningInfoAddr (tableBytes ckptinfo) ∧
      seg = textSeg (textinfo s₁.mem 0) (textinfo s₁.mem ((fread64 [] ckptinfo).1 - 1)) ∧
      os.mmapFixed seg.addr seg.size = true ∧
      (loadText os (s₁.mmap seg.addr seg.size.toNat) elf (fread64 [] ckptinfo).1).val = some s' ∧
      (loadelf os s elf ckptinfo).log =
        [.fread runningInfoAddr (tableBytes ckptinfo), .record 0,
          .record ((fread64 [] ckptinfo).1 - 1), .mmap seg] ++
        (loadText os (s₁.mmap seg.addr seg.size.toNat) elf (fread64 [] ckptinfo).1).log := by
  unfold loadelf at h ⊢
  simp only at h ⊢
  obtain ⟨s₁, h₁, hrest₁⟩ := Logged.bind_some.1 h
  obtain ⟨s₂, h₂, hrest₂⟩ := Logged.bind_some.1 hrest₁
  obtain ⟨s₃, h₃, hrest₃⟩ := Logged.bind_some.1 hrest₂
  obtain ⟨s₄, h₄, hrest₄⟩ := Logged.bind_some.1 hrest₃
  rw [Logged.bind_log h₁, Logged.bind_log h₂, Logged.bind_log h₃, Logged.bind_log h₄]
  obtain rfl := run_record h₂
  obtain rfl := run_record h₃
  obtain ⟨hgrant, rfl⟩ := run_mmap h₄
  exact ⟨s₁, _, (run_fread h₁).1, rfl, hgrant, hrest₄, rfl⟩

/-- **`loadelf` puts the text in place.** -/
theorem loadelf_text {os : Os} {s s' : Space} {elf ckptinfo : File} {n : ℕ}
    (hlay : Layout os elf ckptinfo n) (hn : n ≤ 8192)
    (hzero : ∀ a, (a - runningInfoAddr).toNat < 8192 → s.mem a = 0)
    (h : (loadelf os s elf ckptinfo).val = some s') {a : BitVec 64} {b : BitVec 8}
    (htext : TextByte os elf ckptinfo a b) : s'.mem a = b := by
  obtain ⟨s₁, seg, hs₁, hseg, -, hrest, -⟩ := loadelf_some h
  have hinfo : ∀ i r, (textRanges ckptinfo)[i]? = some r →
      textinfo s₁.mem (BitVec.ofNat 64 i) = r := by
    intro i r hr
    rw [hs₁]
    exact textinfo_read hlay.infos hzero hr
  have hload : s'.mem = (textPieces os elf ckptinfo).foldl (Piece.load elf)
      (s₁.mmap seg.addr seg.size.toNat).mem := by
    refine loadText_eq hlay hn (fun i r hr => ?_) hrest
    obtain ⟨first, last, hf, hl, hends⟩ := text_seg_eq hinfo
      (List.ne_nil_of_length_pos (Nat.zero_lt_of_lt (List.getElem?_eq_some_iff.1 hr).1))
    exact mapped_info hlay.infos (hseg ▸ hends ▸ hlay.seg first last hf hl) hinfo i r hr
  obtain ⟨r, hr, hbyte⟩ := htext
  rw [hload]
  exact loaded_apply (fun r' hr' b' hb' => hlay.agree r hr r' hr' a b b' hbyte hb') _
    (.inr ⟨r, hr, hbyte⟩)

/-- The mapping of `main` is zero, and all of it there. -/
theorem mmap_info (s : Space) {a : BitVec 64} (ha : (a - runningInfoAddr).toNat < 8192) :
    (mainSpace s).mem a = 0 := if_pos ha

/-- Steps 1 and 2 write to `RunningInfo` only. -/
theorem ckptHead_frame {os : Os} {s s' : Space} {file p : File} {info : SimInfo}
    (h : ckptHead os s file = some (info, s', p)) {a : BitVec 64}
    (ha : 8192 ≤ (a - runningInfoAddr).toNat) : s'.mem a = s.mem a := by
  unfold ckptHead at h
  obtain ⟨s₁, h₁, h⟩ := Option.bind_eq_some_iff.1 h
  obtain ⟨s₂, h₂, h⟩ := Option.bind_eq_some_iff.1 h
  obtain ⟨s₃, h₃, h⟩ := Option.bind_eq_some_iff.1 h
  obtain ⟨s₄, h₄, h⟩ := Option.bind_eq_some_iff.1 h
  obtain ⟨-, h⟩ := Prod.mk.inj (Option.some.inj h)
  obtain ⟨rfl, -⟩ := Prod.mk.inj h
  simp only [runningInfoAddr] at ha
  have hfar : ∀ {n : ℕ} {b : BitVec 64}, n ≤ 256 → (b - runningInfoAddr).toNat ≤ 4096 →
      n ≤ (a - b).toNat := by
    intro n b hn hb
    simp only [runningInfoAddr] at hb
    bv_omega
  have hlen : ∀ q : File, (q.take 256).length ≤ 256 := fun q => by
    rw [List.length_take]
    exact Nat.min_le_left ..
  rw [(Space.fread_some h₄).1, freadRest_of_le (Nat.le_trans (hlen _) (by decide))
      (hfar (hlen _) (by decide)),
    (Space.fread_some h₃).1, freadRest_of_le (Nat.le_trans (hlen _) (by decide))
      (hfar (hlen _) (by decide)),
    (Space.st64_some h₂).1, Mem.st64, Mem.store_of_le (hfar (by decide) (by decide)),
    (Space.st64_some h₁).1, Mem.st64, Mem.store_of_le (hfar (by decide) (by decide))]

/-- **Before step 3 the text is in place.** -/
theorem boot_text {os : Os} {s s₁ : Space} {elf ckptinfo p : File}
    (hlay : Layout os elf ckptinfo 8192) (h : boot os s elf ckptinfo = some (s₁, p))
    {a : BitVec 64} {b : BitVec 8} (htext : TextByte os elf ckptinfo a b) : s₁.mem a = b := by
  obtain ⟨s₀, hmain, h⟩ := Option.bind_eq_some_iff.1 h
  obtain ⟨⟨info, s', p'⟩, hhead, h⟩ := Option.bind_eq_some_iff.1 h
  obtain ⟨rfl, rfl⟩ := Prod.mk.inj (Option.some.inj h)
  unfold mainLoad at hmain
  split_ifs at hmain
  obtain ⟨r, hr, hbyte⟩ := htext
  have ha : (a - r.addr).toNat < r.size.toNat := by
    unfold Piece.byte at hbyte
    split_ifs at hbyte with _ ha
    exact ha
  rw [ckptHead_frame hhead (hlay.text r hr a ha)]
  exact loadelf_text hlay (Nat.le_refl _) (fun _ => mmap_info s) hmain ⟨r, hr, hbyte⟩

/-! ## Steps 3 and 4 -/

/-- The memory when the first loads are stored. -/
theorem restored_apply {os : Os} {s₁ s₂ s₃ : Space} {p p' p'' : File}
    (hmap : alloc_memrange os s₁ p = some (s₂, p')) (hload : setFistLoad os s₂ p' = some (s₃, p''))
    (a : BitVec 64) :
    s₃.mem a = ((recorded (missingLoads os p') a).or (recorded (firstLoads p') a)).getD
      (if Mapped (memRanges os p) a then 0 else s₁.mem a) := by
  rw [setFistLoad_apply hload, alloc_memrange_apply hmap]

/-- **The text survives exactly where no mapped range lies over it.**  A range
    is mapped whatever it overlaps, so a byte of the text on one of its pages
    is zero unless a first load gives it.  A file that ends before its last
    first load has the loader store what it finds instead.  Where the program
    keeps away from `RunningInfo`, its text is in place when the ranges are
    mapped. -/
theorem intact_iff {os : Os} {s s₁ s₂ s₃ : Space} {elf ckptinfo p p' p'' : File}
    (hboot : boot os s elf ckptinfo = some (s₁, p))
    (hmap : alloc_memrange os s₁ p = some (s₂, p'))
    (hload : setFistLoad os s₂ p' = some (s₃, p'')) :
    (Intact os elf ckptinfo (firstLoads p') s₃.mem ↔
      (∀ a b, TextByte os elf ckptinfo a b → recorded (firstLoads p') a = none →
        match recorded (missingLoads os p') a with
        | some c => c = b
        | none => if Mapped (memRanges os p) a then b = 0 else s₁.mem a = b) ∧
      ∀ a b c, recorded (firstLoads p') a = some b → recorded (missingLoads os p') a = some c →
        c = b) ∧
    (Layout os elf ckptinfo 8192 → ∀ a b, TextByte os elf ckptinfo a b → s₁.mem a = b) := by
  have hall := restored_apply hmap hload
  -- a byte that only step 3 decides
  have hmapped : ∀ {a : BitVec 64} {b : BitVec 8},
      (if Mapped (memRanges os p) a then 0 else s₁.mem a) = b ↔
        if Mapped (memRanges os p) a then b = 0 else s₁.mem a = b := by
    intro a b
    split_ifs
    · exact eq_comm
    · rfl
  refine ⟨⟨fun hin => ⟨fun a b htext hnone => ?_, fun a b c hb hc => ?_⟩,
    fun hspared => ⟨fun a b htext hnone => ?_, fun a b hrec => ?_⟩⟩,
    fun hlay a b htext => boot_text hlay hboot htext⟩
  · have hb := hin.text a b htext hnone
    rw [hall, hnone, Option.or_none] at hb
    cases hmiss : recorded (missingLoads os p') a with
    | some c =>
      rw [hmiss] at hb
      exact hb
    | none =>
      rw [hmiss] at hb
      exact hmapped.1 hb
  · have hm := hin.loads a b hb
    rw [hall, hc] at hm
    exact hm
  · have hb := hspared.1 a b htext hnone
    rw [hall, hnone, Option.or_none]
    cases hmiss : recorded (missingLoads os p') a with
    | some c =>
      rw [hmiss] at hb
      exact hb
    | none =>
      rw [hmiss] at hb
      exact hmapped.2 hb
  · rw [hall, hrec]
    cases hmiss : recorded (missingLoads os p') a with
    | some c => exact hspared.2 a b c hrec hmiss
    | none => rfl

/-! ### A program of one instruction -/

open Replay (le64)

/-- An ELF file with one text segment, of `filesz` bytes at `vaddr`. -/
def textElf (vaddr filesz : BitVec 64) (text : File) : File :=
  List.replicate 32 0 ++ le64 64 ++ le64 0 ++ List.replicate 6 0 ++ [56, 0, 1, 0] ++
    List.replicate 6 0 ++ [1, 0, 0, 0, 5, 0, 0, 0] ++ le64 120 ++ le64 vaddr ++ le64 0 ++
    le64 filesz ++ le64 filesz ++ le64 0 ++ text

/-- One `nop`. -/
def nopElf (vaddr : BitVec 64) : File := textElf vaddr 4 [0x13, 0, 0, 0]

/-- Step 4 of a checkpoint of it, with one first load. -/
def nopLoads (page : BitVec 64) : File := le64 1 ++ le64 (page + 8) ++ le64 7 ++ le64 0

/-- Steps 3 and 4, with one page recorded at `page`. -/
def nopTail (page : BitVec 64) : File := le64 1 ++ le64 page ++ le64 4096 ++ nopLoads page

/-- The checkpoint. -/
def nopCkpt (page : BitVec 64) : File :=
  le64 1 ++ le64 0x200000 ++ le64 4 ++ List.replicate 552 0 ++ nopTail page

/-- A run of the loader on it, with the page. -/
structure NopRun where
  page : BitVec 64
  textPieces_eq :
    textPieces Replay.sampleOs (nopElf 0x200000) (nopCkpt page) = [⟨0x200000, 120, 4⟩]
  textRanges_eq : textRanges (nopCkpt page) = [⟨0x200000, 4⟩]
  memRanges_eq : memRanges Replay.sampleOs (nopTail page) = [⟨page, 4096⟩]
  firstLoads_eq : firstLoads (nopLoads page) = [⟨page + 8, 7⟩]
  missingLoads_eq : missingLoads Replay.sampleOs (nopLoads page) = []
  restored :
    ((boot Replay.sampleOs ⟨fun _ => 0, fun _ => false⟩ (nopElf 0x200000) (nopCkpt page)).bind
      fun x =>
        if x.2 = nopTail page then (alloc_memrange Replay.sampleOs x.1 x.2).bind fun y =>
          if y.2 = nopLoads page then (setFistLoad Replay.sampleOs y.1 y.2).map Prod.snd else none
        else none) = some (le64 0)

/-- The page is apart from the program. -/
def apartRun : NopRun where
  page := 0x300000
  textPieces_eq := by decide +kernel
  textRanges_eq := by decide +kernel
  memRanges_eq := by decide +kernel
  firstLoads_eq := by decide +kernel
  missingLoads_eq := by decide +kernel
  restored := by decide +kernel

/-- The page is that of the program, recorded because the program read it. -/
def overRun : NopRun where
  page := 0x200000
  textPieces_eq := by decide +kernel
  textRanges_eq := by decide +kernel
  memRanges_eq := by decide +kernel
  firstLoads_eq := by decide +kernel
  missingLoads_eq := by decide +kernel
  restored := by decide +kernel

namespace NopRun

variable (n : NopRun)

/-- The checkpoint is restored. -/
theorem steps :
    ∃ s₁ s₂ s₃,
      boot Replay.sampleOs ⟨fun _ => 0, fun _ => false⟩ (nopElf 0x200000) (nopCkpt n.page) =
        some (s₁, nopTail n.page) ∧
      alloc_memrange Replay.sampleOs s₁ (nopTail n.page) = some (s₂, nopLoads n.page) ∧
      setFistLoad Replay.sampleOs s₂ (nopLoads n.page) = some (s₃, le64 0) := by
  obtain ⟨⟨s₁, p⟩, h₁, hrun₁⟩ := Option.bind_eq_some_iff.1 n.restored
  split_ifs at hrun₁ with hp
  obtain ⟨⟨s₂, p'⟩, h₂, hrun₂⟩ := Option.bind_eq_some_iff.1 hrun₁
  split_ifs at hrun₂ with hp'
  obtain ⟨⟨s₃, p''⟩, h₃, hend⟩ := Option.map_eq_some_iff.1 hrun₂
  simp only at hp hp' hend h₂ h₃
  subst hp hp' hend
  exact ⟨s₁, s₂, s₃, h₁, h₂, h₃⟩

/-- The text is at `0x200000`, as the loader expects it. -/
theorem layout : Layout Replay.sampleOs (nopElf 0x200000) (nopCkpt n.page) 8192 := by
  have hranges := n.textRanges_eq
  have hpieces := n.textPieces_eq
  refine ⟨by rw [hranges]; decide, by rw [hranges]; decide, ?_, ?_, ?_, ?_⟩
  · rw [hranges]
    rintro r r' hr hr' a ⟨-, ha⟩
    have hseg : textSeg r r' = ⟨0x200000, 4100⟩ := by
      rw [← Option.some.inj hr, ← Option.some.inj hr']
      decide
    rw [hseg] at ha
    change (a - 0x200000).toNat < 8192 at ha
    simp only [runningInfoAddr, List.length_singleton]
    bv_omega
  all_goals rw [hpieces]
  · intro r hr a ha
    obtain rfl := List.mem_singleton.1 hr
    simp only [runningInfoAddr] at ha ⊢
    bv_omega
  · intro r hr
    obtain rfl := List.mem_singleton.1 hr
    rfl
  · intro r hr r' hr' a b b' hb hb'
    obtain rfl := List.mem_singleton.1 hr
    obtain rfl := List.mem_singleton.1 hr'
    exact Option.some.inj (hb'.symm.trans hb)

end NopRun

/-- A page recorded elsewhere leaves the program alone. -/
theorem intact_iff_nop :
    ∃ s₁ s₂ s₃ p,
      boot Replay.sampleOs ⟨fun _ => 0, fun _ => false⟩ (nopElf 0x200000) (nopCkpt 0x300000) =
        some (s₁, nopTail 0x300000) ∧
      alloc_memrange Replay.sampleOs s₁ (nopTail 0x300000) = some (s₂, p) ∧
      setFistLoad Replay.sampleOs s₂ p = some (s₃, le64 0) ∧
      Intact Replay.sampleOs (nopElf 0x200000) (nopCkpt 0x300000) (firstLoads p) s₃.mem := by
  obtain ⟨s₁, s₂, s₃, h₁, h₂, h₃⟩ := apartRun.steps
  obtain ⟨hiff, hplace⟩ := intact_iff h₁ h₂ h₃
  have hmiss := apartRun.missingLoads_eq
  refine ⟨s₁, s₂, s₃, _, h₁, h₂, h₃, hiff.2 ⟨fun a b htext _ => ?_, fun a b c _ hc => ?_⟩⟩
  · rw [hmiss]
    simp only [recorded]
    rw [apartRun.memRanges_eq, if_neg]
    · exact hplace apartRun.layout a b htext
    · rintro ⟨r, hr, -, ha⟩
      obtain rfl := List.mem_singleton.1 hr
      obtain ⟨r, hr, hbyte⟩ := htext
      rw [apartRun.textPieces_eq] at hr
      obtain rfl := List.mem_singleton.1 hr
      unfold Piece.byte at hbyte
      split_ifs at hbyte with _ ha'
      change (a - 0x300000).toNat < 4096 at ha
      simp only at ha'
      bv_omega
  · rw [hmiss] at hc
    cases hc

/-- The page of the program itself, recorded because the program read it: its
    instruction is gone. -/
theorem text_overwritten :
    ¬ ∀ (os : Os) (s s₁ s₂ s₃ : Space) (elf ckptinfo p p' p'' : File),
      Layout os elf ckptinfo 8192 → boot os s elf ckptinfo = some (s₁, p) →
      alloc_memrange os s₁ p = some (s₂, p') → setFistLoad os s₂ p' = some (s₃, p'') →
      Intact os elf ckptinfo (firstLoads p') s₃.mem := by
  intro h
  obtain ⟨s₁, s₂, s₃, h₁, h₂, h₃⟩ := overRun.steps
  have hin := h _ _ _ _ _ _ _ _ _ _ overRun.layout h₁ h₂ h₃
  have htext : TextByte Replay.sampleOs (nopElf 0x200000) (nopCkpt overRun.page) 0x200000 0x13 := by
    refine ⟨⟨0x200000, 120, 4⟩, ?_, by decide +kernel⟩
    rw [overRun.textPieces_eq]
    exact List.mem_singleton.2 rfl
  have hloads : recorded (firstLoads (nopLoads overRun.page)) 0x200000 = none := by
    rw [overRun.firstLoads_eq]
    decide
  have hb := hin.text _ _ htext hloads
  rw [restored_apply h₂ h₃, hloads, overRun.missingLoads_eq, overRun.memRanges_eq, if_pos (by decide +kernel)] at hb
  exact absurd hb (by decide)

end BoomStop
