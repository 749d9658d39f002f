import Bpfman.Image.PullProof
import Bpfman.Lib.Triple
import Mathlib.Data.List.TakeDrop

/-!
# The files an extraction writes

`extractBytecode` on one layer again, with the files it creates and removes in the download
directory and the ways in which the disk can fail it.

* `Finds` — what is kept of the files, and what is known of the file that is returned;
* `extraction_exact_iff` — the files are confined, and what is returned is complete exactly when no
  gzipped ELF file exceeds the limit;
* `gzipped_elf_cut` — one that does is returned without its end.
-/

namespace Bpfman.Image

open Fallible Proc List

/-- What the disk does with one file. -/
inductive DiskAnswer
  | noCreate (err : String)
  | full (room : Nat) (err : String)
  | noClose (err : String)
  | unreadable
  | fine

/-- A file is created and written; a file is removed. -/
inductive FileOp
  | write (name : String) (bytes : Bytes)
  | remove (name : String)

inductive Source
  | layer
  | decompressed
  | entry (e : TarEntry)

/-- The answer of the disk may depend on all that was done before and on what is written. -/
abbrev Disk := List FileOp → Source → DiskAnswer

structure Extracted where
  name : String
  content : Bytes
  source : Source

/-- `none` stands for the empty path. -/
abbrev Extraction := Proc (List FileOp) String (Option Extracted)

/-- What is known of a tar reader: an entry is not longer than its header says, and in a broken
archive an entry may be `cut`. -/
structure Archives extends Formats where
  cut : Stream UInt8 → Option TarEntry
  length_le : ∀ s, ∀ e ∈ (untar s).items, e.content.length ≤ e.size
  cut_lt : ∀ s e, cut s = some e → (untar s).broken = true ∧ e.content.length < e.size

def Archives.entries (A : Archives) (s : Stream UInt8) : List (TarEntry × Bool) :=
  (A.untar s).items.map (·, false) ++ (A.cut s).toList.map (·, true)

/-- Copy a stream to a new file through the limit. The file is kept if it is read back as an ELF
file. -/
def extractTo (disk : Disk) (name : String) (source : Source) (createErr copyErr : String → String)
    (s : Stream UInt8) : Extraction := fun ops =>
  let removed bytes := ops ++ [.write name bytes, .remove name]
  match disk ops source, copyLimited s with
  | .noCreate e, _ => .err (createErr e) ops
  | .full room e, _ => .err (copyErr e) (removed (s.items.take (min room maxBytecodeSize)))
  | _, .error e => .err (copyErr e) (removed (s.items.take maxBytecodeSize))
  | .noClose e, .ok out => .err s!"failed to close output file: {e}" (removed out)
  | .unreadable, .ok out => .ok none (removed out)
  | .fine, .ok out =>
    if isELFFile out then .ok (some ⟨name, out, source⟩) (ops ++ [.write name out])
    else .ok none (removed out)

def Extraction.orElse (m n : Extraction) : Extraction := do
  match ← m with
  | some x => pure (some x)
  | none => n

/-- An attempt that may fail; what follows it sees how it ended. -/
def Extraction.tryElse (m : Extraction) (n : Except String (Option Extracted) → Extraction) :
    Extraction := do
  match ← attempt m with
  | .ok (some x) => pure (some x)
  | r => n r

def entryFile (e : TarEntry) : String := "extracted_" ++ Path.base (Path.clean e.name)

/-- The loop of `extractFromTarReader`, each entry with whether it is cut. -/
def extractEntries (disk : Disk) (broken : Bool) : List (TarEntry × Bool) → Extraction
  | [] => if broken then fail "failed to read tar entry" else pure none
  | (e, cut) :: rest =>
    if ¬ e.name.endsWith ".o" then extractEntries disk broken rest
    else if (Path.clean e.name).startsWith ".." then
      fail s!"archive entry has invalid path: {e.name}"
    else if maxBytecodeSize < e.size then
      fail s!"archive entry {e.name} is too large: {e.size} bytes"
    else
      (extractTo disk (entryFile e) (.entry e) (fun e => s!"failed to create output file: {e}")
        (fun e => s!"failed to extract file: {e}") ⟨e.content, cut⟩).orElse
        (extractEntries disk broken rest)

def extractArchive (A : Archives) (disk : Disk) (s : Stream UInt8) : Extraction :=
  extractEntries disk (A.untar s).broken (A.entries s)

/-- `extractGzippedELF` from the decompressed stream on. -/
def extractDecompressed (disk : Disk) (s : Stream UInt8) : Extraction :=
  (extractTo disk "extracted_bytecode.o" .decompressed id id s).orElse
    (fail "decompressed content is not an ELF file")

/-- The attempts on a gzipped layer. -/
def extractGzip (A : Archives) (disk : Disk) (layer : Bytes) : Extraction :=
  match A.gunzip layer with
  | none => fail "failed to create gzip reader"
  | some s => (extractArchive A disk s).tryElse fun _ => extractDecompressed disk s

/-- `extractBytecode` on a directory that holds the layer alone. -/
def extractFiles (A : Archives) (disk : Disk) (layer : Bytes) : Extraction :=
  if isELFFile layer then pure (some ⟨"layer.blob", layer, .layer⟩)
  else
    Extraction.tryElse (if isGzipFile layer then extractGzip A disk layer else pure none) fun gz =>
      let missing := match gz with
        | .error e => s!"no BPF bytecode (.o file) found in image: extract layer.blob: {e}"
        | .ok _ => "no BPF bytecode (.o file) found in image"
      if isTarFile layer then
        Extraction.orElse (mapErr (fun e => s!"failed to extract archive layer.blob: {e}")
          (extractArchive A disk ⟨layer, false⟩)) (fail missing)
      else fail missing

/-! ## What is claimed of it -/

/-- The bytes are all of what their source has. -/
def Extracted.Complete (A : Archives) (layer : Bytes) (x : Extracted) : Prop :=
  match x.source with
  | .layer => x.content = layer
  | .decompressed => ∃ s, A.gunzip layer = some s ∧ s.broken = false ∧ x.content = s.items
  | .entry e => e.name.endsWith ".o" = true ∧ x.content = e.content ∧
      ∃ s, (s = ⟨layer, false⟩ ∨ A.gunzip layer = some s) ∧ e ∈ (A.untar s).items

/-- A file in the directory: a relative path with no `..`. -/
def Inside (name : String) : Prop :=
  "extracted_".toList <+: name.toList ∧ ∀ p ∈ name.toList.splitOn '/', p ≠ "..".toList

def FileOp.Confined : FileOp → Prop
  | .write name bytes => Inside name ∧ bytes.length ≤ maxBytecodeSize
  | .remove name => Inside name

/-- What the copy notices: the stream ends within the limit. -/
def Stream.Fits (s : Stream UInt8) : Prop :=
  s.items.length < maxBytecodeSize ∨ s.items.length = maxBytecodeSize ∧ s.broken = false

/-- A gzipped ELF file ends within the limit. -/
def Archives.Within (A : Archives) (layer : Bytes) : Prop :=
  isGzipFile layer = true → ∀ s, A.gunzip layer = some s → isELFFile s.items = true → s.Fits

/-- The files stay confined, and a file that is found has `G`. -/
def Finds (G : Extracted → Prop) (m : Extraction) : Prop :=
  Triple (fun ops => ∀ op ∈ ops, op.Confined) m
    (fun r ops => (∀ op ∈ ops, op.Confined) ∧ ∀ x, r = some x → G x)
    fun ops => ∀ op ∈ ops, op.Confined

namespace Finds

variable {G : Extracted → Prop} {m n : Extraction}

theorem fail (e : String) : Finds G (fail e) := Triple.fail fun _ h => h

theorem nothing : Finds G (pure none) := .pure fun _ h => ⟨h, by simp⟩

theorem found {x : Extracted} (hx : G x) : Finds G (pure (some x)) :=
  .pure fun _ h => ⟨h, fun _ hy => Option.some.inj hy ▸ hx⟩

theorem orElse (hm : Finds G m) (hn : Finds G n) : Finds G (m.orElse n) := by
  refine .bind hm fun r => ?_
  cases r with
  | none => exact .conseq hn (fun _ h => h.1) (fun _ _ h => h) fun _ h => h
  | some x => exact .pure fun _ h => h

theorem tryElse {n : Except String (Option Extracted) → Extraction} (hm : Finds G m)
    (hn : ∀ r, Finds G (n r)) : Finds G (m.tryElse n) := by
  intro ops hops
  cases hr : m ops with
  | ok r ops' =>
    obtain ⟨hops', hx⟩ := hm.ok hops hr
    cases r with
    | none => simpa [Extraction.tryElse, bind_apply, attempt, hr] using hn _ ops' hops'
    | some x =>
      simpa [Extraction.tryElse, bind_apply, attempt, hr] using ⟨hops', hx x rfl⟩
  | err e ops' =>
    simpa [Extraction.tryElse, bind_apply, attempt, hr] using hn _ ops' (hm.err hops hr)

theorem mono {G' : Extracted → Prop} (hm : Finds G m) (h : ∀ x, G x → G' x) : Finds G' m :=
  .conseq hm (fun _ h => h) (fun _ _ hr => ⟨hr.1, fun x hx => h x (hr.2 x hx)⟩) fun _ h => h

end Finds

/-! ## One file -/

theorem copyLimited_eq_ok {s : Stream UInt8} {out : Bytes} (h : copyLimited s = .ok out) :
    out = s.items.take maxBytecodeSize ∧ (s.broken = false ∧ out = s.items ↔ s.Fits) := by
  unfold copyLimited at h
  unfold Stream.Fits
  split at h
  · rename_i hle
    cases h
    rw [take_eq_self_iff]
    exact ⟨rfl, by grind⟩
  · rename_i hlt
    split at h
    · cases h
    · rename_i hb
      cases h
      exact ⟨(take_of_length_le (by omega)).symm, by grind⟩

theorem length_of_copyLimited {s : Stream UInt8} {out : Bytes} (h : copyLimited s = .ok out) :
    out.length ≤ maxBytecodeSize := by
  rw [(copyLimited_eq_ok h).1]
  exact length_take_le _ _

theorem isELFFile_take (bytes : Bytes) :
    isELFFile (bytes.take maxBytecodeSize) = isELFFile bytes := by
  simp [isELFFile, hasMagic, take_take, maxBytecodeSize]

section Files

variable {A : Archives} {disk : Disk} {layer : Bytes} {name : String} {source : Source}
  {createErr copyErr : String → String} {s : Stream UInt8} {G : Extracted → Prop}

theorem extractTo_finds (hname : Inside name)
    (hG : ∀ ops out, disk ops source = .fine → copyLimited s = .ok out → isELFFile out = true →
      G ⟨name, out, source⟩) : Finds G (extractTo disk name source createErr copyErr s) := by
  intro ops hops
  have hremoved : ∀ {bytes : Bytes}, bytes.length ≤ maxBytecodeSize →
      ∀ op ∈ ops ++ [.write name bytes, .remove name], op.Confined := by
    intro bytes hle op hop
    rcases mem_append.1 hop with hop | hop
    · exact hops op hop
    · rcases mem_pair.1 hop with rfl | rfl
      · exact ⟨hname, hle⟩
      · exact hname
  unfold extractTo
  split
  · exact ⟨nofun, fun _ _ h => by cases h; exact hops⟩
  · exact ⟨nofun, fun _ _ h => by
      cases h; exact hremoved ((length_take_le _ _).trans (min_le_right _ _))⟩
  · exact ⟨nofun, fun _ _ h => by cases h; exact hremoved (length_take_le _ _)⟩
  · rename_i hcopy
    exact ⟨nofun, fun _ _ h => by cases h; exact hremoved (length_of_copyLimited hcopy)⟩
  · rename_i hcopy
    exact ⟨fun _ _ h => by cases h; exact ⟨hremoved (length_of_copyLimited hcopy), nofun⟩, nofun⟩
  · rename_i out hdisk hcopy
    have hle := length_of_copyLimited hcopy
    split
    · rename_i helf
      refine ⟨fun _ _ h => ?_, nofun⟩
      cases h
      refine ⟨forall_mem_append.2 ⟨hops, forall_mem_singleton.2 ⟨hname, hle⟩⟩, fun x hx => ?_⟩
      exact Option.some.inj hx ▸ hG ops out hdisk hcopy helf
    · exact ⟨fun _ _ h => by cases h; exact ⟨hremoved hle, nofun⟩, nofun⟩

theorem inside_entryFile (e : TarEntry) : Inside (entryFile e) := by
  refine ⟨by simp [entryFile], fun p hp => ?_⟩
  have hb : '/' ∉ (Path.base (Path.clean e.name)).toList ∨ Path.base (Path.clean e.name) = "/" := by
    unfold Path.base
    split
    · exact .inl (by decide)
    · dsimp only
      split
      · exact .inr rfl
      · refine .inl fun hmem => ?_
        rw [String.toList_ofList] at hmem
        simpa using mem_rtakeWhile_imp hmem
  rcases hb with hb | hb
  · have hslash : '/' ∉ (entryFile e).toList := by
      simpa [entryFile] using hb
    rw [splitOn_eq_singleton hslash, mem_singleton] at hp
    rw [hp, entryFile]
    simp
  · rw [entryFile, hb] at hp
    revert hp p
    decide

/-! ## All attempts -/

/-- What each entry that passes the checks gives, the archive gives. -/
theorem extractEntries_finds {broken : Bool} : ∀ {l : List (TarEntry × Bool)},
    (∀ p ∈ l, ∀ ops out, disk ops (.entry p.1) = .fine → p.1.name.endsWith ".o" = true →
      p.1.size ≤ maxBytecodeSize → copyLimited ⟨p.1.content, p.2⟩ = .ok out →
      isELFFile out = true → G ⟨entryFile p.1, out, .entry p.1⟩) →
    Finds G (extractEntries disk broken l)
  | [], _ => .ite (fun _ => Finds.fail _) fun _ => Finds.nothing
  | (e, cut) :: rest, h => by
    have hrest : Finds G (extractEntries disk broken rest) :=
      extractEntries_finds fun p hp => h p (mem_cons_of_mem _ hp)
    refine .ite (fun _ => hrest) fun hname => .ite (fun _ => Finds.fail _) fun _ =>
      .ite (fun _ => Finds.fail _) fun hsize => Finds.orElse ?_ hrest
    refine extractTo_finds (inside_entryFile e) fun ops out hdisk hcopy helf => ?_
    exact h _ mem_cons_self ops out hdisk (by simpa using hname) (Nat.le_of_not_lt hsize) hcopy helf

theorem extractArchive_finds (hs : s = ⟨layer, false⟩ ∨ A.gunzip layer = some s) :
    Finds (fun x => isELFFile x.content = true ∧ x.Complete A layer) (extractArchive A disk s) := by
  refine extractEntries_finds fun p hp ops out _ hname hsize hcopy helf => ?_
  -- the size bounds the content, so the copy is complete unless the entry is cut
  rcases mem_append.1 hp with hp | hp
  · obtain ⟨e, he, rfl⟩ := mem_map.1 hp
    have hfits : Stream.Fits ⟨e.content, false⟩ :=
      (Nat.lt_or_eq_of_le ((A.length_le s e he).trans hsize)).imp_right fun h => ⟨h, rfl⟩
    obtain ⟨-, rfl⟩ := (copyLimited_eq_ok hcopy).2.2 hfits
    exact ⟨helf, hname, rfl, s, hs, he⟩
  · obtain ⟨e, he, rfl⟩ := mem_map.1 hp
    have hlt := (A.cut_lt s e (Option.mem_toList.1 he)).2
    cases ((copyLimited_eq_ok hcopy).2.2 (.inl (hlt.trans_le hsize))).1

theorem extractDecompressed_finds (hgz : isGzipFile layer = true) (hs : A.gunzip layer = some s) :
    Finds (fun x => A.Within layer → isELFFile x.content = true ∧ x.Complete A layer)
      (extractDecompressed disk s) := by
  have hinside : Inside "extracted_bytecode.o" := by
    unfold Inside
    decide
  refine (extractTo_finds hinside fun _ out _ hcopy helf hwithin => ?_).orElse (Finds.fail _)
  obtain ⟨hout, hiff⟩ := copyLimited_eq_ok hcopy
  rw [hout, isELFFile_take] at helf
  obtain ⟨hb, rfl⟩ := hiff.2 (hwithin hgz s hs helf)
  exact ⟨helf, s, hs, hb, rfl⟩

theorem extractFiles_finds (A : Archives) (disk : Disk) (layer : Bytes) :
    Finds (fun x => A.Within layer → isELFFile x.content = true ∧ x.Complete A layer)
      (extractFiles A disk layer) := by
  refine .ite (fun helf => Finds.found fun _ => ⟨helf, rfl⟩) fun _ => ?_
  refine Finds.tryElse (.ite (fun hgz => ?_) fun _ => Finds.nothing) fun _ =>
    .ite (fun _ => ?_) fun _ => Finds.fail _
  · unfold extractGzip
    split
    · exact Finds.fail _
    · rename_i s hs
      exact ((extractArchive_finds (.inr hs)).mono fun _ h _ => h).tryElse fun _ =>
        extractDecompressed_finds hgz hs
  · exact Finds.orElse (.mapErr ((extractArchive_finds (.inl rfl)).mono fun _ h _ => h))
      (Finds.fail _)

theorem isELFFile_of_isGzipFile (h : isGzipFile layer = true) : isELFFile layer = false := by
  cases layer with
  | nil => rfl
  | cons a rest =>
    have ha : a = 0x1f := by
      simp only [isGzipFile, hasMagic, drop_zero, length_cons, take_succ_cons, beq_iff_eq,
        cons.injEq] at h
      exact h.1
    rw [ha]
    rfl

/-- A longer gzipped ELF file is cut, if the archive gives nothing. -/
theorem extractFiles_cut (hgz : isGzipFile layer = true) (hs : A.gunzip layer = some s)
    (helf : isELFFile s.items = true) (hlong : maxBytecodeSize ≤ s.items.length)
    (hdisk : ∀ ops, disk ops .decompressed = .fine)
    (harchive : Finds (fun _ => False) (extractArchive A disk s)) :
    (extractFiles A disk layer []).value? = some (some ⟨"extracted_bytecode.o",
      s.items.take maxBytecodeSize, .decompressed⟩) := by
  have hdec : ∀ ops, extractDecompressed disk s ops = .ok (some ⟨"extracted_bytecode.o",
      s.items.take maxBytecodeSize, .decompressed⟩)
        (ops ++ [.write "extracted_bytecode.o" (s.items.take maxBytecodeSize)]) := by
    intro ops
    simp [extractDecompressed, Extraction.orElse, bind_apply, extractTo, hdisk, copyLimited, hlong,
      isELFFile_take, helf]
  have hgzip : ∃ ops, extractGzip A disk layer [] = extractDecompressed disk s ops := by
    unfold extractGzip
    rw [hs]
    cases hrun : extractArchive A disk s [] with
    | err e ops => exact ⟨ops, by simp [Extraction.tryElse, bind_apply, attempt, hrun]⟩
    | ok r ops =>
      cases r with
      | none => exact ⟨ops, by simp [Extraction.tryElse, bind_apply, attempt, hrun]⟩
      | some x => exact ((harchive.ok (by simp) hrun).2 x rfl).elim
  obtain ⟨ops, hgzip⟩ := hgzip
  rw [hdec] at hgzip
  simp [extractFiles, isELFFile_of_isGzipFile hgz, hgz, Extraction.tryElse, bind_apply,
    attempt, hgzip, Outcome.value?]

end Files

/-- **Extraction keeps to its directory and its limit, and what it returns is complete, on every
disk, exactly when a gzipped ELF file ends within the limit.** -/
theorem extraction_exact_iff (A : Archives) (layer : Bytes) :
    (∀ disk, ∀ op ∈ (extractFiles A disk layer []).state, op.Confined) ∧
      ((∀ disk x, (extractFiles A disk layer []).value? = some (some x) →
        isELFFile x.content = true ∧ x.Complete A layer) ↔ A.Within layer) := by
  have hfinds := fun disk => extractFiles_finds A disk layer [] (by simp)
  refine ⟨fun disk => ?_, fun h hgz s hs helf => ?_, fun h disk x hx => ?_⟩
  · cases hrun : extractFiles A disk layer [] with
    | ok r ops => exact ((hfinds disk).1 r ops hrun).1
    | err e ops => exact (hfinds disk).2 e ops hrun
  · by_contra hfits
    -- the archive finds no room, the decompressed file does
    let disk : Disk := fun _ source => match source with
      | .decompressed => .fine
      | _ => .noCreate ""
    obtain ⟨-, s', hs', hb, hcontent⟩ := h disk _ (extractFiles_cut hgz hs helf
      (by unfold Stream.Fits at hfits; omega) (fun _ => rfl)
      (extractEntries_finds fun _ _ _ _ hdisk => nomatch hdisk))
    cases hs.symm.trans hs'
    exact hfits ((Nat.lt_or_eq_of_le ((take_eq_self_iff _).1 hcontent)).imp_right fun h => ⟨h, hb⟩)
  · cases hrun : extractFiles A disk layer [] with
    | ok r ops =>
      rw [hrun] at hx
      exact ((hfinds disk).1 r ops hrun).2 x (Option.some.inj hx) h
    | err e ops =>
      rw [hrun] at hx
      cases hx

/-! ## Samples -/

namespace Sample

/-- Four bytes more than the limit. -/
def longELF : Bytes := [0x7f, 0x45, 0x4c, 0x46] ++ replicate maxBytecodeSize 0

/-- Every layer decompresses to `longELF`. -/
def archives : Archives where
  toFormats := { formats with gunzip _ := some ⟨longELF, false⟩ }
  cut _ := none
  length_le := nofun
  cut_lt := nofun

end Sample

open Sample

theorem gzipped_elf_cut :
    (extractFiles archives (fun _ _ => .fine) [0x1f, 0x8b] []).value? = some (some
        ⟨"extracted_bytecode.o", longELF.take maxBytecodeSize, .decompressed⟩) ∧
      archives.gunzip [0x1f, 0x8b] = some ⟨longELF, false⟩ ∧
      longELF.take maxBytecodeSize ≠ longELF := by
  have hlen : longELF.length = maxBytecodeSize + 4 := by
    rw [longELF, length_append, length_replicate, Nat.add_comm]
    rfl
  have helf : isELFFile longELF = true := by
    unfold isELFFile hasMagic
    rw [longELF, drop_zero, take_left]
    rfl
  refine ⟨?_, rfl, fun h => ?_⟩
  · exact extractFiles_cut (s := ⟨longELF, false⟩) rfl rfl helf (hlen ▸ Nat.le_add_right _ _)
      (fun _ => rfl) (extractEntries_finds nofun)
  · have hle := (take_eq_self_iff _).1 h
    omega

end Bpfman.Image
