import Bpfman.Image.Registry
import Bpfman.Lib.Path

/-!
# Bytecode extraction

A layer is an ELF file, a gzipped tar archive, a gzipped ELF file or a plain tar archive; the
first object file found in it is the bytecode of the image. What is extracted depends on the bytes
of the layer alone.
-/

namespace Bpfman.Image

/-- ELF machine type for eBPF. -/
def elfMachineBPF : Nat := 247

/-- Maximum size of a BPF object file. -/
def maxBytecodeSize : Nat := 16 * 1024 * 1024

/-- Whether the bytes at `offset` are `magic`. -/
def hasMagic (offset : Nat) (magic content : Bytes) : Bool :=
  (content.drop offset).take magic.length == magic

def isELFFile (content : Bytes) : Bool := hasMagic 0 [0x7f, 0x45, 0x4c, 0x46] content

def isGzipFile (content : Bytes) : Bool := hasMagic 0 [0x1f, 0x8b] content

/-- The `ustar` magic at offset 257. -/
def isTarFile (content : Bytes) : Bool := hasMagic 257 [0x75, 0x73, 0x74, 0x61, 0x72] content

/-- Copy a stream through a reader limited to `maxBytecodeSize` bytes. A stream that breaks off
behind the limit is not noticed. -/
def copyLimited (s : Stream UInt8) : Except String Bytes :=
  if maxBytecodeSize ≤ s.items.length then .ok (s.items.take maxBytecodeSize)
  else if s.broken then .error "unexpected EOF"
  else .ok s.items

/-- The first object file of an archive that is an ELF file, `none` if it has none. -/
def extractFromTarEntries : List TarEntry → Bool → Except String (Option Bytes)
  | [], broken => if broken then .error "failed to read tar entry" else .ok none
  | e :: rest, broken =>
    if ¬ e.name.endsWith ".o" then extractFromTarEntries rest broken
    else if (Path.clean e.name).startsWith ".." then
      .error s!"archive entry has invalid path: {e.name}"
    else if maxBytecodeSize < e.size then
      .error s!"archive entry {e.name} is too large: {e.size} bytes"
    else if isELFFile (e.content.take maxBytecodeSize) then
      .ok (some (e.content.take maxBytecodeSize))
    else extractFromTarEntries rest broken

def extractFromTarReader (s : Stream TarEntry) : Except String (Option Bytes) :=
  extractFromTarEntries s.items s.broken

variable (F : Formats)

def extractFromTar (content : Bytes) : Except String (Option Bytes) :=
  extractFromTarReader (F.untar ⟨content, false⟩)

def extractFromTarGz (content : Bytes) : Except String (Option Bytes) :=
  match F.gunzip content with
  | none => .error "failed to create gzip reader"
  | some s => extractFromTarReader (F.untar s)

def extractGzippedELF (content : Bytes) : Except String Bytes :=
  match F.gunzip content with
  | none => .error "failed to create gzip reader"
  | some s => do
    let out ← copyLimited s
    if isELFFile out then return out
    else throw "decompressed content is not an ELF file"

/-- The attempts on a gzipped file: an archive first, then a single ELF file. -/
def extractFromGzip (name : String) (content : Bytes) : Except String Bytes :=
  match extractFromTarGz F content with
  | .ok (some out) => .ok out
  | _ => (extractGzippedELF F content).mapError fun e => s!"extract {name}: {e}"

/-- Scan the files of a directory for bytecode; `lastErr` is the last reason why a gzipped file was
passed over. -/
def extractBytecodeFrom (F : Formats) : List (String × Bytes) → Option String → Except String Bytes
  | [], none => .error "no BPF bytecode (.o file) found in image"
  | [], some e => .error s!"no BPF bytecode (.o file) found in image: {e}"
  | (name, content) :: rest, lastErr =>
    if isELFFile content then .ok content
    else
      match if isGzipFile content then some (extractFromGzip F name content) else none with
      | some (.ok out) => .ok out
      | gz =>
        let lastErr := match gz with
          | some (.error e) => some e
          | _ => lastErr
        if isTarFile content then
          match extractFromTar F content with
          | .error e => .error s!"failed to extract archive {name}: {e}"
          | .ok (some out) => .ok out
          | .ok none => extractBytecodeFrom F rest lastErr
        else extractBytecodeFrom F rest lastErr

/-- The bytecode in a directory that holds the given files. -/
def extractBytecode (dir : List (String × Bytes)) : Except String Bytes :=
  extractBytecodeFrom F dir none

/-- Check that a file is a relocatable eBPF object of the host's byte order. -/
def validateELF (hostBigEndian : Bool) (content : Bytes) : Except String Unit :=
  match F.parseElf content with
  | none => .error "invalid ELF file"
  | some h =>
    if h.machine ≠ elfMachineBPF then
      .error s!"not a BPF ELF file: machine type is {h.machine}, expected eBPF (247)"
    else if h.bigEndian ≠ hostBigEndian then .error "ELF endianness mismatch"
    else if ¬ h.relocatable then .error "not a relocatable ELF file: expected ET_REL"
    else .ok ()

end Bpfman.Image
