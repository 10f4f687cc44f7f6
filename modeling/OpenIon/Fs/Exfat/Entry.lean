import Mathlib.Data.List.Basic
import Mathlib.Algebra.Group.Nat.Defs

/-! # The directory entries of an exFAT volume

The 32-byte entries of `fs/exfat.rs` and the loop that turns the entries of one buffer
into files: a file entry, its stream entry and the name entries after them.
-/
namespace OpenIon.Fs.Exfat

def leU16 (buf : ℕ → UInt8) (offset : ℕ) : ℕ :=
  (buf offset).toNat + (buf (offset + 1)).toNat * 2 ^ 8

def leU32 (buf : ℕ → UInt8) (offset : ℕ) : UInt32 :=
  UInt32.ofNat (leU16 buf offset + leU16 buf (offset + 2) * 2 ^ 16)

def leU64 (buf : ℕ → UInt8) (offset : ℕ) : UInt64 :=
  UInt64.ofNat ((leU32 buf offset).toNat + (leU32 buf (offset + 4)).toNat * 2 ^ 32)

def entryTypeUnused : UInt8 := 0x00
def entryTypeFile : UInt8 := 0x85
def entryTypeStream : UInt8 := 0xC0
def entryTypeName : UInt8 := 0xC1
def entryTypeVolumeLabel : UInt8 := 0x83
def streamFlagNoFatChain : UInt8 := 0x02
def attrDirectory : ℕ := 0x10

structure DirEntry where
  entryType : UInt8
  data : ℕ → UInt8

namespace DirEntry

/-- `DirEntry::parse` for an index inside the buffer. -/
def parse (buf : ℕ → UInt8) (idx : ℕ) : DirEntry :=
  let start := idx * 32
  ⟨buf start, fun k => if k < 31 then buf (start + 1 + k) else 0⟩

-- offsets count from the start of the entry, `data` starts after the type byte
def u16At (e : DirEntry) (offset : ℕ) : ℕ := leU16 e.data (offset - 1)

def u32At (e : DirEntry) (offset : ℕ) : UInt32 := leU32 e.data (offset - 1)

def u64At (e : DirEntry) (offset : ℕ) : UInt64 := leU64 e.data (offset - 1)

end DirEntry

/-- `name` is the first `name_len` bytes of the array of the source; the others are zero. -/
structure ExfatEntry where
  name : List UInt8
  firstCluster : UInt32
  dataLength : UInt64
  isDir : Bool
  attributes : ℕ
  noFatChain : Bool
  deriving DecidableEq

/-- A non-zero character is added while there is room, as `'?'` when it is not ASCII. -/
def addChar (nameLen : ℕ) (name : List UInt8) (ch : ℕ) : List UInt8 :=
  if ch ≠ 0 ∧ name.length < nameLen then
    name ++ [if ch < 128 then UInt8.ofNat ch else 0x3F]
  else name

def DirEntry.chars (e : DirEntry) : List ℕ := (List.range 15).map fun k => e.u16At (2 + k * 2)

def addChars (nameLen : ℕ) (e : DirEntry) (name : List UInt8) : List UInt8 :=
  e.chars.foldl (addChar nameLen) name

/-- The loop over `j`: the name, and how many entries it was read from. -/
def collectName (nameLen : ℕ) : List DirEntry → List UInt8 → List UInt8 × ℕ
  | [], name => (name, 0)
  | e :: entries, name =>
    if name.length < nameLen ∧ e.entryType = entryTypeName then
      let (name', used) := collectName nameLen entries (addChars nameLen e name)
      (name', used + 1)
    else (name, 0)

/-- What is reported for a file entry, its stream entry and the entries after them. -/
def fileEntry (file stream : DirEntry) (names : List DirEntry) : ExfatEntry where
  name := (collectName (stream.data 2).toNat names []).1
  firstCluster := stream.u32At 20
  dataLength := stream.u64At 24
  isDir := file.u16At 4 &&& attrDirectory ≠ 0
  attributes := file.u16At 4
  noFatChain := stream.data 0 &&& streamFlagNoFatChain ≠ 0

/-- The loop over the entries of one buffer. The index `i` is `skip` entries further on. -/
def parseEntries : List DirEntry → ℕ → List ExfatEntry
  | [], _ => []
  | _ :: entries, skip + 1 => parseEntries entries skip
  | e :: entries, 0 =>
    if e.entryType = entryTypeUnused then []
    else if e.entryType = entryTypeVolumeLabel then parseEntries entries 0
    else if e.entryType = entryTypeFile then
      match entries with
      | [] => []
      | stream :: names =>
        if stream.entryType ≠ entryTypeStream then parseEntries entries 0
        else
          fileEntry e stream names ::
            parseEntries entries (1 + (collectName (stream.data 2).toNat names []).2)
    else parseEntries entries 0

end OpenIon.Fs.Exfat
