import OpenIon.Lib.While
import OpenIon.Fs.Path
import OpenIon.Fs.Exfat.Entry

/-! # Reading an exFAT volume

The driver of `fs/exfat.rs`: mounting, the cluster chains, the listing of a directory,
the search for a path and the contents of files. Every computation records the clusters
and sectors it reads, the sums that overflow (they wrap) and the calls of the callback.
The loops over clusters follow numbers from the medium, so they are bounded by fuel.
Text is the list of its bytes.
-/
namespace OpenIon.Fs.Exfat
open Lib

/-- The 512 bytes of a sector. -/
abbrev Sector := ℕ → UInt8

/-- The content of a block device: `read_sector`, which may fail. -/
abbrev BlockDev := ℕ → Option Sector

inductive Event where
  | cluster (c : UInt32)
  | sector (n : ℕ)
  | overflow
  | entry (e : ExfatEntry)
  deriving DecidableEq

inductive Stop where
  | err
  | fuel
  deriving DecidableEq

abbrev Io := Logged Event Stop

def readSector (dev : BlockDev) (n : ℕ) : Io Sector := do
  Logged.tell (.sector n)
  match dev n with
  | some sector => pure sector
  | none => Logged.fail .err

/-- The result of a sum of `w`-bit words. -/
def wrapping (w n : ℕ) : Io ℕ := do
  if 2 ^ w ≤ n then Logged.tell .overflow
  pure (n % 2 ^ w)

structure BootSector where
  oem : List UInt8
  volumeLength : UInt64
  fatOffset : UInt32
  fatLength : UInt32
  clusterHeapOffset : UInt32
  clusterCount : UInt32
  rootDirFirstCluster : UInt32
  bytesPerSectorShift : UInt8
  sectorsPerClusterShift : UInt8
  numberOfFats : UInt8
  bootSignature : ℕ

def BootSector.parse (sector : Sector) : BootSector where
  oem := (List.range 8).map fun i => sector (3 + i)
  volumeLength := leU64 sector 72
  fatOffset := leU32 sector 80
  fatLength := leU32 sector 84
  clusterHeapOffset := leU32 sector 88
  clusterCount := leU32 sector 92
  rootDirFirstCluster := leU32 sector 96
  bytesPerSectorShift := sector 108
  sectorsPerClusterShift := sector 109
  numberOfFats := sector 110
  bootSignature := leU16 sector 510

def oemName : List UInt8 := ascii "EXFAT   "

structure ExfatFs where
  bytesPerSector : ℕ
  sectorsPerCluster : ℕ
  clusterHeapOffset : UInt32
  fatOffset : UInt32
  rootDirFirstCluster : UInt32
  clusterCount : UInt32
  deriving DecidableEq

/-- The checks of `mount` before the one that adds; each returns an error when it fails. -/
def BootSector.acceptable (boot : BootSector) : Bool :=
  boot.oem = oemName ∧ boot.bootSignature = 0xAA55 ∧
  (9 ≤ boot.bytesPerSectorShift ∧ boot.bytesPerSectorShift ≤ 12) ∧
  boot.sectorsPerClusterShift ≤ 25 ∧
  2 ^ boot.bytesPerSectorShift.toNat = 512 ∧
  2 ^ boot.sectorsPerClusterShift.toNat ≠ 0 ∧
  min (2 ^ boot.bytesPerSectorShift.toNat * 2 ^ boot.sectorsPerClusterShift.toNat) (2 ^ 32 - 1) ≤
    4096 ∧
  boot.volumeLength ≠ 0 ∧ boot.numberOfFats ≠ 0 ∧ boot.fatOffset ≠ 0 ∧ boot.fatLength ≠ 0 ∧
  boot.clusterHeapOffset ≠ 0 ∧ boot.clusterCount ≠ 0 ∧ 2 ≤ boot.rootDirFirstCluster

def BootSector.volume (boot : BootSector) : ExfatFs where
  bytesPerSector := 2 ^ boot.bytesPerSectorShift.toNat
  sectorsPerCluster := 2 ^ boot.sectorsPerClusterShift.toNat
  clusterHeapOffset := boot.clusterHeapOffset
  fatOffset := boot.fatOffset
  rootDirFirstCluster := boot.rootDirFirstCluster
  clusterCount := boot.clusterCount

def mount (dev : BlockDev) : Io ExfatFs := do
  let sector0 ← readSector dev 0
  let boot := BootSector.parse sector0
  if boot.acceptable then
    let limit ← wrapping 32 (boot.clusterCount.toNat + 2)
    if limit ≤ boot.rootDirFirstCluster.toNat then Logged.fail .err else pure boot.volume
  else Logged.fail .err

def divCeil (n d : ℕ) : ℕ := if n % d > 0 then n / d + 1 else n / d

namespace ExfatFs

variable (fs : ExfatFs) (dev : BlockDev)

def bytesPerCluster : ℕ := fs.bytesPerSector * fs.sectorsPerCluster

def clusterToSector (cluster : UInt32) : ℕ :=
  if cluster < 2 then 0
  else fs.clusterHeapOffset.toNat + (cluster.toNat - 2) * fs.sectorsPerCluster

/-- The loop of `read_cluster`: `n` more sectors from the `i`-th on, into a buffer of `len`
bytes. -/
def readSectors (start len : ℕ) : ℕ → ℕ → Io (List Sector)
  | _, 0 => pure []
  | i, n + 1 =>
    if len < i * fs.bytesPerSector + fs.bytesPerSector then pure []
    else do
      let sector ← wrapping 64 (start + i)
      let data ← readSector dev sector
      let rest ← readSectors start len (i + 1) n
      pure (data :: rest)

def readCluster (cluster : UInt32) : Io (ℕ → UInt8) := do
  Logged.tell (.cluster cluster)
  let start ← wrapping 64 (fs.clusterToSector cluster)
  let sectors ← fs.readSectors dev start (min fs.bytesPerCluster 4096) 0 fs.sectorsPerCluster
  pure fun k => sectors.getD (k / fs.bytesPerSector) (fun _ => 0) (k % fs.bytesPerSector)

def nextCluster (cluster : UInt32) : Io UInt32 := do
  let fatSector ← wrapping 32 (fs.fatOffset.toNat + cluster.toNat / (fs.bytesPerSector / 4))
  let fatIndex := cluster.toNat % (fs.bytesPerSector / 4)
  let sectorBuf ← readSector dev fatSector
  let next := leU32 sectorBuf (fatIndex * 4)
  pure (if 0xFFFFFFF8 ≤ next then 0 else next)

def nextClusterForEntry (entry : ExfatEntry) (cluster : UInt32) : Io UInt32 :=
  if entry.noFatChain then
    let clusters := max (divCeil entry.dataLength.toNat fs.bytesPerCluster) 1
    let offset := cluster.toNat - entry.firstCluster.toNat
    if clusters ≤ offset + 1 then pure 0
    else do
      let next ← wrapping 32 (cluster.toNat + 1)
      pure (UInt32.ofNat next)
  else fs.nextCluster dev cluster

/-! ### Directories -/

def dirEntries (buf : ℕ → UInt8) : List DirEntry :=
  (List.range (min fs.bytesPerCluster 4096 / 32)).map (DirEntry.parse buf)

/-- One turn of the loop of `list_entry_dir`. -/
def listTurn (dir : ExfatEntry) (cluster : UInt32) : Io UInt32 := do
  let buf ← fs.readCluster dev cluster
  Logged.tellAll ((parseEntries (fs.dirEntries buf) 0).map Event.entry)
  fs.nextClusterForEntry dev dir cluster

def listEntryDir (fuel : ℕ) (dir : ExfatEntry) : Io Unit := do
  let _ ← loop .fuel (· != 0) (fs.listTurn dev dir) fuel dir.firstCluster
  pure ()

/-- The entry that stands for the directory at a cluster, such as the root. -/
def dirAt (firstCluster : UInt32) : ExfatEntry where
  name := []
  firstCluster := firstCluster
  dataLength := 0
  isDir := true
  attributes := attrDirectory
  noFatChain := false

def listDir (fuel : ℕ) (startCluster : UInt32) : Io Unit :=
  fs.listEntryDir dev fuel (dirAt startCluster)

/-! ### Paths -/

def trimSlashes (path : List UInt8) : List UInt8 :=
  ((path.dropWhile (· == slash)).reverse.dropWhile (· == slash)).reverse

/-- The first eight of the parts of a path that are not empty. -/
def components (path : List UInt8) : List (List UInt8) :=
  (parts path).take 8

/-- What the callback of `find_entry` keeps: the last entry of that name. Names are ASCII, so
they are always valid text. -/
def lastNamed (component : List UInt8) (log : List Event) : Option ExfatEntry :=
  log.foldl (fun found e =>
    match e with
    | .entry entry => if entry.name = component then some entry else found
    | _ => found) none

def lookup (fuel : ℕ) (dir : ExfatEntry) (component : List UInt8) : Io (Option ExfatEntry) :=
  let listing := fs.listEntryDir dev fuel dir
  match listing.value with
  | .error .fuel => ⟨.error .fuel, listing.log⟩
  | _ => ⟨.ok (lastNamed component listing.log), listing.log⟩

def follow (fuel : ℕ) : List (List UInt8) → ExfatEntry → Io (Option ExfatEntry)
  | [], current => pure (some current)
  | component :: rest, current => do
    let found ← fs.lookup dev fuel current component
    match found with
    | some entry => if entry.isDir then follow fuel rest entry else pure (some entry)
    | none => pure none

def findEntry (fuel : ℕ) (path : List UInt8) : Io (Option ExfatEntry) :=
  let path := trimSlashes path
  if path = [] then pure (some (dirAt fs.rootDirFirstCluster))
  else fs.follow dev fuel (components path) (dirAt fs.rootDirFirstCluster)

/-! ### Files -/

/-- The bytes of the file so far; their number is `offset`. -/
structure Reading where
  cluster : UInt32
  out : List UInt8

def unread (targetLen : ℕ) (r : Reading) : Bool :=
  r.cluster != 0 && decide (r.out.length < targetLen)

/-- One turn of the loop of `read_file`. -/
def readTurn (chainEntry : ExfatEntry) (targetLen : ℕ) (r : Reading) : Io Reading := do
  let readLen := min fs.bytesPerCluster (targetLen - r.out.length)
  let buf ← fs.readCluster dev r.cluster
  let cluster ← fs.nextClusterForEntry dev chainEntry r.cluster
  pure ⟨cluster, r.out ++ (List.range readLen).map buf⟩

/-- `read_file` into a buffer of `bufLen` bytes on a target with `w`-bit `usize`. -/
def readFile (w fuel : ℕ) (startCluster : UInt32) (dataLength : UInt64) (noFatChain : Bool)
    (bufLen : ℕ) : Io (List UInt8) := do
  let targetLen := min (dataLength.toNat % 2 ^ w) bufLen
  let chainEntry : ExfatEntry :=
    ⟨[], startCluster, dataLength, false, 0, noFatChain⟩
  let r ← loop .fuel (unread targetLen) (fs.readTurn dev chainEntry targetLen) fuel
    ⟨startCluster, []⟩
  pure r.out

end ExfatFs

end OpenIon.Fs.Exfat
