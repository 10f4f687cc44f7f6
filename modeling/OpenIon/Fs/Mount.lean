import OpenIon.Fs.NodePool
import OpenIon.Fs.Exfat.Volume

/-! # The mount table

Mounting, unmounting and the resolution of paths through the mount table of `fs/mod.rs`, with
the detection of `fs/detect.rs`. A path is looked up in RAMFS first; only what is not there is
answered by the mount with the longest path that leads to it. A block device is a number;
`media` is what the devices hold at the moment. RAMFS is the node pool with its counter.
-/
namespace OpenIon.Fs
open Lib Exfat

structure MountInfo where
  source : List UInt8
  path : List UInt8
  fs : ExfatFs
  dev : ℕ
  deriving DecidableEq

inductive MountError where
  | invalidTarget
  | targetBusy
  | noBlockDevice
  | unsupportedFs
  | ioTimeout
  | noSpace
  deriving DecidableEq

structure World where
  store : Store
  mounts : List (Option MountInfo)
  blocks : List ℕ
  media : ℕ → BlockDev

variable (cfg : Config)

/-- The adapters of the source: sector numbers are cut to `usize`. -/
def adapter (dev : BlockDev) : BlockDev := fun sector => dev (sector % 2 ^ cfg.w)

/-! ### Mounting -/

def validMountTarget (ramfs : Ramfs) (path : List UInt8) : Bool :=
  if path = [slash] ∨ path.getLast? = some slash then false
  else
    match splitLast path with
    | none => false
    | some (before, name) =>
      if name = [] ∨ nameMax ≤ name.length ∨ slash ∈ name then false
      else
        let parent := if before = [] then [slash] else before
        match ramfs.resolvePath parent with
        | .ok node => ramfs.nodeFileType node = .ok .directory
        | .error _ => false

def stripStart (pre text : List UInt8) : Option (List UInt8) :=
  if pre.isPrefixOf text then some (text.drop pre.length) else none

def pushDigit (value : ℕ) (b : UInt8) : Option ℕ :=
  if 0x30 ≤ b ∧ b ≤ 0x39 then
    let value := value * 10 + (b.toNat - 0x30)
    if value < 2 ^ cfg.w then some value else none
  else none

def parseBlkName (name : List UInt8) : Option ℕ :=
  match stripStart (ascii "blk") name with
  | none => none
  | some [] => none
  | some digits => digits.foldlM (pushDigit cfg) 0

def findBlockDevice (blocks : List ℕ) (devPath : List UInt8) : Option ℕ := do
  let devName ← stripStart (ascii "/dev/") devPath
  let idx ← parseBlkName cfg devName
  blocks[idx]?

def tryDetectExfat (sector0 : Sector) : Bool :=
  (sector0 510 = 0x55 ∧ sector0 511 = 0xAA) ∧
    (List.range 8).map (fun i => sector0 (3 + i)) = oemName ∧ sector0 108 ≠ 0 ∧ sector0 109 ≠ 0

def registerMount (mounts : List (Option MountInfo)) (devPath mountPath : List UInt8) (fs : ExfatFs)
    (dev : ℕ) : Except MountError Unit × List (Option MountInfo) :=
  if (findSlot (fun m => m.path = mountPath) mounts).isSome then (.error .targetBusy, mounts)
  else if none ∈ mounts then
    (.ok (), pushSlot ⟨devPath.take 63, mountPath.take 63, fs, dev⟩ mounts)
  else (.error .noSpace, mounts)

def mountFs (s : World) (devPath mountPath : List UInt8) : Except MountError Unit × World :=
  if mountPath.head? ≠ some slash ∨ 64 ≤ mountPath.length then (.error .invalidTarget, s)
  else if validMountTarget (s.store.view cfg) mountPath = false then (.error .invalidTarget, s)
  else
    match findBlockDevice cfg s.blocks devPath with
    | none => (.error .noBlockDevice, s)
    | some dev =>
      -- `detect_fs` reads block 0 of the device itself
      match s.media dev 0 with
      | none => (.error .ioTimeout, s)
      | some sector0 =>
        if tryDetectExfat sector0 = false then (.error .unsupportedFs, s)
        else
          match (Exfat.mount (adapter cfg (s.media dev))).value with
          | .error _ => (.error .unsupportedFs, s)
          | .ok fs =>
            let (result, mounts) := registerMount s.mounts devPath mountPath fs dev
            (result, { s with mounts := mounts })

def unmount (s : World) (path : List UInt8) : Bool × World :=
  ((findSlot (fun m => m.path = path) s.mounts).isSome,
    { s with mounts := removeSlot (fun m => m.path = path) s.mounts })

/-! ### Lookup -/

structure MountLookup where
  fs : ExfatFs
  pathLen : ℕ
  dev : ℕ

/-- The path is the mount point or below it. -/
def leadsTo (mp path : List UInt8) : Bool :=
  path = mp ∨ (mp.isPrefixOf path ∧ path[mp.length]? = some slash)

/-- One turn of the loop of `find_mount_for_path`. -/
def better (path : List UInt8) (best : Option MountLookup × ℕ) (m : MountInfo) :
    Option MountLookup × ℕ :=
  if leadsTo m.path path ∧ best.2 < m.path.length then
    (some ⟨m.fs, m.path.length, m.dev⟩, m.path.length)
  else best

def findMountForPath (mounts : List (Option MountInfo)) (path : List UInt8) : Option MountLookup :=
  (mounts.reduceOption.foldl (better path) (none, 0)).1

def trimStart (path : List UInt8) : List UInt8 := path.dropWhile (· == slash)

def FileType.ofEntry (e : ExfatEntry) : FileType := if e.isDir then .directory else .file

/-- What `list_path` tells of an entry: its name is cut to the size of the array. -/
def DirEntry.ofEntry (e : ExfatEntry) (fileType : FileType) : DirEntry :=
  ⟨e.name.take (nameMax - 1), fileType⟩

/-- The part of `path_file_type` that asks the volume for a relative path. -/
def volumeFileType (fs : ExfatFs) (dev : BlockDev) (fuel : ℕ) (rel : List UInt8) :
    Except Stop (Option FileType) :=
  match (fs.findEntry dev fuel rel).value with
  | .error e => .error e
  | .ok found => .ok (found.map FileType.ofEntry)

def reportedEntries (log : List Event) : List DirEntry :=
  log.filterMap fun e =>
    match e with
    | .entry d => some (DirEntry.ofEntry d (.ofEntry d))
    | _ => none

/-- The part of `list_path` that asks the volume for a relative path. -/
def volumeList (fs : ExfatFs) (dev : BlockDev) (fuel : ℕ) (rel : List UInt8) :
    Logged DirEntry Stop (Option ℕ) :=
  match (fs.findEntry dev fuel rel).value with
  | .error e => Logged.fail e
  | .ok none => pure none
  | .ok (some entry) =>
    if entry.isDir then do
      let listing := fs.listEntryDir dev fuel entry
      Logged.tellAll (reportedEntries listing.log)
      match listing.value with
      | .error .fuel => Logged.fail .fuel
      | _ => pure (some (reportedEntries listing.log).length)
    else do
      Logged.tell (DirEntry.ofEntry entry .file)
      pure (some 1)

namespace World

variable (s : World) (fuel : ℕ) (path : List UInt8)

def pathFileType : Except Stop (Option FileType) :=
  match (s.store.view cfg).resolvePath path with
  | .ok node =>
    match (s.store.view cfg).nodeFileType node with
    | .ok t => .ok (some t)
    | .error _ => .ok none
  | .error _ =>
    match findMountForPath s.mounts path with
    | none => .ok none
    | some m =>
      volumeFileType m.fs (adapter cfg (s.media m.dev)) fuel (trimStart (path.drop m.pathLen))

def listPath : Logged DirEntry Stop (Option ℕ) :=
  match findMountForPath s.mounts path with
  | none => pure none
  | some m =>
    volumeList m.fs (adapter cfg (s.media m.dev)) fuel (trimStart (path.drop m.pathLen))

/-- The mount points whose parent is the path, in the order of the table. -/
def listMountChildren : List DirEntry :=
  s.mounts.reduceOption.filterMap fun m =>
    match splitLast m.path with
    | none => none
    | some (before, name) =>
      if (if before = [] then [slash] else before) = path then
        some ⟨name.take (nameMax - 1), .directory⟩
      else none

/-- `list_directory_entries` of the shell. -/
def listDirectoryEntries : Logged DirEntry Stop (Option ℕ) :=
  match (s.store.view cfg).resolvePath path with
  | .ok node => do
    let entries := (s.store.view cfg).listDir node ++ s.listMountChildren path
    Logged.tellAll entries
    pure (some entries.length)
  | .error _ => s.listPath cfg fuel path

end World

/-! ### Steps -/

inductive Action where
  | createFile (dir : ℕ) (name : List UInt8)
  | createDir (dir : ℕ) (name : List UInt8)
  | writeFile (file : ℕ) (data : List UInt8)
  | mount (source target : List UInt8)
  | unmount (target : List UInt8)
  /-- The block devices that are registered change. -/
  | setBlocks (blocks : List ℕ)
  /-- A device changes its content. -/
  | setMedia (media : ℕ → BlockDev)

def step (s : World) : Action → Option World
  | .createFile dir name => some { s with store := (s.store.createFile cfg dir name).2 }
  | .createDir dir name => some { s with store := (s.store.createDir cfg dir name).2 }
  | .writeFile file data => some { s with store := (s.store.writeFile cfg file data).2 }
  | .mount source target => some (mountFs cfg s source target).2
  | .unmount target => some (unmount s target).2
  | .setBlocks blocks => some { s with blocks := blocks }
  | .setMedia media => some { s with media := media }

/-- `uninit` is what the storage of the nodes holds before `init`. -/
def boot (uninit : ℕ → Vnode) (blocks : List ℕ) (media : ℕ → BlockDev) : World :=
  ⟨(Store.empty uninit).init cfg, List.replicate 4 none, blocks, media⟩

end OpenIon.Fs
