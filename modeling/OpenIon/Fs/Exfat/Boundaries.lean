import OpenIon.Fs.Exfat.EntrySets
import OpenIon.Fs.Exfat.Mounted

/-! # Directories over several clusters

The listing of a directory stored along a chain of clusters reports, cluster by cluster, the
sets of the entries of that cluster alone. It agrees with the parse of the whole directory
exactly when every set fits into its cluster.
-/
namespace OpenIon.Fs.Exfat
open Lib

def reported (log : List Event) : List ExfatEntry :=
  log.filterMap fun e => match e with | .entry d => some d | _ => none

def Silent {α : Type} (x : Io α) : Prop := reported x.log = []

variable {α β : Type} {x : Io α} {f : α → Io β}

theorem reported_append (a b : List Event) : reported (a ++ b) = reported a ++ reported b :=
  List.filterMap_append

theorem reported_map_entry (es : List ExfatEntry) : reported (es.map Event.entry) = es := by
  simp [reported, List.filterMap_map]

theorem reported_bind_ok {a : α} (h : x.value = .ok a) :
    reported (x >>= f).log = reported x.log ++ reported (f a).log := by
  rw [Logged.log_bind_ok h, reported_append]

theorem Silent.bind (hx : Silent x) (hf : ∀ a, Silent (f a)) : Silent (x >>= f) := by
  unfold Silent at *
  cases h : x.value with
  | error e => rw [Logged.log_bind_error h, hx]
  | ok a => rw [reported_bind_ok h, hx, hf a]; rfl

theorem silent_wrapping (w n : ℕ) : Silent (wrapping w n) := by
  unfold wrapping Silent
  split_ifs <;> rfl

theorem silent_readSector (dev : BlockDev) (n : ℕ) : Silent (readSector dev n) := by
  unfold readSector
  refine Silent.bind rfl fun _ => ?_
  cases dev n <;> rfl

namespace ExfatFs

variable {fs : ExfatFs} {dev : BlockDev} {dir : ExfatEntry} {c next : UInt32} {n : ℕ}

theorem silent_readSectors (start len i : ℕ) : Silent (fs.readSectors dev start len i n) := by
  induction n generalizing i with
  | zero => rfl
  | succ n ih =>
    unfold readSectors
    split_ifs
    · rfl
    · exact (silent_wrapping 64 _).bind fun _ => (silent_readSector dev _).bind fun _ =>
        (ih (i + 1)).bind fun _ => rfl

theorem silent_readCluster : Silent (fs.readCluster dev c) :=
  Silent.bind rfl fun _ => (silent_wrapping 64 _).bind fun _ =>
    (silent_readSectors _ _ 0).bind fun _ => rfl

theorem silent_nextClusterForEntry : Silent (fs.nextClusterForEntry dev dir c) := by
  unfold nextClusterForEntry
  split
  · dsimp only
    split
    · rfl
    · exact (silent_wrapping 32 _).bind fun _ => rfl
  · exact (silent_wrapping 32 _).bind fun _ => (silent_readSector dev _).bind fun _ => rfl

/-! ### Clusters of entries -/

def entriesPerCluster (fs : ExfatFs) : ℕ := fs.bytesPerCluster / 32

/-- The sectors of the cluster hold these entries, sixteen to a sector. -/
structure Holds (fs : ExfatFs) (dev : BlockDev) (c : UInt32) (chunk : List DirEntry) : Prop where
  length : chunk.length = fs.entriesPerCluster
  entry : ∀ p e, chunk[p]? = some e →
    ∃ s, dev (fs.clusterToSector c + p / 16) = some s ∧ DirEntry.parse s (p % 16) = e

theorem Geometry.entriesPerCluster (hfs : fs.Geometry) :
    fs.entriesPerCluster = 16 * fs.sectorsPerCluster := by
  rw [ExfatFs.entriesPerCluster, hfs.bytesPerCluster]
  omega

theorem Geometry.parse_buf (hfs : fs.Geometry) {buf : ℕ → UInt8} {s : Sector} {p : ℕ}
    (h : (fs.readCluster dev c).value = .ok buf) (hp : p < 16 * fs.sectorsPerCluster)
    (hs : dev (fs.clusterToSector c + p / 16) = some s) :
    DirEntry.parse buf p = DirEntry.parse s (p % 16) := by
  have hbyte : ∀ k < 32, buf (p * 32 + k) = s (p % 16 * 32 + k) := by
    intro k hk
    rw [← hfs.readCluster_bytes h (i := p / 16) (by omega) hs (m := p % 16 * 32 + k) (by omega)]
    congr 1
    omega
  simp only [DirEntry.parse, DirEntry.mk.injEq]
  constructor
  · exact hbyte 0 (by omega)
  · funext k
    split_ifs with hk
    · rw [Nat.add_assoc, hbyte (1 + k) (by omega), Nat.add_assoc]
    · rfl

theorem Holds.read {chunk : List DirEntry} (h : fs.Holds dev c chunk) (hfs : fs.Geometry) :
    ∃ buf, (fs.readCluster dev c).value = .ok buf ∧ fs.dirEntries buf = chunk := by
  have hlength := h.length.trans hfs.entriesPerCluster
  have hread : fs.Readable dev c := by
    intro i hi
    obtain ⟨s, hs, -⟩ := h.entry (16 * i) _ (List.getElem?_eq_getElem (by omega))
    rw [show 16 * i / 16 = i by omega] at hs
    simp [hs]
  obtain ⟨buf, hbuf⟩ := hfs.readCluster_ok.mpr hread
  have hcount : min fs.bytesPerCluster 4096 / 32 = 16 * fs.sectorsPerCluster := by
    have := hfs.le
    rw [hfs.bytesPerCluster]
    omega
  refine ⟨buf, hbuf, ?_⟩
  unfold dirEntries
  rw [hcount]
  apply List.ext_getElem?
  intro p
  by_cases hp : p < 16 * fs.sectorsPerCluster
  · obtain ⟨s, hs, hparse⟩ := h.entry p _ (List.getElem?_eq_getElem (by omega))
    rw [List.getElem?_eq_getElem (by omega : p < chunk.length), List.getElem?_map,
      List.getElem?_range hp, Option.map_some, hfs.parse_buf hbuf hp hs, hparse]
  · rw [List.getElem?_eq_none (by simpa using hp), List.getElem?_eq_none (by omega)]

/-- The chain of the directory from cluster `c` on holds these entries, cluster by cluster. -/
inductive Stored (fs : ExfatFs) (dev : BlockDev) (dir : ExfatEntry) :
    UInt32 → List (List DirEntry) → Prop
  | nil : Stored fs dev dir 0 []
  | cons {c next : UInt32} {chunk : List DirEntry} {chunks : List (List DirEntry)} (hc : c ≠ 0)
      (hchunk : fs.Holds dev c chunk)
      (hnext : (fs.nextClusterForEntry dev dir c).value = .ok next)
      (hrest : Stored fs dev dir next chunks) : Stored fs dev dir c (chunk :: chunks)

theorem Stored.loop {chunks : List (List DirEntry)} (h : fs.Stored dev dir c chunks)
    (hfs : fs.Geometry) :
    (loop .fuel (· != 0) (fs.listTurn dev dir) (chunks.length + 1) c).value = .ok 0 ∧
      reported (loop .fuel (· != 0) (fs.listTurn dev dir) (chunks.length + 1) c).log =
        chunks.flatMap (parseEntries · 0) := by
  induction h with
  | nil => exact ⟨rfl, rfl⟩
  | @cons c next chunk chunks hc hchunk hnext hrest ih =>
    obtain ⟨buf, hbuf, rfl⟩ := hchunk.read hfs
    have hturn : (fs.listTurn dev dir c).value = .ok next ∧
        reported (fs.listTurn dev dir c).log = parseEntries (fs.dirEntries buf) 0 := by
      unfold listTurn
      constructor
      · rw [Logged.value_bind_ok hbuf, Logged.value_bind_ok (Logged.value_tellAll _), hnext]
      · rw [reported_bind_ok hbuf, reported_bind_ok (Logged.value_tellAll _), silent_readCluster,
          silent_nextClusterForEntry, Logged.log_tellAll, reported_map_entry, List.append_nil,
          List.nil_append]
    rw [List.length_cons, loop_more (by simpa using hc), Logged.value_bind_ok hturn.1,
      reported_bind_ok hturn.1, hturn.2, ih.2, List.flatMap_cons]
    exact ⟨ih.1, rfl⟩

theorem Stored.length_chunk {chunks : List (List DirEntry)} (h : fs.Stored dev dir c chunks) :
    ∀ chunk ∈ chunks, chunk.length = fs.entriesPerCluster := by
  induction h with
  | nil => simp
  | cons hc hchunk hnext hrest ih =>
    rw [List.forall_mem_cons]
    exact ⟨hchunk.length, ih⟩

theorem Stored.listEntryDir {chunks : List (List DirEntry)} {fuel : ℕ}
    (h : fs.Stored dev dir dir.firstCluster chunks) (hfs : fs.Geometry)
    (hfuel : chunks.length < fuel) :
    (fs.listEntryDir dev fuel dir).value = .ok () ∧
      reported (fs.listEntryDir dev fuel dir).log = chunks.flatMap (parseEntries · 0) := by
  obtain ⟨hvalue, hlog⟩ := h.loop hfs
  have henough := loop_of_le (by rw [hvalue]; simp) hfuel
  unfold ExfatFs.listEntryDir
  rw [henough, Logged.value_bind_ok hvalue, reported_bind_ok hvalue, hlog]
  exact ⟨rfl, List.append_nil _⟩

end ExfatFs

/-- The listing of a directory on a mounted volume succeeds, and it reports the sets that the parse
of the whole directory as one array gives exactly when every set fits into its cluster. -/
theorem listing_eq_whole_iff {dev : BlockDev} {fs : ExfatFs} {dir : ExfatEntry}
    {chunks : List (List DirEntry)} {fuel : ℕ} (hmount : (mount dev).value = .ok fs)
    (hstored : fs.Stored dev dir dir.firstCluster chunks) (hend : Ended chunks.flatten)
    (hfuel : chunks.length < fuel) :
    (fs.listEntryDir dev fuel dir).value = .ok () ∧
      (reported (fs.listEntryDir dev fuel dir).log = parseEntries chunks.flatten 0 ↔
        SetsFit fs.entriesPerCluster chunks.flatten) := by
  obtain ⟨hvalue, hlog⟩ := hstored.listEntryDir (mount_geometry hmount) hfuel
  rw [hlog]
  exact ⟨hvalue, (flatMap_parseEntries_iff hstored.length_chunk hend).2⟩

/-! ### One set in two clusters -/

/-- The bytes of a directory of volume labels with the set of a file `a` from entry `start` on. -/
def setByte (start entry k : ℕ) : UInt8 :=
  if entry < start then if k = 0 then entryTypeVolumeLabel else 0
  else if entry = start then if k = 0 then entryTypeFile else 0
  else if entry = start + 1 then
    match k with
    | 0 => entryTypeStream
    | 3 => 1
    | 20 => 5
    | _ => 0
  else if entry = start + 2 then
    match k with
    | 0 => entryTypeName
    | 2 => 0x61
    | _ => 0
  else 0

def setSector (start i : ℕ) : Sector := fun k => setByte start (i * 16 + k / 32) (k % 32)

/-- A volume of two clusters of one sector, both of the root directory. -/
def twoClusters (start : ℕ) : BlockDev
  | 0 => some (bootImage 4 [2] 0)
  | 1 => some (sectorOf [(8, [3]), (12, [0xFF, 0xFF, 0xFF, 0xFF])])
  | 2 => some (setSector start 0)
  | 3 => some (setSector start 1)
  | _ => none

def twoClustersFs : ExfatFs := (BootSector.parse (bootImage 4 [2] 0)).volume

def twoChunks (start : ℕ) : List (List DirEntry) :=
  [(List.range 16).map (DirEntry.parse (setSector start 0)),
    (List.range 16).map (DirEntry.parse (setSector start 1))]

theorem mount_twoClusters (start : ℕ) :
    (mount (twoClusters start)).value = .ok twoClustersFs :=
  mount_eq_ok.mpr ⟨bootImage 4 [2] 0, rfl, by decide +kernel, by decide +kernel, rfl⟩

theorem ExfatFs.Geometry.holds_sector {fs : ExfatFs} {dev : BlockDev} {c : UInt32} {s : Sector}
    (hfs : fs.Geometry) (hone : fs.sectorsPerCluster = 1)
    (hs : dev (fs.clusterToSector c) = some s) :
    fs.Holds dev c ((List.range 16).map (DirEntry.parse s)) where
  length := by rw [hfs.entriesPerCluster, hone]; simp
  entry := by
    intro p e he
    obtain ⟨hp, rfl⟩ : p < 16 ∧ DirEntry.parse s p = e := by
      simpa [List.getElem?_eq_some_iff] using he
    exact ⟨s, by rw [Nat.div_eq_of_lt hp]; exact hs, by rw [Nat.mod_eq_of_lt hp]⟩

theorem stored_twoClusters (start : ℕ) :
    twoClustersFs.Stored (twoClusters start) (ExfatFs.dirAt 2) 2 (twoChunks start) := by
  have hfs := mount_geometry (mount_twoClusters start)
  have hone : twoClustersFs.sectorsPerCluster = 1 := by decide +kernel
  have htwo : twoClustersFs.clusterToSector 2 = 2 := by decide +kernel
  have hthree : twoClustersFs.clusterToSector 3 = 3 := by decide +kernel
  have hlink : (twoClustersFs.nextClusterForEntry (twoClusters start) (ExfatFs.dirAt 2) 2).value =
      .ok 3 := rfl
  have hlast : (twoClustersFs.nextClusterForEntry (twoClusters start) (ExfatFs.dirAt 2) 3).value =
      .ok 0 := rfl
  exact .cons (by decide) (hfs.holds_sector hone (by rw [htwo]; rfl)) hlink
    (.cons (by decide) (hfs.holds_sector hone (by rw [hthree]; rfl)) hlast .nil)

/-- A set whose file entry is the last of the first cluster is not reported. -/
theorem split_set_is_lost :
    (mount (twoClusters 15)).value = .ok twoClustersFs ∧
      twoClustersFs.Stored (twoClusters 15) (ExfatFs.dirAt 2) 2 (twoChunks 15) ∧
      Ended (twoChunks 15).flatten ∧
      reported (twoClustersFs.listEntryDir (twoClusters 15) 3 (ExfatFs.dirAt 2)).log = [] ∧
      parseEntries (twoChunks 15).flatten 0 = [⟨ascii "a", 5, 0, false, 0, false⟩] := by
  refine ⟨mount_twoClusters 15, stored_twoClusters 15, ?_, ?_, ?_⟩
  · unfold Ended
    decide +kernel
  · decide +kernel
  · decide +kernel

theorem whole_set_is_listed :
    SetsFit 16 (twoChunks 13).flatten ∧
      reported (twoClustersFs.listEntryDir (twoClusters 13) 3 (ExfatFs.dirAt 2)).log =
        [⟨ascii "a", 5, 0, false, 0, false⟩] := by
  have hlog : reported (twoClustersFs.listEntryDir (twoClusters 13) 3 (ExfatFs.dirAt 2)).log =
      [⟨ascii "a", 5, 0, false, 0, false⟩] := by decide +kernel
  have hwhole : parseEntries (twoChunks 13).flatten 0 = [⟨ascii "a", 5, 0, false, 0, false⟩] := by
    decide +kernel
  have hend : Ended (twoChunks 13).flatten := by
    unfold Ended
    decide +kernel
  have hfuel : (twoChunks 13).length < 3 := by decide
  have hfits := (listing_eq_whole_iff (mount_twoClusters 13) (stored_twoClusters 13) hend
    hfuel).2.mp (hlog.trans hwhole.symm)
  exact ⟨hfits, hlog⟩

end OpenIon.Fs.Exfat
