import OpenIon.Fs.Exfat.Volume

/-! # Mounted volumes

What `mount` guarantees of the geometry, and images that mount.
-/
namespace OpenIon.Fs.Exfat
open Lib

variable {dev : BlockDev} {n w : ℕ} {fs : ExfatFs}

theorem readSector_value :
    (readSector dev n).value = match dev n with | some s => .ok s | none => .error .err := by
  unfold readSector
  rw [Logged.value_bind_ok (Logged.value_tell _)]
  cases dev n <;> rfl

theorem readSector_eq_ok {s : Sector} : (readSector dev n).value = .ok s ↔ dev n = some s := by
  rw [readSector_value]
  cases dev n <;> simp

@[simp] theorem wrapping_value : (wrapping w n).value = .ok (n % 2 ^ w) := by
  unfold wrapping
  split <;> rfl

theorem wrapping_of_lt (h : n < 2 ^ w) : wrapping w n = pure n := by
  unfold wrapping
  rw [if_neg (by omega), Nat.mod_eq_of_lt h]

theorem mount_eq_ok :
    (mount dev).value = .ok fs ↔ ∃ sector0, dev 0 = some sector0 ∧
      (BootSector.parse sector0).acceptable = true ∧
      (BootSector.parse sector0).rootDirFirstCluster.toNat <
        ((BootSector.parse sector0).clusterCount.toNat + 2) % 2 ^ 32 ∧
      fs = (BootSector.parse sector0).volume := by
  unfold mount
  rw [Logged.value_bind_eq_ok]
  refine exists_congr fun sector0 => and_congr readSector_eq_ok ?_
  dsimp only
  by_cases hok : (BootSector.parse sector0).acceptable = true
  · rw [if_pos hok, Logged.value_bind_eq_ok]
    simp only [wrapping_value, Except.ok.injEq, exists_eq_left', hok, true_and]
    split_ifs with hroot
    · simp only [Logged.value_fail, reduceCtorEq, false_iff]
      omega
    · simp only [Logged.value_pure, Except.ok.injEq]
      constructor
      · rintro rfl
        exact ⟨by omega, rfl⟩
      · rintro ⟨-, rfl⟩
        rfl
  · simp [hok]

/-- The geometry that passes the checks of `mount`. -/
structure ExfatFs.Geometry (fs : ExfatFs) : Prop where
  bytes : fs.bytesPerSector = 512
  pos : 1 ≤ fs.sectorsPerCluster
  le : fs.sectorsPerCluster ≤ 8

theorem mount_geometry (h : (mount dev).value = .ok fs) : fs.Geometry := by
  obtain ⟨sector0, -, hok, -, rfl⟩ := mount_eq_ok.mp h
  simp only [BootSector.acceptable, decide_eq_true_eq] at hok
  obtain ⟨-, -, -, -, hbytes, -, hsize, -⟩ := hok
  rw [hbytes] at hsize
  refine ⟨hbytes, Nat.one_le_two_pow, ?_⟩
  change 2 ^ (BootSector.parse sector0).sectorsPerClusterShift.toNat ≤ 8
  omega

theorem ExfatFs.Geometry.bytesPerCluster (hfs : fs.Geometry) :
    fs.bytesPerCluster = 512 * fs.sectorsPerCluster := by
  rw [ExfatFs.bytesPerCluster, hfs.bytes]

theorem ExfatFs.Geometry.bytesPerCluster_pos (hfs : fs.Geometry) : 0 < fs.bytesPerCluster := by
  rw [hfs.bytesPerCluster]
  have := hfs.pos
  omega

/-! ### Reading a cluster -/

namespace ExfatFs

variable {c : UInt32} {start i : ℕ}

theorem Geometry.clusterToSector_lt (hfs : fs.Geometry) {i : ℕ} (hi : i < 8) :
    fs.clusterToSector c + i < 2 ^ 64 := by
  have hheap := fs.clusterHeapOffset.toNat_lt
  have hc := c.toNat_lt
  have hmul : (c.toNat - 2) * fs.sectorsPerCluster ≤ 2 ^ 32 * 8 :=
    Nat.mul_le_mul (by omega) hfs.le
  unfold clusterToSector
  split_ifs <;> omega

theorem Geometry.sector_fits (hfs : fs.Geometry) (hi : i < fs.sectorsPerCluster) :
    ¬ min fs.bytesPerCluster 4096 < i * fs.bytesPerSector + fs.bytesPerSector := by
  have hle := hfs.le
  rw [hfs.bytesPerCluster, hfs.bytes]
  omega

/-- No sum overflows and the buffer has room for every sector. -/
theorem Geometry.readSectors_succ (hfs : fs.Geometry) (hstart : ∀ j < 8, start + j < 2 ^ 64)
    (hi : i < fs.sectorsPerCluster) :
    fs.readSectors dev start (min fs.bytesPerCluster 4096) i (n + 1) =
      (do
        let data ← readSector dev (start + i)
        let rest ← fs.readSectors dev start (min fs.bytesPerCluster 4096) (i + 1) n
        pure (data :: rest)) := by
  have hle := hfs.le
  rw [readSectors, if_neg (hfs.sector_fits hi), wrapping_of_lt (hstart i (by omega)),
    Logged.pure_bind]

theorem Geometry.readSectors_eq_ok (hfs : fs.Geometry) (hstart : ∀ j < 8, start + j < 2 ^ 64)
    (hn : i + n ≤ fs.sectorsPerCluster) {l : List Sector} :
    (fs.readSectors dev start (min fs.bytesPerCluster 4096) i n).value = .ok l ↔
      (List.range n).map (fun j => dev (start + (i + j))) = l.map some := by
  induction n generalizing i l with
  | zero => cases l <;> simp [readSectors]
  | succ n ih =>
    have hshift : ∀ j, i + 1 + j = i + (j + 1) := fun j => by omega
    rw [hfs.readSectors_succ hstart (by omega), List.range_succ_eq_map]
    simp only [Logged.value_bind_eq_ok, readSector_eq_ok, ih (i := i + 1) (by omega), hshift,
      Logged.value_pure, Except.ok.injEq, List.map_cons, List.map_map]
    cases l with
    | nil => simp
    | cons s l =>
      simp only [List.cons.injEq, List.map_cons]
      constructor
      · rintro ⟨_, hs, _, hl, rfl, rfl⟩
        exact ⟨hs, hl⟩
      · rintro ⟨hs, hl⟩
        exact ⟨s, hs, l, hl, rfl, rfl⟩

theorem Geometry.readCluster_eq (hfs : fs.Geometry) :
    fs.readCluster dev c =
      (do
        Logged.tell (.cluster c)
        let sectors ← fs.readSectors dev (fs.clusterToSector c) (min fs.bytesPerCluster 4096) 0
          fs.sectorsPerCluster
        pure fun k => sectors.getD (k / 512) (fun _ => 0) (k % 512)) := by
  have hstart : fs.clusterToSector c < 2 ^ 64 := hfs.clusterToSector_lt (i := 0) (by omega)
  rw [readCluster, wrapping_of_lt hstart, Logged.pure_bind, hfs.bytes]

def Readable (fs : ExfatFs) (dev : BlockDev) (c : UInt32) : Prop :=
  ∀ i < fs.sectorsPerCluster, (dev (fs.clusterToSector c + i)).isSome

theorem Geometry.readCluster_ok (hfs : fs.Geometry) :
    (∃ buf, (fs.readCluster dev c).value = .ok buf) ↔ fs.Readable dev c := by
  have hstart : ∀ j < 8, fs.clusterToSector c + j < 2 ^ 64 := fun j => hfs.clusterToSector_lt
  rw [hfs.readCluster_eq]
  simp only [Logged.value_bind_eq_ok, Logged.value_tell,
    hfs.readSectors_eq_ok hstart (Nat.zero_add _).le, Nat.zero_add]
  constructor
  · rintro ⟨_, _, -, l, hl, -⟩ i hi
    have hmem : dev (fs.clusterToSector c + i) ∈ l.map some :=
      hl ▸ List.mem_map_of_mem (List.mem_range.mpr hi)
    obtain ⟨s, -, hs⟩ := List.mem_map.mp hmem
    simp [← hs]
  · intro h
    refine ⟨_, (), trivial, (List.range fs.sectorsPerCluster).map fun j =>
      (dev (fs.clusterToSector c + j)).getD fun _ => 0, ?_, rfl⟩
    rw [List.map_map]
    apply List.map_congr_left
    intro i hi
    obtain ⟨s, hs⟩ := Option.isSome_iff_exists.mp (h i (List.mem_range.mp hi))
    simp [hs]

theorem Geometry.readCluster_bytes (hfs : fs.Geometry) {buf : ℕ → UInt8} {s : Sector} {m : ℕ}
    (h : (fs.readCluster dev c).value = .ok buf) (hi : i < fs.sectorsPerCluster)
    (hs : dev (fs.clusterToSector c + i) = some s) (hm : m < 512) : buf (i * 512 + m) = s m := by
  have hstart : ∀ j < 8, fs.clusterToSector c + j < 2 ^ 64 := fun j => hfs.clusterToSector_lt
  rw [hfs.readCluster_eq] at h
  simp only [Logged.value_bind_eq_ok, Logged.value_tell, Logged.value_pure, Except.ok.injEq,
    hfs.readSectors_eq_ok hstart (Nat.zero_add _).le, Nat.zero_add] at h
  obtain ⟨-, -, l, hl, rfl⟩ := h
  have hget : l[i]? = some s := by
    have hi' := congrArg (·[i]?) hl
    simpa [hi, hs, eq_comm] using hi'
  have hdiv : (i * 512 + m) / 512 = i := by omega
  have hmod : (i * 512 + m) % 512 = m := by omega
  simp only [hdiv, hmod, List.getD_eq_getElem?_getD, hget, Option.getD_some]

end ExfatFs

/-! ### Images -/

/-- The sector with the given bytes at the given offsets, and zero elsewhere. -/
def sectorOf (fields : List (ℕ × List UInt8)) : Sector := fun k =>
  match fields.find? fun f => f.1 ≤ k ∧ k < f.1 + f.2.length with
  | some f => f.2.getD (k - f.1) 0
  | none => 0

/-- A boot sector with the FAT at sector 1, the clusters from sector 2 on and the root directory at
cluster 2. -/
def bootImage (volumeLength : UInt8) (clusterCount : List UInt8)
    (sectorsPerClusterShift : UInt8) : Sector :=
  sectorOf
    [(3, oemName), (72, [volumeLength]), (80, [1]), (84, [1]), (88, [2]), (92, clusterCount),
      (96, [2]), (108, [9]), (109, [sectorsPerClusterShift]), (110, [1]), (510, [0x55, 0xAA])]

end OpenIon.Fs.Exfat
