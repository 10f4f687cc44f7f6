import OpenIon.Fs.Visible

/-! # Detecting a file system

`detect_fs` of `fs/detect.rs` looks at the boot sector before the driver does. All that it asks for
is asked for by `mount` too, except for clusters of more than one sector: the shift of a volume with
one sector in a cluster is zero.
-/
namespace OpenIon.Fs
open Lib Exfat

inductive FsType where
  | exfat
  | unknown
  deriving DecidableEq

structure DetectResult where
  fsType : FsType
  sector0 : Sector
  sector0Valid : Bool

def detectFs (dev : BlockDev) : DetectResult :=
  match dev 0 with
  | none => ⟨.unknown, fun _ => 0, false⟩
  | some sector0 =>
    if tryDetectExfat sector0 then ⟨.exfat, sector0, true⟩ else ⟨.unknown, sector0, true⟩

structure Targets (cfg : Config) (s : World) (devPath mountPath : List UInt8) (dev : ℕ) : Prop where
  absolute : mountPath.head? = some slash
  short : mountPath.length < 64
  valid : validMountTarget (s.store.view cfg) mountPath = true
  device : findBlockDevice cfg s.blocks devPath = some dev

variable {cfg : Config} {s : World} {devPath mountPath : List UInt8} {d : ℕ} {dev : BlockDev}
  {sector0 : Sector} {fs : ExfatFs}

theorem detectFs_exfat_iff (hsector : dev 0 = some sector0) :
    (detectFs dev).fsType = .exfat ↔ tryDetectExfat sector0 = true := by
  unfold detectFs
  rw [hsector]
  cases htry : tryDetectExfat sector0 with
  | false => simp [htry]
  | true => simp [htry]

theorem leU16_eq_signature_iff (sector : Sector) :
    leU16 sector 510 = 0xAA55 ↔ sector 510 = 0x55 ∧ sector 511 = 0xAA := by
  have hlow := (sector 510).toNat_lt
  have hword : leU16 sector 510 = (sector 510).toNat + (sector 511).toNat * 2 ^ 8 := rfl
  have h55 : (0x55 : UInt8).toNat = 0x55 := rfl
  have hAA : (0xAA : UInt8).toNat = 0xAA := rfl
  rw [hword, ← UInt8.toNat_inj, ← UInt8.toNat_inj, h55, hAA]
  omega

/-- `mount` makes all checks of the detection but the last. -/
theorem tryDetectExfat_of_acceptable (h : (BootSector.parse sector0).acceptable = true) :
    tryDetectExfat sector0 = true ↔ (BootSector.parse sector0).sectorsPerClusterShift ≠ 0 := by
  simp only [BootSector.acceptable, decide_eq_true_eq] at h
  obtain ⟨hoem, hsignature, ⟨hshift, -⟩, -⟩ := h
  have hbytes : sector0 108 ≠ 0 := by
    intro hzero
    have hle : (9 : UInt8) ≤ sector0 108 := hshift
    rw [hzero] at hle
    exact absurd hle (by decide)
  simp only [tryDetectExfat, decide_eq_true_eq]
  constructor
  · exact fun hall => hall.2.2.2
  · exact fun hone => ⟨(leU16_eq_signature_iff sector0).mp hsignature, hoem, hbytes, hone⟩

theorem adapter_zero (cfg : Config) (dev : BlockDev) : adapter cfg dev 0 = dev 0 := by
  rw [adapter, Nat.zero_mod]

theorem mountFs_unsupported_iff (h : Targets cfg s devPath mountPath d) (hmedia : s.media d = dev)
    (hsector : dev 0 = some sector0) (hmount : (Exfat.mount (adapter cfg dev)).value = .ok fs) :
    (mountFs cfg s devPath mountPath).1 = .error .unsupportedFs ↔
      tryDetectExfat sector0 = false := by
  have hpath : ¬(mountPath.head? ≠ some slash ∨ 64 ≤ mountPath.length) := by
    rintro (hhead | hlong)
    · exact hhead h.absolute
    · exact absurd h.short (Nat.not_lt.mpr hlong)
  unfold mountFs
  rw [if_neg hpath, if_neg (by simp [h.valid])]
  simp only [h.device, hmedia, hsector, hmount]
  cases tryDetectExfat sector0 with
  | false => simp
  | true =>
    simp only [Bool.true_eq_false, if_false, iff_false]
    unfold registerMount
    split_ifs <;> simp

/-- A volume that the driver mounts is detected, and `mount_fs` accepts its file system, exactly if
its clusters have more than one sector. -/
theorem mountable_detected_iff (cfg : Config) (dev : BlockDev) {sector0 : Sector} {fs : ExfatFs}
    (hsector : dev 0 = some sector0) (hmount : (Exfat.mount (adapter cfg dev)).value = .ok fs) :
    ((detectFs dev).fsType = .exfat ↔ (BootSector.parse sector0).sectorsPerClusterShift ≠ 0) ∧
      ∀ s devPath mountPath d, s.media d = dev → Targets cfg s devPath mountPath d →
        ((mountFs cfg s devPath mountPath).1 = .error .unsupportedFs ↔
          (BootSector.parse sector0).sectorsPerClusterShift = 0) := by
  obtain ⟨sector, hsame, hok, -⟩ := mount_eq_ok.mp hmount
  rw [adapter_zero, hsector, Option.some.injEq] at hsame
  subst hsame
  have hdetect := tryDetectExfat_of_acceptable hok
  refine ⟨(detectFs_exfat_iff hsector).trans hdetect, fun s devPath mountPath d hmedia h => ?_⟩
  rw [mountFs_unsupported_iff h hmedia hsector hmount, ← Bool.not_eq_true, hdetect, not_not]

def bootDisk (sectorsPerClusterShift : UInt8) : BlockDev := fun n =>
  if n = 0 then some (bootImage 16 [8] sectorsPerClusterShift) else none

theorem two_sector_clusters_detected :
    (Exfat.mount (adapter diskConfig (bootDisk 1))).value = .ok ⟨512, 2, 2, 1, 2, 8⟩ ∧
      (detectFs (bootDisk 1)).fsType = .exfat := by
  have hmount : (Exfat.mount (adapter diskConfig (bootDisk 1))).value = .ok ⟨512, 2, 2, 1, 2, 8⟩ := by
    decide +kernel
  exact ⟨hmount, (mountable_detected_iff diskConfig (bootDisk 1) rfl hmount).1.mpr (by decide)⟩

/-- Clusters of one sector: the driver mounts the volume, and `mount_fs` refuses it. -/
theorem one_sector_clusters_refused :
    (Exfat.mount (adapter diskConfig (bootDisk 0))).value = .ok ⟨512, 1, 2, 1, 2, 8⟩ ∧
      (detectFs (bootDisk 0)).fsType = .unknown ∧
      (mountFs diskConfig (boot diskConfig bareNodes [0] fun _ => bootDisk 0) blk0 sdPath).1 =
        .error .unsupportedFs := by
  decide +kernel

end OpenIon.Fs
