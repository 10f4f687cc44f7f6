import OpenIon.Fs.Exfat.Terminates

/-! # Which accesses stay inside the volume

The driver checks the root cluster at mount time and no cluster number afterwards. A listing,
a search or a read therefore stays inside the volume exactly when the medium keeps every
cluster of the chains it follows inside.
-/
namespace OpenIon.Fs.Exfat
open Lib

/-- An access inside the volume of the boot sector; nothing overflows. -/
def Contained (boot : BootSector) : Event → Prop
  | .cluster c => 2 ≤ c.toNat ∧ c.toNat < boot.clusterCount.toNat + 2
  | .sector n => n < boot.volumeLength.toNat
  | .overflow => False
  | .entry _ => True

instance (boot : BootSector) : DecidablePred (Contained boot)
  | .cluster _ => inferInstanceAs (Decidable (_ ∧ _))
  | .sector _ => inferInstanceAs (Decidable (_ < _))
  | .overflow => inferInstanceAs (Decidable False)
  | .entry _ => inferInstanceAs (Decidable True)

variable {dev : BlockDev} {boot : BootSector} {fs : ExfatFs} {dir : ExfatEntry} {c : UInt32}

theorem all_wrapping {w n : ℕ} : (wrapping w n).All (Contained boot) ↔ n < 2 ^ w := by
  unfold wrapping
  by_cases h : 2 ^ w ≤ n
  · simp [h, Contained]
  · simp only [if_neg h, Logged.all_pure, true_iff]
    omega

theorem all_readSector {n : ℕ} :
    (readSector dev n).All (Contained boot) ↔ n < boot.volumeLength.toNat := by
  unfold readSector
  rw [Logged.all_bind]
  cases dev n <;> simp [Contained]

theorem all_mount {sector0 : Sector} (h0 : dev 0 = some sector0) :
    (mount dev).All (Contained (BootSector.parse sector0)) ↔
      (BootSector.parse sector0).volumeLength ≠ 0 ∧
        ((BootSector.parse sector0).acceptable = true →
          (BootSector.parse sector0).clusterCount.toNat + 2 < 2 ^ 32) := by
  have hread : (readSector dev 0).value = .ok sector0 := readSector_eq_ok.mpr h0
  have hlength : 0 < (BootSector.parse sector0).volumeLength.toNat ↔
      (BootSector.parse sector0).volumeLength ≠ 0 := by
    rw [Nat.pos_iff_ne_zero, ne_eq, ne_eq, ← UInt64.toNat_inj]
    rfl
  unfold mount
  rw [Logged.all_bind, all_readSector, hlength]
  refine and_congr_right fun _ => ?_
  simp only [hread, Except.ok.injEq, forall_eq']
  cases hok : (BootSector.parse sector0).acceptable with
  | false => simp
  | true =>
    simp only [if_true, Logged.all_bind, all_wrapping, forall_true_left, and_iff_left_iff_imp]
    intro _ limit _
    split_ifs <;> simp

/-- The root cluster lies below the limit, which therefore did not wrap. -/
theorem mount_clusterCount {sector0 : Sector} (h0 : dev 0 = some sector0)
    (hmount : (mount dev).value = .ok fs) :
    (BootSector.parse sector0).clusterCount.toNat + 2 < 2 ^ 32 := by
  obtain ⟨_, hs, hok, hroot, -⟩ := mount_eq_ok.mp hmount
  obtain rfl := Option.some.inj (h0 ▸ hs)
  simp only [BootSector.acceptable, decide_eq_true_eq] at hok
  obtain ⟨-, -, -, -, -, -, -, -, -, -, -, -, -, hmin⟩ := hok
  rw [UInt32.le_iff_toNat_le] at hmin
  have hlt := (BootSector.parse sector0).clusterCount.toNat_lt
  change 2 ≤ _ at hmin
  omega

namespace ExfatFs

/-! ### Reading a cluster -/

/-- The sectors that are asked for are those up to the first that cannot be read. -/
theorem Geometry.all_readSectors (hfs : fs.Geometry) {start i n : ℕ}
    (hstart : ∀ j < 8, start + j < 2 ^ 64) (hn : i + n ≤ fs.sectorsPerCluster) :
    (fs.readSectors dev start (min fs.bytesPerCluster 4096) i n).All (Contained boot) ↔
      ∀ j < n, (∀ k < j, (dev (start + (i + k))).isSome) →
        start + (i + j) < boot.volumeLength.toNat := by
  induction n generalizing i with
  | zero => simp [readSectors]
  | succ n ih =>
    have hshift : ∀ j, i + 1 + j = i + (j + 1) := fun j => by omega
    have ih := ih (i := i + 1) (by omega)
    simp only [hshift] at ih
    rw [hfs.readSectors_succ hstart (by omega), Logged.all_bind, all_readSector,
      Nat.forall_lt_succ_left]
    refine and_congr ⟨fun h _ => h, fun h => h (by simp)⟩ ?_
    -- the others are asked for when this sector could be read
    simp only [readSector_eq_ok, Logged.all_bind, Logged.all_pure, implies_true, and_true, ih,
      Nat.forall_lt_succ_left]
    cases dev (start + (i + 0)) <;> simp_all

theorem Geometry.all_readCluster (hfs : fs.Geometry) :
    (fs.readCluster dev c).All (Contained boot) ↔
      (2 ≤ c.toNat ∧ c.toNat < boot.clusterCount.toNat + 2) ∧
      ∀ i < fs.sectorsPerCluster, (∀ k < i, (dev (fs.clusterToSector c + k)).isSome) →
        fs.clusterToSector c + i < boot.volumeLength.toNat := by
  have hstart : ∀ j < 8, fs.clusterToSector c + j < 2 ^ 64 := fun j => hfs.clusterToSector_lt
  rw [hfs.readCluster_eq]
  simp [Contained, hfs.all_readSectors hstart (Nat.zero_add _).le]

theorem Geometry.all_nextCluster (hfs : fs.Geometry) :
    (fs.nextCluster dev c).All (Contained boot) ↔
      fs.fatOffset.toNat + c.toNat / 128 < 2 ^ 32 ∧
        fs.fatOffset.toNat + c.toNat / 128 < boot.volumeLength.toNat := by
  unfold nextCluster
  rw [hfs.bytes, Logged.all_bind, all_wrapping]
  refine and_congr_right fun hlt => ?_
  rw [wrapping_of_lt hlt]
  simp [all_readSector]

/-- The cluster and all that is read with it lie inside the volume: its sectors up to the first that
cannot be read and, when they all can and the FAT tells the next cluster, its word in the FAT. -/
structure Inside (fs : ExfatFs) (dev : BlockDev) (boot : BootSector) (noFatChain : Bool)
    (c : UInt32) : Prop where
  cluster : 2 ≤ c.toNat ∧ c.toNat < boot.clusterCount.toNat + 2
  sectors : ∀ i < fs.sectorsPerCluster, (∀ k < i, (dev (fs.clusterToSector c + k)).isSome) →
    fs.clusterToSector c + i < boot.volumeLength.toNat
  fat : noFatChain = false → fs.Readable dev c →
    fs.fatOffset.toNat + c.toNat / 128 < 2 ^ 32 ∧
      fs.fatOffset.toNat + c.toNat / 128 < boot.volumeLength.toNat

/-- What both loops do with a cluster: they read it and look for the next one. -/
theorem Geometry.inside_iff (hfs : fs.Geometry) (dir : ExfatEntry)
    (hcount : boot.clusterCount.toNat + 2 < 2 ^ 32) :
    fs.Inside dev boot dir.noFatChain c ↔
      (fs.readCluster dev c).All (Contained boot) ∧ ∀ buf, (fs.readCluster dev c).value = .ok buf →
        (fs.nextClusterForEntry dev dir c).All (Contained boot) := by
  rw [hfs.all_readCluster, ← exists_imp, hfs.readCluster_ok]
  unfold nextClusterForEntry
  cases hflag : dir.noFatChain with
  | false =>
    simp only [Bool.false_eq_true, if_false, hfs.all_nextCluster]
    exact ⟨fun h => ⟨⟨h.cluster, h.sectors⟩, h.fat rfl⟩, fun h => ⟨h.1.1, h.1.2, fun _ => h.2⟩⟩
  | true =>
    constructor
    · intro h
      refine ⟨⟨h.cluster, h.sectors⟩, fun _ => ?_⟩
      have := h.cluster.2
      simp only [if_true]
      split
      · simp
      · rw [wrapping_of_lt (by omega)]
        simp
    · exact fun h => ⟨h.1.1, h.1.2, by simp⟩

/-! ### Directories -/

def ChainAt (fs : ExfatFs) (dev : BlockDev) (entry : ExfatEntry) (i : ℕ) (c : UInt32) : Prop :=
  iter (fs.link dev entry) i entry.firstCluster = some c ∧ c ≠ 0

theorem all_listEntryDir {P : Event → Prop} {fuel : ℕ} :
    (fs.listEntryDir dev fuel dir).All P ↔
      (loop .fuel (· != 0) (fs.listTurn dev dir) fuel dir.firstCluster).All P := by
  simp [listEntryDir]

theorem Geometry.all_listing (hfs : fs.Geometry)
    (hcount : boot.clusterCount.toNat + 2 < 2 ^ 32) :
    (∀ fuel, (fs.listEntryDir dev fuel dir).All (Contained boot)) ↔
      ∀ i c, fs.ChainAt dev dir i c → fs.Inside dev boot dir.noFatChain c := by
  simp only [all_listEntryDir, all_loop_iff, move_listTurn, ChainAt, and_imp, bne_iff_ne]
  refine forall₄_congr fun i c _ _ => ?_
  rw [hfs.inside_iff dir hcount, listTurn]
  simp [Contained]

/-! ### Paths -/

section Paths

variable {P : Event → Prop} {n m : ℕ} {component : List UInt8}
  {rest components : List (List UInt8)}

theorem all_lookup :
    (fs.lookup dev n dir component).All P ↔ (fs.listEntryDir dev n dir).All P := by
  unfold lookup
  dsimp only
  split <;> rfl

theorem all_follow_cons :
    (fs.follow dev n (component :: rest) dir).All P ↔
      (fs.listEntryDir dev n dir).All P ∧
        ∀ sub, (fs.lookup dev n dir component).value = .ok (some sub) → sub.isDir = true →
          (fs.follow dev n rest sub).All P := by
  rw [follow, Logged.all_bind, all_lookup]
  refine and_congr_right fun _ => ⟨fun h sub hsub hdir => ?_, fun h found hfound => ?_⟩
  · simpa [hdir] using h (some sub) hsub
  · cases found with
    | none => simp
    | some sub =>
      cases hdir : sub.isDir with
      | false => simp [hdir]
      | true => simpa [hdir] using h sub hfound hdir

theorem all_follow_of_le (h : (fs.follow dev m components dir).All P) (hle : n ≤ m) :
    (fs.follow dev n components dir).All P := by
  induction components generalizing dir with
  | nil => simp [follow]
  | cons component rest ih =>
    rw [all_follow_cons] at h ⊢
    refine ⟨all_listEntryDir.mpr (all_loop_of_le (all_listEntryDir.mp h.1) hle), ?_⟩
    intro sub hsub hdir
    exact ih (h.2 sub (lookup_ok_of_le hsub hle) hdir)

/-- A search does nothing but list the directories it enters. -/
theorem all_follow :
    (∀ fuel, (fs.follow dev fuel components dir).All P) ↔
      ∀ d, fs.Enters dev components dir d → ∀ fuel, (fs.listEntryDir dev fuel d).All P := by
  induction components generalizing dir with
  | nil =>
    constructor
    · rintro - d ⟨⟩
    · simp [follow]
  | cons component rest ih =>
    constructor
    · intro h d hd
      cases hd with
      | here => exact fun fuel => (all_follow_cons.mp (h fuel)).1
      | @down _ _ _ sub _ m hsub hdir hd =>
        refine ih.mp (fun n => ?_) d hd
        have hfound := lookup_ok_of_le hsub (le_max_right n m)
        exact all_follow_of_le ((all_follow_cons.mp (h (max n m))).2 sub hfound hdir)
          (le_max_left n m)
    · intro h n
      refine all_follow_cons.mpr ⟨h dir (.here component rest dir) n, fun sub hsub hdir => ?_⟩
      exact ih.mpr (fun d hd => h d (.down hsub hdir hd)) n

theorem all_findEntry (path : List UInt8) :
    (∀ fuel, (fs.findEntry dev fuel path).All P) ↔
      ∀ d, fs.Enters dev (ExfatFs.components (trimSlashes path)) (dirAt fs.rootDirFirstCluster) d →
        ∀ fuel, (fs.listEntryDir dev fuel d).All P := by
  rw [← all_follow]
  unfold findEntry
  dsimp only
  split_ifs with hempty
  · rw [hempty]
    simp [components, follow]
  · rfl

end Paths

/-! ### Files -/

section Files

variable {targetLen : ℕ} {r r' : Reading}

theorem move_readTurn :
    move (unread targetLen) (fs.readTurn dev dir targetLen) r = some r' ↔
      r.out.length < targetLen ∧ fs.link dev dir r.cluster = some r'.cluster ∧
        ∃ buf, (fs.readCluster dev r.cluster).value = .ok buf ∧
          r'.out = r.out ++
            (List.range (min fs.bytesPerCluster (targetLen - r.out.length))).map buf := by
  obtain ⟨cluster', out'⟩ := r'
  simp only [move_eq_some, unread, readTurn, link_eq_some, Logged.value_bind_eq_ok,
    Logged.value_pure, Except.ok.injEq, Reading.mk.injEq, Bool.and_eq_true, decide_eq_true_eq,
    bne_iff_ne]
  constructor
  · rintro ⟨⟨hc, hlen⟩, buf, hbuf, next, hnext, rfl, rfl⟩
    exact ⟨hlen, ⟨hc, ⟨buf, hbuf⟩, hnext⟩, buf, hbuf, rfl⟩
  · rintro ⟨hlen, ⟨hc, -, hnext⟩, buf, hbuf, rfl⟩
    exact ⟨⟨hc, hlen⟩, buf, hbuf, _, hnext, rfl, rfl⟩

/-- After `i` turns the loop is at the `i`-th cluster and has copied those before it. -/
theorem iter_readTurn {i : ℕ} {start : UInt32}
    (h : iter (move (unread targetLen) (fs.readTurn dev dir targetLen)) i ⟨start, []⟩ = some r) :
    iter (fs.link dev dir) i start = some r.cluster ∧
      r.out.length = min (i * fs.bytesPerCluster) targetLen := by
  induction i generalizing r with
  | zero =>
    obtain rfl := Option.some.inj h
    simp
  | succ i ih =>
    rw [iter_succ_last] at h ⊢
    obtain ⟨r₀, hr₀, hmove⟩ := Option.bind_eq_some_iff.mp h
    obtain ⟨hlen, hlink, buf, -, hout⟩ := move_readTurn.mp hmove
    obtain ⟨hiter, hlength⟩ := ih hr₀
    refine ⟨by rw [hiter, Option.bind_some, hlink], ?_⟩
    rw [hout, List.length_append, List.length_map, List.length_range, Nat.succ_mul]
    omega

theorem exists_iter_readTurn {i : ℕ} {start : UInt32}
    (h : iter (fs.link dev dir) i start = some c) (hi : i * fs.bytesPerCluster < targetLen) :
    ∃ r, iter (move (unread targetLen) (fs.readTurn dev dir targetLen)) i ⟨start, []⟩ = some r ∧
      r.cluster = c := by
  induction i generalizing c with
  | zero => exact ⟨⟨start, []⟩, rfl, Option.some.inj h⟩
  | succ i ih =>
    rw [iter_succ_last] at h
    obtain ⟨c₀, hc₀, hlink⟩ := Option.bind_eq_some_iff.mp h
    rw [Nat.succ_mul] at hi
    obtain ⟨r₀, hr₀, rfl⟩ := ih hc₀ (by omega)
    obtain ⟨-, hlength⟩ := iter_readTurn hr₀
    obtain ⟨-, ⟨buf, hbuf⟩, -⟩ := link_eq_some.mp hlink
    refine ⟨⟨c, r₀.out ++
      (List.range (min fs.bytesPerCluster (targetLen - r₀.out.length))).map buf⟩, ?_, rfl⟩
    rw [iter_succ_last, hr₀, Option.bind_some, move_readTurn]
    exact ⟨by omega, hlink, buf, hbuf, rfl⟩

theorem Geometry.all_readFile (hfs : fs.Geometry)
    (hcount : boot.clusterCount.toNat + 2 < 2 ^ 32) (w : ℕ) (start : UInt32)
    (dataLength : UInt64) (flag : Bool) (bufLen : ℕ) :
    (∀ fuel, (fs.readFile dev w fuel start dataLength flag bufLen).All (Contained boot)) ↔
      ∀ i c, fs.ChainAt dev ⟨[], start, dataLength, false, 0, flag⟩ i c →
        i * fs.bytesPerCluster < min (dataLength.toNat % 2 ^ w) bufLen →
        fs.Inside dev boot flag c := by
  have hturn : ∀ targetLen r, fs.Inside dev boot flag r.cluster ↔
      (fs.readTurn dev ⟨[], start, dataLength, false, 0, flag⟩ targetLen r).All
        (Contained boot) := fun targetLen r => by
    rw [hfs.inside_iff ⟨[], start, dataLength, false, 0, flag⟩ hcount, readTurn]
    simp
  simp only [readFile, Logged.all_bind, Logged.all_pure, implies_true, and_true, all_loop_iff]
  constructor
  · rintro h i c ⟨hiter, hc⟩ hi
    obtain ⟨r, hr, rfl⟩ := exists_iter_readTurn hiter hi
    have hlength := (iter_readTurn hr).2
    refine (hturn _ r).mpr (h i r hr ?_)
    simp only [unread, Bool.and_eq_true, bne_iff_ne, decide_eq_true_eq]
    exact ⟨hc, by omega⟩
  · intro h i r hr hmore
    simp only [unread, Bool.and_eq_true, bne_iff_ne, decide_eq_true_eq] at hmore
    obtain ⟨hiter, hlength⟩ := iter_readTurn hr
    exact (hturn _ r).mp (h i r.cluster ⟨hiter, hmore.1⟩ (by omega))

end Files

end ExfatFs

/-- Mounting stays inside the volume exactly when the volume is not empty and the number of clusters
does not overflow. On a mounted volume a listing, a search and a read stay inside exactly when the
clusters they come to, along the chains as the medium has them, are all inside. -/
theorem accesses_contained_iff {dev : BlockDev} {sector0 : Sector} {boot : BootSector}
    (h0 : dev 0 = some sector0) (hboot : boot = BootSector.parse sector0) :
    ((mount dev).All (Contained boot) ↔
      boot.volumeLength ≠ 0 ∧ (boot.acceptable = true → boot.clusterCount.toNat + 2 < 2 ^ 32)) ∧
    ∀ fs, (mount dev).value = .ok fs →
      (∀ dir, (∀ fuel, (fs.listEntryDir dev fuel dir).All (Contained boot)) ↔
        ∀ i c, fs.ChainAt dev dir i c → fs.Inside dev boot dir.noFatChain c) ∧
      (∀ path, (∀ fuel, (fs.findEntry dev fuel path).All (Contained boot)) ↔
        ∀ dir, fs.Enters dev (ExfatFs.components (ExfatFs.trimSlashes path))
          (ExfatFs.dirAt fs.rootDirFirstCluster) dir →
            ∀ i c, fs.ChainAt dev dir i c → fs.Inside dev boot dir.noFatChain c) ∧
      ∀ w start dataLength noFatChain bufLen,
        (∀ fuel, (fs.readFile dev w fuel start dataLength noFatChain bufLen).All
          (Contained boot)) ↔
        ∀ i c, fs.ChainAt dev ⟨[], start, dataLength, false, 0, noFatChain⟩ i c →
          i * fs.bytesPerCluster < min (dataLength.toNat % 2 ^ w) bufLen →
          fs.Inside dev boot noFatChain c := by
  subst hboot
  refine ⟨all_mount h0, fun fs hmount => ?_⟩
  have hfs := mount_geometry hmount
  have hcount := mount_clusterCount h0 hmount
  refine ⟨fun dir => hfs.all_listing hcount, fun path => ?_, hfs.all_readFile hcount⟩
  rw [ExfatFs.all_findEntry]
  exact forall₂_congr fun dir _ => hfs.all_listing hcount

theorem ended_root_listed_inside :
    (mount (oneCluster [0xFF, 0xFF, 0xFF, 0xFF])).value = .ok oneClusterFs ∧
    ∀ fuel, (oneClusterFs.listEntryDir (oneCluster [0xFF, 0xFF, 0xFF, 0xFF]) fuel
      (ExfatFs.dirAt 2)).All (Contained (BootSector.parse (bootImage 3 [1] 0))) := by
  have hsector : oneCluster [0xFF, 0xFF, 0xFF, 0xFF] 0 = some (bootImage 3 [1] 0) := rfl
  refine ⟨mount_oneCluster _, ?_⟩
  refine (((accesses_contained_iff hsector rfl).2 oneClusterFs (mount_oneCluster _)).1 _).mpr
    fun i c hchain => ?_
  have hone : iter (oneClusterFs.link (oneCluster [0xFF, 0xFF, 0xFF, 0xFF]) (ExfatFs.dirAt 2)) 1 2 =
      some 0 := by decide +kernel
  obtain ⟨hiter, hc⟩ := hchain
  change iter _ i 2 = some c at hiter
  match i, hiter with
  | 0, hiter =>
    obtain rfl : 2 = c := Option.some.inj hiter
    exact ⟨by decide +kernel, by decide +kernel, fun _ _ => by decide +kernel⟩
  | 1, hiter => exact absurd (Option.some.inj (hone.symm.trans hiter)).symm hc
  | i + 2, hiter =>
    rw [show i + 2 = 1 + (i + 1) by omega, iter_add, hone] at hiter
    cases hiter

/-- A boot sector with the largest number of clusters. -/
def hugeBoot : Sector := bootImage 3 [0xFF, 0xFF, 0xFF, 0xFF] 0

/-- A word in the FAT leads the listing of the root to cluster 9 of a volume with one cluster, and a
boot sector makes the check of the root cluster overflow. -/
theorem linked_cluster_leaves_volume :
    (mount (oneCluster [9])).value = .ok oneClusterFs ∧
      ¬ (oneClusterFs.listEntryDir (oneCluster [9]) 2 (ExfatFs.dirAt 2)).All
        (Contained (BootSector.parse (bootImage 3 [1] 0))) ∧
      ¬ (mount fun _ => some hugeBoot).All (Contained (BootSector.parse hugeBoot)) := by
  refine ⟨mount_oneCluster [9], ?_, ?_⟩
  · decide +kernel
  · decide +kernel

end OpenIon.Fs.Exfat
