import OpenIon.Fs.Exfat.Mounted

/-! # When the walks over an exFAT volume finish

Files end with their length and contiguous directories with the cluster numbers. A directory
that follows the FAT is left only at a zero or end-of-chain word or at an error, so its
listing finishes exactly when no cluster occurs twice along its chain.
-/
namespace OpenIon.Fs.Exfat
open Lib

instance finiteUInt32 : Finite UInt32 :=
  Finite.of_injective UInt32.toFin fun _ _ h => UInt32.toFin_inj.mp h

/-- A computation that did not run out of fuel. -/
def Finishes {α : Type} (x : Io α) : Prop := x.value ≠ .error .fuel

instance {α : Type} (x : Io α) : Decidable (Finishes x) :=
  match h : x.value with
  | .error .fuel => isFalse fun hx => hx h
  | .error .err => isTrue (by simp [Finishes, h])
  | .ok _ => isTrue (by simp [Finishes, h])

theorem Finishes.bind {α β : Type} {x : Io α} {f : α → Io β} (hx : Finishes x)
    (hf : ∀ a, Finishes (f a)) : Finishes (x >>= f) := Logged.value_bind_ne_error hx hf

theorem Finishes.of_bind {α β : Type} {x : Io α} {f : α → Io β} (h : Finishes (x >>= f)) :
    Finishes x := fun hx => h (Logged.value_bind_error hx f)

theorem finishes_pure {α : Type} (a : α) : Finishes (pure a) := by simp [Finishes]

theorem finishes_tell (e : Event) : Finishes (Logged.tell e) := by simp [Finishes]

theorem finishes_wrapping (w n : ℕ) : Finishes (wrapping w n) := by simp [Finishes]

theorem finishes_readSector (dev : BlockDev) (n : ℕ) : Finishes (readSector dev n) := by
  unfold Finishes
  rw [readSector_value]
  cases dev n <;> simp

namespace ExfatFs

variable {fs : ExfatFs} {dev : BlockDev} {dir : ExfatEntry} {c next : UInt32} {n m : ℕ}
  {component : List UInt8} {rest components : List (List UInt8)}

/-! ### A single turn always finishes -/

theorem finishes_readSectors (start len i : ℕ) :
    Finishes (fs.readSectors dev start len i n) := by
  induction n generalizing i with
  | zero => exact finishes_pure []
  | succ n ih =>
    unfold readSectors
    split
    · exact finishes_pure []
    · exact (finishes_wrapping 64 _).bind fun _ => (finishes_readSector dev _).bind fun _ =>
        (ih (i + 1)).bind fun _ => finishes_pure _

theorem finishes_readCluster : Finishes (fs.readCluster dev c) :=
  (finishes_tell _).bind fun _ => (finishes_wrapping 64 _).bind fun _ =>
    (finishes_readSectors _ _ 0).bind fun _ => finishes_pure _

theorem finishes_nextClusterForEntry : Finishes (fs.nextClusterForEntry dev dir c) := by
  unfold nextClusterForEntry
  split
  · dsimp only
    split
    · exact finishes_pure 0
    · exact (finishes_wrapping 32 _).bind fun _ => finishes_pure _
  · exact (finishes_wrapping 32 _).bind fun _ => (finishes_readSector dev _).bind fun _ =>
      finishes_pure _

theorem finishes_listTurn : Finishes (fs.listTurn dev dir c) :=
  finishes_readCluster.bind fun _ => Finishes.bind (by simp [Finishes]) fun _ =>
    finishes_nextClusterForEntry

theorem finishes_readTurn (targetLen : ℕ) (r : Reading) :
    Finishes (fs.readTurn dev dir targetLen r) :=
  finishes_readCluster.bind fun _ => finishes_nextClusterForEntry.bind fun _ => finishes_pure _

/-! ### Directories -/

/-- The next cluster of a chain, when the cluster and what tells the next one can be read. -/
def link (fs : ExfatFs) (dev : BlockDev) (entry : ExfatEntry) (c : UInt32) : Option UInt32 :=
  if c = 0 then none
  else (fs.readCluster dev c).value.toOption.bind fun _ =>
    (fs.nextClusterForEntry dev entry c).value.toOption

/-- The directory is contiguous, or no cluster occurs twice along its chain in the FAT. -/
def ChainEnds (fs : ExfatFs) (dev : BlockDev) (dir : ExfatEntry) : Prop :=
  dir.noFatChain = true ∨ NoRepeat (fs.link dev dir) dir.firstCluster

theorem move_listTurn : move (· != 0) (fs.listTurn dev dir) = fs.link dev dir := by
  funext c
  unfold move link listTurn
  by_cases hc : c = 0
  · simp [hc]
  · simp only [bne_iff_ne, ne_eq, hc, not_false_eq_true, if_true, if_false, Logged.toOption_bind]
    rfl

theorem link_eq_some :
    fs.link dev dir c = some next ↔ c ≠ 0 ∧ (∃ buf, (fs.readCluster dev c).value = .ok buf) ∧
      (fs.nextClusterForEntry dev dir c).value = .ok next := by
  unfold link
  by_cases hc : c = 0
  · simp [hc]
  · cases (fs.readCluster dev c).value <;>
      cases (fs.nextClusterForEntry dev dir c).value <;> simp [hc, Except.toOption]

/-- A contiguous chain goes up by one until it ends, also when the number wraps. -/
theorem nextClusterForEntry_contiguous (hflag : dir.noFatChain = true)
    (h : (fs.nextClusterForEntry dev dir c).value = .ok next) :
    next = 0 ∨ next.toNat = c.toNat + 1 := by
  simp only [nextClusterForEntry, hflag, if_true] at h
  split at h
  · exact .inl (Except.ok.inj h).symm
  · rw [Logged.value_bind_ok wrapping_value] at h
    obtain rfl : UInt32.ofNat ((c.toNat + 1) % 2 ^ 32) = next := Except.ok.inj h
    by_cases hlast : c.toNat + 1 = 2 ^ 32
    · exact .inl (by rw [hlast]; rfl)
    · have hc := c.toNat_lt
      right
      rw [UInt32.toNat_ofNat']
      omega

theorem halts_contiguous (hflag : dir.noFatChain = true) : Halts (fs.link dev dir) c := by
  apply halts_of_measure fun c => if c = 0 then 0 else 2 ^ 32 - c.toNat
  intro c next h
  obtain ⟨hc, -, hvalue⟩ := link_eq_some.mp h
  have hlt := c.toNat_lt
  simp only [hc, if_false]
  obtain rfl | hup := nextClusterForEntry_contiguous hflag hvalue
  · simp only [if_true]
    omega
  · split_ifs <;> omega

theorem listEntryDir_finishes :
    Finishes (fs.listEntryDir dev n dir) ↔
      Finishes (loop .fuel (· != 0) (fs.listTurn dev dir) n dir.firstCluster) :=
  ⟨Finishes.of_bind, fun h => h.bind fun _ => finishes_pure ()⟩

theorem listing_finishes_iff :
    (∃ fuel, Finishes (fs.listEntryDir dev fuel dir)) ↔ fs.ChainEnds dev dir := by
  simp only [listEntryDir_finishes]
  rw [show (∃ fuel, Finishes _) ↔ _ from loop_finishes_iff fun _ => finishes_listTurn]
  rw [move_listTurn]
  unfold ChainEnds
  cases hflag : dir.noFatChain with
  | true => simpa using halts_contiguous hflag
  | false => simpa using halts_iff_noRepeat

/-! ### Paths -/

/-- The directories that the search for the components lists, starting with `current`. -/
inductive Enters (fs : ExfatFs) (dev : BlockDev) :
    List (List UInt8) → ExfatEntry → ExfatEntry → Prop
  | here (component : List UInt8) (rest : List (List UInt8)) (current : ExfatEntry) :
      Enters fs dev (component :: rest) current current
  | down {component : List UInt8} {rest : List (List UInt8)} {current sub dir : ExfatEntry}
      {fuel : ℕ} (hsub : (fs.lookup dev fuel current component).value = .ok (some sub))
      (hdir : sub.isDir = true) (hrest : Enters fs dev rest sub dir) :
      Enters fs dev (component :: rest) current dir

theorem listEntryDir_of_le (h : Finishes (fs.listEntryDir dev n dir)) (hle : n ≤ m) :
    fs.listEntryDir dev m dir = fs.listEntryDir dev n dir := by
  unfold listEntryDir
  rw [loop_of_le h.of_bind hle]

theorem lookup_finishes :
    Finishes (fs.lookup dev n dir component) ↔ Finishes (fs.listEntryDir dev n dir) := by
  unfold lookup Finishes
  dsimp only
  split <;> simp_all

theorem lookup_of_le (h : Finishes (fs.lookup dev n dir component))
    (hle : n ≤ m) : fs.lookup dev m dir component = fs.lookup dev n dir component := by
  unfold lookup
  rw [listEntryDir_of_le (lookup_finishes.mp h) hle]

theorem lookup_ok_of_le {found : Option ExfatEntry}
    (h : (fs.lookup dev n dir component).value = .ok found) (hle : n ≤ m) :
    (fs.lookup dev m dir component).value = .ok found := by
  have hfinishes : Finishes (fs.lookup dev n dir component) := by simp [Finishes, h]
  rw [lookup_of_le hfinishes hle, h]

theorem lookup_value (h : Finishes (fs.lookup dev n dir component)) :
    ∃ found, (fs.lookup dev n dir component).value = .ok found := by
  unfold lookup Finishes at *
  dsimp only at *
  split <;> simp_all

/-- The search goes on in the directory that was found, and only there. -/
theorem follow_cons_finishes :
    Finishes (fs.follow dev n (component :: rest) dir) ↔
      Finishes (fs.lookup dev n dir component) ∧
        ∀ sub, (fs.lookup dev n dir component).value = .ok (some sub) → sub.isDir = true →
          Finishes (fs.follow dev n rest sub) := by
  constructor
  · intro h
    refine ⟨Finishes.of_bind h, fun sub hsub hdir => ?_⟩
    unfold Finishes follow at h
    rw [Logged.value_bind_ok hsub] at h
    simp only [hdir, if_true] at h
    exact h
  · rintro ⟨hlookup, hrest⟩
    obtain ⟨found, hfound⟩ := lookup_value hlookup
    unfold Finishes follow
    rw [Logged.value_bind_ok hfound]
    cases found with
    | none => simp
    | some sub =>
      cases hdir : sub.isDir with
      | false => simp [hdir]
      | true =>
        simp only [hdir, if_true]
        exact hrest sub hfound hdir

theorem follow_finishes_of_le (h : Finishes (fs.follow dev n components dir)) (hle : n ≤ m) :
    Finishes (fs.follow dev m components dir) := by
  induction components generalizing dir with
  | nil => exact finishes_pure _
  | cons component rest ih =>
    obtain ⟨hlookup, hrest⟩ := follow_cons_finishes.mp h
    have heq := lookup_of_le hlookup hle
    rw [follow_cons_finishes, heq]
    exact ⟨hlookup, fun sub hsub hdir => ih (hrest sub hsub hdir)⟩

theorem follow_finishes_iff :
    (∃ fuel, Finishes (fs.follow dev fuel components dir)) ↔
      ∀ d, fs.Enters dev components dir d → fs.ChainEnds dev d := by
  induction components generalizing dir with
  | nil =>
    constructor
    · rintro - d ⟨⟩
    · exact fun _ => ⟨0, finishes_pure _⟩
  | cons component rest ih =>
    constructor
    · rintro ⟨n, hn⟩ d hd
      obtain ⟨hlookup, hrest⟩ := follow_cons_finishes.mp hn
      cases hd with
      | here => exact listing_finishes_iff.mp ⟨n, lookup_finishes.mp hlookup⟩
      | @down _ _ _ sub _ m hsub hdir hd =>
        -- both amounts of fuel are enough, so the same directory was found
        have hfound : (fs.lookup dev n dir component).value = .ok (some sub) := by
          rw [← lookup_of_le hlookup (le_max_right m n)]
          exact lookup_ok_of_le hsub (le_max_left m n)
        exact ih.mp ⟨n, hrest sub hfound hdir⟩ d hd
    · intro h
      obtain ⟨n, hn⟩ := listing_finishes_iff.mpr (h dir (.here component rest dir))
      have hlookup : Finishes (fs.lookup dev n dir component) := lookup_finishes.mpr hn
      obtain ⟨found, hfound⟩ := lookup_value hlookup
      by_cases hgo : ∃ sub, found = some sub ∧ sub.isDir = true
      · obtain ⟨sub, rfl, hdir⟩ := hgo
        obtain ⟨m, hm⟩ := ih.mpr fun d hd => h d (.down hfound hdir hd)
        have heq := lookup_of_le hlookup (le_max_left n m)
        refine ⟨max n m, follow_cons_finishes.mpr ⟨heq ▸ hlookup, fun sub' hsub' _ => ?_⟩⟩
        rw [heq, hfound] at hsub'
        obtain rfl : sub = sub' := by simpa using hsub'
        exact follow_finishes_of_le hm (le_max_right n m)
      · refine ⟨n, follow_cons_finishes.mpr ⟨hlookup, fun sub hsub hdir => ?_⟩⟩
        rw [hfound] at hsub
        exact absurd ⟨sub, Except.ok.inj hsub, hdir⟩ hgo

theorem search_finishes_iff (path : List UInt8) :
    (∃ fuel, Finishes (fs.findEntry dev fuel path)) ↔
      ∀ d, fs.Enters dev (ExfatFs.components (trimSlashes path)) (dirAt fs.rootDirFirstCluster) d →
        fs.ChainEnds dev d := by
  rw [← follow_finishes_iff]
  unfold findEntry
  dsimp only
  split_ifs with hempty
  · rw [hempty]
    exact ⟨fun _ => ⟨0, finishes_pure _⟩, fun _ => ⟨0, finishes_pure _⟩⟩
  · rfl

/-! ### Files -/

/-- Every turn copies at least one byte. -/
theorem halts_readTurn (hsize : 0 < fs.bytesPerCluster) (targetLen : ℕ) (r : Reading) :
    Halts (move (unread targetLen) (fs.readTurn dev dir targetLen)) r := by
  apply halts_of_measure fun r => targetLen - r.out.length
  intro r next h
  obtain ⟨hmore, hvalue⟩ := move_eq_some.mp h
  simp only [unread, Bool.and_eq_true, decide_eq_true_eq] at hmore
  unfold readTurn at hvalue
  obtain ⟨buf, -, hvalue⟩ := Logged.value_bind_eq_ok.mp hvalue
  obtain ⟨cluster, -, hvalue⟩ := Logged.value_bind_eq_ok.mp hvalue
  obtain rfl := Except.ok.inj hvalue
  simp only [List.length_append, List.length_map, List.length_range]
  omega

theorem readFile_finishes (hsize : 0 < fs.bytesPerCluster) (w : ℕ) (start : UInt32)
    (dataLength : UInt64) (flag : Bool) (bufLen : ℕ) :
    ∃ fuel, Finishes (fs.readFile dev w fuel start dataLength flag bufLen) := by
  obtain ⟨n, hn⟩ := (loop_finishes_iff fun r => finishes_readTurn _ r).mpr
    (halts_readTurn hsize _ ⟨start, []⟩)
  exact ⟨n, Finishes.bind hn fun _ => finishes_pure _⟩

end ExfatFs

/-- On every volume that mounts, reading a file finishes, and the listing of a directory and the
search for a path finish exactly when the chains of the directories they list end. -/
theorem traversals_finish_iff {dev : BlockDev} {fs : ExfatFs}
    (hmount : (mount dev).value = .ok fs) :
    (∀ dir, (∃ fuel, Finishes (fs.listEntryDir dev fuel dir)) ↔ fs.ChainEnds dev dir) ∧
    (∀ path, (∃ fuel, Finishes (fs.findEntry dev fuel path)) ↔
      ∀ dir, fs.Enters dev (ExfatFs.components (ExfatFs.trimSlashes path))
        (ExfatFs.dirAt fs.rootDirFirstCluster) dir → fs.ChainEnds dev dir) ∧
    ∀ w start dataLength noFatChain bufLen,
      ∃ fuel, Finishes (fs.readFile dev w fuel start dataLength noFatChain bufLen) := by
  have hsize := (mount_geometry hmount).bytesPerCluster_pos
  refine ⟨fun dir => ?_, fun path => ?_, fun w start dataLength noFatChain bufLen => ?_⟩
  · exact ExfatFs.listing_finishes_iff
  · exact ExfatFs.search_finishes_iff path
  · exact ExfatFs.readFile_finishes hsize w start dataLength noFatChain bufLen

def oneCluster (link : List UInt8) : BlockDev
  | 0 => some (bootImage 3 [1] 0)
  | 1 => some (sectorOf [(8, link)])
  | 2 => some (sectorOf [])
  | _ => none

def oneClusterFs : ExfatFs := (BootSector.parse (bootImage 3 [1] 0)).volume

theorem mount_oneCluster (link : List UInt8) :
    (mount (oneCluster link)).value = .ok oneClusterFs :=
  mount_eq_ok.mpr ⟨bootImage 3 [1] 0, rfl, by decide +kernel, by decide +kernel, rfl⟩

/-- When the root directory is linked to itself, listing it and looking for a name in it never
end. -/
theorem self_linked_root_never_ends :
    (mount (oneCluster [2])).value = .ok oneClusterFs ∧ ∀ fuel,
      ¬ Finishes (oneClusterFs.listEntryDir (oneCluster [2]) fuel (ExfatFs.dirAt 2)) ∧
      ¬ Finishes (oneClusterFs.findEntry (oneCluster [2]) fuel (ascii "a")) := by
  have hcycle : iter (oneClusterFs.link (oneCluster [2]) (ExfatFs.dirAt 2)) 1 2 = some 2 := by
    decide +kernel
  have hchain : ¬ oneClusterFs.ChainEnds (oneCluster [2]) (ExfatFs.dirAt 2) := by
    rintro (hflag | hend)
    · cases hflag
    · exact absurd (hend 0 1 2 rfl hcycle) (by decide)
  have hroot : oneClusterFs.rootDirFirstCluster = 2 := by decide +kernel
  refine ⟨mount_oneCluster [2], fun fuel => ⟨fun h => ?_, fun h => ?_⟩⟩
  · exact hchain (ExfatFs.listing_finishes_iff.mp ⟨fuel, h⟩)
  · refine hchain ((ExfatFs.search_finishes_iff _).mp ⟨fuel, h⟩ _ ?_)
    rw [hroot]
    exact .here (ascii "a") [] (ExfatFs.dirAt 2)

theorem ended_root_is_listed :
    ∃ fuel, Finishes (oneClusterFs.listEntryDir (oneCluster [0xFF, 0xFF, 0xFF, 0xFF]) fuel
      (ExfatFs.dirAt 2)) := by
  refine ((traversals_finish_iff (mount_oneCluster _)).1 _).mpr (.inr ?_)
  refine halts_iff_noRepeat.mp ⟨2, ?_⟩
  decide +kernel

end OpenIon.Fs.Exfat
