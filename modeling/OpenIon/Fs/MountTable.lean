import OpenIon.Fs.Visible
import Mathlib.Data.Set.Finite.List
import Mathlib.Data.Set.Finite.Lemmas

/-! # The mount table as a map from paths to volumes

Whatever is mounted and unmounted, the table is a set of at most four volumes at different paths.
Mounting adds one, unmounting takes one out, and a path is answered by the volume whose mount point
is the longest path that leads to it.
-/
namespace OpenIon.Fs
open Lib

def World.volumes (s : World) : List MountInfo := s.mounts.reduceOption

/-- The path is the mount point, or it starts with the mount point and a slash. -/
def Below (mp path : List UInt8) : Prop := path = mp ∨ ∃ rest, path = mp ++ slash :: rest

/-- What the calls on the mount table promise in the state `s`. -/
structure MountTable (cfg : Config) (s : World) : Prop where
  distinct : (s.volumes.map MountInfo.path).Nodup
  atMostFour : s.volumes.length ≤ 4
  mountOk : ∀ source target s', mountFs cfg s source target = (.ok (), s') →
    ∃ m, m.path = target ∧ s'.volumes.Perm (m :: s.volumes)
  mountFails : ∀ source target e s', mountFs cfg s source target = (.error e, s') →
    s'.mounts = s.mounts
  unmountOk : ∀ target s', unmount s target = (true, s') →
    ∃ m, m.path = target ∧ s.volumes.Perm (m :: s'.volumes)
  unmountFails : ∀ target s', unmount s target = (false, s') → s'.mounts = s.mounts
  notFound : ∀ path, findMountForPath s.mounts path = none ↔ ∀ m ∈ s.volumes, ¬ Below m.path path
  found : ∀ path lookup, findMountForPath s.mounts path = some lookup →
    ∃ m ∈ s.volumes, Below m.path path ∧ lookup = ⟨m.fs, m.path.length, m.dev⟩ ∧
      ∀ m' ∈ s.volumes, Below m'.path path → m' = m ∨ m'.path.length < m.path.length

variable {cfg : Config} {s s' : World} {m m' : MountInfo} {path target : List UInt8}

theorem Below.take {mp : List UInt8} (h : Below mp path) : path.take mp.length = mp := by
  obtain rfl | ⟨rest, rfl⟩ := h
  · exact List.take_length
  · exact List.take_left

/-- Of the mount points that lead to a path no two have one length. -/
theorem Anchored.eq_of_length (h : Anchored cfg s) (hm : m ∈ s.volumes) (hm' : m' ∈ s.volumes)
    (hbelow : Below m.path path) (hbelow' : Below m'.path path)
    (hlength : m'.path.length = m.path.length) : m' = m := by
  apply List.inj_on_of_nodup_map h.nodup hm' hm
  rw [← hbelow.take, ← hbelow'.take, hlength]

theorem Anchored.exists_longest (h : Anchored cfg s) (hsome : ∃ m ∈ s.volumes, Below m.path path) :
    ∃ m ∈ s.volumes, Below m.path path ∧
      ∀ m' ∈ s.volumes, Below m'.path path → m' = m ∨ m'.path.length < m.path.length := by
  have hfinite : {m | m ∈ s.volumes ∧ Below m.path path}.Finite :=
    s.volumes.finite_toSet.subset fun m hm => hm.1
  obtain ⟨m, ⟨hm, hbelow⟩, hmax⟩ :=
    Set.exists_max_image _ (fun m : MountInfo => m.path.length) hfinite hsome
  refine ⟨m, hm, hbelow, fun m' hm' hbelow' => ?_⟩
  obtain heq | hlt := (hmax m' ⟨hm', hbelow'⟩).eq_or_lt
  · exact .inl (h.eq_of_length hm hm' hbelow hbelow' heq)
  · exact .inr hlt

theorem Anchored.findMount_longest (h : Anchored cfg s) (hm : m ∈ s.volumes)
    (hbelow : Below m.path path)
    (hlongest : ∀ m' ∈ s.volumes, Below m'.path path → m' = m ∨ m'.path.length < m.path.length) :
    findMountForPath s.mounts path = some ⟨m.fs, m.path.length, m.dev⟩ := by
  apply foldl_better hm (leadsTo_iff.mpr hbelow)
  · intro m' hm' hleads
    exact hlongest m' hm' (leadsTo_iff.mp hleads)
  · exact List.length_pos_of_ne_nil (h.path_ne_nil m hm)

theorem findMount_none (hnone : ∀ m ∈ s.volumes, ¬ Below m.path path) :
    findMountForPath s.mounts path = none := by
  unfold findMountForPath
  rw [foldl_better_of_le]
  intro m hm hleads
  exact absurd (leadsTo_iff.mp hleads) (hnone m hm)

theorem unmount_perm (htrue : (unmount s target).1 = true) :
    ∃ m, m.path = target ∧ s.volumes.Perm (m :: (unmount s target).2.volumes) := by
  change (findSlot _ s.mounts).isSome = true at htrue
  obtain ⟨m, hfind⟩ := Option.isSome_iff_exists.mp htrue
  rw [findSlot_eq_find] at hfind
  refine ⟨m, by simpa using List.find?_some hfind, ?_⟩
  change s.volumes.Perm (m :: (removeSlot _ s.mounts).reduceOption)
  rw [reduceOption_removeSlot, eraseP_eq_erase hfind]
  exact List.perm_cons_erase (List.mem_of_find?_eq_some hfind)

theorem unmount_unchanged (hfalse : (unmount s target).1 = false) :
    (unmount s target).2.mounts = s.mounts := by
  change (findSlot _ s.mounts).isSome = false at hfalse
  have hnone := Option.isNone_iff_eq_none.mp (Option.isSome_eq_false_iff.mp hfalse)
  exact removeSlot_of_findSlot_eq_none hnone

theorem Anchored.mountTable (h : Anchored cfg s) (hlength : s.mounts.length = 4) :
    MountTable cfg s where
  distinct := h.nodup
  atMostFour := hlength ▸ List.reduceOption_length_le s.mounts
  mountOk source target s' hmount := by
    obtain ⟨e, heq⟩ | ⟨m, hm, heq⟩ := mountFs_cases cfg s source target
    · rw [heq] at hmount
      cases hmount
    · rw [heq] at hmount
      obtain ⟨-, rfl⟩ := Prod.mk.inj hmount
      exact ⟨m, hm.path, reduceOption_pushSlot hm.room⟩
  mountFails source target e s' hmount := by
    obtain ⟨e, heq⟩ | ⟨m, hm, heq⟩ := mountFs_cases cfg s source target
    · rw [heq] at hmount
      obtain ⟨-, rfl⟩ := Prod.mk.inj hmount
      rfl
    · rw [heq] at hmount
      cases hmount
  unmountOk target s' hunmount := by
    have hperm := unmount_perm (congrArg Prod.fst hunmount)
    rwa [hunmount] at hperm
  unmountFails target s' hunmount := by
    have hsame := unmount_unchanged (congrArg Prod.fst hunmount)
    rwa [hunmount] at hsame
  notFound path := by
    refine ⟨fun hnone m hm hbelow => ?_, findMount_none⟩
    obtain ⟨m, hm, hbelow, hlongest⟩ := h.exists_longest ⟨m, hm, hbelow⟩
    rw [h.findMount_longest hm hbelow hlongest] at hnone
    cases hnone
  found path lookup hsome := by
    by_cases hexists : ∃ m ∈ s.volumes, Below m.path path
    · obtain ⟨m, hm, hbelow, hlongest⟩ := h.exists_longest hexists
      rw [h.findMount_longest hm hbelow hlongest] at hsome
      exact ⟨m, hm, hbelow, (Option.some.inj hsome).symm, hlongest⟩
    · rw [findMount_none fun m hm hbelow => hexists ⟨m, hm, hbelow⟩] at hsome
      cases hsome

theorem mounts_length_step {a : Action} (hstep : step cfg s a = some s') :
    s'.mounts.length = s.mounts.length := by
  cases a with
  | mount source target =>
    obtain rfl := Option.some.inj hstep
    obtain ⟨e, heq⟩ | ⟨m, -, heq⟩ := mountFs_cases cfg s source target
    · rw [heq]
    · rw [heq]
      exact length_pushSlot
  | unmount target =>
    obtain rfl := Option.some.inj hstep
    exact length_removeSlot
  | createFile dir name => cases hstep; rfl
  | createDir dir name => cases hstep; rfl
  | writeFile file data => cases hstep; rfl
  | setBlocks blocks => cases hstep; rfl
  | setMedia media => cases hstep; rfl

/-- In every run the calls on the mount table keep what they promise. -/
theorem mount_table_correct (cfg : Config) (uninit : ℕ → Vnode) (blocks : List ℕ)
    (media : ℕ → Exfat.BlockDev) (as : List Action) :
    Always (step cfg) (MountTable cfg) (boot cfg uninit blocks media) as := by
  have halways : Always (step cfg) (fun s => Anchored cfg s ∧ s.mounts.length = 4)
      (boot cfg uninit blocks media) as := by
    apply always_of_step
    · rintro s a s' ⟨h, hlength⟩ hstep
      exact ⟨h.step hstep, (mounts_length_step hstep).trans hlength⟩
    · exact ⟨boot_anchored uninit blocks media, rfl⟩
  exact halways.imp fun s h => h.1.mountTable h.2

end OpenIon.Fs
