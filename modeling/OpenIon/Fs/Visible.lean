import OpenIon.Fs.Mount
import OpenIon.Fs.Exfat.Mounted
import OpenIon.Lib.Run
import OpenIon.Shell.Path

/-! # When a mounted volume is visible

RAMFS is asked first, and the mount table knows targets only as they were written. A volume is
visible at its target as long as the target is not a node of RAMFS and the shell writes it in the
same way. A mount below such a target cannot exist, since its parent would be a node of RAMFS, and
nodes of RAMFS are lost only when `NODE_COUNT` wraps around, after which nothing can be mounted.
-/
namespace OpenIon.Fs
open Lib Exfat

variable {cfg : Config} {s s' : World} {m m' : MountInfo} {source target path : List UInt8}

/-! ### The mount table over whole runs -/

/-- The path has a last component, and what is before it is in RAMFS. -/
def Anchor (ramfs : Ramfs) (path : List UInt8) : Prop :=
  ∃ before name, path = before ++ slash :: name ∧ slash ∉ name ∧
    (before ≠ [] → ∃ id, ramfs.resolvePath before = .ok id)

/-- No two mounts have one path, and the parent of every mount point is in RAMFS, until
`NODE_COUNT` wraps around. -/
structure Anchored (cfg : Config) (s : World) : Prop where
  nodup : (s.mounts.reduceOption.map MountInfo.path).Nodup
  path_ne_nil : ∀ m ∈ s.mounts.reduceOption, m.path ≠ []
  parent : s.store.nodeCount ≠ 0 → ∀ m ∈ s.mounts.reduceOption, Anchor (s.store.view cfg) m.path
  count : s.store.nodeCount < 2 ^ cfg.w

/-- The target is not a node of RAMFS. -/
def NotInRamfs (cfg : Config) (target : List UInt8) (s : World) : Prop :=
  ∀ id, (s.store.view cfg).resolvePath target ≠ .ok id

theorem Anchor.ne_nil {ramfs : Ramfs} (h : Anchor ramfs path) : path ≠ [] := by
  obtain ⟨before, name, rfl, -⟩ := h
  simp

theorem Anchor.keeps {ramfs ramfs' : Ramfs} (h : Anchor ramfs path) (hkeeps : ramfs.Keeps ramfs') :
    Anchor ramfs' path := by
  obtain ⟨before, name, hpath, hname, hparent⟩ := h
  refine ⟨before, name, hpath, hname, fun hne => ?_⟩
  obtain ⟨id, hid⟩ := hparent hne
  exact ⟨id, hkeeps.resolvePath hid⟩

theorem validMountTarget_anchor {ramfs : Ramfs} (h : validMountTarget ramfs target = true) :
    Anchor ramfs target ∧ ∃ id v, ramfs.node id = some v := by
  unfold validMountTarget at h
  split_ifs at h with hroot
  cases hsplit : splitLast target with
  | none => simp [hsplit] at h
  | some cut =>
    obtain ⟨before, name⟩ := cut
    rw [hsplit] at h
    dsimp only at h
    by_cases hname : name = [] ∨ nameMax ≤ name.length ∨ slash ∈ name
    · simp [hname] at h
    rw [if_neg hname] at h
    cases hresolve : ramfs.resolvePath (if before = [] then [slash] else before) with
    | error e => simp [hresolve] at h
    | ok id =>
      refine ⟨⟨before, name, splitLast_eq_some hsplit, fun hs => hname (.inr (.inr hs)), ?_⟩, id, ?_⟩
      · intro hne
        rw [if_neg hne] at hresolve
        exact ⟨id, hresolve⟩
      · rw [hresolve] at h
        cases hnode : ramfs.node id with
        | none => simp [Ramfs.nodeFileType, hnode] at h
        | some v => exact ⟨v, rfl⟩

/-- A volume that `mount_fs` may enter into the table. -/
structure Mountable (cfg : Config) (s : World) (source target : List UInt8) (m : MountInfo) :
    Prop where
  path : m.path = target
  valid : validMountTarget (s.store.view cfg) target = true
  device : findBlockDevice cfg s.blocks source = some m.dev
  volume : (Exfat.mount (adapter cfg (s.media m.dev))).value = .ok m.fs
  fresh : ∀ m' ∈ s.mounts.reduceOption, m'.path ≠ target
  room : none ∈ s.mounts

/-- `mount_fs` fails and changes nothing, or enters the volume. -/
theorem mountFs_cases (cfg : Config) (s : World) (source target : List UInt8) :
    (∃ e, mountFs cfg s source target = (.error e, s)) ∨
      ∃ m, Mountable cfg s source target m ∧
        mountFs cfg s source target = (.ok (), { s with mounts := pushSlot m s.mounts }) := by
  unfold mountFs
  split_ifs with htarget hvalid
  · exact .inl ⟨_, rfl⟩
  · exact .inl ⟨_, rfl⟩
  cases hdev : findBlockDevice cfg s.blocks source with
  | none => exact .inl ⟨_, rfl⟩
  | some dev =>
    dsimp only
    cases hsector : s.media dev 0 with
    | none => exact .inl ⟨_, rfl⟩
    | some sector0 =>
      dsimp only
      split_ifs with hdetect
      · exact .inl ⟨_, rfl⟩
      cases hmount : (Exfat.mount (adapter cfg (s.media dev))).value with
      | error e => exact .inl ⟨_, rfl⟩
      | ok fs =>
        dsimp only
        unfold registerMount
        split_ifs with hbusy hroom
        · exact .inl ⟨_, rfl⟩
        · have hlen : target.take 63 = target := List.take_of_length_le (by omega)
          refine .inr ⟨⟨source.take 63, target.take 63, fs, dev⟩, ?_, rfl⟩
          refine ⟨hlen, by simpa using hvalid, hdev, hmount, fun m' hm' heq => ?_, hroom⟩
          rw [findSlot_eq_find, List.find?_isSome] at hbusy
          exact hbusy ⟨m', hm', by simpa using heq⟩
        · exact .inl ⟨_, rfl⟩

theorem Mountable.nodeCount_ne_zero (h : Mountable cfg s source target m) :
    s.store.nodeCount ≠ 0 := by
  obtain ⟨-, id, v, hnode⟩ := validMountTarget_anchor h.valid
  have hlt := (Store.node_lt ((Store.node_view id).symm.trans hnode)).1
  omega

theorem Anchored.store (h : Anchored cfg s) {store : Store} (hcount : store.nodeCount < 2 ^ cfg.w)
    (hkeeps : store.nodeCount ≠ 0 → s.store.nodeCount ≠ 0 ∧
      (s.store.view cfg).Keeps (store.view cfg)) : Anchored cfg { s with store := store } := by
  refine ⟨h.nodup, h.path_ne_nil, fun hne m hm => ?_, hcount⟩
  obtain ⟨hbefore, hsame⟩ := hkeeps hne
  exact (h.parent hbefore m hm).keeps hsame

theorem Anchored.mount (h : Anchored cfg s) (hm : Mountable cfg s source target m) :
    Anchored cfg { s with mounts := pushSlot m s.mounts } := by
  have hperm := reduceOption_pushSlot (x := m) hm.room
  have hanchor : Anchor (s.store.view cfg) m.path := hm.path ▸ (validMountTarget_anchor hm.valid).1
  refine ⟨?_, ?_, ?_, h.count⟩
  · rw [(hperm.map MountInfo.path).nodup_iff, List.map_cons, List.nodup_cons, hm.path]
    refine ⟨fun hmem => ?_, h.nodup⟩
    obtain ⟨m', hm', heq⟩ := List.mem_map.mp hmem
    exact hm.fresh m' hm' heq
  · intro m' hm'
    obtain rfl | hold := List.mem_cons.mp (hperm.mem_iff.mp hm')
    · exact hanchor.ne_nil
    · exact h.path_ne_nil m' hold
  · intro hne m' hm'
    obtain rfl | hold := List.mem_cons.mp (hperm.mem_iff.mp hm')
    · exact hanchor
    · exact h.parent hne m' hold

theorem Anchored.unmount (h : Anchored cfg s) (target : List UInt8) :
    Anchored cfg (Fs.unmount s target).2 := by
  have hsub : (Fs.unmount s target).2.mounts.reduceOption.Sublist s.mounts.reduceOption := by
    change (removeSlot _ s.mounts).reduceOption.Sublist _
    rw [reduceOption_removeSlot]
    exact List.eraseP_sublist
  exact ⟨h.nodup.sublist (hsub.map _), fun m hm => h.path_ne_nil m (hsub.subset hm),
    fun hne m hm => h.parent hne m (hsub.subset hm), h.count⟩

theorem Anchored.step {a : Action} (h : Anchored cfg s) (hstep : step cfg s a = some s') :
    Anchored cfg s' := by
  cases a with
  | createFile dir name | createDir dir name =>
    obtain rfl := Option.some.inj hstep
    exact h.store (Store.nodeCount_create_lt h.count _ dir name)
      (Store.keeps_create (fun _ => rfl) h.count)
  | writeFile file data =>
    obtain rfl := Option.some.inj hstep
    refine h.store ?_ fun hne => ⟨?_, Store.keeps_writeFile⟩
    · rw [Store.nodeCount_writeFile]
      exact h.count
    · rwa [Store.nodeCount_writeFile] at hne
  | mount source target =>
    obtain rfl := Option.some.inj hstep
    obtain ⟨e, heq⟩ | ⟨m, hm, heq⟩ := mountFs_cases cfg s source target
    · rwa [heq]
    · rw [heq]
      exact h.mount hm
  | unmount target =>
    obtain rfl := Option.some.inj hstep
    exact h.unmount target
  | setBlocks blocks =>
    obtain rfl := Option.some.inj hstep
    exact ⟨h.nodup, h.path_ne_nil, h.parent, h.count⟩
  | setMedia media =>
    obtain rfl := Option.some.inj hstep
    exact ⟨h.nodup, h.path_ne_nil, h.parent, h.count⟩

theorem boot_anchored (uninit : ℕ → Vnode) (blocks : List ℕ) (media : ℕ → BlockDev) :
    Anchored cfg (boot cfg uninit blocks media) := by
  refine ⟨by simp [boot, List.reduceOption], by simp [boot, List.reduceOption],
    by simp [boot, List.reduceOption], Store.nodeCount_init_lt (Nat.two_pow_pos _)⟩

/-- Only a mount enters a volume, and only unmounting its path removes it. -/
theorem mem_mounts_step {a : Action} (hstep : step cfg s a = some s') :
    (m ∈ s.mounts.reduceOption → a ≠ .unmount m.path → m ∈ s'.mounts.reduceOption) ∧
      (m ∈ s'.mounts.reduceOption → m ∈ s.mounts.reduceOption ∨
        ∃ source target, Mountable cfg s source target m) := by
  cases a with
  | mount source target =>
    obtain rfl := Option.some.inj hstep
    obtain ⟨e, heq⟩ | ⟨m', hm', heq⟩ := mountFs_cases cfg s source target
    · rw [heq]
      exact ⟨fun hm _ => hm, .inl⟩
    · rw [heq]
      have hperm := reduceOption_pushSlot (x := m') hm'.room
      refine ⟨fun hm _ => hperm.mem_iff.mpr (List.mem_cons_of_mem m' hm), fun hm => ?_⟩
      obtain rfl | hold := List.mem_cons.mp (hperm.mem_iff.mp hm)
      · exact .inr ⟨source, target, hm'⟩
      · exact .inl hold
  | unmount target =>
    obtain rfl := Option.some.inj hstep
    change (_ → _ → m ∈ (removeSlot _ s.mounts).reduceOption) ∧
      (m ∈ (removeSlot _ s.mounts).reduceOption → _)
    rw [reduceOption_removeSlot]
    constructor
    · intro hm hkept
      refine (List.mem_eraseP_of_neg ?_).mpr hm
      simpa using fun heq => hkept (by rw [heq])
    · exact fun hm => .inl (List.eraseP_subset hm)
  | createFile dir name => cases hstep; exact ⟨fun hm _ => hm, .inl⟩
  | createDir dir name => cases hstep; exact ⟨fun hm _ => hm, .inl⟩
  | writeFile file data => cases hstep; exact ⟨fun hm _ => hm, .inl⟩
  | setBlocks blocks => cases hstep; exact ⟨fun hm _ => hm, .inl⟩
  | setMedia media => cases hstep; exact ⟨fun hm _ => hm, .inl⟩

/-! ### The nearest mount -/

theorem leadsTo_iff {mp : List UInt8} :
    leadsTo mp path = true ↔ path = mp ∨ ∃ rest, path = mp ++ slash :: rest := by
  unfold leadsTo
  rw [decide_eq_true_eq, List.isPrefixOf_iff_prefix]
  refine or_congr_right ⟨?_, ?_⟩
  · rintro ⟨⟨rest, rfl⟩, hslash⟩
    cases rest with
    | nil => simp at hslash
    | cons c rest =>
      obtain rfl : c = slash := by simpa using hslash
      exact ⟨rest, rfl⟩
  · rintro ⟨rest, rfl⟩
    exact ⟨⟨slash :: rest, rfl⟩, by simp⟩

theorem foldl_better_of_le {l : List MountInfo} {best : Option MountLookup × ℕ}
    (h : ∀ m ∈ l, leadsTo m.path path = true → m.path.length ≤ best.2) :
    l.foldl (better path) best = best := by
  induction l with
  | nil => rfl
  | cons m l ih =>
    rw [List.forall_mem_cons] at h
    have hstay : better path best m = best := if_neg fun hb => absurd (h.1 hb.1) (by omega)
    rw [List.foldl_cons, hstay, ih h.2]

theorem foldl_better {l : List MountInfo} {best : Option MountLookup × ℕ} (hm : m ∈ l)
    (hleads : leadsTo m.path path = true)
    (hother : ∀ m' ∈ l, leadsTo m'.path path = true → m' = m ∨ m'.path.length < m.path.length)
    (hbest : best.2 < m.path.length) :
    (l.foldl (better path) best).1 = some ⟨m.fs, m.path.length, m.dev⟩ := by
  induction l generalizing best with
  | nil => simp at hm
  | cons x l ih =>
    rw [List.forall_mem_cons] at hother
    rw [List.foldl_cons]
    by_cases hx : x = m
    · subst hx
      have htake : better path best x = (some ⟨x.fs, x.path.length, x.dev⟩, x.path.length) :=
        if_pos ⟨hleads, hbest⟩
      rw [htake, foldl_better_of_le]
      intro m' hm' hm'leads
      obtain rfl | hlt := hother.2 m' hm' hm'leads
      · exact le_rfl
      · exact hlt.le
    · refine ih ((List.mem_cons.mp hm).resolve_left (Ne.symm hx)) hother.2 ?_
      unfold better
      split_ifs with hb
      · exact (hother.1 hb.1).resolve_left hx
      · exact hbest

/-- The parent of a mount below a mount point is a node of RAMFS, and so is the mount point. -/
theorem Anchor.nested {ramfs : Ramfs} {x : List UInt8} (h : Anchor ramfs path) (htarget : target ≠ [])
    (hpath : path = target ++ slash :: x) : ∃ id, ramfs.resolvePath target = .ok id := by
  obtain ⟨before, name, hsplit, hname, hparent⟩ := h
  obtain ⟨as, hbefore, has⟩ | ⟨as, hbefore, has⟩ :=
    List.append_eq_append_iff.mp (hpath.symm.trans hsplit)
  · obtain ⟨id, hid⟩ := hparent (by simp [hbefore, htarget])
    cases as with
    | nil => exact ⟨id, by rwa [hbefore, List.append_nil] at hid⟩
    | cons c as =>
      obtain ⟨rfl, -⟩ := List.cons.inj has
      exact Ramfs.resolvePath_append (hbefore ▸ hid)
  · cases as with
    | nil =>
      rw [List.append_nil] at hbefore
      obtain ⟨id, hid⟩ := hparent (hbefore ▸ htarget)
      exact ⟨id, hbefore ▸ hid⟩
    | cons c as =>
      refine absurd ?_ hname
      rw [(List.cons.inj has).2]
      exact List.mem_append_right as List.mem_cons_self

/-- The volume is mounted, and nothing is mounted below it. -/
structure Alone (m : MountInfo) (s : World) : Prop where
  mounted : m ∈ s.mounts.reduceOption
  below : ∀ m' ∈ s.mounts.reduceOption, ∀ x, m'.path ≠ m.path ++ slash :: x

theorem Alone.step {a : Action} (h : Alone m s) (hne : m.path ≠ [])
    (hfree : NotInRamfs cfg m.path s) (hkept : a ≠ .unmount m.path)
    (hstep : step cfg s a = some s') : Alone m s' := by
  refine ⟨(mem_mounts_step hstep).1 h.mounted hkept, fun m' hm' x hpath => ?_⟩
  obtain hold | ⟨source, target, hnew⟩ := (mem_mounts_step hstep).2 hm'
  · exact h.below m' hold x hpath
  · have hanchor := (validMountTarget_anchor hnew.valid).1
    obtain ⟨id, hid⟩ := hanchor.nested hne (hnew.path.symm.trans hpath)
    exact hfree id hid

theorem Alone.run {as : List Action} (h : Alone m s) (hne : m.path ≠ [])
    (hfree : Always (Fs.step cfg) (NotInRamfs cfg m.path) s as) (hkept : .unmount m.path ∉ as)
    (hrun : Lib.run (Fs.step cfg) s as = some s') : Alone m s' := by
  induction as generalizing s with
  | nil => exact Option.some.inj hrun ▸ h
  | cons a as ih =>
    obtain ⟨mid, hmid, hrest⟩ := run_cons_eq_some.mp hrun
    rw [List.mem_cons, not_or] at hkept
    exact ih (h.step hne hfree.1 (Ne.symm hkept.1) hmid) (hfree.2 mid hmid) hkept.2 hrest

/-- After a mount at a path that is not in RAMFS nothing is mounted below it. -/
theorem Anchored.alone (h : Anchored cfg s) (hm : Mountable cfg s source target m)
    (hfree : NotInRamfs cfg target s) : Alone m { s with mounts := pushSlot m s.mounts } := by
  have hlater := h.mount hm
  have hmem : m ∈ (pushSlot m s.mounts).reduceOption :=
    (reduceOption_pushSlot hm.room).mem_iff.mpr List.mem_cons_self
  refine ⟨hmem, fun m' hm' x hpath => ?_⟩
  have hanchor := hlater.parent hm.nodeCount_ne_zero m' hm'
  obtain ⟨id, hid⟩ := hanchor.nested (hlater.path_ne_nil m hmem) hpath
  exact hfree id (hm.path ▸ hid)

/-- A mount with nothing below it answers for its target and for all paths below. -/
theorem Anchored.findMount (h : Anchored cfg s) (hm : Alone m s)
    (hpath : path = m.path ∨ ∃ rest, path = m.path ++ slash :: rest) :
    findMountForPath s.mounts path = some ⟨m.fs, m.path.length, m.dev⟩ := by
  have hne := h.path_ne_nil m hm.mounted
  refine foldl_better hm.mounted (leadsTo_iff.mpr hpath) (fun m' hm' hleads => ?_)
    (List.length_pos_of_ne_nil hne)
  have hsame : m'.path = m.path → m' = m := fun heq => List.inj_on_of_nodup_map h.nodup hm' hm.mounted heq
  obtain ⟨u, hu, hslash⟩ : ∃ u, path = m.path ++ u ∧ ∀ c as, u = c :: as → c = slash := by
    obtain rfl | ⟨rest, rfl⟩ := hpath
    · exact ⟨[], by simp, by simp⟩
    · exact ⟨slash :: rest, rfl, fun c as heq => (List.cons.inj heq).1.symm⟩
  obtain ⟨u', hu'⟩ : ∃ u', path = m'.path ++ u' := by
    obtain heq | ⟨rest, heq⟩ := leadsTo_iff.mp hleads
    · exact ⟨[], by simp [heq]⟩
    · exact ⟨_, heq⟩
  -- of the two mount points one starts with the other
  obtain ⟨as, hm'path, has⟩ | ⟨as, hmpath, -⟩ := List.append_eq_append_iff.mp (hu.symm.trans hu')
  · cases as with
    | nil => exact .inl (hsame (by rw [hm'path, List.append_nil]))
    | cons c as =>
      obtain rfl := hslash c _ (has.trans List.cons_append)
      exact absurd hm'path (hm.below m' hm' as)
  · cases as with
    | nil => exact .inl (hsame (by rw [hmpath, List.append_nil]))
    | cons c as =>
      right
      rw [hmpath, List.length_append, List.length_cons]
      omega

/-! ### The view of the shell -/

theorem answer_of_free (cfg : Config) (fuel : ℕ) {found : MountLookup}
    (hfree : NotInRamfs cfg path s)
    (hfound : findMountForPath s.mounts path = some found) :
    s.pathFileType cfg fuel path =
        volumeFileType found.fs (adapter cfg (s.media found.dev)) fuel
          (trimStart (path.drop found.pathLen)) ∧
      s.listDirectoryEntries cfg fuel path =
        volumeList found.fs (adapter cfg (s.media found.dev)) fuel
          (trimStart (path.drop found.pathLen)) := by
  unfold World.pathFileType World.listDirectoryEntries World.listPath
  cases hresolve : (s.store.view cfg).resolvePath path with
  | ok id => exact absurd hresolve (hfree id)
  | error e => simp [hfound]

theorem log_volumeList_root {fs : ExfatFs} {dev : BlockDev} {fuel : ℕ} :
    (volumeList fs dev fuel []).log =
      reportedEntries (fs.listEntryDir dev fuel (ExfatFs.dirAt fs.rootDirFirstCluster)).log := by
  have hfind : (fs.findEntry dev fuel []).value =
      .ok (some (ExfatFs.dirAt fs.rootDirFirstCluster)) := rfl
  have hdir : (ExfatFs.dirAt fs.rootDirFirstCluster).isDir = true := rfl
  unfold volumeList
  rw [hfind]
  dsimp only
  rw [if_pos hdir, Logged.log_bind_ok (Logged.value_tellAll _), Logged.log_tellAll]
  split <;> simp

/-- After a successful mount, until it is unmounted and as long as the target is not a node of
RAMFS, a target that the shell leaves as it is written shows the mounted volume: it is a directory,
its entries are those of the root directory of the volume, and every path below it is answered by
the volume and not by RAMFS. -/
theorem mounted_volume_visible {uninit : ℕ → Vnode} {blocks : List ℕ} {media : ℕ → BlockDev}
    {as bs : List Action} {s s₁ s₂ : World} {source target cwd : List UInt8}
    (hs : run (step cfg) (boot cfg uninit blocks media) as = some s)
    (hmount : mountFs cfg s source target = (.ok (), s₁))
    (hrun : run (step cfg) s₁ bs = some s₂) (hkept : Action.unmount target ∉ bs)
    (hnorm : Shell.normalizePath cwd target = some target)
    (hfree : Always (step cfg) (NotInRamfs cfg target) s₁ bs) :
    ∃ dev fs, findBlockDevice cfg s.blocks source = some dev ∧
      (Exfat.mount (adapter cfg (s.media dev))).value = .ok fs ∧ ∀ fuel,
      (Shell.normalizePath cwd target).map (s₂.pathFileType cfg fuel) =
        some (.ok (some .directory)) ∧
      (Shell.normalizePath cwd target).map (fun path =>
          (s₂.listDirectoryEntries cfg fuel path).log) =
        some (reportedEntries (fs.listEntryDir (adapter cfg (s₂.media dev)) fuel
          (ExfatFs.dirAt fs.rootDirFirstCluster)).log) ∧
      ∀ arg path rest, Shell.normalizePath cwd arg = some path → path = target ++ slash :: rest →
        NotInRamfs cfg path s₂ ∧
        s₂.pathFileType cfg fuel path =
          volumeFileType fs (adapter cfg (s₂.media dev)) fuel (trimStart rest) ∧
        s₂.listDirectoryEntries cfg fuel path =
          volumeList fs (adapter cfg (s₂.media dev)) fuel (trimStart rest) := by
  obtain ⟨e, heq⟩ | ⟨m, hm, heq⟩ := mountFs_cases cfg s source target
  · cases hmount.symm.trans heq
  obtain rfl : s₁ = { s with mounts := pushSlot m s.mounts } :=
    (Prod.mk.inj (hmount.symm.trans heq)).2
  have hanchored : Anchored cfg s := run_preserves (fun _ _ _ h => h.step) (boot_anchored _ _ _) hs
  have hmounted := hanchored.mount hm
  have hlater : Anchored cfg s₂ := run_preserves (fun _ _ _ h => h.step) hmounted hrun
  have halone := hanchored.alone hm hfree.head
  obtain rfl : m.path = target := hm.path
  have halone := halone.run (hmounted.path_ne_nil m halone.mounted) hfree hkept hrun
  have hlast := hfree.last hrun
  refine ⟨m.dev, m.fs, hm.device, hm.volume, fun fuel => ?_⟩
  have htarget := answer_of_free cfg fuel hlast (hlater.findMount halone (.inl rfl))
  rw [List.drop_length] at htarget
  refine ⟨?_, ?_, ?_⟩
  · rw [hnorm, Option.map_some, htarget.1]
    rfl
  · rw [hnorm, Option.map_some, htarget.2]
    exact congrArg some log_volumeList_root
  · rintro arg path rest - rfl
    have hbelow : NotInRamfs cfg (m.path ++ slash :: rest) s₂ := by
      intro id hid
      obtain ⟨mid, hmid⟩ := Ramfs.resolvePath_append hid
      exact hlast mid hmid
    have hanswer := answer_of_free cfg fuel hbelow (hlater.findMount halone (.inr ⟨rest, rfl⟩))
    rw [List.drop_left] at hanswer
    exact ⟨hbelow, hanswer⟩

/-! ### A disk with one file -/

/-- One cluster of two sectors with the file `a` in the root directory. -/
def oneFileDisk : BlockDev
  | 0 => some (bootImage 4 [1] 1)
  | 1 => some (sectorOf [(8, [0xFF, 0xFF, 0xFF, 0xFF])])
  | 2 => some (sectorOf [(0, [0x85]), (32, [0xC0, 0, 0, 1]), (64, [0xC1, 0] ++ ascii "a")])
  | 3 => some (sectorOf [])
  | _ => none

def diskConfig : Config := ⟨64, 64, 4096⟩

def bareNodes : ℕ → Vnode := fun _ => .newDir []

def diskBoot : World := boot diskConfig bareNodes [0] fun _ => oneFileDisk

def blk0 : List UInt8 := ascii "/dev/blk0"
def mntPath : List UInt8 := ascii "/mnt"
def sdPath : List UInt8 := ascii "/sd"

theorem disk_visible_at_sd :
    Shell.normalizePath [slash] sdPath = some sdPath ∧
    ∃ dev fs, findBlockDevice diskConfig [0] blk0 = some dev ∧
      (Exfat.mount (adapter diskConfig oneFileDisk)).value = .ok fs ∧
      ((mountFs diskConfig diskBoot blk0 sdPath).2.listDirectoryEntries diskConfig 2 sdPath).log =
        reportedEntries (fs.listEntryDir (adapter diskConfig oneFileDisk) 2
          (ExfatFs.dirAt fs.rootDirFirstCluster)).log := by
  have hnorm : Shell.normalizePath [slash] sdPath = some sdPath := by decide +kernel
  have hok : (mountFs diskConfig diskBoot blk0 sdPath).1 = .ok () := by decide +kernel
  have hfree : NotInRamfs diskConfig sdPath (mountFs diskConfig diskBoot blk0 sdPath).2 := by
    have herror : ((mountFs diskConfig diskBoot blk0 sdPath).2.store.view
      diskConfig).resolvePath sdPath = .error .notFound := by decide +kernel
    intro id
    simp [herror]
  have hboot : run (step diskConfig) (boot diskConfig bareNodes [0] fun _ => oneFileDisk) [] =
      some diskBoot := rfl
  have hrun : run (step diskConfig) (mountFs diskConfig diskBoot blk0 sdPath).2 [] =
      some (mountFs diskConfig diskBoot blk0 sdPath).2 := rfl
  obtain ⟨dev, fs, hdev, hfs, hview⟩ :=
    mounted_volume_visible hboot (Prod.ext hok rfl) hrun List.not_mem_nil hnorm hfree
  have hlist := (hview 2).2.1
  rw [hnorm] at hlist
  exact ⟨hnorm, dev, fs, hdev, hfs, Option.some.inj hlist⟩

/-- Mounting at `/mnt` succeeds and shows the empty directory of RAMFS instead of the disk. -/
theorem mounted_volume_hidden :
    (mountFs diskConfig diskBoot blk0 mntPath).1 = .ok () ∧
      Shell.normalizePath [slash] mntPath = some mntPath ∧
      ((mountFs diskConfig diskBoot blk0 mntPath).2.listDirectoryEntries diskConfig 2 mntPath).log =
        [] ∧
      ((mountFs diskConfig diskBoot blk0 sdPath).2.listDirectoryEntries diskConfig 2 sdPath).log =
        [⟨ascii "a", .file⟩] := by
  refine ⟨?_, ?_, ?_, ?_⟩ <;> decide +kernel

end OpenIon.Fs
