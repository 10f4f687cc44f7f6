import OpenIon.Fs.Exfat.Boundaries
import OpenIon.Fs.Exfat.Terminates
import Mathlib.Data.List.Nodup

/-! # Where the search for a path leads

`find_entry` looks at the first eight components that are not empty and stops at the first file.
In a volume without duplicate names it therefore finds what the components lead to as long as
none of these eight but the last names a file and the others lead nowhere else.
-/
namespace OpenIon.Fs.Exfat
open Lib

namespace ExfatFs

variable {fs : ExfatFs} {dev : BlockDev} {dir sub e : ExfatEntry} {n m : ℕ}
  {component : List UInt8} {pre rest components : List (List UInt8)} {path : List UInt8}

def Lists (fs : ExfatFs) (dev : BlockDev) (dir entry : ExfatEntry) : Prop :=
  ∃ fuel, entry ∈ reported (fs.listEntryDir dev fuel dir).log

/-- The components lead from the directory to the entry: each names an entry of the directory
before, and all but the last name directories. -/
def Reaches (fs : ExfatFs) (dev : BlockDev) : List (List UInt8) → ExfatEntry → ExfatEntry → Prop
  | [], dir, e => e = dir
  | component :: rest, dir, e => ∃ sub, fs.Lists dev dir sub ∧ sub.name = component ∧
      (rest ≠ [] → sub.isDir = true) ∧ Reaches fs dev rest sub e

/-- The directories in which the components are looked up. -/
def OnWay (fs : ExfatFs) (dev : BlockDev) : List (List UInt8) → ExfatEntry → ExfatEntry → Prop
  | [], _, _ => False
  | component :: rest, dir, d => d = dir ∨ ∃ sub, fs.Lists dev dir sub ∧ sub.name = component ∧
      sub.isDir = true ∧ OnWay fs dev rest sub d

/-- No directory below this one reports two entries with the same name. -/
def NamesDistinct (fs : ExfatFs) (dev : BlockDev) (dir : ExfatEntry) : Prop :=
  ∀ components d, fs.Reaches dev components dir d → d.isDir = true →
    ∀ fuel, ((reported (fs.listEntryDir dev fuel d).log).map ExfatEntry.name).Nodup

def root (fs : ExfatFs) : ExfatEntry := dirAt fs.rootDirFirstCluster

/-- `find_entry` returns only the entry to which all components of the path lead, and it returns
an entry when there is one and the directories on the way can be read. -/
def FindsPath (fs : ExfatFs) (dev : BlockDev) (path : List UInt8) : Prop :=
  (∀ fuel e, (fs.findEntry dev fuel path).value = .ok (some e) →
    fs.Reaches dev (parts path) fs.root e) ∧
  ∀ e, fs.Reaches dev (parts path) fs.root e →
    (∀ d, fs.OnWay dev (parts path) fs.root d →
      ∃ fuel, (fs.listEntryDir dev fuel d).value = .ok ()) →
    ∃ fuel, ∀ m ≥ fuel, ∃ e', (fs.findEntry dev m path).value = .ok (some e')

/-- A component before the last one does not name a file, unless a listing on the way never ends. -/
def NoFileOnWay (fs : ExfatFs) (dev : BlockDev) (components : List (List UInt8))
    (dir : ExfatEntry) : Prop :=
  ∀ pre rest e, components = pre ++ rest → rest ≠ [] → fs.Reaches dev pre dir e →
    (∀ d, fs.OnWay dev pre dir d → ∃ fuel, Finishes (fs.listEntryDir dev fuel d)) →
      e.isDir = true

/-- None of the first eight components but the last names a file, and the entry that they lead to
is the one that all components lead to. -/
def FirstEightLead (fs : ExfatFs) (dev : BlockDev) (path : List UInt8) : Prop :=
  fs.NoFileOnWay dev (ExfatFs.components path) fs.root ∧
    ∀ e, fs.Reaches dev (ExfatFs.components path) fs.root e →
      (∀ d, fs.OnWay dev (ExfatFs.components path) fs.root d →
        ∃ fuel, Finishes (fs.listEntryDir dev fuel d)) →
      fs.Reaches dev (parts path) fs.root e

/-! ### One component -/

theorem log_listEntryDir_of_le (hle : n ≤ m) {event : Event}
    (h : event ∈ (fs.listEntryDir dev n dir).log) : event ∈ (fs.listEntryDir dev m dir).log := by
  have hlog : ∀ k, (fs.listEntryDir dev k dir).log =
      (loop .fuel (· != 0) (fs.listTurn dev dir) k dir.firstCluster).log := by
    intro k
    unfold listEntryDir
    cases hvalue : (loop .fuel (· != 0) (fs.listTurn dev dir) k dir.firstCluster).value with
    | error stop => exact Logged.log_bind_error hvalue _
    | ok c => rw [Logged.log_bind_ok hvalue]; simp
  rw [hlog] at h ⊢
  exact all_loop_of_le (P := fun e => e ∈ (loop .fuel (· != 0) (fs.listTurn dev dir) m
    dir.firstCluster).log) (fun _ he => he) hle event h

theorem mem_reported {log : List Event} : e ∈ reported log ↔ .entry e ∈ log := by
  simp only [reported, List.mem_filterMap]
  constructor
  · rintro ⟨event, hmem, hsome⟩
    cases event with
    | entry d =>
      obtain rfl : d = e := Option.some.inj hsome
      exact hmem
    | cluster | sector | overflow => cases hsome
  · exact fun h => ⟨_, h, rfl⟩

/-- A listing that finishes reports all that any listing reports. -/
theorem lists_iff (h : Finishes (fs.listEntryDir dev n dir)) :
    fs.Lists dev dir e ↔ e ∈ reported (fs.listEntryDir dev n dir).log := by
  constructor
  · rintro ⟨m, hm⟩
    rw [← listEntryDir_of_le h (le_max_left n m)]
    exact mem_reported.mpr (log_listEntryDir_of_le (le_max_right n m) (mem_reported.mp hm))
  · exact fun he => ⟨n, he⟩

/-- Names are distinct, so that a name stands for one entry. -/
theorem Lists.unique (hdistinct : ∀ fuel,
      ((reported (fs.listEntryDir dev fuel dir).log).map ExfatEntry.name).Nodup)
    (h : fs.Lists dev dir sub) (h' : fs.Lists dev dir e) (hname : sub.name = e.name) : sub = e := by
  obtain ⟨n, hn⟩ := h
  obtain ⟨m, hm⟩ := h'
  have hn := mem_reported.mpr (log_listEntryDir_of_le (le_max_left n m) (mem_reported.mp hn))
  have hm := mem_reported.mpr (log_listEntryDir_of_le (le_max_right n m) (mem_reported.mp hm))
  exact List.inj_on_of_nodup_map (hdistinct (max n m)) hn hm hname

theorem lastNamed_eq (component : List UInt8) (log : List Event) :
    lastNamed component log = (reported log).reverse.find? fun e => e.name = component := by
  induction log using List.reverseRecOn with
  | nil => rfl
  | append_singleton log event ih =>
    rw [lastNamed, List.foldl_append, reported_append, List.reverse_append]
    rw [lastNamed] at ih
    cases event with
    | entry d =>
      by_cases hd : d.name = component
      · simp [reported, hd]
      · simpa [reported, hd] using ih
    | cluster | sector | overflow => simpa [reported] using ih

theorem lookup_eq (h : Finishes (fs.listEntryDir dev n dir)) :
    (fs.lookup dev n dir component).value =
      .ok (lastNamed component (fs.listEntryDir dev n dir).log) := by
  unfold lookup
  dsimp only
  split
  next hfuel => exact absurd hfuel h
  next => rfl

theorem lookup_eq_some (h : Finishes (fs.listEntryDir dev n dir)) (hdistinct : ∀ fuel,
      ((reported (fs.listEntryDir dev fuel dir).log).map ExfatEntry.name).Nodup) :
    (fs.lookup dev n dir component).value = .ok (some e) ↔
      fs.Lists dev dir e ∧ e.name = component := by
  rw [lookup_eq h, lastNamed_eq, Except.ok.injEq, lists_iff h]
  constructor
  · intro hfind
    have hname := List.find?_some hfind
    exact ⟨List.mem_reverse.mp (List.mem_of_find?_eq_some hfind), by simpa using hname⟩
  · rintro ⟨hmem, hname⟩
    cases hfind : (reported (fs.listEntryDir dev n dir).log).reverse.find?
        fun e => e.name = component with
    | none =>
      have hnot := List.find?_eq_none.mp hfind e (List.mem_reverse.mpr hmem)
      simp [hname] at hnot
    | some d =>
      have hd := List.mem_reverse.mp (List.mem_of_find?_eq_some hfind)
      have hdname : d.name = component := by simpa using List.find?_some hfind
      rw [List.inj_on_of_nodup_map (hdistinct n) hd hmem (hdname.trans hname.symm)]

/-! ### All components -/

theorem NamesDistinct.here (h : fs.NamesDistinct dev dir) (hdir : dir.isDir = true) (fuel : ℕ) :
    ((reported (fs.listEntryDir dev fuel dir).log).map ExfatEntry.name).Nodup :=
  h [] dir rfl hdir fuel

theorem NamesDistinct.below (h : fs.NamesDistinct dev dir) (hsub : fs.Lists dev dir sub)
    (hdir : sub.isDir = true) : fs.NamesDistinct dev sub := by
  intro components d hreach
  exact h (sub.name :: components) d ⟨sub, hsub, rfl, fun _ => hdir, hreach⟩

/-- What goes on below a directory that is reached has to lead through directories. -/
theorem Reaches.isDir_of_append (h : fs.Reaches dev (pre ++ rest) dir e) (hrest : rest ≠ [])
    (hdistinct : fs.NamesDistinct dev dir) (hdir : dir.isDir = true)
    {file : ExfatEntry} (hfile : fs.Reaches dev pre dir file) : file.isDir = true := by
  induction pre generalizing dir with
  | nil =>
    obtain rfl : file = dir := hfile
    exact hdir
  | cons component pre ih =>
    obtain ⟨sub, hsub, hname, hsubdir, hreach⟩ := h
    obtain ⟨sub', hsub', hname', -, hfile⟩ := hfile
    obtain rfl := hsub.unique (hdistinct.here hdir) hsub' (hname.trans hname'.symm)
    have hsubdir := hsubdir (by simp [hrest])
    exact ih hreach (hdistinct.below hsub hsubdir) hsubdir hfile

/-- When the listings finish, the search goes along the way and ends at a file. -/
theorem Reaches.follow_append (h : fs.Reaches dev pre dir e) (rest : List (List UInt8))
    (hdistinct : fs.NamesDistinct dev dir) (hdir : dir.isDir = true) (hway : ∀ d, fs.OnWay dev pre dir d →
      ∃ fuel, Finishes (fs.listEntryDir dev fuel d)) :
    ∃ fuel, ∀ m ≥ fuel, (fs.follow dev m (pre ++ rest) dir).value =
      if e.isDir then (fs.follow dev m rest e).value else .ok (some e) := by
  induction pre generalizing dir with
  | nil =>
    obtain rfl : e = dir := h
    exact ⟨0, fun m _ => by simp [hdir]⟩
  | cons component pre ih =>
    obtain ⟨sub, hsub, hname, hsubdir, hreach⟩ := h
    obtain ⟨n, hn⟩ := hway dir (.inl rfl)
    have hlookup : ∀ m ≥ n, (fs.lookup dev m dir component).value = .ok (some sub) := by
      intro m hm
      have hfinishes : Finishes (fs.listEntryDir dev m dir) := by rwa [listEntryDir_of_le hn hm]
      exact (lookup_eq_some hfinishes (hdistinct.here hdir)).mpr ⟨hsub, hname⟩
    cases hkind : sub.isDir with
    | true =>
      have hway' : ∀ d, fs.OnWay dev pre sub d → ∃ fuel, Finishes (fs.listEntryDir dev fuel d) :=
        fun d hd => hway d (.inr ⟨sub, hsub, hname, hkind, hd⟩)
      obtain ⟨k, hk⟩ := ih hreach (hdistinct.below hsub hkind) hkind hway'
      refine ⟨max n k, fun m hm => ?_⟩
      rw [List.cons_append, follow, Logged.value_bind_ok (hlookup m (by omega))]
      simp only [hkind, if_true]
      exact hk m (by omega)
    | false =>
      -- the file ends the search, so there is no further component
      obtain rfl : pre = [] := by
        by_contra hpre
        rw [hsubdir hpre] at hkind
        cases hkind
      obtain rfl : e = sub := hreach
      refine ⟨n, fun m hm => ?_⟩
      rw [List.cons_append, follow, Logged.value_bind_ok (hlookup m hm)]
      simp [hkind]

theorem Reaches.follow_eq (h : fs.Reaches dev components dir e)
    (hdistinct : fs.NamesDistinct dev dir) (hdir : dir.isDir = true)
    (hway : ∀ d, fs.OnWay dev components dir d → ∃ fuel, Finishes (fs.listEntryDir dev fuel d)) :
    ∃ fuel, ∀ m ≥ fuel, (fs.follow dev m components dir).value = .ok (some e) := by
  obtain ⟨n, hn⟩ := h.follow_append [] hdistinct hdir hway
  refine ⟨n, fun m hm => ?_⟩
  have hfollow := hn m hm
  rw [List.append_nil] at hfollow
  rw [hfollow]
  split_ifs
  · rfl
  · rfl

theorem Reaches.of_append (h : fs.Reaches dev (pre ++ rest) dir e) :
    ∃ sub, fs.Reaches dev pre dir sub := by
  induction pre generalizing dir with
  | nil => exact ⟨dir, rfl⟩
  | cons component pre ih =>
    obtain ⟨next, hnext, hname, hkind, hreach⟩ := h
    obtain ⟨sub, hsub⟩ := ih hreach
    exact ⟨sub, next, hnext, hname, fun hne => hkind (by simp [hne]), hsub⟩

theorem OnWay.append (h : fs.OnWay dev pre dir sub) (rest : List (List UInt8)) :
    fs.OnWay dev (pre ++ rest) dir sub := by
  induction pre generalizing dir with
  | nil => exact h.elim
  | cons component pre ih =>
    rcases h with rfl | ⟨next, hnext, hname, hkind, hway⟩
    · exact .inl rfl
    · exact .inr ⟨next, hnext, hname, hkind, ih hway⟩

/-- Without a file on the way, what the search returns is reached by all components, through
directories whose listings end. -/
theorem reaches_of_follow (hdistinct : fs.NamesDistinct dev dir) (hdir : dir.isDir = true)
    (hnofile : fs.NoFileOnWay dev components dir)
    (h : (fs.follow dev n components dir).value = .ok (some e)) :
    fs.Reaches dev components dir e ∧
      ∀ d, fs.OnWay dev components dir d → ∃ fuel, Finishes (fs.listEntryDir dev fuel d) := by
  induction components generalizing dir with
  | nil =>
    obtain rfl : dir = e := by simpa [follow] using h
    exact ⟨rfl, fun d hd => hd.elim⟩
  | cons component rest ih =>
    rw [follow] at h
    obtain ⟨found, hfound, h⟩ := Logged.value_bind_eq_ok.mp h
    have hlookup : Finishes (fs.lookup dev n dir component) := by simp [Finishes, hfound]
    have hfinishes := lookup_finishes.mp hlookup
    cases found with
    | none => simp at h
    | some sub =>
      obtain ⟨hsub, hname⟩ := (lookup_eq_some hfinishes (hdistinct.here hdir)).mp hfound
      have hsame : ∀ sub', fs.Lists dev dir sub' → sub'.name = component → sub' = sub :=
        fun sub' hsub' hname' => hsub'.unique (hdistinct.here hdir) hsub (hname'.trans hname.symm)
      cases hkind : sub.isDir with
      | true =>
        simp only [hkind, if_true] at h
        have hnext : fs.NoFileOnWay dev rest sub := by
          intro pre rest' file heq hrest hreach hway
          refine hnofile (component :: pre) rest' file (by rw [heq]; rfl) hrest
            ⟨sub, hsub, hname, fun _ => hkind, hreach⟩ ?_
          rintro d (rfl | ⟨sub', hsub', hname', -, hd⟩)
          · exact ⟨n, hfinishes⟩
          · obtain rfl := hsame sub' hsub' hname'
            exact hway d hd
        obtain ⟨hreach, hway⟩ := ih (hdistinct.below hsub hkind) hkind hnext h
        refine ⟨⟨sub, hsub, hname, fun _ => hkind, hreach⟩, ?_⟩
        rintro d (rfl | ⟨sub', hsub', hname', -, hd⟩)
        · exact ⟨n, hfinishes⟩
        · obtain rfl := hsame sub' hsub' hname'
          exact hway d hd
      | false =>
        obtain rfl : sub = e := by simpa [hkind] using h
        obtain rfl : rest = [] := by
          by_contra hrest
          have hisDir : sub.isDir = true := by
            refine hnofile [component] rest sub rfl hrest ⟨sub, hsub, hname, by simp, rfl⟩ ?_
            rintro d (rfl | ⟨_, -, -, -, hd⟩)
            · exact ⟨n, hfinishes⟩
            · exact hd.elim
          rw [hisDir] at hkind
          cases hkind
        refine ⟨⟨sub, hsub, hname, by simp, rfl⟩, ?_⟩
        rintro d (rfl | ⟨_, -, -, -, hd⟩)
        · exact ⟨n, hfinishes⟩
        · exact hd.elim

theorem parts_trimSlashes (path : List UInt8) : parts (trimSlashes path) = parts path := by
  rw [trimSlashes, parts_reverse_dropWhile, parts_dropWhile]

theorem findEntry_eq (fs : ExfatFs) (dev : BlockDev) (path : List UInt8) (fuel : ℕ) :
    fs.findEntry dev fuel path = fs.follow dev fuel (ExfatFs.components path) fs.root := by
  have hparts := parts_trimSlashes path
  unfold findEntry ExfatFs.components
  dsimp only
  split_ifs with hempty
  · rw [hempty, parts_nil] at hparts
    rw [← hparts]
    rfl
  · rw [hparts]
    rfl

end ExfatFs

/-- In a volume without duplicate names, the search for a path finds what its components lead to
exactly if none of the first eight components but the last names a file and the others do not
lead elsewhere. -/
theorem finds_path_iff (fs : ExfatFs) (dev : BlockDev) (hdistinct : fs.NamesDistinct dev fs.root)
    (path : List UInt8) : fs.FindsPath dev path ↔ fs.FirstEightLead dev path := by
  have hroot : fs.root.isDir = true := rfl
  have hsplit : parts path = ExfatFs.components path ++ (parts path).drop 8 :=
    (List.take_append_drop 8 (parts path)).symm
  unfold ExfatFs.FindsPath
  simp only [fs.findEntry_eq dev path]
  constructor
  · rintro ⟨honly, -⟩
    constructor
    · intro pre rest file hparts hrest hreach hway
      by_contra hfile
      rw [Bool.not_eq_true] at hfile
      obtain ⟨n, hn⟩ := hreach.follow_append rest hdistinct hroot hway
      have hfound : (fs.follow dev n (ExfatFs.components path) fs.root).value =
          .ok (some file) := by
        rw [hparts, hn n le_rfl]
        simp [hfile]
      have hall := honly n file hfound
      rw [hsplit, hparts, List.append_assoc] at hall
      rw [hall.isDir_of_append (by simp [hrest]) hdistinct hroot hreach] at hfile
      cases hfile
    · intro e hreach hway
      obtain ⟨n, hn⟩ := hreach.follow_eq hdistinct hroot hway
      exact honly n e (hn n le_rfl)
  · rintro ⟨hnofile, hsame⟩
    constructor
    · intro n e h
      obtain ⟨hreach, hway⟩ := ExfatFs.reaches_of_follow hdistinct hroot hnofile h
      exact hsame e hreach hway
    · intro e hreach hread
      rw [hsplit] at hreach hread
      obtain ⟨sub, hsub⟩ := hreach.of_append
      have hway : ∀ d, fs.OnWay dev (ExfatFs.components path) fs.root d →
          ∃ fuel, Finishes (fs.listEntryDir dev fuel d) := by
        intro d hd
        obtain ⟨n, hn⟩ := hread d (hd.append _)
        exact ⟨n, by simp [Finishes, hn]⟩
      obtain ⟨n, hn⟩ := hsub.follow_eq hdistinct hroot hway
      exact ⟨n, fun m hm => ⟨sub, hn m hm⟩⟩

/-! ### A directory that contains itself -/

/-- The root directory has the directory `a`, which is the root itself, and the file `f`. -/
def nested : BlockDev
  | 0 => some (bootImage 3 [1] 0)
  | 1 => some (sectorOf [(8, [0xFF, 0xFF, 0xFF, 0xFF])])
  | 2 => some (sectorOf
      [(0, [entryTypeFile]), (4, [0x10]), (32, [entryTypeStream]), (35, [1]), (52, [2]),
        (64, [entryTypeName]), (66, ascii "a"), (96, [entryTypeFile]), (128, [entryTypeStream]),
        (131, [1]), (160, [entryTypeName]), (162, ascii "f")])
  | _ => none

def entryA : ExfatEntry := ⟨ascii "a", 2, 0, true, 0x10, false⟩

def entryF : ExfatEntry := ⟨ascii "f", 0, 0, false, 0, false⟩

theorem mount_nested : (mount nested).value = .ok oneClusterFs :=
  mount_eq_ok.mpr ⟨bootImage 3 [1] 0, rfl, by decide +kernel, by decide +kernel, rfl⟩

theorem nested_listing : ∀ dir ∈ [oneClusterFs.root, entryA],
    Finishes (oneClusterFs.listEntryDir nested 2 dir) ∧
      reported (oneClusterFs.listEntryDir nested 2 dir).log = [entryA, entryF] ∧
      reported (oneClusterFs.listEntryDir nested 1 dir).log = [entryA, entryF] := by
  decide +kernel

theorem nested_lists {dir e : ExfatEntry} (hdir : dir ∈ [oneClusterFs.root, entryA]) :
    oneClusterFs.Lists nested dir e ↔ e = entryA ∨ e = entryF := by
  obtain ⟨hfinishes, hlog, -⟩ := nested_listing dir hdir
  rw [ExfatFs.lists_iff hfinishes, hlog]
  simp

theorem nested_dirs {components : List (List UInt8)} {dir d : ExfatEntry}
    (hdir : dir ∈ [oneClusterFs.root, entryA]) (h : oneClusterFs.Reaches nested components dir d)
    (hd : d.isDir = true) : d ∈ [oneClusterFs.root, entryA] := by
  induction components generalizing dir with
  | nil =>
    obtain rfl : d = dir := h
    exact hdir
  | cons component rest ih =>
    obtain ⟨sub, hsub, -, hsubdir, hreach⟩ := h
    rcases (nested_lists hdir).mp hsub with rfl | rfl
    · exact ih (by simp) hreach
    · cases rest with
      | nil =>
        obtain rfl : d = entryF := hreach
        cases hd
      | cons _ _ => cases hsubdir (by simp)

theorem nested_distinct : oneClusterFs.NamesDistinct nested oneClusterFs.root := by
  intro components d hreach hd fuel
  obtain ⟨hfinishes, htwo, hone⟩ := nested_listing d (nested_dirs (by simp) hreach hd)
  have hnodup : ([entryA, entryF].map ExfatEntry.name).Nodup := by decide
  rcases Nat.lt_or_ge fuel 2 with hlt | hge
  · obtain rfl | rfl : fuel = 0 ∨ fuel = 1 := by omega
    · exact List.nodup_nil
    · rwa [hone]
  · rwa [ExfatFs.listEntryDir_of_le hfinishes hge, htwo]

theorem nested_not_reaches (n : ℕ) {dir e : ExfatEntry}
    (hdir : dir ∈ [oneClusterFs.root, entryA]) :
    ¬ oneClusterFs.Reaches nested (List.replicate n (ascii "a") ++ [ascii "x"]) dir e := by
  induction n generalizing dir with
  | zero =>
    rintro ⟨sub, hsub, hname, -⟩
    rcases (nested_lists hdir).mp hsub with rfl | rfl
    · exact absurd hname (by decide)
    · exact absurd hname (by decide)
  | succ n ih =>
    rintro ⟨sub, hsub, hname, -, hreach⟩
    rcases (nested_lists hdir).mp hsub with rfl | rfl
    · exact ih (by simp) hreach
    · exact absurd hname (by decide)

/-- Below a file the search returns the file, and after eight components it returns what they lead
to, although the last component does not exist. -/
theorem rest_of_path_is_ignored :
    (mount nested).value = .ok oneClusterFs ∧
      oneClusterFs.NamesDistinct nested oneClusterFs.root ∧
      ¬ oneClusterFs.FindsPath nested (ascii "f/x") ∧
      ¬ oneClusterFs.FindsPath nested (ascii "a/a/a/a/a/a/a/a/x") := by
  refine ⟨mount_nested, nested_distinct, ?_, ?_⟩
  · rintro ⟨honly, -⟩
    have hfound : (oneClusterFs.findEntry nested 2 (ascii "f/x")).value = .ok (some entryF) := by
      decide +kernel
    have hparts : parts (ascii "f/x") = [ascii "f", ascii "x"] := by decide
    obtain ⟨sub, hsub, hname, hsubdir, -⟩ := hparts ▸ honly 2 entryF hfound
    rcases (nested_lists (by simp)).mp hsub with rfl | rfl
    · exact absurd hname (by decide)
    · cases hsubdir (by simp)
  · rintro ⟨honly, -⟩
    have hfound : (oneClusterFs.findEntry nested 2 (ascii "a/a/a/a/a/a/a/a/x")).value =
        .ok (some entryA) := by
      decide +kernel
    have hparts : parts (ascii "a/a/a/a/a/a/a/a/x") =
        List.replicate 8 (ascii "a") ++ [ascii "x"] := by
      decide
    exact nested_not_reaches 8 (by simp) (hparts ▸ honly 2 entryA hfound)

theorem nested_reaches_as (n : ℕ) {dir e : ExfatEntry}
    (hdir : dir ∈ [oneClusterFs.root, entryA]) :
    oneClusterFs.Reaches nested (List.replicate (n + 1) (ascii "a")) dir e ↔ e = entryA := by
  induction n generalizing dir with
  | zero =>
    constructor
    · rintro ⟨sub, hsub, hname, -, rfl⟩
      rcases (nested_lists hdir).mp hsub with rfl | rfl
      · rfl
      · exact absurd hname (by decide)
    · rintro rfl
      exact ⟨entryA, (nested_lists hdir).mpr (.inl rfl), rfl, fun _ => rfl, rfl⟩
  | succ n ih =>
    have hself : oneClusterFs.Reaches nested (List.replicate (n + 1) (ascii "a")) entryA e ↔
        e = entryA := ih (by simp)
    constructor
    · rintro ⟨sub, hsub, hname, -, hreach⟩
      rcases (nested_lists hdir).mp hsub with rfl | rfl
      · exact hself.mp hreach
      · exact absurd hname (by decide)
    · intro he
      exact ⟨entryA, (nested_lists hdir).mpr (.inl rfl), rfl, fun _ => rfl, hself.mpr he⟩

theorem nested_firstEightLead {n : ℕ} {path : List UInt8}
    (hparts : parts path = List.replicate (n + 1) (ascii "a")) :
    oneClusterFs.FirstEightLead nested path := by
  have hcomponents : ExfatFs.components path = List.replicate (min 7 n + 1) (ascii "a") := by
    rw [ExfatFs.components, hparts, List.take_replicate]
    congr 1
    omega
  rw [ExfatFs.FirstEightLead, hparts, hcomponents]
  constructor
  · intro pre rest e heq _ hreach _
    have hpre : pre = List.replicate pre.length (ascii "a") :=
      List.eq_replicate_of_mem fun x hx =>
        List.eq_of_mem_replicate (heq ▸ List.mem_append_left rest hx)
    cases hlen : pre.length with
    | zero =>
      obtain rfl := List.length_eq_zero_iff.mp hlen
      obtain rfl : e = oneClusterFs.root := hreach
      rfl
    | succ k =>
      rw [hpre, hlen, nested_reaches_as k (by simp)] at hreach
      rw [hreach]
      rfl
  · intro e hreach _
    rw [nested_reaches_as _ (by simp)] at hreach ⊢
    exact hreach

/-- The directory contains itself, so that nine components lead where eight do. -/
theorem directory_in_itself_is_found :
    oneClusterFs.NamesDistinct nested oneClusterFs.root ∧
      oneClusterFs.FindsPath nested (ascii "a/a") ∧
      oneClusterFs.FindsPath nested (ascii "a/a/a/a/a/a/a/a/a") := by
  refine ⟨nested_distinct, ?_, ?_⟩
  · refine (finds_path_iff _ _ nested_distinct _).mpr (nested_firstEightLead (n := 1) ?_)
    decide
  · refine (finds_path_iff _ _ nested_distinct _).mpr (nested_firstEightLead (n := 8) ?_)
    decide

end OpenIon.Fs.Exfat
