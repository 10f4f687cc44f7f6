import OpenIon.Fs.NamedFiles
import OpenIon.Fs.NodePool
import OpenIon.Lib.Run

/-! # Runs of RAMFS

After `init`, any sequence of `create_file`, `create_dir` and `write_file` calls keeps the nodes a
tree of named files, whatever the ids and names, until `NODE_COUNT` wraps around. Then the counter
is 0, and since a node is only read below the counter, nothing is found any more.
-/
namespace OpenIon.Fs
open Lib

/-- The pool, and for every file the bytes that were last written to it. -/
structure Disk where
  store : Store
  written : ℕ → List UInt8

namespace Disk

inductive Op where
  | createFile (dir : ℕ) (name : List UInt8)
  | createDir (dir : ℕ) (name : List UInt8)
  | writeFile (file : ℕ) (data : List UInt8)

variable (lim : Limits)

def boot (uninit : ℕ → Vnode) : Disk := ⟨(Store.empty uninit).init lim, fun _ => []⟩

def perform (w : Disk) : Op → Disk
  | .createFile dir name => { w with store := (w.store.createFile lim dir name).2 }
  | .createDir dir name => { w with store := (w.store.createDir lim dir name).2 }
  | .writeFile file data =>
    match w.store.writeFile lim file data with
    | (.ok _, s) => ⟨s, Function.update w.written file data⟩
    | (.error _, s) => ⟨s, w.written⟩

def step (w : Disk) (op : Op) : Option Disk := some (w.perform lim op)

/-- What the nodes that can be read are: a tree of named files and directories below `root`, in
which names and paths are looked up, and whose files hold what was last written to them. -/
structure IsNamedTree (w : Disk) (fs : Ramfs) (root : ℕ) : Prop where
  rooted : fs.root = some root
  rootDir : ∃ d, fs.node root = some (.dir d)
  tree : IsTree fs.Child root
  bounded : ∀ names c, Follows fs.Child root names c → c < lim.nodePoolCap
  lookup : ∀ dir name c, fs.lookup dir name = .ok c ↔ fs.Child dir name c
  resolve : ∀ path c, fs.resolvePath path = .ok c ↔ Follows fs.Child root (parts path) c
  list : ∀ dir d, fs.node dir = some (.dir d) → ∃ ids : List ℕ, ids.Nodup ∧
    (∀ c, c ∈ ids ↔ ∃ name, fs.Child dir name c) ∧
    List.Forall₂ (fun c entry => ∃ v, fs.node c = some v ∧ entry = ⟨v.name, v.fileType⟩) ids
      (fs.listDir dir)
  read : ∀ f file, fs.node f = some (.file file) → ∀ bufLen,
    fs.readFile f bufLen = .ok ((w.written f).take (min lim.fileMaxSize bufLen))

def NamedTree (w : Disk) : Prop := ∃ root, IsNamedTree lim w (w.store.view lim) root

def Framed (w : Disk) : Op → Prop
  | .createFile dir name => Ramfs.Created Vnode.newFile (w.store.view lim)
      ((w.store.createFile lim dir name).2.view lim) dir name (w.store.createFile lim dir name).1
  | .createDir dir name => Ramfs.Created Vnode.newDir (w.store.view lim)
      ((w.store.createDir lim dir name).2.view lim) dir name (w.store.createDir lim dir name).1
  | .writeFile file data => Ramfs.Written (w.store.view lim)
      ((w.store.writeFile lim file data).2.view lim) file

/-- `NODE_COUNT` does not wrap around in `alloc_node`, if the call reaches it. -/
def NoWrap (w : Disk) : Op → Prop
  | .createFile dir name | .createDir dir name =>
    w.store.Allocates lim dir name → w.store.nodeCount + 1 < 2 ^ lim.w
  | .writeFile _ _ => True

/-- The nodes form a tree, and a file holds what was written, cut to the size of its array. -/
structure Sound (w : Disk) : Prop where
  grown : (w.store.view lim).Grown
  count : w.store.nodeCount < 2 ^ lim.w
  contents : ∀ f file, (w.store.view lim).node f = some (.file file) →
    file.data = (w.written f).take lim.fileMaxSize
  unwritten : ∀ f, (w.store.view lim).nodes.length ≤ f → w.written f = []

variable {lim} {w w' : Disk} {op : Op}

theorem Sound.isNamedTree (h : Sound lim w) : NamedTree lim w := by
  refine ⟨0, h.grown.root, h.grown.rootDir, h.grown.isTree, ?_, fun dir name c =>
    h.grown.lookup_iff, fun path c => h.grown.resolvePath_iff path, fun dir d hdir =>
    h.grown.listDir hdir, ?_⟩
  · intro names c hpath
    obtain ⟨d, hd⟩ := h.grown.rootDir
    have hlt := h.grown.lt_of_follows hpath (Ramfs.node_lt hd)
    rw [Store.view_length] at hlt
    omega
  · intro f file hf bufLen
    rw [Ramfs.readFile, hf]
    dsimp only
    rw [h.contents f file hf, List.take_take, min_comm]

theorem vacant_newFile (name : List UInt8) : Ramfs.Vacant (Vnode.newFile name) := by
  rintro d c ⟨⟩

theorem vacant_newDir (name : List UInt8) : Ramfs.Vacant (Vnode.newDir name) := by
  rintro d c ⟨⟩ hc
  simp at hc

/-- A call that creates a node keeps the tree, unless it wraps the counter. -/
theorem Sound.create (h : Sound lim w) {mk : List UInt8 → Vnode}
    (hmk : ∀ name, (mk name).name = name.take (nameMax - 1))
    (hvacant : ∀ name, Ramfs.Vacant (mk name))
    (hempty : ∀ name file, mk name = .file file → file.data = []) {dir : ℕ} {name : List UInt8}
    (hwrap : w.store.Allocates lim dir name → w.store.nodeCount + 1 < 2 ^ lim.w) :
    Sound lim { w with store := (w.store.create lim mk dir name).2 } ∧
      Ramfs.Created mk (w.store.view lim) ((w.store.create lim mk dir name).2.view lim) dir name
        (w.store.create lim mk dir name).1 := by
  obtain ⟨hresult, hview⟩ := Store.view_create mk hwrap
  obtain ⟨hgrown, hcreated⟩ := h.grown.create hmk hvacant lim.nodePoolCap dir name
  rw [← hresult, ← hview] at hcreated
  rw [← hview] at hgrown
  refine ⟨⟨hgrown, Store.nodeCount_create_lt h.count mk dir name, ?_, ?_⟩, hcreated⟩
  · intro f file hf
    obtain hold | ⟨hnone, hnew⟩ := hcreated.fresh f file hf
    · exact h.contents f file hold
    · have hlength : (w.store.view lim).nodes.length ≤ f := List.getElem?_eq_none_iff.mp hnone
      rw [h.unwritten f hlength, hempty name file hnew, List.take_nil]
  · intro f hf
    exact h.unwritten f (hcreated.grows.trans hf)

theorem Sound.writeFile (h : Sound lim w) (file : ℕ) (data : List UInt8) :
    Sound lim (w.perform lim (.writeFile file data)) ∧
      Ramfs.Written (w.store.view lim) ((w.store.writeFile lim file data).2.view lim) file := by
  obtain ⟨hgrown, hwritten⟩ := h.grown.writeFile lim.fileMaxSize file data
  rw [← Store.view_writeFile.2] at hgrown hwritten
  refine ⟨?_, hwritten⟩
  obtain ⟨e, heq⟩ | ⟨f, hnode, heq⟩ := Store.writeFile_cases lim w.store file data
  · rw [Disk.perform, heq]
    exact h
  · rw [heq] at hgrown hwritten
    rw [Disk.perform, heq]
    have hview := Store.view_update (by rw [hnode]; simp)
      (.file { f with data := data.take lim.fileMaxSize })
    have hlt : file < (w.store.view lim).nodes.length :=
      Ramfs.node_lt ((Store.node_view file).trans hnode)
    refine ⟨hgrown, h.count, ?_, ?_⟩
    · intro f' file' hf'
      by_cases heq : f' = file
      · subst heq
        rw [hview, Ramfs.node_set hlt, if_pos rfl] at hf'
        obtain rfl : { f with data := data.take lim.fileMaxSize } = file' := by simpa using hf'
        dsimp only
        rw [Function.update_self]
      · dsimp only
        rw [Function.update_of_ne heq]
        exact h.contents f' file' (by rw [← hwritten.others f' heq, hf'])
    · intro f' hf'
      rw [hview, List.length_set] at hf'
      dsimp only
      rw [Function.update_of_ne (by omega)]
      exact h.unwritten f' hf'

theorem Sound.perform (h : Sound lim w) (hwrap : NoWrap lim w op) :
    Sound lim (w.perform lim op) ∧ Framed lim w op := by
  cases op with
  | createFile dir name =>
    refine h.create (fun _ => rfl) vacant_newFile ?_ hwrap
    rintro name file ⟨⟩
    rfl
  | createDir dir name =>
    refine h.create (fun _ => rfl) vacant_newDir ?_ hwrap
    rintro name file ⟨⟩
  | writeFile file data => exact h.writeFile file data

theorem Sound.root (uninit : ℕ → Vnode) :
    Sound lim ⟨⟨Function.update uninit 0 (.newDir [slash]), 1, some 0⟩, fun _ => []⟩ := by
  have hview := Store.view_root lim uninit (.newDir [slash])
  have hnode : ∀ id v, (⟨[.newDir [slash]], some 0⟩ : Ramfs).node id = some v →
      v = .newDir [slash] := by
    intro id v hv
    have hmem := List.mem_of_getElem? hv
    simpa using hmem
  have hnone : ∀ dir d c, (⟨[.newDir [slash]], some 0⟩ : Ramfs).node dir = some (.dir d) →
      some c ∉ d.children := fun dir d c hdir => vacant_newDir _ d c (hnode dir _ hdir).symm
  have hwidth : 2 ^ 16 ≤ 2 ^ lim.w := Nat.pow_le_pow_right (by decide) lim.width
  refine ⟨?_, ?_, ?_, fun _ _ => rfl⟩
  · rw [hview]
    refine ⟨rfl, ⟨_, rfl⟩, ?_, ?_, ?_⟩
    · intro dir d c hdir hc
      exact absurd hc (hnone dir d c hdir)
    · intro dir d dir' d' c hdir hdir' hc
      exact absurd hc (hnone dir d c hdir)
    · intro dir d hdir
      have hnil : d.children.reduceOption = [] := by
        apply List.eq_nil_iff_forall_not_mem.mpr
        intro c hc
        exact hnone dir d c hdir (List.reduceOption_mem_iff.mp hc)
      simp [hnil]
  · change 1 < 2 ^ lim.w
    omega
  · intro f file hf
    rw [hview] at hf
    cases hnode f _ hf

theorem Sound.createDir {k : ℕ} (h : Sound lim w) (hcount : w.store.nodeCount ≤ k)
    (hk : k + 1 < 2 ^ lim.w) (dir : ℕ) (name : List UInt8) :
    Sound lim { w with store := (w.store.createDir lim dir name).2 } ∧
      (w.store.createDir lim dir name).2.nodeCount ≤ k + 1 := by
  have hsucc : w.store.nodeCount + 1 < 2 ^ lim.w := by omega
  have hwrap : NoWrap lim w (.createDir dir name) := fun _ => hsucc
  exact ⟨(h.perform hwrap).1, (Store.nodeCount_create_le _ dir name).trans (by omega)⟩

theorem Sound.boot (uninit : ℕ → Vnode) : Sound lim (boot lim uninit) := by
  have hwidth : 2 ^ 16 ≤ 2 ^ lim.w := Nat.pow_le_pow_right (by decide) lim.width
  have hroot : Sound lim _ := Sound.root uninit
  have hdev := hroot.createDir (k := 1) le_rfl (by omega) 0 (ascii "dev")
  have hproc := hdev.1.createDir hdev.2 (by omega) 0 (ascii "proc")
  have hmnt := hproc.1.createDir hproc.2 (by omega) 0 (ascii "mnt")
  unfold Disk.boot Store.init
  rw [Store.allocNode_root]
  exact hmnt.1

theorem nodeCount_wrap (h : Sound lim w) (hwrap : ¬ NoWrap lim w op) :
    (w.perform lim op).store.nodeCount = 0 := by
  cases op with
  | createFile dir name => exact Store.nodeCount_create_wrap h.count hwrap
  | createDir dir name => exact Store.nodeCount_create_wrap h.count hwrap
  | writeFile file data => exact absurd trivial hwrap

/-- With the counter at 0 not even the root can be read. -/
theorem not_namedTree_of_nodeCount (hcount : w.store.nodeCount = 0) : ¬ NamedTree lim w := by
  rintro ⟨root, htree⟩
  obtain ⟨d, hd⟩ := htree.rootDir
  have hlt := Ramfs.node_lt hd
  rw [Store.view_length, hcount, Nat.zero_min] at hlt
  exact Nat.not_lt_zero root hlt

/-- In a run from the initialised file system the nodes form a tree of named files throughout, and
every call changes only the node it is about, exactly if `NODE_COUNT` does not wrap around. -/
theorem ramfs_is_named_tree_iff (lim : Limits) (uninit : ℕ → Vnode) (ops : List Op) :
    (Always (step lim) (NamedTree lim) (Disk.boot lim uninit) ops ∧
      Along (step lim) (Framed lim) (Disk.boot lim uninit) ops) ↔
    Along (step lim) (NoWrap lim) (Disk.boot lim uninit) ops := by
  have hstep : ∀ w op w', Sound lim w → NoWrap lim w op → step lim w op = some w' →
      Sound lim w' := by
    intro w op w' h hwrap hs
    exact Option.some.inj hs ▸ (h.perform hwrap).1
  have hiff : Always (step lim) (NamedTree lim) (Disk.boot lim uninit) ops ↔
      Along (step lim) (NoWrap lim) (Disk.boot lim uninit) ops := by
    refine always_iff_along (fun w h => Sound.isNamedTree h) hstep ?_ (Sound.boot uninit)
    intro w op w' h hwrap hs
    exact Option.some.inj hs ▸ not_namedTree_of_nodeCount (nodeCount_wrap h hwrap)
  constructor
  · intro h
    exact hiff.mp h.1
  · intro h
    exact ⟨hiff.mpr h, h.imp hstep (fun w op hw hwrap => (hw.perform hwrap).2) (Sound.boot uninit)⟩

section Full

variable {s : Store} {written : ℕ → List UInt8} {dir : ℕ} {name : List UInt8} {d : DirNode}
  (hfull : lim.nodePoolCap ≤ s.nodeCount) (hname : ¬ (name = [] ∨ nameMax ≤ name.length))
  (hdir : (s.view lim).node dir = some (.dir d))
  (hfind : (s.view lim).findChild name d.children = .ok none)
include hfull hname hdir hfind

/-- A call that finds the pool full only moves the counter. -/
theorem step_full (k : ℕ) :
    step lim ⟨{ s with nodeCount := s.nodeCount + k }, written⟩ (.createFile dir name) =
      some ⟨{ s with nodeCount := (s.nodeCount + k + 1) % 2 ^ lim.w }, written⟩ := by
  have hview := Store.view_of_full hfull k
  have hcreate : Store.createFile lim { s with nodeCount := s.nodeCount + k } dir name =
      (.error .noSpace, { s with nodeCount := (s.nodeCount + k + 1) % 2 ^ lim.w }) :=
    Store.create_full (hfull.trans (Nat.le_add_right _ k)) hname
      (by rw [← Store.node_view, hview, hdir]) (by rw [hview, hfind])
  rw [step, Disk.perform, hcreate]

theorem run_full (k : ℕ) (hk : s.nodeCount + k < 2 ^ lim.w) :
    run (step lim) ⟨s, written⟩ (List.replicate k (.createFile dir name)) =
      some ⟨{ s with nodeCount := s.nodeCount + k }, written⟩ := by
  induction k with
  | zero => rfl
  | succ k ih =>
    rw [List.replicate_succ', run_append, ih (by omega), Option.bind_some, run_cons,
      step_full hfull hname hdir hfind, Nat.mod_eq_of_lt (by omega)]
    rfl

/-- Enough of them take the counter back to 0. -/
theorem run_wraps (hcount : s.nodeCount < 2 ^ lim.w) :
    run (step lim) ⟨s, written⟩
        (List.replicate (2 ^ lim.w - s.nodeCount) (.createFile dir name)) =
      some ⟨{ s with nodeCount := 0 }, written⟩ := by
  obtain ⟨k, hk⟩ : ∃ k, 2 ^ lim.w = s.nodeCount + k + 1 := Nat.exists_eq_add_of_lt hcount
  have hlength : 2 ^ lim.w - s.nodeCount = k + 1 := by omega
  rw [hlength, List.replicate_succ', run_append,
    run_full hfull hname hdir hfind k (by omega), Option.bind_some, run_cons,
    step_full hfull hname hdir hfind, ← hk, Nat.mod_self]
  rfl

end Full

def mcuLimits : Limits := ⟨⟨32, 12, 256⟩, by decide, by decide, by decide⟩

def blank : ℕ → Vnode := fun _ => .newDir []

/-- Eight files in the root fill the pool. -/
def filling : List Op := (ascii "abcdefgh").map fun c => .createFile 0 [c]

/-- Every further call to create a ninth file moves the counter. -/
def wrapping : List Op :=
  filling ++ List.replicate (2 ^ mcuLimits.w - 12) (.createFile 0 (ascii "i"))

/-- The root is a directory without a child of that name. -/
def rootLacks (fs : Ramfs) (name : List UInt8) : Bool :=
  match fs.node 0 with
  | some (.dir d) => (fs.findChild name d.children).toOption == some none
  | _ => false

theorem rootLacks_eq_true {fs : Ramfs} {name : List UInt8} (h : rootLacks fs name = true) :
    ∃ d, fs.node 0 = some (.dir d) ∧ fs.findChild name d.children = .ok none := by
  unfold rootLacks at h
  split at h
  · rename_i d hdir
    refine ⟨d, hdir, ?_⟩
    cases hfind : fs.findChild name d.children with
    | error e => simp [hfind, Except.toOption] at h
    | ok found => simpa [hfind, Except.toOption] using h
  · cases h

/-- After 2³² calls of `alloc_node` the directory `/dev` is not found any more. -/
theorem counter_wraps_and_root_is_lost :
    ∃ w, run (step mcuLimits) (boot mcuLimits blank) wrapping = some w ∧
      w.store.nodeCount = 0 ∧
      (w.store.view mcuLimits).resolvePath (ascii "/dev") = .error .notFound ∧
      ¬ (Always (step mcuLimits) (NamedTree mcuLimits) (boot mcuLimits blank) wrapping ∧
        Along (step mcuLimits) (Framed mcuLimits) (boot mcuLimits blank) wrapping) := by
  have htest : (run (step mcuLimits) (boot mcuLimits blank) filling).any (fun w =>
      decide (w.store.nodeCount = 12) && rootLacks (w.store.view mcuLimits) (ascii "i")) = true := by
    decide +kernel
  obtain ⟨⟨s, written⟩, hfill, hfacts⟩ := (Option.any_eq_true _ _).mp htest
  obtain ⟨hcount, hroot⟩ := (Bool.and_eq_true _ _).mp hfacts
  have hcount : s.nodeCount = 12 := of_decide_eq_true hcount
  obtain ⟨d, hdir, hfind⟩ := rootLacks_eq_true hroot
  have hwraps : run (step mcuLimits) ⟨s, written⟩
      (List.replicate (2 ^ mcuLimits.w - s.nodeCount) (.createFile 0 (ascii "i"))) =
      some ⟨{ s with nodeCount := 0 }, written⟩ :=
    run_wraps (by rw [hcount]; decide) (by decide) hdir hfind (by rw [hcount]; decide)
  have hrun : run (step mcuLimits) (boot mcuLimits blank) wrapping =
      some ⟨{ s with nodeCount := 0 }, written⟩ := by
    rw [wrapping, run_append, hfill, Option.bind_some, ← hcount, hwraps]
  refine ⟨_, hrun, rfl, ?_, fun h => not_namedTree_of_nodeCount rfl (h.1.last hrun)⟩
  have hview : ({ s with nodeCount := 0 } : Store).view mcuLimits = ⟨[], s.root⟩ := by
    simp [Store.view]
  have hparts : parts (ascii "/dev") = [ascii "dev"] := by decide
  rw [hview, Ramfs.resolvePath, hparts]
  cases s.root with
  | none => rfl
  | some root => rfl

end Disk

end OpenIon.Fs
