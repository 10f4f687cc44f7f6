import OpenIon.Fs.Path
import OpenIon.Lib.Slots

/-! # The RAM file system

The node pool of `fs/mod.rs`: nodes are allocated and never given back, a directory has
sixteen slots for its children, and a path is resolved from the root. The pool is the list
of the nodes written so far, with room for `cap` nodes; `Fs.NodePool` has the array with its
counter, of which this list is the view. Text is the list of its bytes.
-/
namespace OpenIon.Fs
open Lib

def nameMax : ℕ := 32
def dirMaxEntries : ℕ := 16

inductive FileType where
  | file
  | directory
  deriving DecidableEq

inductive FsError where
  | notFound
  | notDirectory
  | isDirectory
  | alreadyExists
  | noSpace
  | nameTooLong
  deriving DecidableEq

structure DirEntry where
  name : List UInt8
  fileType : FileType
  deriving DecidableEq

/-- `data` are the first `size` bytes of the array of the source. -/
structure FileNode where
  name : List UInt8
  data : List UInt8

structure DirNode where
  name : List UInt8
  children : List (Option ℕ)

/-- A shortcut for the searches for a free slot. -/
instance lawfulBEqSlot : LawfulBEq (Option ℕ) := inferInstance

inductive Vnode where
  | file (f : FileNode)
  | dir (d : DirNode)

namespace Vnode

def newFile (name : List UInt8) : Vnode := .file ⟨name.take (nameMax - 1), []⟩

def newDir (name : List UInt8) : Vnode :=
  .dir ⟨name.take (nameMax - 1), List.replicate dirMaxEntries none⟩

def name : Vnode → List UInt8
  | .file f => f.name
  | .dir d => d.name

def fileType : Vnode → FileType
  | .file _ => .file
  | .dir _ => .directory

end Vnode

structure Ramfs where
  nodes : List Vnode
  root : Option ℕ

namespace Ramfs

def node (fs : Ramfs) (id : ℕ) : Option Vnode := fs.nodes[id]?

def nodeFileType (fs : Ramfs) (id : ℕ) : Except FsError FileType :=
  match fs.node id with
  | none => .error .notFound
  | some v => .ok v.fileType

def findChild (fs : Ramfs) (name : List UInt8) : List (Option ℕ) → Except FsError (Option ℕ)
  | [] => .ok none
  | none :: children => fs.findChild name children
  | some id :: children =>
    match fs.node id with
    | none => .error .notFound
    | some v => if v.name = name then .ok (some id) else fs.findChild name children

def lookup (fs : Ramfs) (dir : ℕ) (name : List UInt8) : Except FsError ℕ :=
  match fs.node dir with
  | none => .error .notFound
  | some (.file _) => .error .notDirectory
  | some (.dir d) =>
    match fs.findChild name d.children with
    | .error e => .error e
    | .ok none => .error .notFound
    | .ok (some id) => .ok id

def resolveFrom (fs : Ramfs) : ℕ → List (List UInt8) → Except FsError ℕ
  | current, [] => .ok current
  | current, component :: rest =>
    match fs.lookup current component with
    | .error e => .error e
    | .ok next => fs.resolveFrom next rest

/-- Only the components that are not empty are looked up, so that `/` is the root. -/
def resolvePath (fs : Ramfs) (path : List UInt8) : Except FsError ℕ :=
  match fs.root with
  | none => .error .notFound
  | some root => fs.resolveFrom root (parts path)

/-- The calls of the callback, up to a child that is not a node. -/
def listDir (fs : Ramfs) (dir : ℕ) : List DirEntry :=
  match fs.node dir with
  | some (.dir d) =>
    (d.children.reduceOption.map fs.node).takeWhile Option.isSome |>.reduceOption.map
      fun v => ⟨v.name, v.fileType⟩
  | _ => []

def allocNode (cap : ℕ) (fs : Ramfs) (v : Vnode) : Except FsError ℕ × Ramfs :=
  if cap ≤ fs.nodes.length then (.error .noSpace, fs)
  else (.ok fs.nodes.length, { fs with nodes := fs.nodes ++ [v] })

/-- `create_file` and `create_dir`, which differ in the node they make. -/
def create (mk : List UInt8 → Vnode) (cap : ℕ) (fs : Ramfs) (dir : ℕ) (name : List UInt8) :
    Except FsError ℕ × Ramfs :=
  if name = [] ∨ nameMax ≤ name.length then (.error .nameTooLong, fs)
  else
    match fs.node dir with
    | none => (.error .notFound, fs)
    | some (.file _) => (.error .notDirectory, fs)
    | some (.dir d) =>
      match fs.findChild name d.children with
      | .error e => (.error e, fs)
      | .ok (some _) => (.error .alreadyExists, fs)
      | .ok none =>
        match fs.allocNode cap (mk name) with
        | (.error e, fs') => (.error e, fs')
        | (.ok new, fs') =>
          if none ∈ d.children then
            (.ok new, { fs' with
              nodes := fs'.nodes.set dir (.dir { d with children := pushSlot new d.children }) })
          else (.error .noSpace, fs')

def writeFile (fileMaxSize : ℕ) (fs : Ramfs) (file : ℕ) (data : List UInt8) :
    Except FsError ℕ × Ramfs :=
  match fs.node file with
  | none => (.error .notFound, fs)
  | some (.dir _) => (.error .isDirectory, fs)
  | some (.file f) =>
    let data := data.take fileMaxSize
    (.ok data.length, { fs with nodes := fs.nodes.set file (.file { f with data := data }) })

def readFile (fs : Ramfs) (file : ℕ) (bufLen : ℕ) : Except FsError (List UInt8) :=
  match fs.node file with
  | none => .error .notFound
  | some (.dir _) => .error .isDirectory
  | some (.file f) => .ok (f.data.take bufLen)

/-! ### What is resolved stays resolved -/

/-- Whatever a name was found to be in a directory it still is. -/
structure Keeps (fs fs' : Ramfs) : Prop where
  root : fs'.root = fs.root
  lookup : ∀ dir name id, fs.lookup dir name = .ok id → fs'.lookup dir name = .ok id

variable {fs fs' : Ramfs} {cap id dir new : ℕ} {name : List UInt8} {v : Vnode}
  {children : List (Option ℕ)}

theorem Keeps.refl : Keeps fs fs := ⟨rfl, fun _ _ _ h => h⟩

theorem Keeps.resolveFrom (h : Keeps fs fs') {components : List (List UInt8)}
    (hok : fs.resolveFrom dir components = .ok id) : fs'.resolveFrom dir components = .ok id := by
  induction components generalizing dir with
  | nil => exact hok
  | cons component rest ih =>
    rw [Ramfs.resolveFrom] at hok ⊢
    cases hlookup : fs.lookup dir component with
    | error e => simp [hlookup] at hok
    | ok next =>
      rw [h.lookup dir component next hlookup]
      exact ih (by simpa [hlookup] using hok)

theorem Keeps.resolvePath (h : Keeps fs fs') {path : List UInt8}
    (hok : fs.resolvePath path = .ok id) : fs'.resolvePath path = .ok id := by
  unfold Ramfs.resolvePath at hok ⊢
  rw [h.root]
  cases hroot : fs.root with
  | none => simp [hroot] at hok
  | some root => exact h.resolveFrom (by simpa [hroot] using hok)

theorem resolveFrom_append {components rest : List (List UInt8)}
    (hok : fs.resolveFrom dir (components ++ rest) = .ok id) :
    ∃ mid, fs.resolveFrom dir components = .ok mid := by
  induction components generalizing dir with
  | nil => exact ⟨dir, rfl⟩
  | cons component components ih =>
    rw [List.cons_append, resolveFrom] at hok
    rw [resolveFrom]
    cases hlookup : fs.lookup dir component with
    | error e => simp [hlookup] at hok
    | ok next => exact ih (by simpa [hlookup] using hok)

theorem resolveFrom_concat {components : List (List UInt8)} {component : List UInt8} {mid : ℕ}
    (h : fs.resolveFrom dir components = .ok mid) :
    fs.resolveFrom dir (components ++ [component]) = fs.lookup mid component := by
  induction components generalizing dir with
  | nil =>
    obtain rfl : dir = mid := Except.ok.inj h
    rw [List.nil_append, resolveFrom]
    cases fs.lookup dir component with
    | error e => rfl
    | ok next => rfl
  | cons first components ih =>
    rw [List.cons_append, resolveFrom]
    rw [resolveFrom] at h
    cases hlookup : fs.lookup dir first with
    | error e => simp [hlookup] at h
    | ok next => exact ih (by simpa [hlookup] using h)

theorem lookup_eq_ok {d : DirNode} (hdir : fs.node dir = some (.dir d)) :
    fs.lookup dir name = .ok id ↔ fs.findChild name d.children = .ok (some id) := by
  unfold lookup
  rw [hdir]
  dsimp only
  cases fs.findChild name d.children with
  | error e => simp
  | ok found => cases found <;> simp

theorem exists_dir_of_lookup (h : fs.lookup dir name = .ok id) :
    ∃ d, fs.node dir = some (.dir d) := by
  unfold lookup at h
  cases hnode : fs.node dir with
  | none => simp [hnode] at h
  | some v =>
    cases v with
    | file f => simp [hnode] at h
    | dir d => exact ⟨d, rfl⟩

def KeepsNames (fs fs' : Ramfs) : Prop :=
  ∀ id v, fs.node id = some v → ∃ v', fs'.node id = some v' ∧ v'.name = v.name

theorem KeepsNames.findChild (h : KeepsNames fs fs') {found : Option ℕ}
    (hfind : fs.findChild name children = .ok found) :
    fs'.findChild name children = .ok found := by
  induction children with
  | nil => exact hfind
  | cons slot children ih =>
    cases slot with
    | none => exact ih hfind
    | some child =>
      rw [Ramfs.findChild] at hfind ⊢
      cases hchild : fs.node child with
      | none => simp [hchild] at hfind
      | some v =>
        obtain ⟨v', hv', hname⟩ := h child v hchild
        rw [hchild] at hfind
        rw [hv']
        dsimp only at hfind ⊢
        rw [hname]
        split_ifs at hfind ⊢ with heq
        · exact hfind
        · exact ih hfind

/-- A new child is found under its name; under another name is found what was found before. -/
theorem findChild_pushSlot {found r : Option ℕ} (hnew : fs.node new = some v)
    (hfind : fs.findChild name children = .ok found)
    (hr : v.name ≠ name ∧ r = found ∨
      v.name = name ∧ found = none ∧ none ∈ children ∧ r = some new) :
    fs.findChild name (pushSlot new children) = .ok r := by
  induction children with
  | nil =>
    obtain ⟨-, rfl⟩ | ⟨-, -, hroom, -⟩ := hr
    · exact hfind
    · cases hroom
  | cons slot children ih =>
    cases slot with
    | none =>
      rw [pushSlot, Ramfs.findChild, hnew]
      obtain ⟨hname, rfl⟩ | ⟨hname, -, -, rfl⟩ := hr
      · exact (if_neg hname).trans hfind
      · exact if_pos hname
    | some child =>
      rw [pushSlot, Ramfs.findChild]
      rw [Ramfs.findChild] at hfind
      cases hchild : fs.node child with
      | none => simp [hchild] at hfind
      | some w =>
        rw [hchild] at hfind
        dsimp only at hfind ⊢
        split_ifs at hfind ⊢ with heq
        · cases hfind
          rw [(hr.resolve_right fun h => by cases h.2.1).2]
        · exact ih hfind (by simpa using hr)

/-- A path is resolved through the directories above it. -/
theorem resolvePath_append {a b : List UInt8} (hok : fs.resolvePath (a ++ slash :: b) = .ok id) :
    ∃ mid, fs.resolvePath a = .ok mid := by
  unfold resolvePath at hok ⊢
  cases hroot : fs.root with
  | none => simp [hroot] at hok
  | some root =>
    rw [parts_append] at hok
    exact resolveFrom_append (by simpa [hroot] using hok)

theorem node_append (h : fs.node id = some v) (w : Vnode) :
    ({ fs with nodes := fs.nodes ++ [w] } : Ramfs).node id = some v := by
  obtain ⟨hlt, -⟩ := List.getElem?_eq_some_iff.mp h
  exact (List.getElem?_append_left hlt).trans h

theorem keepsNames_append (w : Vnode) : KeepsNames fs { fs with nodes := fs.nodes ++ [w] } :=
  fun _ v hi => ⟨v, node_append hi w, rfl⟩

theorem keeps_append (w : Vnode) : Keeps fs { fs with nodes := fs.nodes ++ [w] } := by
  refine ⟨rfl, fun dir name id h => ?_⟩
  obtain ⟨d, hd⟩ := exists_dir_of_lookup h
  rw [lookup_eq_ok (node_append hd w)]
  exact (keepsNames_append w).findChild ((lookup_eq_ok hd).mp h)

theorem node_set (hlt : dir < fs.nodes.length) :
    ({ fs with nodes := fs.nodes.set dir v } : Ramfs).node id =
      if dir = id then some v else fs.node id := by
  unfold node
  split_ifs with heq
  · subst heq
    simp [hlt]
  · exact List.getElem?_set_ne heq

theorem keepsNames_set {v' : Vnode} (hv : fs.node dir = some v) (hname : v'.name = v.name) :
    KeepsNames fs { fs with nodes := fs.nodes.set dir v' } := by
  obtain ⟨hlt, -⟩ := List.getElem?_eq_some_iff.mp hv
  intro i w hi
  rw [node_set hlt]
  split_ifs with heq
  · subst heq
    obtain rfl := Option.some.inj (hv.symm.trans hi)
    exact ⟨v', rfl, hname⟩
  · exact ⟨w, hi, rfl⟩

/-- Replacing a node by one of the same name keeps what is found, as long as the children of the
node itself are still found. -/
theorem keeps_set {v' : Vnode} (hv : fs.node dir = some v) (hname : v'.name = v.name)
    (hdir : ∀ d, v = .dir d → ∃ d', v' = .dir d' ∧ ∀ name id,
      fs.findChild name d.children = .ok (some id) →
        ({ fs with nodes := fs.nodes.set dir v' } : Ramfs).findChild name d'.children =
          .ok (some id)) :
    Keeps fs { fs with nodes := fs.nodes.set dir v' } := by
  obtain ⟨hlt, -⟩ := List.getElem?_eq_some_iff.mp hv
  refine ⟨rfl, fun x name id h => ?_⟩
  obtain ⟨d, hd⟩ := exists_dir_of_lookup h
  have hfind := (lookup_eq_ok hd).mp h
  by_cases heq : dir = x
  · subst heq
    obtain ⟨d', rfl, hchild⟩ := hdir d (Option.some.inj (hv.symm.trans hd))
    rw [lookup_eq_ok (by rw [node_set hlt, if_pos rfl])]
    exact hchild name id hfind
  · rw [lookup_eq_ok (by rw [node_set hlt, if_neg heq, hd])]
    exact (keepsNames_set hv hname).findChild hfind

theorem Keeps.trans {fs'' : Ramfs} (h : Keeps fs fs') (h' : Keeps fs' fs'') : Keeps fs fs'' :=
  ⟨h'.root.trans h.root, fun dir name id hok => h'.lookup _ _ _ (h.lookup dir name id hok)⟩

/-- What `create` does to the pool: nothing, a node that is in no directory, or a new child. -/
theorem create_cases (mk : List UInt8 → Vnode) (cap : ℕ) (fs : Ramfs) (dir : ℕ)
    (name : List UInt8) :
    (∃ e, create mk cap fs dir name = (.error e, fs)) ∨
    create mk cap fs dir name = (.error .noSpace, { fs with nodes := fs.nodes ++ [mk name] }) ∨
    ∃ d, fs.node dir = some (.dir d) ∧ fs.findChild name d.children = .ok none ∧
      name.length < nameMax ∧ none ∈ d.children ∧
      create mk cap fs dir name = (.ok fs.nodes.length, { fs with
        nodes := (fs.nodes ++ [mk name]).set dir
          (.dir { d with children := pushSlot fs.nodes.length d.children }) }) := by
  unfold create
  split_ifs with hname
  · exact .inl ⟨_, rfl⟩
  cases hnode : fs.node dir with
  | none => exact .inl ⟨_, rfl⟩
  | some v =>
    cases v with
    | file f => exact .inl ⟨_, rfl⟩
    | dir d =>
      dsimp only
      cases hfind : fs.findChild name d.children with
      | error e => exact .inl ⟨_, rfl⟩
      | ok found =>
        cases found with
        | some _ => exact .inl ⟨_, rfl⟩
        | none =>
          unfold allocNode
          by_cases hfull : cap ≤ fs.nodes.length
          · rw [if_pos hfull]
            exact .inl ⟨_, rfl⟩
          · rw [if_neg hfull]
            dsimp only
            by_cases hroom : none ∈ d.children
            · rw [if_pos hroom]
              exact .inr (.inr ⟨d, rfl, hfind, by omega, hroom, rfl⟩)
            · rw [if_neg hroom]
              exact .inr (.inl rfl)

theorem keeps_create {mk : List UInt8 → Vnode}
    (hmk : ∀ name, (mk name).name = name.take (nameMax - 1)) :
    Keeps fs (create mk cap fs dir name).2 := by
  obtain ⟨e, heq⟩ | heq | ⟨d, hd, hnone, hlen, -, heq⟩ := create_cases mk cap fs dir name
  · rw [heq]
    exact Keeps.refl
  · rw [heq]
    exact keeps_append (mk name)
  · rw [heq]
    refine (keeps_append (mk name)).trans (keeps_set (node_append hd _) rfl ?_)
    rintro _ ⟨rfl⟩
    refine ⟨_, rfl, fun other id hfind => ?_⟩
    have hne : (mk name).name ≠ other := by
      rintro rfl
      rw [hmk, List.take_of_length_le (by omega),
        (keepsNames_append (mk name)).findChild hnone] at hfind
      cases hfind
    have hlt : dir < fs.nodes.length := (List.getElem?_eq_some_iff.mp hd).1
    refine findChild_pushSlot ?_ (KeepsNames.findChild ?_ hfind) (.inl ⟨hne, rfl⟩)
    · rw [node_set (by simp; omega), if_neg (by omega)]
      simp [node]
    · exact keepsNames_set (node_append hd _) rfl

theorem keeps_writeFile {fileMaxSize : ℕ} {data : List UInt8} :
    Keeps fs (writeFile fileMaxSize fs id data).2 := by
  unfold writeFile
  cases hnode : fs.node id with
  | none => exact Keeps.refl
  | some v =>
    cases v with
    | dir d => exact Keeps.refl
    | file f => exact keeps_set hnode rfl fun d hd => by cases hd

end Ramfs

end OpenIon.Fs
