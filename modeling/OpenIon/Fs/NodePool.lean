import OpenIon.Fs.Ramfs

/-! # The counter of the node pool

`NODE_COUNT` is the number of calls of `alloc_node`, also of those that found the pool full, and
it wraps around. A node can be read if its index is below the counter and the size of the pool. As
long as the counter does not wrap, the pool behaves like the list of the nodes written so far.
-/
namespace OpenIon.Fs
open Lib

/-- `w` is the width of `usize`. -/
structure Config where
  w : ℕ
  nodePoolCap : ℕ
  fileMaxSize : ℕ

/-- `usize` has 16 bits at least, and the pool is an array that exists. -/
structure Limits extends Config where
  width : 16 ≤ w
  cap_pos : 0 < nodePoolCap
  cap_lt : nodePoolCap < 2 ^ w

instance coeLimits : Coe Limits Config := ⟨Limits.toConfig⟩

structure Store where
  pool : ℕ → Vnode
  nodeCount : ℕ
  root : Option ℕ

namespace Store

variable (cfg : Config) (s : Store)

def node (id : ℕ) : Option Vnode :=
  if s.nodeCount ≤ id ∨ cfg.nodePoolCap ≤ id then none else some (s.pool id)

/-- The nodes that can be read, which is all that the reading functions see. -/
def view : Ramfs := ⟨(List.range (min s.nodeCount cfg.nodePoolCap)).map s.pool, s.root⟩

def allocNode (v : Vnode) : Except FsError ℕ × Store :=
  let idx := s.nodeCount
  let s := { s with nodeCount := (s.nodeCount + 1) % 2 ^ cfg.w }
  if cfg.nodePoolCap ≤ idx then (.error .noSpace, s)
  else (.ok idx, { s with pool := Function.update s.pool idx v })

/-- The end of `create_file` and `create_dir`: the new node becomes a child. -/
def link (dir new : ℕ) : Except FsError ℕ × Store :=
  match s.node cfg dir with
  | none => (.error .notFound, s)
  | some (.file _) => (.error .notDirectory, s)
  | some (.dir d) =>
    if none ∈ d.children then
      (.ok new, { s with
        pool := Function.update s.pool dir (.dir { d with children := pushSlot new d.children }) })
    else (.error .noSpace, s)

/-- `create_file` and `create_dir`, which differ in the node they make. -/
def create (mk : List UInt8 → Vnode) (dir : ℕ) (name : List UInt8) : Except FsError ℕ × Store :=
  if name = [] ∨ nameMax ≤ name.length then (.error .nameTooLong, s)
  else
    match s.node cfg dir with
    | none => (.error .notFound, s)
    | some (.file _) => (.error .notDirectory, s)
    | some (.dir d) =>
      match (s.view cfg).findChild name d.children with
      | .error e => (.error e, s)
      | .ok (some _) => (.error .alreadyExists, s)
      | .ok none =>
        match s.allocNode cfg (mk name) with
        | (.error e, s) => (.error e, s)
        | (.ok new, s) => s.link cfg dir new

/-- The call passes its checks and reaches `alloc_node`. -/
def Allocates (dir : ℕ) (name : List UInt8) : Prop :=
  ∃ d, ¬ (name = [] ∨ nameMax ≤ name.length) ∧ s.node cfg dir = some (.dir d) ∧
    (s.view cfg).findChild name d.children = .ok none

def createFile : ℕ → List UInt8 → Except FsError ℕ × Store := s.create cfg Vnode.newFile

def createDir : ℕ → List UInt8 → Except FsError ℕ × Store := s.create cfg Vnode.newDir

def writeFile (file : ℕ) (data : List UInt8) : Except FsError ℕ × Store :=
  match s.node cfg file with
  | none => (.error .notFound, s)
  | some (.dir _) => (.error .isDirectory, s)
  | some (.file f) =>
    let data := data.take cfg.fileMaxSize
    (.ok data.length, { s with pool := Function.update s.pool file (.file { f with data := data }) })

def init : Store :=
  match s.root with
  | some _ => s
  | none =>
    match s.allocNode cfg (.newDir [slash]) with
    | (.error _, s) => s
    | (.ok root, s) =>
      let s := { s with root := some root }
      let s := (s.createDir cfg root (ascii "dev")).2
      let s := (s.createDir cfg root (ascii "proc")).2
      (s.createDir cfg root (ascii "mnt")).2

/-- The state before `init`; `uninit` is what the storage holds. -/
def empty (uninit : ℕ → Vnode) : Store := ⟨uninit, 0, none⟩

variable {cfg : Config} {lim : Limits} {s : Store} {v : Vnode} {dir new file : ℕ} {name data : List UInt8}
  {mk : List UInt8 → Vnode}

theorem view_length : (s.view cfg).nodes.length = min s.nodeCount cfg.nodePoolCap := by
  simp [view]

theorem node_view (id : ℕ) : (s.view cfg).node id = s.node cfg id := by
  unfold node Ramfs.node view
  by_cases hid : id < min s.nodeCount cfg.nodePoolCap
  · rw [if_neg (by omega)]
    simp [List.getElem?_map, List.getElem?_range hid]
  · rw [if_pos (by omega), List.getElem?_eq_none_iff, List.length_map, List.length_range]
    omega

theorem view_update (hnode : s.node cfg dir ≠ none) (v : Vnode) :
    ({ s with pool := Function.update s.pool dir v } : Store).view cfg =
      { s.view cfg with nodes := (s.view cfg).nodes.set dir v } := by
  have hlt : dir < min s.nodeCount cfg.nodePoolCap := by
    unfold node at hnode
    split_ifs at hnode with hout
    · exact absurd rfl hnode
    · omega
  unfold view
  congr 1
  apply List.ext_getElem
  · simp
  · intro i hi hi'
    simp only [List.getElem_map, List.getElem_range, List.getElem_set]
    by_cases hid : dir = i
    · subst hid
      simp
    · rw [if_neg hid, Function.update_of_ne (Ne.symm hid)]

/-- Without a wrap the pool hands out indices like the list. -/
theorem view_allocNode (hwrap : s.nodeCount + 1 < 2 ^ cfg.w) (v : Vnode) :
    (s.allocNode cfg v).1 = ((s.view cfg).allocNode cfg.nodePoolCap v).1 ∧
      (s.allocNode cfg v).2.view cfg = ((s.view cfg).allocNode cfg.nodePoolCap v).2 := by
  unfold allocNode Ramfs.allocNode
  rw [view_length, Nat.mod_eq_of_lt hwrap]
  by_cases hfull : cfg.nodePoolCap ≤ s.nodeCount
  · rw [if_pos hfull, if_pos (by omega)]
    refine ⟨rfl, ?_⟩
    simp only [view, Ramfs.mk.injEq, and_true]
    rw [min_eq_right (by omega), min_eq_right hfull]
  · rw [if_neg hfull, if_neg (by omega), min_eq_left (by omega)]
    refine ⟨rfl, ?_⟩
    simp only [view, Ramfs.mk.injEq, and_true]
    rw [min_eq_left (by omega), min_eq_left (by omega), List.range_succ, List.map_append]
    congr 1
    · apply List.map_congr_left
      intro i hi
      exact Function.update_of_ne (by have := List.mem_range.mp hi; omega) _ _
    · simp

theorem node_lt {id : ℕ} (h : s.node cfg id = some v) :
    id < s.nodeCount ∧ id < cfg.nodePoolCap := by
  unfold node at h
  split_ifs at h
  omega

theorem nodeCount_allocNode : (s.allocNode cfg v).2.nodeCount = (s.nodeCount + 1) % 2 ^ cfg.w := by
  unfold allocNode
  dsimp only
  split_ifs
  · rfl
  · rfl

theorem nodeCount_link : (s.link cfg dir new).2.nodeCount = s.nodeCount := by
  unfold link
  split
  · rfl
  · rfl
  · split_ifs
    · rfl
    · rfl

/-- A call of `write_file` changes nothing, or the data of a file. -/
theorem writeFile_cases (cfg : Config) (s : Store) (file : ℕ) (data : List UInt8) :
    (∃ e, s.writeFile cfg file data = (.error e, s)) ∨
    ∃ f, s.node cfg file = some (.file f) ∧ s.writeFile cfg file data =
      (.ok (data.take cfg.fileMaxSize).length, { s with
        pool := Function.update s.pool file
          (.file { f with data := data.take cfg.fileMaxSize }) }) := by
  unfold writeFile
  cases hnode : s.node cfg file with
  | none => exact .inl ⟨_, rfl⟩
  | some v =>
    cases v with
    | dir d => exact .inl ⟨_, rfl⟩
    | file f => exact .inr ⟨f, rfl, rfl⟩

theorem create_eq {d : DirNode} (hname : ¬ (name = [] ∨ nameMax ≤ name.length))
    (hdir : s.node cfg dir = some (.dir d))
    (hfind : (s.view cfg).findChild name d.children = .ok none) :
    s.create cfg mk dir name =
      match s.allocNode cfg (mk name) with
      | (.error e, s) => (.error e, s)
      | (.ok new, s) => s.link cfg dir new := by
  rw [create, if_neg hname, hdir]
  dsimp only
  rw [hfind]

/-- A call of `create` fails in a check and changes nothing, or allocates a node. -/
theorem create_checks (cfg : Config) (s : Store) (mk : List UInt8 → Vnode) (dir : ℕ)
    (name : List UInt8) :
    (∃ e, s.create cfg mk dir name = (.error e, s) ∧
      Ramfs.create mk cfg.nodePoolCap (s.view cfg) dir name = (.error e, s.view cfg)) ∨
    s.Allocates cfg dir name := by
  unfold create Ramfs.create
  split_ifs with hname
  · exact .inl ⟨_, rfl, rfl⟩
  rw [node_view]
  cases hnode : s.node cfg dir with
  | none => exact .inl ⟨_, rfl, rfl⟩
  | some v =>
    cases v with
    | file f => exact .inl ⟨_, rfl, rfl⟩
    | dir d =>
      dsimp only
      cases hfind : (s.view cfg).findChild name d.children with
      | error e => exact .inl ⟨_, rfl, rfl⟩
      | ok found =>
        cases found with
        | some c => exact .inl ⟨_, rfl, rfl⟩
        | none => exact .inr ⟨d, hname, hnode, hfind⟩

theorem nodeCount_create {d : DirNode} (hname : ¬ (name = [] ∨ nameMax ≤ name.length))
    (hdir : s.node cfg dir = some (.dir d))
    (hfind : (s.view cfg).findChild name d.children = .ok none) :
    (s.create cfg mk dir name).2.nodeCount = (s.nodeCount + 1) % 2 ^ cfg.w := by
  rw [create_eq hname hdir hfind, ← nodeCount_allocNode (v := mk name)]
  cases s.allocNode cfg (mk name) with
  | mk result s' =>
    cases result with
    | error e => rfl
    | ok new => exact nodeCount_link

theorem view_link {fs : Ramfs} {d : DirNode} (hview : s.view cfg = fs)
    (hdir : fs.node dir = some (.dir d)) (new : ℕ) :
    (s.link cfg dir new).1 = (if none ∈ d.children then .ok new else .error .noSpace) ∧
      (s.link cfg dir new).2.view cfg =
        if none ∈ d.children then
          { fs with nodes := fs.nodes.set dir (.dir { d with children := pushSlot new d.children }) }
        else fs := by
  subst hview
  rw [node_view] at hdir
  unfold link
  rw [hdir]
  dsimp only
  split_ifs with hroom
  · exact ⟨rfl, view_update (by rw [hdir]; simp) _⟩
  · exact ⟨rfl, rfl⟩

/-- Without a wrap `create` answers and changes the nodes like the one on lists. -/
theorem view_create (mk : List UInt8 → Vnode)
    (hwrap : s.Allocates cfg dir name → s.nodeCount + 1 < 2 ^ cfg.w) :
    (s.create cfg mk dir name).1 =
        (Ramfs.create mk cfg.nodePoolCap (s.view cfg) dir name).1 ∧
      (s.create cfg mk dir name).2.view cfg =
        (Ramfs.create mk cfg.nodePoolCap (s.view cfg) dir name).2 := by
  obtain ⟨e, heq, heq'⟩ | ⟨d, hname, hdir, hfind⟩ := create_checks cfg s mk dir name
  · rw [heq, heq']
    exact ⟨rfl, rfl⟩
  obtain ⟨hresult, hview⟩ := view_allocNode (hwrap ⟨d, hname, hdir, hfind⟩) (mk name)
  rw [create_eq hname hdir hfind, Ramfs.create, if_neg hname, node_view, hdir]
  dsimp only
  rw [hfind]
  dsimp only
  rcases halloc : s.allocNode cfg (mk name) with ⟨result, s'⟩
  rcases hlist : (s.view cfg).allocNode cfg.nodePoolCap (mk name) with ⟨result', fs'⟩
  rw [halloc, hlist] at hresult hview
  obtain rfl : result = result' := hresult
  cases result with
  | error e => exact ⟨rfl, hview⟩
  | ok new =>
    have hdir' : fs'.node dir = some (.dir d) := by
      unfold Ramfs.allocNode at hlist
      split_ifs at hlist
      · cases hlist
      obtain ⟨-, rfl⟩ := Prod.mk.inj hlist
      exact Ramfs.node_append (by rw [node_view, hdir]) _
    obtain ⟨hlink, hlinked⟩ := view_link hview hdir' new
    dsimp only
    rw [hlink, hlinked]
    split_ifs
    · exact ⟨rfl, rfl⟩
    · exact ⟨rfl, rfl⟩

/-- A call that succeeds does not wrap the counter, so that it does what the one on lists does. -/
theorem view_create_ok {s' : Store} (h : s.create lim mk dir name = (.ok new, s')) :
    Ramfs.create mk lim.nodePoolCap (s.view lim) dir name = (.ok new, s'.view lim) := by
  have hwrap : s.Allocates lim dir name → s.nodeCount + 1 < 2 ^ lim.w := by
    rintro ⟨d, hname, hdir, hfind⟩
    have hcap := lim.cap_lt
    by_contra hfull
    rw [create_eq hname hdir hfind, allocNode, if_pos (by omega)] at h
    cases h
  obtain ⟨hresult, hview⟩ := view_create mk hwrap
  rw [h] at hresult hview
  exact Prod.ext hresult.symm hview.symm

theorem view_writeFile :
    (s.writeFile cfg file data).1 = (Ramfs.writeFile cfg.fileMaxSize (s.view cfg) file data).1 ∧
      (s.writeFile cfg file data).2.view cfg =
        (Ramfs.writeFile cfg.fileMaxSize (s.view cfg) file data).2 := by
  unfold writeFile Ramfs.writeFile
  rw [node_view]
  cases hnode : s.node cfg file with
  | none => exact ⟨rfl, rfl⟩
  | some v =>
    cases v with
    | dir d => exact ⟨rfl, rfl⟩
    | file f => exact ⟨rfl, view_update (by rw [hnode]; simp) _⟩

theorem nodeCount_create_le (mk : List UInt8 → Vnode) (dir : ℕ) (name : List UInt8) :
    (s.create cfg mk dir name).2.nodeCount ≤ s.nodeCount + 1 := by
  obtain ⟨e, heq, -⟩ | ⟨d, hname, hdir, hfind⟩ := create_checks cfg s mk dir name
  · rw [heq]
    exact Nat.le_succ _
  · rw [nodeCount_create hname hdir hfind]
    exact Nat.mod_le _ _

theorem nodeCount_create_lt (hcount : s.nodeCount < 2 ^ cfg.w) (mk : List UInt8 → Vnode) (dir : ℕ)
    (name : List UInt8) : (s.create cfg mk dir name).2.nodeCount < 2 ^ cfg.w := by
  obtain ⟨e, heq, -⟩ | ⟨d, hname, hdir, hfind⟩ := create_checks cfg s mk dir name
  · rwa [heq]
  · rw [nodeCount_create hname hdir hfind]
    exact Nat.mod_lt _ (Nat.two_pow_pos _)

theorem create_full {d : DirNode} (hfull : cfg.nodePoolCap ≤ s.nodeCount)
    (hname : ¬ (name = [] ∨ nameMax ≤ name.length)) (hdir : s.node cfg dir = some (.dir d))
    (hfind : (s.view cfg).findChild name d.children = .ok none) :
    s.create cfg mk dir name =
      (.error .noSpace, { s with nodeCount := (s.nodeCount + 1) % 2 ^ cfg.w }) := by
  rw [create_eq hname hdir hfind, allocNode, if_pos hfull]

theorem view_of_full (hfull : cfg.nodePoolCap ≤ s.nodeCount) (k : ℕ) :
    ({ s with nodeCount := s.nodeCount + k } : Store).view cfg = s.view cfg := by
  simp only [view]
  rw [min_eq_right hfull, min_eq_right (by omega)]

theorem nodeCount_writeFile : (s.writeFile cfg file data).2.nodeCount = s.nodeCount := by
  obtain ⟨e, heq⟩ | ⟨f, -, heq⟩ := writeFile_cases cfg s file data
  · rw [heq]
  · rw [heq]

theorem nodeCount_init_lt (hcount : s.nodeCount < 2 ^ cfg.w) :
    (s.init cfg).nodeCount < 2 ^ cfg.w := by
  have halloc : (s.allocNode cfg (.newDir [slash])).2.nodeCount < 2 ^ cfg.w := by
    rw [nodeCount_allocNode]
    exact Nat.mod_lt _ (Nat.two_pow_pos _)
  unfold init
  split
  · exact hcount
  · split
    next heq =>
      rwa [heq] at halloc
    next root s' heq =>
      rw [heq] at halloc
      have hroot : ({ s' with root := some root } : Store).nodeCount < 2 ^ cfg.w := halloc
      exact nodeCount_create_lt (nodeCount_create_lt (nodeCount_create_lt hroot _ _ _) _ _ _) _ _ _

/-- When the counter wraps, it is 0. -/
theorem nodeCount_create_wrap (hcount : s.nodeCount < 2 ^ cfg.w)
    (hwrap : ¬ (s.Allocates cfg dir name → s.nodeCount + 1 < 2 ^ cfg.w)) :
    (s.create cfg mk dir name).2.nodeCount = 0 := by
  rw [Classical.not_imp] at hwrap
  obtain ⟨⟨d, hname, hdir, hfind⟩, hlast⟩ := hwrap
  have hlast : s.nodeCount + 1 = 2 ^ cfg.w := by omega
  rw [nodeCount_create hname hdir hfind, hlast, Nat.mod_self]

/-- As long as the counter is not 0, what is found stays found. -/
theorem keeps_create (hmk : ∀ name, (mk name).name = name.take (nameMax - 1))
    (hcount : s.nodeCount < 2 ^ cfg.w) (hafter : (s.create cfg mk dir name).2.nodeCount ≠ 0) :
    s.nodeCount ≠ 0 ∧ Ramfs.Keeps (s.view cfg) ((s.create cfg mk dir name).2.view cfg) := by
  by_cases hwrap : s.Allocates cfg dir name → s.nodeCount + 1 < 2 ^ cfg.w
  · refine ⟨?_, (view_create mk hwrap).2 ▸ Ramfs.keeps_create hmk⟩
    obtain ⟨e, heq, -⟩ | ⟨d, -, hdir, -⟩ := create_checks cfg s mk dir name
    · rwa [heq] at hafter
    · have hlt := (node_lt hdir).1
      omega
  · exact absurd (nodeCount_create_wrap hcount hwrap) hafter

theorem keeps_writeFile : Ramfs.Keeps (s.view cfg) ((s.writeFile cfg file data).2.view cfg) :=
  view_writeFile.2 ▸ Ramfs.keeps_writeFile

theorem allocNode_root (lim : Limits) (uninit : ℕ → Vnode) (v : Vnode) :
    (empty uninit).allocNode lim v = (.ok 0, ⟨Function.update uninit 0 v, 1, none⟩) := by
  have hwidth : 2 ^ 16 ≤ 2 ^ lim.w := Nat.pow_le_pow_right (by decide) lim.width
  simp only [allocNode, empty, if_neg (Nat.not_le.mpr lim.cap_pos), Nat.zero_add]
  rw [Nat.mod_eq_of_lt (by omega)]

theorem view_root (lim : Limits) (uninit : ℕ → Vnode) (v : Vnode) :
    (⟨Function.update uninit 0 v, 1, some 0⟩ : Store).view lim = ⟨[v], some 0⟩ := by
  simp only [view, min_eq_left (Nat.succ_le_of_lt lim.cap_pos), List.range_one, List.map_singleton,
    Function.update_self]

end Store

end OpenIon.Fs
