import OpenIon.Fs.Ramfs
import OpenIon.Lib.NamedTree

/-! # RAMFS as a tree of named files

A child always has a larger index than its directory, since a node is allocated when it is
created, and it becomes the child of that directory only. So the directories form a tree, in which
paths are followed, and every call changes one node of it.
-/
namespace OpenIon.Fs
open Lib

namespace Ramfs

/-- The directory `dir` has the child `c`, whose name is `name`. -/
def Child (fs : Ramfs) (dir : ℕ) (name : List UInt8) (c : ℕ) : Prop :=
  ∃ d, fs.node dir = some (.dir d) ∧ some c ∈ d.children ∧
    (fs.node c).map Vnode.name = some name

/-- Children come after their directory, have one directory, and have different names in it. -/
structure Grown (fs : Ramfs) : Prop where
  root : fs.root = some 0
  rootDir : ∃ d, fs.node 0 = some (.dir d)
  later : ∀ dir d c, fs.node dir = some (.dir d) → some c ∈ d.children →
    dir < c ∧ c < fs.nodes.length
  parent : ∀ dir d dir' d' c, fs.node dir = some (.dir d) → fs.node dir' = some (.dir d') →
    some c ∈ d.children → some c ∈ d'.children → dir = dir'
  names : ∀ dir d, fs.node dir = some (.dir d) →
    (d.children.reduceOption.map fun c => (fs.node c).map Vnode.name).Nodup

variable {fs fs' : Ramfs} {dir new c : ℕ} {name : List UInt8} {v : Vnode} {d : DirNode}
  {children : List (Option ℕ)}

theorem node_lt (h : fs.node c = some v) : c < fs.nodes.length :=
  (List.getElem?_eq_some_iff.mp h).1

theorem node_eq_none (h : fs.nodes.length ≤ c) : fs.node c = none :=
  List.getElem?_eq_none h

theorem node_push (v : Vnode) (id : ℕ) :
    ({ fs with nodes := fs.nodes ++ [v] } : Ramfs).node id =
      if id = fs.nodes.length then some v else fs.node id := by
  unfold node
  rw [List.getElem?_append]
  split_ifs with hlt heq heq
  · omega
  · rfl
  · simp [heq]
  · rw [List.getElem?_eq_none (by simp; omega), List.getElem?_eq_none (by omega)]

/-! ### Reading -/

/-- The loop finds the child of that name, if every child is a node. -/
theorem findChild_eq (hnodes : ∀ c, some c ∈ children → ∃ v, fs.node c = some v) :
    fs.findChild name children =
      .ok (children.reduceOption.find? fun c => (fs.node c).map Vnode.name = some name) := by
  induction children with
  | nil => rfl
  | cons slot children ih =>
    have hrest := ih fun c hc => hnodes c (List.mem_cons_of_mem slot hc)
    cases slot with
    | none => simpa [findChild] using hrest
    | some child =>
      obtain ⟨v, hv⟩ := hnodes child List.mem_cons_self
      rw [findChild, hv, List.reduceOption_cons_of_some, List.find?_cons, hv]
      by_cases hname : v.name = name
      · simp [hname]
      · simp [hname, hrest]

namespace Grown

theorem exists_node (h : Grown fs) (hdir : fs.node dir = some (.dir d)) (hc : some c ∈ d.children) :
    ∃ v, fs.node c = some v := by
  obtain ⟨-, hlt⟩ := h.later dir d c hdir hc
  exact ⟨fs.nodes[c], List.getElem?_eq_getElem hlt⟩

theorem findChild_iff (h : Grown fs) (hdir : fs.node dir = some (.dir d)) :
    fs.findChild name d.children = .ok (some c) ↔
      some c ∈ d.children ∧ (fs.node c).map Vnode.name = some name := by
  rw [findChild_eq fun c hc => h.exists_node hdir hc, Except.ok.injEq]
  constructor
  · intro hfind
    exact ⟨List.reduceOption_mem_iff.mp (List.mem_of_find?_eq_some hfind),
      by simpa using List.find?_some hfind⟩
  · rintro ⟨hc, hname⟩
    have hsome : (d.children.reduceOption.find? fun c =>
        decide ((fs.node c).map Vnode.name = some name)).isSome = true := by
      rw [List.find?_isSome]
      exact ⟨c, List.reduceOption_mem_iff.mpr hc, by simpa using hname⟩
    obtain ⟨c', hfind⟩ := Option.isSome_iff_exists.mp hsome
    have hname' : (fs.node c').map Vnode.name = some name := by simpa using List.find?_some hfind
    rw [hfind, List.inj_on_of_nodup_map (h.names dir d hdir) (List.mem_of_find?_eq_some hfind)
      (List.reduceOption_mem_iff.mpr hc) (hname'.trans hname.symm)]

theorem lookup_iff (h : Grown fs) : fs.lookup dir name = .ok c ↔ fs.Child dir name c := by
  constructor
  · intro hlookup
    obtain ⟨d, hdir⟩ := exists_dir_of_lookup hlookup
    exact ⟨d, hdir, (h.findChild_iff hdir).mp ((lookup_eq_ok hdir).mp hlookup)⟩
  · rintro ⟨d, hdir, hchild⟩
    rw [lookup_eq_ok hdir, h.findChild_iff hdir]
    exact hchild

theorem resolveFrom_iff (h : Grown fs) (components : List (List UInt8)) :
    fs.resolveFrom dir components = .ok c ↔ Follows fs.Child dir components c := by
  induction components generalizing dir with
  | nil => simp [resolveFrom]
  | cons component rest ih =>
    rw [follows_cons, resolveFrom]
    cases hlookup : fs.lookup dir component with
    | error e =>
      simp only [reduceCtorEq, false_iff, not_exists, not_and]
      intro b hb
      rw [h.lookup_iff.mpr hb] at hlookup
      cases hlookup
    | ok next =>
      rw [ih]
      constructor
      · intro hrest
        exact ⟨next, h.lookup_iff.mp hlookup, hrest⟩
      · rintro ⟨b, hb, hrest⟩
        rw [h.lookup_iff.mpr hb] at hlookup
        exact Except.ok.inj hlookup ▸ hrest

theorem resolvePath_iff (h : Grown fs) (path : List UInt8) :
    fs.resolvePath path = .ok c ↔ Follows fs.Child 0 (parts path) c := by
  rw [resolvePath, h.root]
  exact h.resolveFrom_iff _

theorem isTree (h : Grown fs) : IsTree fs.Child 0 where
  parent := by
    rintro a a' k k' c ⟨d, hd, hc, -⟩ ⟨d', hd', hc', -⟩
    exact h.parent a d a' d' c hd hd' hc hc'
  sibling a k c c' hc hc' := by
    rw [← h.lookup_iff] at hc hc'
    exact Except.ok.inj (hc.symm.trans hc')
  root := by
    rintro a k ⟨d, hd, hc, -⟩
    exact absurd (h.later a d 0 hd hc).1 (Nat.not_lt_zero a)
  acyclic a k ks hcycle := by
    refine absurd (hcycle.lt ?_) (lt_irrefl a)
    rintro a k c ⟨d, hd, hc, -⟩
    exact (h.later a d c hd hc).1

theorem lt_of_follows (h : Grown fs) {names : List (List UInt8)}
    (hpath : Follows fs.Child dir names c) (hdir : dir < fs.nodes.length) :
    c < fs.nodes.length := by
  induction names generalizing dir with
  | nil => exact follows_nil.mp hpath ▸ hdir
  | cons name names ih =>
    obtain ⟨b, ⟨d, hd, hb, -⟩, hrest⟩ := follows_cons.mp hpath
    exact ih hrest (h.later dir d b hd hb).2

theorem listDir (h : Grown fs) (hdir : fs.node dir = some (.dir d)) :
    ∃ ids : List ℕ, ids.Nodup ∧ (∀ c, c ∈ ids ↔ ∃ name, fs.Child dir name c) ∧
      List.Forall₂ (fun c entry => ∃ v, fs.node c = some v ∧ entry = ⟨v.name, v.fileType⟩) ids
        (fs.listDir dir) := by
  refine ⟨d.children.reduceOption, (h.names dir d hdir).of_map _, fun c => ?_, ?_⟩
  · rw [List.reduceOption_mem_iff]
    constructor
    · intro hc
      obtain ⟨v, hv⟩ := h.exists_node hdir hc
      exact ⟨v.name, d, hdir, hc, by rw [hv]; rfl⟩
    · rintro ⟨name, d', hdir', hc, -⟩
      rw [hdir] at hdir'
      obtain rfl : d = d' := by simpa using hdir'
      exact hc
  · have hnodes : ∀ c ∈ d.children.reduceOption, ∃ v, fs.node c = some v := fun c hc =>
      h.exists_node hdir (List.reduceOption_mem_iff.mp hc)
    unfold Ramfs.listDir
    rw [hdir]
    dsimp only
    generalize d.children.reduceOption = ids at hnodes
    induction ids with
    | nil => exact .nil
    | cons c ids ih =>
      obtain ⟨v, hv⟩ := hnodes c List.mem_cons_self
      have hrest := ih fun c' hc' => hnodes c' (List.mem_cons_of_mem c hc')
      simp only [List.map_cons, hv, List.takeWhile_cons, Option.isSome_some, if_true,
        List.reduceOption_cons_of_some]
      exact .cons ⟨v, hv, rfl⟩ hrest

end Grown

/-! ### Changing -/

def Vacant (v : Vnode) : Prop := ∀ d c, v = .dir d → some c ∉ d.children

theorem Grown.push (h : Grown fs) (hv : Vacant v) :
    Grown { fs with nodes := fs.nodes ++ [v] } := by
  have hold : ∀ dir d c, ({ fs with nodes := fs.nodes ++ [v] } : Ramfs).node dir = some (.dir d) →
      some c ∈ d.children → fs.node dir = some (.dir d) := by
    intro dir d c hdir hc
    rw [node_push] at hdir
    split_ifs at hdir
    · exact absurd hc (hv d c (Option.some.inj hdir))
    · exact hdir
  constructor
  · exact h.root
  · obtain ⟨d, hd⟩ := h.rootDir
    exact ⟨d, node_append hd v⟩
  · intro dir d c hdir hc
    obtain ⟨hlt, hlen⟩ := h.later dir d c (hold dir d c hdir hc) hc
    exact ⟨hlt, by simp; omega⟩
  · intro dir d dir' d' c hdir hdir' hc hc'
    exact h.parent dir d dir' d' c (hold dir d c hdir hc) (hold dir' d' c hdir' hc') hc hc'
  · intro dir d hdir
    by_cases hsome : ∃ c, some c ∈ d.children
    · obtain ⟨c, hc⟩ := hsome
      have hdir' := hold dir d c hdir hc
      have hsame : (d.children.reduceOption.map fun c =>
          (({ fs with nodes := fs.nodes ++ [v] } : Ramfs).node c).map Vnode.name) =
          d.children.reduceOption.map fun c => (fs.node c).map Vnode.name := by
        apply List.map_congr_left
        intro c hc
        have hlt := (h.later dir d c hdir' (List.reduceOption_mem_iff.mp hc)).2
        rw [node_push, if_neg (by omega)]
      rw [hsame]
      exact h.names dir d hdir'
    · have hnil : d.children.reduceOption = [] := by
        apply List.eq_nil_iff_forall_not_mem.mpr
        intro c hc
        exact hsome ⟨c, List.reduceOption_mem_iff.mp hc⟩
      simp [hnil]

theorem Grown.child_push (h : Grown fs) (hv : Vacant v) (dir : ℕ) (name : List UInt8) (c : ℕ) :
    ({ fs with nodes := fs.nodes ++ [v] } : Ramfs).Child dir name c ↔ fs.Child dir name c := by
  constructor
  · rintro ⟨d, hdir, hc, hname⟩
    rw [node_push] at hdir
    split_ifs at hdir
    · exact absurd hc (hv d c (Option.some.inj hdir))
    · have hlt := (h.later dir d c hdir hc).2
      rw [node_push, if_neg (by omega)] at hname
      exact ⟨d, hdir, hc, hname⟩
  · rintro ⟨d, hdir, hc, hname⟩
    have hlt := (h.later dir d c hdir hc).2
    exact ⟨d, node_append hdir v, hc, by rw [node_push, if_neg (by omega), hname]⟩

def link (fs : Ramfs) (dir new : ℕ) (d : DirNode) : Ramfs :=
  { fs with nodes := fs.nodes.set dir (.dir { d with children := pushSlot new d.children }) }

section Link

variable (hdir : fs.node dir = some (.dir d))
include hdir

theorem node_link (new id : ℕ) : (link fs dir new d).node id =
    if dir = id then some (.dir { d with children := pushSlot new d.children }) else fs.node id :=
  node_set (node_lt hdir)

theorem name_link (new id : ℕ) :
    ((link fs dir new d).node id).map Vnode.name = (fs.node id).map Vnode.name := by
  rw [node_link hdir]
  split_ifs with heq
  · rw [← heq, hdir]
    rfl
  · rfl

/-- The directories after the link, with the children they had and the new one. -/
theorem link_children (hroom : none ∈ d.children) {a : ℕ} :
    (∃ e, (link fs dir new d).node a = some (.dir e) ∧ some c ∈ e.children) ↔
      (a = dir ∧ c = new) ∨ ∃ e, fs.node a = some (.dir e) ∧ some c ∈ e.children := by
  simp only [node_link hdir]
  by_cases heq : dir = a
  · subst heq
    simp [hdir, mem_pushSlot hroom]
  · simp [heq, Ne.symm heq]

theorem child_link (hroom : none ∈ d.children) (hnew : fs.node new = some v) (a : ℕ)
    (name : List UInt8) (c : ℕ) :
    (link fs dir new d).Child a name c ↔
      fs.Child a name c ∨ (a = dir ∧ name = v.name ∧ c = new) := by
  have hold : fs.Child a name c ↔ (∃ e, fs.node a = some (.dir e) ∧ some c ∈ e.children) ∧
      (fs.node c).map Vnode.name = some name := by
    simp only [Child, ← and_assoc, exists_and_right]
  have hlinked : (link fs dir new d).Child a name c ↔
      (∃ e, (link fs dir new d).node a = some (.dir e) ∧ some c ∈ e.children) ∧
        ((link fs dir new d).node c).map Vnode.name = some name := by
    simp only [Child, ← and_assoc, exists_and_right]
  rw [hold, hlinked, link_children hdir hroom, name_link hdir]
  constructor
  · rintro ⟨⟨rfl, rfl⟩ | hchild, hname⟩
    · rw [hnew] at hname
      exact .inr ⟨rfl, (Option.some.inj hname).symm, rfl⟩
    · exact .inl ⟨hchild, hname⟩
  · rintro (⟨hchild, hname⟩ | ⟨rfl, rfl, rfl⟩)
    · exact ⟨.inr hchild, hname⟩
    · exact ⟨.inl ⟨rfl, rfl⟩, by rw [hnew]; rfl⟩

theorem Grown.link (h : Grown fs) (hroom : none ∈ d.children) (hnew : fs.node new = some v)
    (hlater : dir < new) (hfree : ∀ a e, fs.node a = some (.dir e) → some new ∉ e.children)
    (hname : ∀ c, some c ∈ d.children → (fs.node c).map Vnode.name ≠ some v.name) :
    Grown (link fs dir new d) := by
  have hlength : (Ramfs.link fs dir new d).nodes.length = fs.nodes.length := by
    simp [Ramfs.link]
  constructor
  · exact h.root
  · obtain ⟨e, he⟩ := h.rootDir
    rw [node_link hdir]
    split_ifs
    · exact ⟨_, rfl⟩
    · exact ⟨e, he⟩
  · intro a e c ha hc
    rw [hlength]
    obtain ⟨rfl, rfl⟩ | ⟨e', ha', hc'⟩ := (link_children hdir hroom).mp ⟨e, ha, hc⟩
    · exact ⟨hlater, node_lt hnew⟩
    · exact h.later a e' c ha' hc'
  · intro a e a' e' c ha ha' hc hc'
    obtain ⟨rfl, rfl⟩ | ⟨f, hf, hcf⟩ := (link_children hdir hroom).mp ⟨e, ha, hc⟩
    · obtain ⟨rfl, -⟩ | ⟨f', hf', hcf'⟩ := (link_children hdir hroom).mp ⟨e', ha', hc'⟩
      · rfl
      · exact absurd hcf' (hfree a' f' hf')
    · obtain ⟨rfl, rfl⟩ | ⟨f', hf', hcf'⟩ := (link_children hdir hroom).mp ⟨e', ha', hc'⟩
      · exact absurd hcf (hfree a f hf)
      · exact h.parent a f a' f' c hf hf' hcf hcf'
  · intro a e ha
    simp only [name_link hdir]
    rw [node_link hdir] at ha
    split_ifs at ha with heq
    · obtain rfl : { d with children := pushSlot new d.children } = e := by simpa using ha
      have hperm := reduceOption_pushSlot (x := new) hroom
      rw [(hperm.map _).nodup_iff, List.map_cons, List.nodup_cons]
      refine ⟨?_, h.names dir d hdir⟩
      intro hmem
      obtain ⟨c, hc, hsame⟩ := List.mem_map.mp hmem
      rw [hnew] at hsame
      exact hname c (List.reduceOption_mem_iff.mp hc) hsame
    · exact h.names a e ha

end Link

/-- A node that was created is the next of the pool, and is found under its name. -/
theorem lookup_of_create {mk : List UInt8 → Vnode} {cap : ℕ}
    (hmk : ∀ name, (mk name).name = name.take (nameMax - 1))
    (h : create mk cap fs dir name = (.ok new, fs')) :
    new = fs.nodes.length ∧ dir < new ∧ fs'.lookup dir name = .ok new := by
  obtain ⟨e, heq⟩ | heq | ⟨d, hdir, hnone, hlength, hroom, heq⟩ := create_cases mk cap fs dir name
  · rw [heq] at h
    cases h
  · rw [heq] at h
    cases h
  · rw [heq] at h
    obtain ⟨hnew, rfl⟩ := Prod.mk.inj h
    obtain rfl : fs.nodes.length = new := Except.ok.inj hnew
    have hdir' := node_append hdir (mk name)
    have hlast : ({ fs with nodes := fs.nodes ++ [mk name] } : Ramfs).node fs.nodes.length =
        some (mk name) := by
      rw [node_push, if_pos rfl]
    have hkeeps : KeepsNames { fs with nodes := fs.nodes ++ [mk name] }
        (link { fs with nodes := fs.nodes ++ [mk name] } dir fs.nodes.length d) :=
      keepsNames_set hdir' rfl
    refine ⟨rfl, node_lt hdir, (lookup_eq_ok ((node_link hdir' _ _).trans (if_pos rfl))).mpr ?_⟩
    refine findChild_pushSlot (v := mk name) ?_
      (hkeeps.findChild ((keepsNames_append (mk name)).findChild hnone))
      (.inr ⟨?_, rfl, hroom, rfl⟩)
    · exact (node_link hdir' _ _).trans (by rw [if_neg (node_lt hdir).ne, hlast])
    · rw [hmk, List.take_of_length_le (by omega)]

/-- A call that creates a node changes no file and no other directory, and its own directory has
the new child if it succeeded. -/
structure Created (mk : List UInt8 → Vnode) (fs fs' : Ramfs) (dir : ℕ) (name : List UInt8)
    (result : Except FsError ℕ) : Prop where
  made : ∀ c, result = .ok c → fs'.node c = some (mk name)
  files : ∀ f file, fs.node f = some (.file file) → fs'.node f = some (.file file)
  fresh : ∀ f file, fs'.node f = some (.file file) →
    fs.node f = some (.file file) ∨ (fs.node f = none ∧ mk name = .file file)
  grows : fs.nodes.length ≤ fs'.nodes.length
  others : ∀ a ≠ dir, ∀ n c, fs'.Child a n c ↔ fs.Child a n c
  entries : ∀ n c, fs'.Child dir n c ↔ fs.Child dir n c ∨ (n = name ∧ result = .ok c)

/-- A call that writes a file changes no other node and no directory. -/
structure Written (fs fs' : Ramfs) (file : ℕ) : Prop where
  others : ∀ f ≠ file, fs'.node f = fs.node f
  children : ∀ a n c, fs'.Child a n c ↔ fs.Child a n c

theorem Grown.create (h : Grown fs) {mk : List UInt8 → Vnode}
    (hmk : ∀ name, (mk name).name = name.take (nameMax - 1)) (hvacant : ∀ name, Vacant (mk name))
    (cap dir : ℕ) (name : List UInt8) :
    Grown (create mk cap fs dir name).2 ∧
      Created mk fs (create mk cap fs dir name).2 dir name (create mk cap fs dir name).1 := by
  have hfile : ∀ f file,
      ({ fs with nodes := fs.nodes ++ [mk name] } : Ramfs).node f = some (.file file) →
      fs.node f = some (.file file) ∨ (fs.node f = none ∧ mk name = .file file) := by
    intro f file hf
    rw [node_push] at hf
    split_ifs at hf with hlast
    · exact .inr ⟨node_eq_none hlast.ge, Option.some.inj hf⟩
    · exact .inl hf
  obtain ⟨e, heq⟩ | heq | ⟨d, hdir, hfind, hlength, hroom, heq⟩ := create_cases mk cap fs dir name
  · rw [heq]
    refine ⟨h, ?_, fun f file hf => hf, fun f file hf => .inl hf, le_rfl, fun a ha n c => Iff.rfl, ?_⟩
    · rintro c ⟨⟩
    · simp
  · rw [heq]
    refine ⟨h.push (hvacant name), ?_, fun f file hf => node_append hf _, hfile, by simp,
      fun a ha n c => h.child_push (hvacant name) a n c, ?_⟩
    · rintro c ⟨⟩
    · simp [h.child_push (hvacant name)]
  · rw [heq]
    have hname : (mk name).name = name := by
      rw [hmk, List.take_of_length_le (by omega)]
    have hnew : ({ fs with nodes := fs.nodes ++ [mk name] } : Ramfs).node fs.nodes.length =
        some (mk name) := by
      rw [node_push, if_pos rfl]
    have hdir' := node_append hdir (mk name)
    have hunused : ∀ c, some c ∈ d.children →
        (({ fs with nodes := fs.nodes ++ [mk name] } : Ramfs).node c).map Vnode.name ≠
          some (mk name).name := by
      intro c hc heq
      rw [findChild_eq fun c hc => h.exists_node hdir hc, Except.ok.injEq,
        List.find?_eq_none] at hfind
      rw [node_push, if_neg (h.later dir d c hdir hc).2.ne, hname] at heq
      exact hfind c (List.reduceOption_mem_iff.mpr hc) (by simpa using heq)
    have hfree : ∀ a e, ({ fs with nodes := fs.nodes ++ [mk name] } : Ramfs).node a =
        some (.dir e) → some fs.nodes.length ∉ e.children := by
      intro a e ha hmem
      rw [node_push] at ha
      split_ifs at ha
      · exact hvacant name e _ (Option.some.inj ha) hmem
      · exact lt_irrefl _ (h.later a e _ ha hmem).2
    have hchild := child_link hdir' hroom hnew
    refine ⟨(h.push (hvacant name)).link hdir' hroom hnew (node_lt hdir) hfree hunused,
      ?_, ?_, ?_, by simp, ?_, ?_⟩
    · rintro c ⟨⟩
      exact (node_link hdir' _ _).trans (by rw [if_neg (node_lt hdir).ne, hnew])
    · intro f file hf
      refine (node_link hdir' _ _).trans ?_
      rw [if_neg, node_append hf]
      rintro rfl
      rw [hdir] at hf
      cases hf
    · intro f file hf
      have hf := (node_link hdir' _ _).symm.trans hf
      split_ifs at hf
      · cases hf
      · exact hfile f file hf
    · intro a ha n c
      refine (hchild a n c).trans ?_
      simp [ha, h.child_push (hvacant name)]
    · intro n c
      refine (hchild dir n c).trans ?_
      rw [h.child_push (hvacant name), hname]
      simp [eq_comm]

theorem Grown.writeFile (h : Grown fs) (fileMaxSize file : ℕ) (data : List UInt8) :
    Grown (writeFile fileMaxSize fs file data).2 ∧
      Written fs (writeFile fileMaxSize fs file data).2 file := by
  unfold Ramfs.writeFile
  cases hnode : fs.node file with
  | none => exact ⟨h, fun f _ => rfl, fun a n c => Iff.rfl⟩
  | some v =>
    cases v with
    | dir d => exact ⟨h, fun f _ => rfl, fun a n c => Iff.rfl⟩
    | file f =>
      dsimp only
      set fs' : Ramfs := { fs with
        nodes := fs.nodes.set file (.file { f with data := data.take fileMaxSize }) } with hfs'
      have hset : ∀ id, fs'.node id =
          if file = id then some (.file { f with data := data.take fileMaxSize })
          else fs.node id := fun id => node_set (node_lt hnode)
      have hdirs : ∀ a e, fs'.node a = some (.dir e) ↔ fs.node a = some (.dir e) := by
        intro a e
        rw [hset]
        split_ifs with heq
        · subst heq
          simp [hnode]
        · rfl
      have hnames : ∀ c, (fs'.node c).map Vnode.name = (fs.node c).map Vnode.name := by
        intro c
        rw [hset]
        split_ifs with heq
        · rw [← heq, hnode]
          rfl
        · rfl
      have hlength : fs'.nodes.length = fs.nodes.length := by simp [hfs']
      refine ⟨⟨h.root, ?_, ?_, ?_, ?_⟩, ?_, ?_⟩
      · simpa only [hdirs] using h.rootDir
      · simpa only [hdirs, hlength] using h.later
      · simpa only [hdirs] using h.parent
      · simpa only [hdirs, hnames] using h.names
      · intro id hid
        rw [hset, if_neg (Ne.symm hid)]
      · intro a n c
        simp only [Child, hdirs, hnames]

end Ramfs

end OpenIon.Fs
