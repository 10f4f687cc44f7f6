import OpenIon.Fs.Disk
import OpenIon.Shell.Normalize

/-! # Creating files and directories in the shell

`touch` and `mkdir` cut the path at its last slash and normalise only what stands before it. The
name of the new node is what stands after the slash, as it was written. All other commands
normalise the whole path. The two agree unless the name is one that is not listed, or the whole
path is longer than the buffer.
-/
namespace OpenIon.Shell
open Lib Fs

/-- The two sides of the last slash; the root stays the root. -/
def parentAndChild (path : List UInt8) : List UInt8 × List UInt8 :=
  match splitLast path with
  | some ([], child) => ([slash], child)
  | some (parent, child) => (parent, child)
  | none => ([], path)

def splitParentChild (cwd path : List UInt8) : Option (List UInt8 × List UInt8) :=
  let (parentArg, child) := parentAndChild path
  if child = [] ∨ slash ∈ child then none
  else (normalizePath cwd parentArg).map fun parent => (parent, child)

/-- `cmd_touch` and `cmd_mkdir`, with what they print when there is no operand and when they fail;
otherwise the node. -/
def cmdCreate (missing cannot : List UInt8)
    (create : Store → ℕ → List UInt8 → Except FsError ℕ × Store) (lim : Limits) (s : Store)
    (cwd name : List UInt8) : Except (List UInt8) ℕ × Store :=
  let failed := cannot ++ ascii " '" ++ name ++ ascii "'"
  if name = [] then (.error missing, s)
  else
    match splitParentChild cwd name with
    | none => (.error failed, s)
    | some (parentPath, childName) =>
      match (s.view lim).resolvePath parentPath with
      | .error _ => (.error failed, s)
      | .ok parent =>
        match create s parent childName with
        | (.ok node, s) => (.ok node, s)
        | (.error _, s) => (.error failed, s)

def cmdTouch (lim : Limits) : Store → List UInt8 → List UInt8 → Except (List UInt8) ℕ × Store :=
  cmdCreate (ascii "touch: missing operand") (ascii "touch: cannot create file")
    (Store.createFile lim) lim

def cmdMkdir (lim : Limits) : Store → List UInt8 → List UInt8 → Except (List UInt8) ℕ × Store :=
  cmdCreate (ascii "mkdir: missing operand") (ascii "mkdir: cannot create directory")
    (Store.createDir lim) lim

/-- What the other commands find under the path. -/
def findsNode (lim : Limits) (s : Store) (cwd path : List UInt8) : Option ℕ :=
  match normalizePath cwd path with
  | none => none
  | some path => ((s.view lim).resolvePath path).toOption

/-- The path of the new node is listed under its name, and is not too long. -/
def ChildListed (cwd path : List UInt8) : Prop :=
  ∀ parent child, splitParentChild cwd path = some (parent, child) → IsName child ∧
    (if parent = [slash] then parent ++ child else parent ++ slash :: child).length ≤ pathMax

variable {lim : Limits} {s s' : Store} {cwd path parent child : List UInt8}
  {stack : List (List UInt8)} {fs fs' : Ramfs} {dir new : ℕ}

theorem toOption_eq_some {ε α : Type*} {x : Except ε α} {a : α} :
    x.toOption = some a ↔ x = .ok a := by
  cases x with
  | error e => simp [Except.toOption]
  | ok b => simp [Except.toOption]

/-! ### The path that was cut -/

theorem parentAndChild_cases {parentArg : List UInt8} (h : parentAndChild path = (parentArg, child)) :
    (parentArg = [slash] ∧ path = slash :: child) ∨
    (parentArg ≠ [] ∧ path = parentArg ++ slash :: child) ∨ (parentArg = [] ∧ path = child) := by
  unfold parentAndChild at h
  split at h
  next name hsplit =>
    obtain ⟨rfl, rfl⟩ := Prod.mk.inj h
    exact .inl ⟨rfl, splitLast_eq_some hsplit⟩
  next parent name hparent hsplit =>
    obtain ⟨rfl, rfl⟩ := Prod.mk.inj h
    exact .inr (.inl ⟨hparent, splitLast_eq_some hsplit⟩)
  next hsplit =>
    obtain ⟨rfl, rfl⟩ := Prod.mk.inj h
    exact .inr (.inr ⟨rfl, rfl⟩)

theorem normalizePath_parentAndChild (hcwd : cwd.head? = some slash) {parentArg : List UInt8}
    (h : parentAndChild path = (parentArg, child)) (hchild : slash ∉ child) :
    normalizePath cwd path = (normalizePath cwd parentArg).bind (pushComponent · child) := by
  have hhead : child.head? ≠ some slash := fun hhead => hchild (List.mem_of_head? hhead)
  have hlast : ∀ out : List UInt8, [child].foldlM pushComponent out = pushComponent out child :=
    fun out => by simp
  have hskip : ∀ out : List UInt8, pushComponent out [] = some out := fun out => rfl
  rw [normalizePath_eq_foldlM hcwd, normalizePath_eq_foldlM hcwd]
  obtain ⟨rfl, rfl⟩ | ⟨hbefore, rfl⟩ | ⟨rfl, rfl⟩ := parentAndChild_cases h
  · have hsplit := List.splitOn_append_cons_self (a := slash) [] child
    rw [List.nil_append, List.splitOn_eq_singleton hchild] at hsplit
    have hroot : components cwd [slash] = [[], []] := rfl
    have hcomps : components cwd (slash :: child) = [] :: [child] := by
      rw [components, if_pos List.head?_cons, hsplit]
      rfl
    rw [hcomps, hroot, List.foldlM_cons, hskip]
    exact hlast _
  · have hcomps : components cwd (parentArg ++ slash :: child) =
        components cwd parentArg ++ [child] := by
      rw [components, components, List.head?_append_of_ne_nil _ hbefore,
        List.splitOn_append_cons_self, List.splitOn_eq_singleton hchild, List.append_assoc]
    rw [hcomps, List.foldlM_append]
    simp only [hlast]
    rfl
  · have hcomps : components cwd path = cwd.splitOn slash ++ [path] := by
      rw [components, if_neg hhead, List.splitOn_eq_singleton hchild]
    have hnil : components cwd [] = cwd.splitOn slash ++ [[]] := rfl
    rw [hcomps, hnil, List.foldlM_append, List.foldlM_append]
    cases (cwd.splitOn slash).foldlM pushComponent [slash] with
    | none => rfl
    | some out => exact hlast out

/-- The whole path is normalised by entering the child after what stands before it. -/
theorem normalizePath_splitParentChild (hcwd : cwd.head? = some slash)
    (h : splitParentChild cwd path = some (parent, child)) :
    ∃ stack, Clean stack ∧ Fits stack ∧ parent = listing stack ∧ slash ∉ child ∧ child ≠ [] ∧
      normalizePath cwd path = pushComponent parent child := by
  unfold splitParentChild at h
  cases hcut : parentAndChild path with
  | mk parentArg name =>
    simp only [hcut] at h
    split_ifs at h with hname
    obtain ⟨r, hparent, heq⟩ := Option.map_eq_some_iff.mp h
    obtain ⟨rfl, rfl⟩ := Prod.mk.inj heq
    rw [not_or] at hname
    obtain ⟨stack, hclean, hfits, rfl, -⟩ := normalizePath_some hcwd hparent
    refine ⟨stack, hclean, hfits, rfl, hname.2, hname.1, ?_⟩
    rw [normalizePath_parentAndChild hcwd hcut hname.2, hparent, Option.bind_some]

/-! ### What is found -/

theorem parts_listing (h : Clean stack) : parts (listing stack) = stack := by
  by_cases hne : stack = []
  · subst hne
    rfl
  · rw [parts, pieces, splitOn_listing h hne, List.filter_cons_of_neg (by simp),
      List.filter_eq_self]
    intro c hc
    simpa using (h c hc).1.1

theorem resolvePath_listing (h : Clean stack) {root : ℕ} (hroot : fs.root = some root) :
    fs.resolvePath (listing stack) = fs.resolveFrom root stack := by
  rw [Ramfs.resolvePath, hroot, parts_listing h]

/-- The directory above one that is found is found too. -/
theorem resolveFrom_dropLast {root : ℕ} (h : fs.resolveFrom root stack = .ok dir)
    (hdir : dir < fs.nodes.length) :
    ∃ above < fs.nodes.length, fs.resolveFrom root stack.dropLast = .ok above := by
  induction stack using List.reverseRecOn with
  | nil => exact ⟨dir, hdir, h⟩
  | append_singleton stack c _ =>
    obtain ⟨above, habove⟩ := Ramfs.resolveFrom_append h
    rw [Ramfs.resolveFrom_concat habove] at h
    obtain ⟨d, hd⟩ := Ramfs.exists_dir_of_lookup h
    rw [List.dropLast_concat]
    exact ⟨above, Ramfs.node_lt hd, habove⟩

/-- The new node is found where its name puts it on the stack, and nowhere else. -/
theorem resolvePath_enter_iff (h : Clean stack) (hchild : slash ∉ child) (hne : child ≠ [])
    (hdir : fs.resolvePath (listing stack) = .ok dir) (hkeeps : Ramfs.Keeps fs fs')
    (hnew : new = fs.nodes.length) (hlt : dir < new) (hlookup : fs'.lookup dir child = .ok new) :
    fs'.resolvePath (listing (enter stack child)) = .ok new ↔ IsName child := by
  obtain ⟨root, hroot⟩ : ∃ root, fs.root = some root := by
    cases hroot : fs.root with
    | none => simp [Ramfs.resolvePath, hroot] at hdir
    | some root => exact ⟨root, rfl⟩
  have hroot' : fs'.root = some root := hkeeps.root.trans hroot
  rw [resolvePath_listing h hroot] at hdir
  rw [resolvePath_listing (h.enter hchild) hroot']
  constructor
  · intro hfound
    refine ⟨hne, ?_, ?_⟩
    · rintro rfl
      rw [enter, if_pos (.inr rfl), hkeeps.resolveFrom hdir] at hfound
      exact hlt.ne (Except.ok.inj hfound)
    · rintro rfl
      obtain ⟨above, hlength, habove⟩ := resolveFrom_dropLast hdir (hnew ▸ hlt)
      have hup : enter stack (ascii "..") = stack.dropLast := rfl
      rw [hup, hkeeps.resolveFrom habove] at hfound
      exact hlength.ne ((Except.ok.inj hfound).trans hnew)
  · intro hname
    rw [enter_of_isName hname, Ramfs.resolveFrom_concat (hkeeps.resolveFrom hdir), hlookup]

theorem childListed_iff (h : Clean stack)
    (hsplit : splitParentChild cwd path = some (listing stack, child)) :
    ChildListed cwd path ↔ IsName child ∧ Fits (stack ++ [child]) := by
  have hlisting : (if listing stack = [slash] then listing stack ++ child
      else listing stack ++ slash :: child) = listing (stack ++ [child]) := by
    rw [listing_concat]
    by_cases hstack : stack = []
    · subst hstack
      rfl
    · have hroot : listing stack ≠ [slash] := by
        intro heq
        have hparts := parts_listing h
        rw [heq] at hparts
        exact hstack hparts.symm
      rw [if_neg hroot, listing_of_ne_nil hstack]
  unfold ChildListed Fits
  constructor
  · intro hlisted
    obtain ⟨hname, hlength⟩ := hlisted _ _ hsplit
    exact ⟨hname, hlisting ▸ hlength⟩
  · rintro ⟨hname, hlength⟩ parent name hparts
    obtain ⟨rfl, rfl⟩ := Prod.mk.inj (Option.some.inj (hsplit.symm.trans hparts))
    exact ⟨hname, hlisting ▸ hlength⟩

theorem cmdCreate_ok {missing cannot : List UInt8}
    {create : Store → ℕ → List UInt8 → Except FsError ℕ × Store}
    (h : cmdCreate missing cannot create lim s cwd path = (.ok new, s')) :
    ∃ parent child dir, splitParentChild cwd path = some (parent, child) ∧
      (s.view lim).resolvePath parent = .ok dir ∧ create s dir child = (.ok new, s') := by
  unfold cmdCreate at h
  dsimp only at h
  split_ifs at h with hempty
  · cases h
  cases hsplit : splitParentChild cwd path with
  | none => simp [hsplit] at h
  | some cut =>
    obtain ⟨parent, child⟩ := cut
    simp only [hsplit] at h
    cases hdir : (s.view lim).resolvePath parent with
    | error e => simp [hdir] at h
    | ok dir =>
      simp only [hdir] at h
      refine ⟨parent, child, dir, rfl, hdir, ?_⟩
      rcases hcreate : create s dir child with ⟨result, s''⟩
      rw [hcreate] at h
      cases result with
      | error e => cases h
      | ok node =>
        obtain ⟨hnode, rfl⟩ := Prod.mk.inj h
        rw [Except.ok.inj hnode]

/-- A node made by the store's `create` is found if and only if its name is listed. -/
theorem findsNode_iff_of_create (hcwd : Normal cwd) {mk : List UInt8 → Vnode}
    (hmk : ∀ name, (mk name).name = name.take (nameMax - 1))
    (hsplit : splitParentChild cwd path = some (parent, child))
    (hdir : (s.view lim).resolvePath parent = .ok dir)
    (hcreate : s.create lim mk dir child = (.ok new, s')) :
    findsNode lim s' cwd path = some new ↔ ChildListed cwd path := by
  obtain ⟨stack, hclean, hfits, rfl, hchild, hne, hpath⟩ :=
    normalizePath_splitParentChild hcwd.1 hsplit
  have hview := Store.view_create_ok hcreate
  obtain ⟨hnew, hlt, hlookup⟩ := Ramfs.lookup_of_create hmk hview
  have hkeeps : Ramfs.Keeps (s.view lim) (s'.view lim) := by
    have hsame : s'.view lim = (Ramfs.create mk lim.nodePoolCap (s.view lim) dir child).2 := by
      rw [hview]
    rw [hsame]
    exact Ramfs.keeps_create hmk
  have hfound : findsNode lim s' cwd path = some new ↔ Fits (enter stack child) ∧ IsName child := by
    rw [← resolvePath_enter_iff hclean hchild hne hdir hkeeps hnew hlt hlookup, findsNode, hpath,
      pushComponent_listing hclean hfits]
    by_cases hlong : Fits (enter stack child)
    · rw [if_pos hlong]
      simp [hlong, toOption_eq_some]
    · rw [if_neg hlong]
      simp [hlong]
  rw [hfound, childListed_iff hclean hsplit, and_comm]
  refine and_congr_right fun hname => ?_
  rw [enter_of_isName hname]

/-- In every state of RAMFS, the node that `touch` or `mkdir` has created is what the other commands
find under the same path, exactly if its name is neither `.` nor `..` and the normal form of the
path fits into the buffer. -/
theorem created_path_reachable_iff (hcwd : Normal cwd)
    (hcmd : cmdTouch lim s cwd path = (.ok new, s') ∨ cmdMkdir lim s cwd path = (.ok new, s')) :
    findsNode lim s' cwd path = some new ↔ ChildListed cwd path := by
  obtain h | h := hcmd
  · obtain ⟨parent, child, dir, hsplit, hdir, hcreate⟩ := cmdCreate_ok h
    exact findsNode_iff_of_create hcwd (fun _ => rfl) hsplit hdir hcreate
  · obtain ⟨parent, child, dir, hsplit, hdir, hcreate⟩ := cmdCreate_ok h
    exact findsNode_iff_of_create hcwd (fun _ => rfl) hsplit hdir hcreate

def booted : Store := (Disk.boot Disk.mcuLimits Disk.blank).store

/-- `touch .` creates a file, but the path leads to the directory. -/
theorem touched_dot_is_not_found :
    ∃ s, cmdTouch Disk.mcuLimits booted [slash] (ascii ".") = (.ok 4, s) ∧
      findsNode Disk.mcuLimits s [slash] (ascii ".") = some 0 := by
  have htest : (cmdTouch Disk.mcuLimits booted [slash] (ascii ".")).1.toOption = some 4 ∧
      findsNode Disk.mcuLimits (cmdTouch Disk.mcuLimits booted [slash] (ascii ".")).2 [slash]
        (ascii ".") = some 0 := by
    decide +kernel
  refine ⟨_, Prod.ext (toOption_eq_some.mp htest.1) rfl, htest.2⟩

theorem touched_file_is_found :
    ∃ s, cmdTouch Disk.mcuLimits booted [slash] (ascii "dev/a") = (.ok 4, s) ∧
      findsNode Disk.mcuLimits s [slash] (ascii "dev/a") = some 4 := by
  have hok : (cmdTouch Disk.mcuLimits booted [slash] (ascii "dev/a")).1.toOption = some 4 := by
    decide +kernel
  have hcmd := Prod.ext (toOption_eq_some.mp hok) rfl
  refine ⟨_, hcmd, (created_path_reachable_iff (by decide) (.inl hcmd)).mpr ?_⟩
  intro parent child hsplit
  have hparts : splitParentChild [slash] (ascii "dev/a") = some (ascii "/dev", ascii "a") := by
    decide
  obtain ⟨rfl, rfl⟩ := Prod.mk.inj (Option.some.inj (hparts.symm.trans hsplit))
  decide

end OpenIon.Shell
