import OpenIon.Fs.Disk

/-! # Calls of `create_file` and `create_dir` that fail

A call that fails in one of its checks changes nothing. The node is allocated before the directory
is searched for a free slot, and `NODE_COUNT` moves on when the pool is full. So a call that finds
the directory full loses a node of the pool, and one that wraps the counter makes all of them free.
-/
namespace OpenIon.Fs
open Lib

namespace Store

variable (lim : Limits) (s : Store)

def allocatable : ℕ := lim.nodePoolCap - s.nodeCount

/-- The pool, the nodes with the children of the directories, and the room that is left are the
same. -/
structure Kept (s s' : Store) : Prop where
  pool : s'.pool = s.pool
  nodes : ∀ id, s'.node lim id = s.node lim id
  allocatable : s'.allocatable lim = s.allocatable lim

def FailsClean (result : Except FsError ℕ × Store) : Prop :=
  ∀ e, result.1 = .error e → Kept lim s result.2

/-- The checks pass, but the directory is full and the pool is not, or the counter wraps. -/
def Spoils (dir : ℕ) (name : List UInt8) : Prop :=
  ∃ d, ¬ (name = [] ∨ nameMax ≤ name.length) ∧ s.node lim dir = some (.dir d) ∧
    (s.view lim).findChild name d.children = .ok none ∧
    ((s.nodeCount < lim.nodePoolCap ∧ none ∉ d.children) ∨ s.nodeCount + 1 = 2 ^ lim.w)

variable {lim s} {mk : List UInt8 → Vnode} {dir : ℕ} {name : List UInt8} {d : DirNode}

theorem Kept.refl : Kept lim s s := ⟨rfl, fun _ => rfl, rfl⟩

/-- With the pool full, only the wrap of the counter is seen. -/
theorem kept_count_iff (hfull : lim.nodePoolCap ≤ s.nodeCount) (hcount : s.nodeCount < 2 ^ lim.w) :
    Kept lim s { s with nodeCount := (s.nodeCount + 1) % 2 ^ lim.w } ↔
      s.nodeCount + 1 ≠ 2 ^ lim.w := by
  have hpos := lim.cap_pos
  constructor
  · intro hkept hwrap
    have hroom := hkept.allocatable
    simp only [allocatable, hwrap, Nat.mod_self] at hroom
    omega
  · intro hwrap
    rw [Nat.mod_eq_of_lt (by omega)]
    refine ⟨rfl, fun id => ?_, ?_⟩
    · simp only [node]
      by_cases hid : lim.nodePoolCap ≤ id
      · rw [if_pos (.inr hid), if_pos (.inr hid)]
      · rw [if_neg (by omega), if_neg (by omega)]
    · simp only [allocatable]
      omega

section Checked

variable (hname : ¬ (name = [] ∨ nameMax ≤ name.length)) (hdir : s.node lim dir = some (.dir d))
  (hfind : (s.view lim).findChild name d.children = .ok none)
include hname hdir hfind

theorem spoils_iff : Spoils lim s dir name ↔
    (s.nodeCount < lim.nodePoolCap ∧ none ∉ d.children) ∨ s.nodeCount + 1 = 2 ^ lim.w := by
  constructor
  · rintro ⟨d', -, hdir', -, hspoils⟩
    obtain rfl : d = d' := by simpa using hdir.symm.trans hdir'
    exact hspoils
  · intro hspoils
    exact ⟨d, hname, hdir, hfind, hspoils⟩

/-- In a pool that is not full the node is allocated, whether or not the directory has room. -/
theorem create_allocates (mk : List UInt8 → Vnode) (hroom : s.nodeCount < lim.nodePoolCap) :
    (none ∈ d.children ∧ (s.create lim mk dir name).1 = .ok s.nodeCount) ∨
    (none ∉ d.children ∧ s.create lim mk dir name =
      (.error .noSpace, ⟨Function.update s.pool s.nodeCount (mk name), s.nodeCount + 1, s.root⟩)) := by
  have hcap := lim.cap_lt
  have hlt : s.nodeCount + 1 < 2 ^ lim.w := by omega
  have hdir' : (⟨Function.update s.pool s.nodeCount (mk name), s.nodeCount + 1, s.root⟩ : Store).node
      lim dir = some (.dir d) := by
    obtain ⟨hbelow, -⟩ := node_lt hdir
    rw [← hdir]
    simp only [node]
    rw [if_neg (by omega), if_neg (by omega), Function.update_of_ne hbelow.ne]
  rw [create_eq hname hdir hfind, allocNode, if_neg (Nat.not_le.mpr hroom), Nat.mod_eq_of_lt hlt]
  dsimp only
  unfold link
  rw [hdir']
  dsimp only
  by_cases hnone : none ∈ d.children
  · rw [if_pos hnone]
    exact .inl ⟨hnone, rfl⟩
  · rw [if_neg hnone]
    exact .inr ⟨hnone, rfl⟩

end Checked

/-- A failed call of `create_file` or `create_dir` changes nothing, except in the two cases. -/
theorem create_failsClean_iff (hcount : s.nodeCount < 2 ^ lim.w) :
    FailsClean lim s (s.create lim mk dir name) ↔ ¬ Spoils lim s dir name := by
  have hcap := lim.cap_lt
  by_cases hpass : ∃ d, ¬ (name = [] ∨ nameMax ≤ name.length) ∧ s.node lim dir = some (.dir d) ∧
      (s.view lim).findChild name d.children = .ok none
  · obtain ⟨d, hname, hdir, hfind⟩ := hpass
    rw [spoils_iff hname hdir hfind]
    by_cases hroom : s.nodeCount < lim.nodePoolCap
    · obtain ⟨hnone, hok⟩ | ⟨hnone, heq⟩ := create_allocates hname hdir hfind mk hroom
      · -- the call succeeds
        have hclean : FailsClean lim s (s.create lim mk dir name) := by
          intro e he
          rw [hok] at he
          cases he
        simp only [hclean, true_iff]
        rintro (⟨-, hfull⟩ | hwrap)
        · exact hfull hnone
        · omega
      · -- the directory is full, and the node is lost
        have hlost : ¬ FailsClean lim s (s.create lim mk dir name) := by
          intro hclean
          have hkept := (hclean .noSpace (by rw [heq])).allocatable
          rw [heq] at hkept
          simp only [allocatable] at hkept
          omega
        simp only [hlost, false_iff, not_not]
        exact .inl ⟨hroom, hnone⟩
    · -- the pool is full, and only the counter moves
      have hfull : lim.nodePoolCap ≤ s.nodeCount := Nat.le_of_not_lt hroom
      have hclean : FailsClean lim s (s.create lim mk dir name) ↔ s.nodeCount + 1 ≠ 2 ^ lim.w := by
        rw [← kept_count_iff hfull hcount, FailsClean, create_full hfull hname hdir hfind]
        simp
      rw [hclean, not_or]
      exact ⟨fun h => ⟨fun hlt => hroom hlt.1, h⟩, And.right⟩
  · have hclean : FailsClean lim s (s.create lim mk dir name) := by
      obtain ⟨e, heq, -⟩ | hpass' := create_checks lim s mk dir name
      · rw [heq]
        exact fun _ _ => Kept.refl
      · exact absurd hpass' hpass
    simp only [hclean, true_iff]
    rintro ⟨d, hname, hdir, hfind, -⟩
    exact hpass ⟨d, hname, hdir, hfind⟩

end Store

namespace Disk

variable {lim : Limits} {w : Disk}

theorem perform_nodeCount_lt (hcount : w.store.nodeCount < 2 ^ lim.w) (op : Op) :
    (w.perform lim op).store.nodeCount < 2 ^ lim.w := by
  cases op with
  | createFile dir name => exact Store.nodeCount_create_lt hcount _ dir name
  | createDir dir name => exact Store.nodeCount_create_lt hcount _ dir name
  | writeFile file data =>
    obtain ⟨e, heq⟩ | ⟨f, -, heq⟩ := Store.writeFile_cases lim w.store file data
    · rw [perform, heq]
      exact hcount
    · rw [perform, heq]
      exact hcount

/-- Throughout every run a call of `create_file` or `create_dir` that fails changes nothing, exactly
if it does not find a full directory with a pool that has room, and does not wrap the counter. -/
theorem failed_creation_keeps_iff (lim : Limits) (uninit : ℕ → Vnode) (ops : List Op) :
    Always (step lim) (fun w => ∀ dir name,
      (Store.FailsClean lim w.store (w.store.createFile lim dir name) ↔
        ¬ Store.Spoils lim w.store dir name) ∧
      (Store.FailsClean lim w.store (w.store.createDir lim dir name) ↔
        ¬ Store.Spoils lim w.store dir name)) (boot lim uninit) ops := by
  have hcount : Always (step lim) (fun w => w.store.nodeCount < 2 ^ lim.w) (boot lim uninit) ops :=
    always_of_step (fun w op w' hw hstep => Option.some.inj hstep ▸ perform_nodeCount_lt hw op)
      (Sound.boot uninit).count
  exact hcount.imp fun w hw dir name =>
    ⟨Store.create_failsClean_iff hw, Store.create_failsClean_iff hw⟩

def defaultLimits : Limits := ⟨⟨64, 64, 4096⟩, by decide, by decide, by decide⟩

/-- Thirteen files fill the root, which has `dev`, `proc` and `mnt`. -/
def fillingRoot : List Op := (ascii "abcdefghijklm").map fun c => .createFile 0 [c]

/-- A fourteenth file cannot be created, and a node of the pool is lost. -/
theorem full_directory_loses_node :
    ∃ w, run (step defaultLimits) (boot defaultLimits blank) fillingRoot = some w ∧
      (w.store.createFile defaultLimits 0 (ascii "n")).1 = .error .noSpace ∧
      w.store.allocatable defaultLimits = 47 ∧
      (w.store.createFile defaultLimits 0 (ascii "n")).2.allocatable defaultLimits = 46 ∧
      ¬ Store.FailsClean defaultLimits w.store
        (w.store.createFile defaultLimits 0 (ascii "n")) := by
  have htest : (run (step defaultLimits) (boot defaultLimits blank) fillingRoot).any (fun w =>
      decide ((w.store.createFile defaultLimits 0 (ascii "n")).1 = .error .noSpace) &&
      (decide (w.store.allocatable defaultLimits = 47) &&
        decide ((w.store.createFile defaultLimits 0 (ascii "n")).2.allocatable defaultLimits =
          46))) = true := by
    decide +kernel
  obtain ⟨w, hrun, hfacts⟩ := (Option.any_eq_true _ _).mp htest
  simp only [Bool.and_eq_true, decide_eq_true_eq] at hfacts
  obtain ⟨hfails, hbefore, hafter⟩ := hfacts
  refine ⟨w, hrun, hfails, hbefore, hafter, fun hclean => ?_⟩
  have hkept := (hclean .noSpace hfails).allocatable
  rw [hbefore, hafter] at hkept
  exact absurd hkept (by decide)

end Disk

end OpenIon.Fs
