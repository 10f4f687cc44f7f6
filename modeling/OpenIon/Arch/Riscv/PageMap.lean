import OpenIon.Arch.Riscv.Paging

/-! # Page tables through the trait

The methods of `RiscvPageTable` that map, unmap and translate single pages. The simplest
implementation is a map of addresses. A format of page tables represents such a map when
all its leaves are in the last tables, and as long as the allocator hands out frames each
call has the reply of the map and represents the map after it.
-/
namespace OpenIon.Arch.Riscv
open Mm Lib Sv39

inductive Call where
  | mapPage (vaddr paddr : ℕ) (perms : MemPerms)
  | unmapPage (vaddr : ℕ)

def Call.InRange : Call → Prop
  | mapPage vaddr paddr perms => vaddr < 2 ^ 32 ∧ paddr < 2 ^ 32 ∧ perms.NonEmpty
  | unmapPage vaddr => vaddr < 2 ^ 32

inductive Reply where
  | mapped (result : Except MmError Unit)
  | unmapped (result : Except MmError ℕ)

/-- The methods of `RiscvPageTable` on single pages, with the allocator in the state. -/
structure PageTable (σ : Type) where
  mapPage : σ → ℕ → ℕ → MemPerms → Except MmError Unit × σ
  unmapPage : σ → ℕ → Except MmError ℕ × σ
  translate : σ → ℕ → Option ℕ

namespace PageTable

variable {σ : Type} (T : PageTable σ)

def call (s : σ) : Call → Reply × σ
  | .mapPage v p perms => (.mapped (T.mapPage s v p perms).1, (T.mapPage s v p perms).2)
  | .unmapPage v => (.unmapped (T.unmapPage s v).1, (T.unmapPage s v).2)

def calls : σ → List Call → List Reply × σ
  | s, [] => ([], s)
  | s, c :: cs => ((T.call s c).1 :: (calls (T.call s c).2 cs).1, (calls (T.call s c).2 cs).2)

theorem calls_append (s : σ) (cs ds : List Call) :
    (T.calls s (cs ++ ds)).2 = (T.calls (T.calls s cs).2 ds).2 := by
  induction cs generalizing s with
  | nil => rfl
  | cons c cs ih => exact ih _

end PageTable

abbrev PageMap := ℕ → Option ℕ

def PageMap.setPage (f : PageMap) (v : ℕ) (g : ℕ → Option ℕ) : PageMap :=
  fun u => if v ≤ u ∧ u < v + pageSize then g u else f u

def pageMap : PageTable PageMap where
  mapPage f v p _ :=
    if v % pageSize ≠ 0 ∨ p % pageSize ≠ 0 then (.error .invalidAlignment, f)
    else if (f v).isSome then (.error .alreadyMapped, f)
    else (.ok (), f.setPage v fun u => some (p + (u - v)))
  unmapPage f v :=
    if v % pageSize ≠ 0 then (.error .invalidAlignment, f)
    else
      match f v with
      | none => (.error .notMapped, f)
      | some p => (.ok p, f.setPage v fun _ => none)
  translate f := f

/-- A relation to maps of addresses that calls keep while no request for a frame is refused. -/
structure PageTable.Simulates (T : PageTable Memory) (R : Memory → PageMap → Prop) : Prop where
  translate : ∀ m f u, R m f → u < 2 ^ 32 → T.translate m u = f u
  later : ∀ m c, Later m (T.call m c).2
  call : ∀ m f c, R m f → c.InRange → ¬ Refused m (T.call m c).2 →
    (T.call m c).1 = (pageMap.call f c).1 ∧ R (T.call m c).2 (pageMap.call f c).2

namespace PageTable.Simulates

variable {T : PageTable Memory} {R : Memory → PageMap → Prop} {m : Memory} {f : PageMap}
  {cs : List Call}

theorem later_calls (hT : T.Simulates R) (m : Memory) (cs : List Call) :
    Later m (T.calls m cs).2 := by
  induction cs generalizing m with
  | nil => exact .refl m
  | cons c cs ih => exact (hT.later m c).trans (ih _)

/-- All calls of a sequence have the replies of the map. -/
theorem calls (hT : T.Simulates R) (h : R m f) (hcs : ∀ c ∈ cs, c.InRange)
    (hframes : ¬ Refused m (T.calls m cs).2) :
    (T.calls m cs).1 = (pageMap.calls f cs).1 ∧ R (T.calls m cs).2 (pageMap.calls f cs).2 := by
  induction cs generalizing m f with
  | nil => exact ⟨rfl, h⟩
  | cons c cs ih =>
    have hfirst : ¬ Refused m (T.call m c).2 := by
      intro hrefused
      exact hframes (hrefused.later (hT.later_calls _ cs))
    rcases hT.call m f c h (hcs c (by simp)) hfirst with ⟨hreply, hnext⟩
    rcases ih hnext (fun d hd => hcs d (by simp [hd]))
      fun hrefused => hframes ((hT.later m c).refused hrefused) with ⟨hreplies, hlast⟩
    refine ⟨?_, hlast⟩
    rw [PageTable.calls, PageTable.calls, hreply, hreplies]

end PageTable.Simulates

namespace Paging

variable {I : Type} (F : Paging I)

/-- Every leaf is in a table of the last level. -/
def LeavesLast (root : ℕ) (m : Memory) : Prop :=
  ∀ p k e, p.length = F.levels → F.lookup m root p = some (k, e) → k = 0

def unmapAt (root : ℕ) (m : Memory) (upper : List I) (idx : I) : Except MmError ℕ × Memory :=
  match F.follow m root upper with
  | none => (.error .notMapped, m)
  | some table =>
    if !F.valid (F.get m table idx) then (.error .notMapped, m)
    else (.ok (F.child (F.get m table idx)), F.set m table idx F.empty)

/-- The indices of an address, from the root down. Those of a page belong to no other page. -/
structure Addressing where
  upper : ℕ → List I
  last : ℕ → I
  length_upper : ∀ v, (upper v).length + 1 = F.levels
  below_iff : ∀ u v, u < 2 ^ 32 → v < 2 ^ 32 →
    (upper v ++ [last v] <+: upper u ++ [last u] ↔ u / pageSize = v / pageSize)

/-- The tables of the root stand for a map of addresses. -/
structure Represents (A : F.Addressing) (root : ℕ) (m : Memory) (f : PageMap) : Prop where
  wellFormed : F.WellFormed root m
  leavesLast : F.LeavesLast root m
  lookup : ∀ u < 2 ^ 32, f u = (F.lookup m root (A.upper u ++ [A.last u])).map fun leaf =>
    F.child leaf.2 ||| (u &&& 0xFFF)

variable {F} {A : F.Addressing} {root t v p : ℕ} {m m' : Memory} {f : PageMap} {pre : List I}

/-- An entry of an upper table is a link if it is in use. -/
theorem LeavesLast.leaf_eq_false (h : F.LeavesLast root m) (ht : F.follow m root pre = some t)
    (idx : I) (hlen : pre.length + 1 < F.levels) (hvalid : F.valid (F.get m t idx) = true) :
    F.leaf (F.get m t idx) = false := by
  by_contra hleaf
  rw [Bool.not_eq_false] at hleaf
  have hlookup : F.lookup m root (pre ++ idx :: List.replicate (F.levels - pre.length - 1) idx) =
      some (F.levels - pre.length - 1, F.get m t idx) := by
    rw [Tables.lookup_append (by simp) ht]
    simp [Tables.lookup, hvalid, hleaf]
  have hzero := h _ _ _ (by simp; omega) hlookup
  omega

theorem Mapped.leavesLast [DecidableEq I] {q : List I} {entry : ℕ} {r : Except MmError Unit}
    (h : F.Mapped root m m' q entry r) (hq : q.length = F.levels) (hlast : F.LeavesLast root m) :
    F.LeavesLast root m' := by
  intro p k e hp hlookup
  cases r with
  | ok _ =>
    rw [h.2 p hp] at hlookup
    split at hlookup
    · cases hlookup
      omega
    · exact hlast p k e hp hlookup
  | error err =>
    rw [h.1 p hp] at hlookup
    exact hlast p k e hp hlookup

theorem Addressing.length_path (A : F.Addressing) (u : ℕ) :
    (A.upper u ++ [A.last u]).length = F.levels := by
  rw [List.length_append, List.length_singleton, A.length_upper]

theorem mod_pageSize_eq {u : ℕ} (hv : v % pageSize = 0) (hin : v ≤ u ∧ u < v + pageSize) :
    u &&& 0xFFF = u - v := by
  rw [show (0xFFF : ℕ) = 2 ^ 12 - 1 from rfl, Nat.and_two_pow_sub_one_eq_mod]
  rw [pageSize] at hv hin
  omega

/-- Addresses have the indices of a page exactly if they are in it. -/
theorem Addressing.below_iff_of_mod (A : F.Addressing) {u : ℕ} (hv : v % pageSize = 0)
    (hvlt : v < 2 ^ 32) (hu : u < 2 ^ 32) :
    A.upper v ++ [A.last v] <+: A.upper u ++ [A.last u] ↔ v ≤ u ∧ u < v + pageSize := by
  rw [A.below_iff u v hu hvlt]
  rw [pageSize] at hv ⊢
  omega

theorem Represents.eq_none_iff (h : F.Represents A root m f) {u : ℕ} (hu : u < 2 ^ 32) :
    f u = none ↔ F.lookup m root (A.upper u ++ [A.last u]) = none := by
  rw [h.lookup u hu, Option.map_eq_none_iff]

theorem Represents.setPage [DecidableEq I] {g : PageMap} (h : F.Represents A root m f)
    (entry : Option (ℕ × ℕ)) (hv : v % pageSize = 0) (hvlt : v < 2 ^ 32)
    (hwf : F.WellFormed root m')
    (hlookup : ∀ q, q.length = F.levels → F.lookup m' root q =
      if A.upper v ++ [A.last v] <+: q then entry else F.lookup m root q)
    (hentry : ∀ k e, entry = some (k, e) → k = 0)
    (hg : ∀ u, v ≤ u ∧ u < v + pageSize → g u = entry.map fun leaf => F.child leaf.2 ||| (u &&& 0xFFF)) :
    F.Represents A root m' (f.setPage v g) := by
  refine ⟨hwf, ?_, ?_⟩
  · intro q k e hq hleaf
    rw [hlookup q hq] at hleaf
    split at hleaf
    · exact hentry k e hleaf
    · exact h.leavesLast q k e hq hleaf
  · intro u hu
    rw [hlookup _ (A.length_path u), PageMap.setPage]
    by_cases hin : v ≤ u ∧ u < v + pageSize
    · rw [if_pos hin, if_pos ((A.below_iff_of_mod hv hvlt hu).mpr hin), hg u hin]
    · rw [if_neg hin, if_neg fun hbelow => hin ((A.below_iff_of_mod hv hvlt hu).mp hbelow), h.lookup u hu]

theorem Represents.mapPage [DecidableEq I] {entry : ℕ} (h : F.Represents A root m f)
    (perms : MemPerms) (hv : v % pageSize = 0) (hvlt : v < 2 ^ 32) (hp : p % pageSize = 0)
    (hvalid : F.valid entry = true) (hleaf : F.leaf entry = true) (hchild : F.child entry = p)
    (hframes : ¬ Refused m (F.mapAt root m (A.upper v) (A.last v) entry).2) :
    (F.mapAt root m (A.upper v) (A.last v) entry).1 = (pageMap.mapPage f v p perms).1 ∧
      F.Represents A root (F.mapAt root m (A.upper v) (A.last v) entry).2
        (pageMap.mapPage f v p perms).2 := by
  have hlen := A.length_upper v
  have hlength := A.length_path v
  have haligned : pageMap.mapPage f v p perms =
      if (f v).isSome then (.error .alreadyMapped, f)
      else (.ok (), f.setPage v fun u => some (p + (u - v))) := by
    simp [pageMap, hv, hp]
  rcases h.wellFormed.mapAt (A.upper v) (A.last v) (by omega) hvalid (.inl hleaf) with
    ⟨r, m', hmap, hwf, -, hr⟩
  rw [hmap] at hframes ⊢
  rw [haligned]
  cases r with
  | ok _ =>
    have hnone : f v = none := (h.eq_none_iff hvlt).mpr (hr.1 _ List.prefix_rfl hlength)
    rw [hnone]
    refine ⟨rfl, h.setPage (some (0, entry)) hv hvlt hwf ?_ (by simp) ?_⟩
    · intro q hq
      rw [hr.2 q hq, hlength, Nat.sub_self]
    · intro u hin
      have hlt : u - v < 2 ^ 12 := by
        rw [pageSize] at hin
        omega
      have hmul : p = 2 ^ 12 * (p / 2 ^ 12) := by
        rw [pageSize] at hp
        omega
      rw [mod_pageSize_eq hv hin, Option.map_some, hchild, hmul, Nat.two_pow_add_eq_or_of_lt hlt]
  | error err =>
    rcases hr with ⟨hsame, ⟨rfl, hcovered⟩ | ⟨rfl, hrefused, -⟩⟩
    · have hsome : (f v).isSome = true := by
        rw [h.lookup v hvlt, Option.isSome_map]
        exact hcovered hlength _ List.prefix_rfl hlength
      rw [if_pos hsome]
      refine ⟨rfl, hwf, ?_, ?_⟩
      · intro q k e hq hlookup
        exact h.leavesLast q k e hq (hsame q hq ▸ hlookup)
      · intro u hu
        dsimp only
        rw [h.lookup u hu, hsame _ (A.length_path u)]
    · exact absurd hrefused hframes

theorem Represents.unmapPage [DecidableEq I] (h : F.Represents A root m f) (hv : v % pageSize = 0)
    (hvlt : v < 2 ^ 32) :
    (F.unmapAt root m (A.upper v) (A.last v)).1 = (pageMap.unmapPage f v).1 ∧
      F.Represents A root (F.unmapAt root m (A.upper v) (A.last v)).2 (pageMap.unmapPage f v).2 := by
  have hlen := A.length_upper v
  cases hlookup : F.lookup m root (A.upper v ++ [A.last v]) with
  | none =>
    have hunmap : F.unmapAt root m (A.upper v) (A.last v) = (.error .notMapped, m) := by
      rw [Paging.unmapAt]
      split
      · rfl
      next table hfollow =>
        rw [Tables.lookup_append (by simp) hfollow] at hlookup
        simpa [Tables.lookup] using hlookup
    have hmap : pageMap.unmapPage f v = (.error .notMapped, f) := by
      simp [pageMap, hv, (h.eq_none_iff hvlt).mpr hlookup]
    rw [hunmap, hmap]
    exact ⟨rfl, h⟩
  | some leaf =>
    rcases leaf with ⟨k, e⟩
    have hk : k = 0 := h.leavesLast _ k e (A.length_path v) hlookup
    subst hk
    rcases Tables.follow_of_lookup hlookup with ⟨table, hfollow, hget, hvalid⟩
    have hunmap : F.unmapAt root m (A.upper v) (A.last v) =
        (.ok (F.child e), F.set m table (A.last v) F.empty) := by
      simp [Paging.unmapAt, hfollow, hget, hvalid]
    have hoffset : v &&& 0xFFF = 0 := by
      rw [mod_pageSize_eq hv ⟨le_rfl, by simp [pageSize]⟩, Nat.sub_self]
    have hmap : pageMap.unmapPage f v = (.ok (F.child e), f.setPage v fun _ => none) := by
      simp [pageMap, hv, h.lookup v hvlt, hlookup, hoffset]
    rcases h.wellFormed.store (A.last v) hfollow (by omega) (.inr hlen) (e := F.empty) with
      ⟨hwf, hstore⟩
    rw [hunmap, hmap]
    refine ⟨rfl, h.setPage none hv hvlt hwf ?_ (by simp) fun _ _ => rfl⟩
    intro q hq
    rw [hstore q hq, F.valid_empty]
    rfl

/-- The page table works on tables of the format that have all leaves in the last tables. -/
structure Implements (A : F.Addressing) (root : ℕ) (T : PageTable Memory)
    (leafEntry : MemPerms → ℕ → ℕ) : Prop where
  isTable : root % pageSize = 0 → F.IsTable root
  fits : ∀ page, page % pageSize = 0 → page < 2 ^ 32 → F.Fits page
  leaf : ∀ perms page, perms.NonEmpty → F.valid (leafEntry perms page) = true ∧
    F.leaf (leafEntry perms page) = true
  child : ∀ perms page, page % pageSize = 0 → page < 2 ^ 32 → F.child (leafEntry perms page) = page
  mapPage : ∀ m v p perms, T.mapPage m v p perms =
    if v % pageSize ≠ 0 ∨ p % pageSize ≠ 0 then (.error .invalidAlignment, m)
    else F.mapAt root m (A.upper v) (A.last v) (leafEntry perms p)
  unmapPage : ∀ m v, F.LeavesLast root m → T.unmapPage m v =
    if v % pageSize ≠ 0 then (.error .invalidAlignment, m)
    else F.unmapAt root m (A.upper v) (A.last v)
  later : ∀ m v, Later m (T.unmapPage m v).2
  translate : ∀ m v, F.LeavesLast root m → T.translate m v =
    (F.lookup m root (A.upper v ++ [A.last v])).map fun leaf => F.child leaf.2 ||| (v &&& 0xFFF)

theorem Implements.simulates [DecidableEq I] {T : PageTable Memory} {leafEntry : MemPerms → ℕ → ℕ}
    (hT : Implements A root T leafEntry) : T.Simulates (F.Represents A root) := by
  constructor
  · intro m f u h hu
    rw [h.lookup u hu, hT.translate m u h.leavesLast]
  · intro m c
    cases c with
    | mapPage v p perms =>
      simp only [PageTable.call, hT.mapPage]
      split
      · exact .refl m
      · exact F.later_mapAt ..
    | unmapPage v => exact hT.later m v
  · intro m f c h hc hframes
    cases c with
    | mapPage v p perms =>
      rcases hc with ⟨hv, hp, hperms⟩
      simp only [PageTable.call, hT.mapPage] at hframes ⊢
      by_cases halign : v % pageSize ≠ 0 ∨ p % pageSize ≠ 0
      · simp only [if_pos halign, pageMap]
        exact ⟨trivial, h⟩
      · rw [if_neg halign] at hframes ⊢
        push Not at halign
        rcases hT.leaf perms p hperms with ⟨hvalid, hleaf⟩
        rcases h.mapPage perms halign.1 hv halign.2 hvalid hleaf
          (hT.child perms p halign.2 hp) hframes with ⟨hreply, hnext⟩
        exact ⟨congrArg Reply.mapped hreply, hnext⟩
    | unmapPage v =>
      simp only [PageTable.call, hT.unmapPage m v h.leavesLast]
      by_cases halign : v % pageSize ≠ 0
      · simp only [if_pos halign, pageMap]
        exact ⟨trivial, h⟩
      · rw [if_neg halign]
        push Not at halign
        rcases h.unmapPage halign hc with ⟨hreply, hnext⟩
        exact ⟨congrArg Reply.unmapped hreply, hnext⟩

variable (F) in
/-- A zeroed root, with an allocator of other pages. -/
structure Start (root : ℕ) (m : Memory) : Prop where
  root_mod : root % pageSize = 0
  empty : ∀ idx, F.get m root idx = F.empty
  frames : Supply {root} m
  frames_lt : ∀ n f, m.requests ≤ n → m.frames n = some f → f < 2 ^ 32

theorem Start.represents {T : PageTable Memory} {leafEntry : MemPerms → ℕ → ℕ}
    (h : F.Start root m) (hT : Implements A root T leafEntry) :
    F.Represents A root m fun _ => none := by
  have hnone : ∀ p, F.lookup m root p = none := by
    intro p
    cases p with
    | nil => rfl
    | cons idx p => simp [Tables.lookup, h.empty, F.valid_empty]
  refine ⟨F.wellFormed_of_empty (hT.isTable h.root_mod) h.empty h.frames ?_, ?_, ?_⟩
  · intro n f hn hf
    exact hT.fits f (h.frames.page n f hn hf).1 (h.frames_lt n f hn hf)
  · intro p k e _ hlookup
    rw [hnone] at hlookup
    cases hlookup
  · intro u _
    rw [hnone]
    rfl

end Paging

end OpenIon.Arch.Riscv
