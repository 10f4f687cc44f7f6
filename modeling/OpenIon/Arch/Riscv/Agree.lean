import OpenIon.Arch.Riscv.Sv32
import OpenIon.Arch.Riscv.Sv39.Refines

/-! # Sv32 and Sv39 agree

Both formats simulate the same map of addresses on calls with 32-bit addresses. So no
caller of `RiscvPageTable` can tell them apart, although their tables in memory differ.
-/
namespace OpenIon.Arch.Riscv
open Mm Lib Sv39

namespace Sv39

def pageTable (root : ℕ) : PageTable Memory where
  mapPage := mapPage root
  unmapPage := unmapPage root
  translate := translate root

def addressing : paging.Addressing where
  upper v := [2, 1].map (vpn v)
  last v := vpn v 0
  length_upper _ := rfl
  below_iff := by
    intro u v hu hv
    exact path_eq_iff (hu.trans (by decide)) (hv.trans (by decide))

variable {root t v : ℕ} {m : Memory} {pre : List Index}

/-- Without leaves in the upper tables a walk that fails has met an entry that is not in use. -/
theorem walk_eq (hlast : paging.LeavesLast root m) (levels : List ℕ)
    (ht : paging.follow m root pre = some t) (hlen : pre.length + levels.length < 3) :
    walk m v levels t =
      (paging.follow m t (levels.map (vpn v))).elim (.error .notMapped) .ok := by
  induction levels generalizing pre t with
  | nil => rfl
  | cons level levels ih =>
    rw [List.length_cons] at hlen
    rw [walk, List.map_cons, Tables.follow_cons]
    change _ = Option.elim (if isValid (m.entry t (vpn v level)) && !isLeaf (m.entry t (vpn v level))
      then _ else none) _ _
    cases hvalid : isValid (m.entry t (vpn v level)) with
    | false => rfl
    | true =>
      have hleaf : isLeaf (m.entry t (vpn v level)) = false :=
        hlast.leaf_eq_false ht (vpn v level) (by change _ < 3; omega) hvalid
      simp only [hleaf, Bool.not_true, Bool.false_eq_true, if_false, Bool.not_false, Bool.and_self,
        if_true]
      apply ih (paging.follow_snoc ht hvalid hleaf)
      rw [List.length_append, List.length_singleton]
      omega

theorem unmapPage_eq (hlast : paging.LeavesLast root m) (hv : v % pageSize = 0) :
    unmapPage root m v = paging.unmapAt root m (addressing.upper v) (addressing.last v) := by
  have hroot : paging.follow m root [] = some root := rfl
  have hwalk := walk_eq (v := v) hlast [2, 1] hroot (by decide)
  simp only [unmapPage, hv, ne_eq, not_true_eq_false, if_false, hwalk, Paging.unmapAt]
  cases hfollow : paging.follow m root (addressing.upper v) with
  | none =>
    have hsame : paging.follow m root ([2, 1].map (vpn v)) = none := hfollow
    rw [hsame]
    rfl
  | some table =>
    have hsame : paging.follow m root ([2, 1].map (vpn v)) = some table := hfollow
    rw [hsame]
    rfl

theorem implements (root : ℕ) : Paging.Implements addressing root (pageTable root) leafEntry where
  isTable := id
  fits := by
    intro page halign hlt
    exact ⟨halign, hlt.trans (by decide)⟩
  leaf := by
    intro perms page hperms
    exact ⟨isValid_leafEntry perms page, isLeaf_leafEntry hperms⟩
  child := by
    intro perms page halign hlt
    exact pageAddr_withPpn (permsToPteBits_lt perms) (hlt.trans (by decide)) halign
  mapPage := by
    intro m v p perms
    change Sv39.mapPage root m v p perms = _
    rw [Sv39.mapPage, mapAt_eq]
    rfl
  unmapPage := by
    intro m v hlast
    by_cases hv : v % pageSize = 0
    · simp only [hv, ne_eq, not_true_eq_false, if_false]
      exact unmapPage_eq hlast hv
    · rw [if_pos hv]
      exact if_pos hv
  later := by
    intro m v
    change Later m (Sv39.unmapPage root m v).2
    rw [Sv39.unmapPage]
    split
    · exact .refl m
    · split
      · exact .refl m
      · dsimp only
        split
        · exact .refl m
        · exact paging.later_set ..
  translate := by
    intro m v hlast
    change translate root m v = _
    rw [translate_eq]
    cases hlookup : paging.lookup m root (path v) with
    | none =>
      have hsame : paging.lookup m root (addressing.upper v ++ [addressing.last v]) = none := hlookup
      rw [hsame]
      rfl
    | some leaf =>
      rcases leaf with ⟨k, e⟩
      have hsame : paging.lookup m root (addressing.upper v ++ [addressing.last v]) = some (k, e) :=
        hlookup
      have hk : k = 0 := hlast _ k e rfl hsame
      rw [hsame, hk]
      rfl

end Sv39

/-- Sv32 and Sv39 tables on zeroed roots reply alike and translate alike after every call, as long as
no request for a frame is refused. -/
theorem sv32_agrees_with_sv39 (root root' : ℕ) (m m' : Memory) (hstart : Sv32.paging.Start root m)
    (hstart' : Sv39.paging.Start root' m') (cs : List Call) (hcs : ∀ c ∈ cs, c.InRange)
    (hframes : ¬ Refused m ((Sv32.pageTable root).calls m cs).2)
    (hframes' : ¬ Refused m' ((Sv39.pageTable root').calls m' cs).2) :
    ((Sv32.pageTable root).calls m cs).1 = ((Sv39.pageTable root').calls m' cs).1 ∧
      ∀ done, done <+: cs → ∀ u < 2 ^ 32,
        (Sv32.pageTable root).translate ((Sv32.pageTable root).calls m done).2 u =
          (Sv39.pageTable root').translate ((Sv39.pageTable root').calls m' done).2 u := by
  have h32 := (Sv32.implements root).simulates
  have h39 := (Sv39.implements root').simulates
  have hinit := hstart.represents (Sv32.implements root)
  have hinit' := hstart'.represents (Sv39.implements root')
  constructor
  · rw [(h32.calls hinit hcs hframes).1, (h39.calls hinit' hcs hframes').1]
  · rintro done ⟨rest, rfl⟩ u hu
    have hdone : ∀ c ∈ done, c.InRange := fun c hc => hcs c (List.mem_append_left rest hc)
    rw [PageTable.calls_append] at hframes hframes'
    rcases h32.calls hinit hdone fun hrefused =>
      hframes (hrefused.later (h32.later_calls _ rest)) with ⟨-, hlast⟩
    rcases h39.calls hinit' hdone fun hrefused =>
      hframes' (hrefused.later (h39.later_calls _ rest)) with ⟨-, hlast'⟩
    rw [h32.translate _ _ u hlast hu, h39.translate _ _ u hlast' hu]

theorem twoFrames_lt (n f : ℕ) (hf : twoFrames.frames n = some f) : f < 2 ^ 32 := by
  have hmem : f ∈ [8192, 12288] := List.mem_of_getElem? hf
  simp only [List.mem_cons, List.not_mem_nil, or_false] at hmem
  omega

theorem remapped_page_agrees :
    ((Sv32.pageTable 4096).calls twoFrames [.mapPage 0 0x80000000 ⟨true, true, false⟩,
        .mapPage 0 0x80001000 ⟨true, false, false⟩, .unmapPage 0]).1 =
      ((Sv39.pageTable 4096).calls twoFrames [.mapPage 0 0x80000000 ⟨true, true, false⟩,
        .mapPage 0 0x80001000 ⟨true, false, false⟩, .unmapPage 0]).1 ∧
      (Sv32.pageTable 4096).translate
        ((Sv32.pageTable 4096).calls twoFrames [.mapPage 0 0x80000000 ⟨true, true, false⟩]).2 5 =
          some 0x80000005 := by
  have hagree := sv32_agrees_with_sv39 4096 4096 twoFrames twoFrames
    ⟨rfl, fun _ => rfl, twoFrames_supply, fun n f _ => twoFrames_lt n f⟩
    ⟨rfl, fun _ => rfl, twoFrames_supply, fun n f _ => twoFrames_lt n f⟩
    [.mapPage 0 0x80000000 ⟨true, true, false⟩, .mapPage 0 0x80001000 ⟨true, false, false⟩,
      .unmapPage 0] (by simp [Call.InRange, MemPerms.NonEmpty])
    (twoFrames_not_refused (by decide +kernel)) (twoFrames_not_refused (by decide +kernel))
  exact ⟨hagree.1, by decide +kernel⟩

end OpenIon.Arch.Riscv
