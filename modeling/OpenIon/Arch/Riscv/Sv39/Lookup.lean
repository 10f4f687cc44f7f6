import OpenIon.Arch.Riscv.Sv39.Tree

/-! # Mapping, unmapping and translating by lookups

Each operation on a well-formed table is described by the lookups of all addresses
before and after it. Addresses of the same page, or superpage, have the same
indices down to its level.
-/
namespace OpenIon.Arch.Riscv.Sv39
open Mm Lib

variable {root t : ℕ} {m m' : Memory} {pre : List Index}

theorem WellFormed.mapAt (vaddr : ℕ) (upper : List ℕ) (level : ℕ) {entry : ℕ} (h : WellFormed root m)
    (hlen : upper.length < 3) (hvalid : isValid entry = true)
    (hleaf : isLeaf entry = true ∨ upper.length + 1 = 3) :
    ∃ r m', Sv39.mapAt root m vaddr upper level entry = (r, m') ∧ WellFormed root m' ∧
      Later m m' ∧ paging.Mapped root m m' ((upper ++ [level]).map (vpn vaddr)) entry r := by
  have hupper : (upper.map (vpn vaddr)).length < paging.levels := (List.length_map _).trans_lt hlen
  have hentry : isLeaf entry = true ∨ (upper.map (vpn vaddr)).length + 1 = paging.levels := by
    rwa [List.length_map]
  rcases Paging.WellFormed.mapAt _ (vpn vaddr level) h hupper hvalid hentry with
    ⟨r, m', hmap, hwf, hlater, hr⟩
  refine ⟨r, m', (mapAt_eq ..).trans hmap, hwf, hlater, ?_⟩
  rw [List.map_append]
  exact hr

theorem walk_ok (m : Memory) (vaddr : ℕ) (levels : List ℕ) {table : ℕ}
    (ht : paging.follow m root pre = some t) (h : walk m vaddr levels t = .ok table) :
    paging.follow m root (pre ++ levels.map (vpn vaddr)) = some table := by
  induction levels generalizing pre t with
  | nil =>
    cases h
    simpa using ht
  | cons level levels ih =>
    rw [walk] at h
    cases hvalid : isValid (m.entry t (vpn vaddr level)) with
    | false => simp [hvalid] at h
    | true =>
      cases hleaf : isLeaf (m.entry t (vpn vaddr level)) with
      | true => simp [hvalid, hleaf] at h
      | false =>
        simp only [hvalid, hleaf, Bool.not_true, Bool.false_eq_true, if_false] at h
        simpa using ih (paging.follow_snoc ht hvalid hleaf) h

/-- `unmap_page` returns the page of an entry of the last level and removes that entry. -/
theorem WellFormed.unmapPage {vaddr paddr : ℕ} (h : WellFormed root m)
    (hok : Sv39.unmapPage root m vaddr = (.ok paddr, m')) :
    vaddr % 4096 = 0 ∧ WellFormed root m' ∧
      (∃ e, paging.lookup m root (path vaddr) = some (0, e) ∧ pageAddr e = paddr) ∧
      ∀ q, q.length = 3 → paging.lookup m' root q =
        if path vaddr <+: q then none else paging.lookup m root q := by
  rw [Sv39.unmapPage] at hok
  split at hok
  next => simp at hok
  next halign =>
    cases hwalk : walk m vaddr [2, 1] root with
    | error err => simp [hwalk] at hok
    | ok table =>
      have hfollow := walk_ok m vaddr [2, 1] Tables.follow_nil hwalk
      cases hvalid : isValid (m.entry table (vpn vaddr 0)) with
      | false => simp [hwalk, hvalid] at hok
      | true =>
        simp only [hwalk, hvalid, Bool.not_true, Bool.false_eq_true, if_false, Prod.mk.injEq,
          Except.ok.injEq] at hok
        rcases hok with ⟨rfl, rfl⟩
        rcases h.store (vpn vaddr 0) hfollow (by simp [paging])
          (.inr (by simp [paging])) (e := 0) with ⟨hwf, hlookup⟩
        refine ⟨by simpa [pageSize] using halign, hwf, ⟨_, ?_, rfl⟩, hlookup⟩
        have hget : paging.valid (paging.get m table (vpn vaddr 0)) = true := hvalid
        refine (Tables.lookup_append (q := [vpn vaddr 0]) (by simp) hfollow).trans ?_
        simp [Tables.lookup, hget]
        rfl

/-- One level of `translate`: the lookup ends at an entry or goes on below it. -/
theorem translateFrom_cons (m : Memory) (vaddr level : ℕ) (levels : List ℕ) (p : List Index)
    (hlevel : p.length = level) (hp : p ≠ [])
    (ih : ∀ t, translateFrom m vaddr levels t =
      (paging.lookup m t p).map fun leaf => translateLeaf leaf.2 leaf.1 vaddr) (t : ℕ) :
    translateFrom m vaddr (level :: levels) t =
      (paging.lookup m t (vpn vaddr level :: p)).map fun leaf => translateLeaf leaf.2 leaf.1 vaddr := by
  have hne : p.isEmpty = false := by simp [hp]
  rw [translateFrom, Tables.lookup]
  change _ = Option.map _ (if !isValid (m.entry t (vpn vaddr level)) then none
    else if isLeaf (m.entry t (vpn vaddr level)) || p.isEmpty then
      some (p.length, m.entry t (vpn vaddr level)) else _)
  simp only [hne, Bool.or_false, hlevel]
  split
  · rfl
  · split
    · rfl
    · exact ih _

/-- `translate` returns the address that the looked up leaf gives. -/
theorem translate_eq (root : ℕ) (m : Memory) (vaddr : ℕ) :
    translate root m vaddr =
      (paging.lookup m root (path vaddr)).map fun leaf => translateLeaf leaf.2 leaf.1 vaddr := by
  apply translateFrom_cons m vaddr 2 [1] _ rfl (by simp)
  apply translateFrom_cons m vaddr 1 [] _ rfl (by simp)
  intro t
  rw [translateFrom, List.map, List.map, Tables.lookup]
  change _ = Option.map _ (if !isValid (m.entry t (vpn vaddr 0)) then none else _)
  split
  · rfl
  · simp
    rfl

def leafPerms (root : ℕ) (m : Memory) (vaddr : ℕ) : Option MemPerms :=
  (paging.lookup m root (path vaddr)).map fun leaf => pteToPerms leaf.2

theorem vpn_val (vaddr level : ℕ) : (vpn vaddr level : ℕ) = vaddr / 2 ^ (12 + 9 * level) % 512 := by
  change vaddr >>> (12 + 9 * level) &&& 2 ^ 9 - 1 = _
  rw [Nat.and_two_pow_sub_one_eq_mod, Nat.shiftRight_eq_div_pow]

/-- Addresses have the same indices exactly if they are in the same page. -/
theorem path_eq_iff {u v : ℕ} (hu : u < 2 ^ 39) (hv : v < 2 ^ 39) :
    path v <+: path u ↔ u / 4096 = v / 4096 := by
  have hlen : (path v).length = (path u).length := rfl
  rw [show path v <+: path u ↔ path v = path u from
    ⟨fun h => h.eq_of_length hlen, fun h => h ▸ List.prefix_rfl⟩]
  simp only [path, List.map_cons, List.map_nil, List.cons.injEq, Fin.ext_iff, vpn_val, and_true]
  omega

/-- Addresses have the same upper indices exactly if they are in the same superpage. -/
theorem superpath_iff {u v : ℕ} (hu : u < 2 ^ 39) (hv : v < 2 ^ 39) :
    [2, 1].map (vpn v) <+: path u ↔ u / 2 ^ 21 = v / 2 ^ 21 := by
  simp only [path, List.map_cons, List.map_nil, List.cons_prefix_cons, List.nil_prefix, and_true,
    Fin.ext_iff, vpn_val]
  omega

/-- The address within a block, for a page address that is aligned to the block. -/
theorem translateLeaf_leafEntry {perms : MemPerms} {level p u : ℕ} (hp : p < 2 ^ 56)
    (halign : p % 4096 = 0) (hblock : p % 2 ^ (12 + 9 * level) = 0) :
    translateLeaf (leafEntry perms p) level u = p + u % 2 ^ (12 + 9 * level) := by
  rw [translateLeaf, leafEntry, pageAddr_withPpn (permsToPteBits_lt perms) hp halign, Nat.one_shiftLeft,
    pageShift, Nat.and_two_pow_sub_one_eq_mod]
  have hlt : u % 2 ^ (12 + 9 * level) < 2 ^ (12 + 9 * level) := Nat.mod_lt _ (Nat.two_pow_pos _)
  have hmul : p = 2 ^ (12 + 9 * level) * (p / 2 ^ (12 + 9 * level)) := by
    rw [Nat.mul_div_cancel' (Nat.dvd_of_mod_eq_zero hblock)]
  rw [hmul]
  exact (Nat.two_pow_add_eq_or_of_lt hlt _).symm

end OpenIon.Arch.Riscv.Sv39
