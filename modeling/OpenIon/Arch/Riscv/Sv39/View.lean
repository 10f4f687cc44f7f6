import OpenIon.Arch.Riscv.Sv39.Lookup

/-! # A page table as a map of addresses

What a page table stands for is the map that takes a virtual address to its
physical address and permissions. On well-formed tables the operations are the
expected operations on that map: a block of addresses is added or a page is
removed, and nothing else changes.
-/
namespace OpenIon.Arch.Riscv.Sv39
open Mm Lib

def view (root : ℕ) (m : Memory) (vaddr : ℕ) : Option ℕ × Option MemPerms :=
  (translate root m vaddr, leafPerms root m vaddr)

def MapsBlock (root : ℕ) (m m' : Memory) (vaddr paddr size : ℕ) (perms : MemPerms) : Prop :=
  ∀ u < 2 ^ 39, view root m' u =
    if vaddr ≤ u ∧ u < vaddr + size then (some (paddr + (u - vaddr)), some perms) else view root m u

def UnmapsPage (root : ℕ) (m m' : Memory) (vaddr : ℕ) : Prop :=
  ∀ u < 2 ^ 39, view root m' u =
    if vaddr ≤ u ∧ u < vaddr + pageSize then (none, none) else view root m u

def KeepsView (root : ℕ) (m m' : Memory) : Prop := ∀ u, view root m' u = view root m u

variable {root v p u : ℕ} {m m' : Memory} {perms : MemPerms} {q : List Index}

theorem view_eq_of_lookup {k : ℕ} {e : ℕ} (h : paging.lookup m root (path u) = some (k, e)) :
    view root m u = (some (translateLeaf e k u), some (pteToPerms e)) := by
  simp [view, translate_eq, leafPerms, h]

theorem view_eq_none (h : paging.lookup m root (path u) = none) : view root m u = (none, none) := by
  simp [view, translate_eq, leafPerms, h]

theorem view_congr (h : paging.lookup m' root (path u) = paging.lookup m root (path u)) :
    view root m' u = view root m u := by
  rw [view, view, translate_eq, translate_eq, leafPerms, leafPerms, h]

theorem translate_isSome :
    (translate root m u).isSome = (paging.lookup m root (path u)).isSome := by
  rw [translate_eq, Option.isSome_map]

theorem keepsView_of_sameLookup (h : paging.SameLookup root m m') : KeepsView root m m' := by
  intro u
  exact view_congr (h (path u) rfl)

/-- The address bits above those of the indices are not looked at. -/
theorem view_mod (root : ℕ) (m : Memory) (u : ℕ) : view root m (u % 2 ^ 39) = view root m u := by
  have hpath : path (u % 2 ^ 39) = path u := by
    simp only [path, List.map_cons, List.map_nil, List.cons.injEq, Fin.ext_iff, vpn_val, and_true]
    omega
  cases h : paging.lookup m root (path u) with
  | none => rw [view_eq_none h, view_eq_none (hpath ▸ h)]
  | some leaf =>
    rcases leaf with ⟨k, e⟩
    have hk : k < 3 := Tables.lookup_level_lt h
    have hoffset : u % 2 ^ 39 % 2 ^ (12 + 9 * k) = u % 2 ^ (12 + 9 * k) :=
      Nat.mod_mod_of_dvd u (Nat.pow_dvd_pow 2 (by omega))
    rw [view_eq_of_lookup h, view_eq_of_lookup (hpath ▸ h), translateLeaf, translateLeaf,
      Nat.one_shiftLeft, pageShift, Nat.and_two_pow_sub_one_eq_mod, Nat.and_two_pow_sub_one_eq_mod,
      hoffset]

theorem div_eq_iff_of_mod {size : ℕ} (hsize : 0 < size) (hv : v % size = 0) :
    u / size = v / size ↔ v ≤ u ∧ u < v + size := by
  have hmul : v = size * (v / size) := by
    rw [Nat.mul_div_cancel' (Nat.dvd_of_mod_eq_zero hv)]
  have hu := Nat.div_add_mod u size
  have hlt := Nat.mod_lt u hsize
  constructor
  · intro heq
    rw [heq, ← hmul] at hu
    omega
  · rintro ⟨hle, hsum⟩
    have hkey : u / size = (u - v) / size + v / size := by
      conv_lhs => rw [← Nat.sub_add_cancel hle, hmul]
      rw [Nat.add_mul_div_left _ _ hsize]
      rw [← hmul]
    rw [hkey, Nat.div_eq_of_lt (by omega), Nat.zero_add]

theorem mapsBlock_of_mapped {k : ℕ} (h : paging.Mapped root m m' q (leafEntry perms p) (.ok ()))
    (hq : q.length + k = 3) (hv : v % 2 ^ (12 + 9 * k) = 0) (hp : p < 2 ^ 56)
    (hp12 : p % 4096 = 0) (hpk : p % 2 ^ (12 + 9 * k) = 0)
    (hiff : ∀ u < 2 ^ 39, q <+: path u ↔ u / 2 ^ (12 + 9 * k) = v / 2 ^ (12 + 9 * k)) :
    MapsBlock root m m' v p (2 ^ (12 + 9 * k)) perms := by
  intro u hu
  have hlookup := h.2 (path u) rfl
  have hblock := div_eq_iff_of_mod (u := u) (Nat.two_pow_pos (12 + 9 * k)) hv
  by_cases hin : v ≤ u ∧ u < v + 2 ^ (12 + 9 * k)
  · have hlevel : paging.levels - q.length = k := by
      change 3 - q.length = k
      omega
    rw [if_pos ((hiff u hu).mpr (hblock.mpr hin)), hlevel] at hlookup
    have hmod : u % 2 ^ (12 + 9 * k) = u - v := by
      have hsplit := Nat.div_add_mod u (2 ^ (12 + 9 * k))
      rw [hblock.mpr hin, Nat.mul_div_cancel' (Nat.dvd_of_mod_eq_zero hv)] at hsplit
      omega
    rw [if_pos hin, view_eq_of_lookup hlookup, translateLeaf_leafEntry hp hp12 hpk,
      pteToPerms_leafEntry, hmod]
  · rw [if_neg fun hbelow => hin (hblock.mp ((hiff u hu).mp hbelow))] at hlookup
    rw [if_neg hin]
    exact view_congr hlookup

def PageMapped (root : ℕ) (m m' : Memory) (v p : ℕ) (perms : MemPerms) :
    Except MmError Unit → Prop
  | .ok _ => v % pageSize = 0 ∧ p % pageSize = 0 ∧ translate root m v = none ∧
      MapsBlock root m m' v p pageSize perms
  | .error err => KeepsView root m m' ∧
      ((err = .invalidAlignment ∧ ¬ (v % pageSize = 0 ∧ p % pageSize = 0)) ∨
        (err = .alreadyMapped ∧ v % pageSize = 0 ∧ p % pageSize = 0 ∧
          (translate root m v).isSome = true) ∨
        (err = .outOfMemory ∧ Refused m m' ∧ translate root m v = none))

theorem WellFormed.mapPage_mapped (h : WellFormed root m) (perms : MemPerms)
    (hv : v % pageSize = 0) (hp : p % pageSize = 0) :
    ∃ r m', Sv39.mapPage root m v p perms = (r, m') ∧ WellFormed root m' ∧ Later m m' ∧
      paging.Mapped root m m' (path v) (leafEntry perms p) r := by
  rw [Sv39.mapPage, if_neg (by simp [hv, hp])]
  exact h.mapAt v [2, 1] 0 (by simp) (isValid_leafEntry perms p) (.inr rfl)

theorem WellFormed.mapPage (h : WellFormed root m) (perms : MemPerms) (hv : v < 2 ^ 39)
    (hp : p < 2 ^ 56) :
    ∃ r m', Sv39.mapPage root m v p perms = (r, m') ∧ WellFormed root m' ∧ Later m m' ∧
      PageMapped root m m' v p perms r := by
  by_cases halign : v % pageSize = 0 ∧ p % pageSize = 0
  · rcases h.mapPage_mapped perms halign.1 halign.2 with ⟨r, m', hmap, hwf, hlater, hr⟩
    refine ⟨r, m', hmap, hwf, hlater, ?_⟩
    cases r with
    | ok _ =>
      have hnone : translate root m v = none := by
        rw [translate_eq, hr.1 (path v) List.prefix_rfl rfl]
        rfl
      exact ⟨halign.1, halign.2, hnone, mapsBlock_of_mapped (k := 0) hr rfl halign.1 hp halign.2 halign.2
        fun u hu => path_eq_iff hu hv⟩
    | error err =>
      refine ⟨keepsView_of_sameLookup hr.1, ?_⟩
      rcases hr.2 with ⟨rfl, hcovered⟩ | ⟨rfl, hrefused, hunmapped⟩
      · refine .inr (.inl ⟨rfl, halign.1, halign.2, ?_⟩)
        rw [translate_isSome]
        exact hcovered rfl (path v) List.prefix_rfl rfl
      · refine .inr (.inr ⟨rfl, hrefused, ?_⟩)
        rw [translate_eq, hunmapped (path v) List.prefix_rfl rfl]
        rfl
  · refine ⟨.error .invalidAlignment, m, ?_, h, .refl m, fun _ => rfl, .inl ⟨rfl, halign⟩⟩
    rw [Sv39.mapPage, if_pos]
    omega

def SuperpageMapped (root : ℕ) (m m' : Memory) (v p : ℕ) (perms : MemPerms) :
    Except MmError Unit → Prop
  | .ok _ => v % superpageSize = 0 ∧
      (∀ u < 2 ^ 39, v ≤ u ∧ u < v + superpageSize → translate root m u = none) ∧
      MapsBlock root m m' v p superpageSize perms
  | .error _ => KeepsView root m m'

theorem WellFormed.mapSuperpage (h : WellFormed root m) (hv : v < 2 ^ 39) (hp : p < 2 ^ 56)
    (hperms : perms.NonEmpty) :
    ∃ r m', Sv39.mapSuperpage root m v p superpageSize perms = (r, m') ∧ WellFormed root m' ∧
      Later m m' ∧ SuperpageMapped root m m' v p perms r := by
  by_cases halign : v % superpageSize = 0 ∧ p % superpageSize = 0
  · have heq : Sv39.mapSuperpage root m v p superpageSize perms =
        Sv39.mapAt root m v [2] 1 (leafEntry perms p) := by
      simp [Sv39.mapSuperpage, halign]
    rcases h.mapAt v [2] 1 (by simp) (isValid_leafEntry perms p)
      (.inl (isLeaf_leafEntry hperms)) with
      ⟨r, m', hmap, hwf, hlater, hr⟩
    refine ⟨r, m', heq.trans hmap, hwf, hlater, ?_⟩
    cases r with
    | ok _ =>
      have hiff : ∀ u < 2 ^ 39, [2, 1].map (vpn v) <+: path u ↔ u / 2 ^ 21 = v / 2 ^ 21 :=
        fun u hu => superpath_iff hu hv
      have hp12 : p % 4096 = 0 := by
        have hp21 := halign.2
        rw [superpageSize] at hp21
        omega
      refine ⟨halign.1, ?_, mapsBlock_of_mapped (k := 1) hr rfl halign.1 hp hp12 halign.2 hiff⟩
      intro u hu hin
      have hbelow := (hiff u hu).mpr ((div_eq_iff_of_mod (by decide) halign.1).mpr hin)
      rw [translate_eq, hr.1 (path u) hbelow rfl]
      rfl
    | error err => exact keepsView_of_sameLookup hr.1
  · refine ⟨.error .invalidAlignment, m, ?_, h, .refl m, fun _ => rfl⟩
    rw [Sv39.mapSuperpage, if_neg (by simp), if_pos]
    omega

def PageUnmapped (root : ℕ) (m m' : Memory) (v : ℕ) : Except MmError ℕ → Prop
  | .ok p => translate root m v = some p ∧ UnmapsPage root m m' v
  | .error _ => KeepsView root m m'

theorem unmapPage_error {err : MmError} (h : unmapPage root m v = (.error err, m')) : m' = m := by
  unfold unmapPage at h
  split at h
  · cases h
    rfl
  · split at h
    · cases h
      rfl
    · simp only at h
      split at h
      · cases h
        rfl
      · simp at h

theorem WellFormed.unmapPage_spec (h : WellFormed root m) (hv : v < 2 ^ 39) :
    ∃ r m', Sv39.unmapPage root m v = (r, m') ∧ WellFormed root m' ∧
      PageUnmapped root m m' v r := by
  rcases hr : Sv39.unmapPage root m v with ⟨r, m'⟩
  refine ⟨r, m', rfl, ?_⟩
  cases r with
  | error err =>
    rw [unmapPage_error hr]
    exact ⟨h, fun _ => rfl⟩
  | ok p =>
    rcases h.unmapPage hr with ⟨halign, hwf, ⟨e, he, hpage⟩, hlookup⟩
    refine ⟨hwf, ?_, ?_⟩
    · have hoffset : v &&& (1 <<< pageShift) - 1 = 0 := by
        rw [Nat.one_shiftLeft, Nat.and_two_pow_sub_one_eq_mod]
        exact halign
      rw [translate_eq, he, Option.map_some, translateLeaf, Nat.mul_zero, Nat.add_zero, hoffset,
        Nat.or_zero, hpage]
    · intro u hu
      have hlookup := hlookup (path u) rfl
      have hblock := (path_eq_iff hu hv).trans (div_eq_iff_of_mod (by decide) halign)
      by_cases hin : v ≤ u ∧ u < v + pageSize
      · rw [if_pos (hblock.mpr hin)] at hlookup
        rw [if_pos hin]
        exact view_eq_none hlookup
      · rw [if_neg fun hbelow => hin (hblock.mp hbelow)] at hlookup
        rw [if_neg hin]
        exact view_congr hlookup

end OpenIon.Arch.Riscv.Sv39
