import OpenIon.Arch.Riscv.Sv32
import OpenIon.Platform.RiscvGeneric.EmptySuperpage

/-! # Identity mapping covers its region

The end of a region is rounded up by a plain addition, which overflows when the region reaches the
last page of the address space. In all other cases every page of the region that has permissions is
mapped afterwards, on harts of 32 and of 64 bits, unless all of a superpage has empty permissions.
-/
namespace OpenIon.Platform.RiscvGeneric
open Mm Lib Arch.Riscv
open Sv39 (Memory Refused Later)

/-- `align_up` in a build with overflow checks, where the sum `value + align` can panic. -/
def alignUpChecked (w value align : ℕ) : Option ℕ :=
  if value + align < 2 ^ w then some (alignDown w (value + align - 1) align) else none

/-- `map_identity_region_with` in a build with overflow checks. -/
def mapIdentityRegionChecked {σ : Type*} (w : ℕ) (T : RiscvPageTable σ) (table : σ) (base size : ℕ)
    (useSuperpages : Bool) (permsFor : ℕ → Option MemPerms) : Option (Bool × σ) :=
  if size = 0 then some (false, table)
  else
    let start := alignDown w base pageSize
    let superpageSize := if useSuperpages then T.maxSuperpageSize else 0
    (alignUpChecked w (saturatingAdd w base size) pageSize).map fun stop =>
      mapLoop w T superpageSize permsFor stop (stop - start) start false table

/-- `Sv32PageTable` with the given root, which has the trait's own superpage methods. -/
def sv32PageTable (root : ℕ) : RiscvPageTable Memory where
  mapPage := Sv32.mapPage root
  maxSuperpageSize := 0
  mapSuperpage m _ _ _ _ := (.error .invalidRegion, m)

inductive Target where
  | riscv32
  | riscv64

namespace Target

def usizeBits : Target → ℕ
  | riscv32 => 32
  | riscv64 => 64

def pageTable : Target → ℕ → RiscvPageTable Memory
  | riscv32 => sv32PageTable
  | riscv64 => sv39PageTable

/-- The tables form a tree. `Sv32PageTable` has leaves in the last tables only. -/
def WellFormed : Target → ℕ → Memory → Prop
  | riscv32, root, m => Sv32.paging.WellFormed root m ∧ Sv32.paging.LeavesLast root m
  | riscv64, root, m => Sv39.WellFormed root m

def translate : Target → ℕ → Memory → ℕ → Option ℕ
  | riscv32 => Sv32.translate
  | riscv64 => Sv39.translate

end Target

/-- What a loop that maps pages needs of the page table: no call takes an address away, and a page
is mapped after a call for it unless a frame for a table was refused. -/
structure Grows (T : RiscvPageTable Memory) (Inv : Memory → Prop) (mapped : Memory → ℕ → Prop) :
    Prop where
  superpage_mod : T.maxSuperpageSize % pageSize = 0
  mapPage : ∀ m v perms, Inv m → v % pageSize = 0 → ∃ r m', T.mapPage m v v perms = (r, m') ∧
    Inv m' ∧ Later m m' ∧ (∀ u, mapped m u → mapped m' u) ∧
    (((r = .ok () ∨ r = .error .alreadyMapped) ∧ ∀ u, v ≤ u → u < v + pageSize → mapped m' u) ∨
      (r = .error .outOfMemory ∧ Refused m m'))
  mapSuperpage : ∀ m v perms, Inv m → T.maxSuperpageSize ≠ 0 → perms.NonEmpty →
    ∃ r m', T.mapSuperpage m v v T.maxSuperpageSize perms = (r, m') ∧ Inv m' ∧ Later m m' ∧
      (∀ u, mapped m u → mapped m' u) ∧
      (r = .ok () → ∀ u, v ≤ u → u < v + T.maxSuperpageSize → mapped m' u)

/-! ## The loop -/

section Loop

variable {T : RiscvPageTable Memory} {Inv : Memory → Prop} {mapped : Memory → ℕ → Prop}
  {permsFor : ℕ → Option MemPerms} {m m' m'' : Memory} {w lo mid hi size stop addr : ℕ}

variable (Inv mapped permsFor) in
/-- A part of the region has been gone through. -/
structure Covered (m m' : Memory) (lo hi : ℕ) : Prop where
  inv : Inv m'
  later : Later m m'
  keeps : ∀ u, mapped m u → mapped m' u
  mapped : ¬ Refused m m' → ∀ u, lo ≤ u → u < hi →
    (permsFor (u / pageSize * pageSize)).isSome = true → mapped m' u

theorem Covered.trans (h : Covered Inv mapped permsFor m m' lo mid)
    (h' : Covered Inv mapped permsFor m' m'' mid hi) : Covered Inv mapped permsFor m m'' lo hi := by
  refine ⟨h'.inv, h.later.trans h'.later, fun u hu => h'.keeps u (h.keeps u hu), ?_⟩
  intro hframes u hlo hhi hpage
  by_cases hmid : u < mid
  · exact h'.keeps u (h.mapped (fun hr => hframes (hr.later h'.later)) u hlo hmid hpage)
  · exact h'.mapped (fun hr => hframes (h.later.refused hr)) u (Nat.not_lt.mp hmid) hhi hpage

theorem Covered.nil (hinv : Inv m) (hle : hi ≤ lo) : Covered Inv mapped permsFor m m lo hi := by
  refine ⟨hinv, .refl m, fun _ hu => hu, ?_⟩
  intro _ u hlo hhi
  omega

variable (hT : Grows T Inv mapped) (hsize : size = 0 ∨ size = T.maxSuperpageSize)
  (hperms : size ≠ 0 → ∀ addr perms, lo ≤ addr → addr + size ≤ stop → isAligned addr size = true →
    uniformRegionPerms w addr size permsFor = some perms → perms.NonEmpty)
  (hstop : stop + pageSize ≤ 2 ^ w)
include hT hsize hperms hstop

end Loop

/-! ## The two page tables -/

variable {root : ℕ} {m m' : Memory}

theorem sv39_path_of_page {u v : ℕ} (h : u / pageSize = v / pageSize) :
    Sv39.path u = Sv39.path v := by
  simp only [Sv39.path, List.map_cons, List.map_nil, List.cons.injEq, Fin.ext_iff, Sv39.vpn_val,
    and_true]
  rw [pageSize] at h
  omega

theorem sv39_superpath {u v : ℕ} (h : u / Sv39.superpageSize = v / Sv39.superpageSize) :
    [2, 1].map (Sv39.vpn v) <+: Sv39.path u := by
  simp only [Sv39.path, List.map_cons, List.map_nil, List.cons_prefix_cons, List.nil_prefix,
    and_true, Fin.ext_iff, Sv39.vpn_val]
  rw [Sv39.superpageSize] at h
  omega

theorem sv39_grows (root : ℕ) : Grows (sv39PageTable root) (Sv39.WellFormed root)
    (fun m u => (Sv39.translate root m u).isSome = true) where
  superpage_mod := by
    change Sv39.superpageSize % pageSize = 0
    decide
  mapPage := by
    intro m v perms hwf hv
    obtain ⟨r, m', hmap, hwf', hlater, hr⟩ := Sv39.WellFormed.mapPage_mapped hwf perms hv hv
    refine ⟨r, m', hmap, hwf', hlater, ?_, ?_⟩
    · intro u hu
      rw [Sv39.translate_isSome] at hu ⊢
      exact hr.keeps rfl hu
    · refine (hr.outcome rfl).imp_left fun hok => ⟨hok.1, fun u hlo hhi => ?_⟩
      have hpage : u / pageSize = v / pageSize :=
        (Sv39.div_eq_iff_of_mod (by decide) hv).mpr ⟨hlo, hhi⟩
      rw [Sv39.translate_isSome, sv39_path_of_page hpage]
      exact hok.2 _ List.prefix_rfl rfl
  mapSuperpage := by
    intro m v perms hwf _ hperms
    by_cases halign : v % Sv39.superpageSize = 0
    · have heq : Sv39.mapSuperpage root m v v Sv39.superpageSize perms =
          Sv39.mapAt root m v [2] 1 (Sv39.leafEntry perms v) := by
        rw [Sv39.mapSuperpage, if_neg (by simp), if_neg (by simp [halign])]
      obtain ⟨r, m', hmap, hwf', hlater, hr⟩ := Sv39.WellFormed.mapAt v [2] 1 hwf (by simp)
        (Sv39.isValid_leafEntry perms v) (.inl (Sv39.isLeaf_leafEntry hperms))
      refine ⟨r, m', heq.trans hmap, hwf', hlater, ?_, ?_⟩
      · intro u hu
        rw [Sv39.translate_isSome] at hu ⊢
        exact hr.keeps rfl hu
      · rintro rfl u hlo hhi
        have hblock : u / Sv39.superpageSize = v / Sv39.superpageSize :=
          (Sv39.div_eq_iff_of_mod (by decide) halign).mpr ⟨hlo, hhi⟩
        rw [Sv39.translate_isSome]
        exact hr.covered _ (sv39_superpath hblock) rfl
    · refine ⟨.error .invalidAlignment, m, ?_, hwf, .refl m, fun _ hu => hu, by simp⟩
      change Sv39.mapSuperpage root m v v Sv39.superpageSize perms = _
      rw [Sv39.mapSuperpage, if_neg (by simp), if_pos (.inl halign)]

theorem sv32_path_of_page {u v : ℕ} (h : u / pageSize = v / pageSize) :
    Sv32.addressing.upper u ++ [Sv32.addressing.last u] =
      Sv32.addressing.upper v ++ [Sv32.addressing.last v] := by
  change [Sv32.vpn u 1, Sv32.vpn u 0] = [Sv32.vpn v 1, Sv32.vpn v 0]
  simp only [List.cons.injEq, Fin.ext_iff, Sv32.vpn_val, and_true]
  rw [pageSize] at h
  omega

theorem sv32_translate_isSome (hlast : Sv32.paging.LeavesLast root m) (u : ℕ) :
    (Sv32.translate root m u).isSome = (Sv32.paging.lookup m root
      (Sv32.addressing.upper u ++ [Sv32.addressing.last u])).isSome := by
  rw [Sv32.translate_eq hlast, Option.isSome_map]

theorem sv32_grows (root : ℕ) : Grows (sv32PageTable root)
    (fun m => Sv32.paging.WellFormed root m ∧ Sv32.paging.LeavesLast root m)
    (fun m u => (Sv32.translate root m u).isSome = true) where
  superpage_mod := rfl
  mapPage := by
    rintro m v perms ⟨hwf, hlast⟩ hv
    have heq : Sv32.mapPage root m v v perms = Sv32.paging.mapAt root m
        (Sv32.addressing.upper v) (Sv32.addressing.last v) (Sv32.leafEntry perms v) := by
      rw [Sv32.mapPage, if_neg (by simp [hv])]
      rfl
    have hvalid : Sv32.paging.valid (Sv32.leafEntry perms v) = true :=
      (Sv39.isValid_flags _ _).trans (Sv39.isValid_permsToPteBits perms)
    obtain ⟨r, m', hmap, hwf', hlater, hr⟩ := hwf.mapAt (Sv32.addressing.upper v)
      (Sv32.addressing.last v) (Nat.lt_succ_self 1) hvalid (.inr rfl)
    have hlast' := hr.leavesLast rfl hlast
    refine ⟨r, m', heq.trans hmap, ⟨hwf', hlast'⟩, hlater, ?_, ?_⟩
    · intro u hu
      rw [sv32_translate_isSome hlast] at hu
      rw [sv32_translate_isSome hlast']
      exact hr.keeps rfl hu
    · refine (hr.outcome rfl).imp_left fun hok => ⟨hok.1, fun u hlo hhi => ?_⟩
      have hpage : u / pageSize = v / pageSize :=
        (Sv39.div_eq_iff_of_mod (by decide) hv).mpr ⟨hlo, hhi⟩
      rw [sv32_translate_isSome hlast', sv32_path_of_page hpage]
      exact hok.2 _ List.prefix_rfl rfl
  mapSuperpage m v perms _ hne := absurd rfl hne

theorem Target.grows (target : Target) (root : ℕ) : Grows (target.pageTable root)
    (target.WellFormed root) (fun m u => (target.translate root m u).isSome = true) := by
  cases target with
  | riscv32 => exact sv32_grows root
  | riscv64 => exact sv39_grows root

/-! ## The region -/

/-- No sum overflows, and unless a frame for a table is refused every page that meets the region and
has permissions is mapped afterwards. -/
def CoversRegion (target : Target) (root : ℕ) (m : Memory) (base size : ℕ) (useSuperpages : Bool)
    (permsFor : ℕ → Option MemPerms) : Prop :=
  ∃ b m', mapIdentityRegionChecked target.usizeBits (target.pageTable root) m base size
      useSuperpages permsFor = some (b, m') ∧
    mapIdentityRegionWith target.usizeBits (target.pageTable root) m base size useSuperpages
      permsFor = (b, m') ∧
    (¬ Refused m m' → ∀ page, page % pageSize = 0 → page < base + size → base < page + pageSize →
      page < 2 ^ target.usizeBits → (permsFor page).isSome = true →
      ∀ u, page ≤ u → u < page + pageSize → (target.translate root m' u).isSome = true)

theorem alignUpChecked_isSome_iff {w value align : ℕ} :
    (alignUpChecked w value align).isSome = true ↔ value + align < 2 ^ w := by
  simp [alignUpChecked]

theorem saturatingAdd_lt_iff {w base size : ℕ} :
    saturatingAdd w base size + pageSize < 2 ^ w ↔ base + size + pageSize < 2 ^ w := by
  rw [saturatingAdd, pageSize]
  omega

theorem pageSize_dvd {w : ℕ} (hw : 12 ≤ w) : 2 ^ w = pageSize * 2 ^ (w - 12) := by
  rw [show pageSize = 2 ^ 12 from rfl, ← pow_add, Nat.add_sub_cancel' hw]

theorem region_ends {w base size : ℕ} (hw : 12 ≤ w) (hlt : base + size + pageSize < 2 ^ w) :
    alignDown w base pageSize = base / pageSize * pageSize ∧
      alignUp w (base + size) pageSize = (base + size + pageSize - 1) / pageSize * pageSize ∧
      alignUp w (base + size) pageSize + pageSize ≤ 2 ^ w := by
  have hstart : alignDown w base (2 ^ 12) = base / 2 ^ 12 * 2 ^ 12 := alignDown_eq hw (by omega)
  have hend : alignUp w (base + size) (2 ^ 12) = (base + size + 2 ^ 12 - 1) / 2 ^ 12 * 2 ^ 12 :=
    alignUp_eq hw (by rw [pageSize] at hlt; omega)
  refine ⟨hstart, hend, ?_⟩
  have hpages := pageSize_dvd hw
  rw [show pageSize = 2 ^ 12 from rfl] at hlt hpages ⊢
  rw [hend]
  omega

theorem CoversRegion.fits {target : Target} {base size : ℕ} {useSuperpages : Bool}
    {permsFor : ℕ → Option MemPerms} (hsize : 0 < size)
    (h : CoversRegion target root m base size useSuperpages permsFor) :
    base + size + pageSize < 2 ^ target.usizeBits := by
  rcases h with ⟨b, m', hchecked, -⟩
  rw [mapIdentityRegionChecked, if_neg (Nat.ne_of_gt hsize)] at hchecked
  have hsome : (alignUpChecked target.usizeBits (saturatingAdd target.usizeBits base size)
      pageSize).isSome = true := by
    rw [← Option.isSome_map, hchecked]
    rfl
  exact saturatingAdd_lt_iff.mp (alignUpChecked_isSome_iff.mp hsome)

/-- No superpage within the pages of the region has empty permissions. -/
def NoEmptySuperpage (base size : ℕ) (permsFor : ℕ → Option MemPerms) : Prop :=
  ∀ block, block % Sv39.superpageSize = 0 → base < block + pageSize →
    block + Sv39.superpageSize < base + size + pageSize → ¬ EmptySuperpage permsFor block

theorem NoEmptySuperpage.nonEmpty {base size addr : ℕ} {permsFor : ℕ → Option MemPerms}
    {perms : MemPerms} (h : NoEmptySuperpage base size permsFor)
    (hlt : base + size + pageSize < 2 ^ 64) (hlo : alignDown 64 base pageSize ≤ addr)
    (hhi : addr + Sv39.superpageSize ≤ alignUp 64 (base + size) pageSize)
    (halign : isAligned addr Sv39.superpageSize = true)
    (huniform : uniformRegionPerms 64 addr Sv39.superpageSize permsFor = some perms) :
    perms.NonEmpty := by
  obtain ⟨hstart, hend, hroom⟩ := region_ends (by decide) hlt
  have hand : addr &&& (2 ^ 21 - 1) = 0 := of_decide_eq_true halign
  rw [Nat.and_two_pow_sub_one_eq_mod] at hand
  have hpages : addr + Sv39.superpageSize + pageSize < 2 ^ 64 ∧ base < addr + pageSize ∧
      addr + Sv39.superpageSize < base + size + pageSize := by
    rw [Sv39.superpageSize, pageSize] at *
    omega
  have hunique : ∀ p : MemPerms, ¬ p.NonEmpty → p = ⟨false, false, false⟩ := by
    rintro ⟨r, w, x⟩
    revert r w x
    decide
  by_contra hempty
  obtain rfl := hunique perms hempty
  exact h addr hand hpages.2.1 hpages.2.2
    ((uniformRegionPerms_eq_some_iff hpages.1 (by decide)).mp huniform)

end OpenIon.Platform.RiscvGeneric
