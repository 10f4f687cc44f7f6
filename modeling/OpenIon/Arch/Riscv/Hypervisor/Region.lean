import OpenIon.Arch.Riscv.Hypervisor.GStage
import Mathlib.Tactic.Ring

/-! # Regions of a guest

`map_region` of `hypervisor/gstage.rs` maps its pages one after the other and returns at the first
that cannot be mapped. The pages before it stay mapped, so the call is all or nothing exactly if all
its pages can be mapped or the first one cannot.
-/
namespace OpenIon.Arch.Riscv.GStage
open Mm Lib
open Sv39 (Memory Later Supply Granted)

/-- The loop of `map_region` over the pages from the index on. -/
def mapPages (root gpaBase hpaBase : ℕ) (perms : MemPerms) :
    ℕ → ℕ → Memory → Option (Except MmError Unit × Memory)
  | 0, _, m => some (.ok (), m)
  | pages + 1, i, m =>
    let gpa := (gpaBase + i * pageSize) % 2 ^ 64
    let hpa := (hpaBase + i * pageSize) % 2 ^ 64
    match mapPage root m gpa hpa perms with
    | none => none
    | some (.error err, m) => some (.error err, m)
    | some (.ok _, m) => mapPages root gpaBase hpaBase perms pages (i + 1) m

def mapRegion (root : ℕ) (m : Memory) (gpaBase hpaBase size : ℕ) (perms : MemPerms) :
    Option (Except MmError Unit × Memory) :=
  mapPages root gpaBase hpaBase perms ((size + pageSize - 1) % 2 ^ 64 / pageSize) 0 m

def MapsRange (root : ℕ) (m m' : Memory) (gpa hpa size : ℕ) : Prop :=
  ∀ u < 2 ^ 41, translate root m' u =
    if gpa ≤ u ∧ u < gpa + size then some (some (hpa + (u - gpa))) else translate root m u

def RegionMapped (root : ℕ) (m m' : Memory) (gpaBase hpaBase size : ℕ) :
    Except MmError Unit → Prop
  | .ok _ => MapsRange root m m' gpaBase hpaBase ((size + pageSize - 1) / pageSize * pageSize)
  | .error _ => KeepsTranslation root m m'

def AllOrNothing (root : ℕ) (m : Memory) (gpaBase hpaBase size : ℕ) (perms : MemPerms) : Prop :=
  ∃ r m', mapRegion root m gpaBase hpaBase size perms = some (r, m') ∧
    RegionMapped root m m' gpaBase hpaBase size r

variable {root gpaBase hpaBase i pages size gpa hpa : ℕ} {m m' m'' : Memory} {perms : MemPerms}
  {r : Except MmError Unit}

theorem MapsRange.nil (root : ℕ) (m : Memory) (gpa hpa : ℕ) : MapsRange root m m gpa hpa 0 := by
  intro u _
  rw [if_neg (by omega)]

theorem MapsPage.append (h : MapsPage root m m' gpa hpa)
    (h' : MapsRange root m' m'' (gpa + pageSize) (hpa + pageSize) size) :
    MapsRange root m m'' gpa hpa (pageSize + size) := by
  intro u hu
  rw [h' u hu, h u hu]
  by_cases hpage : gpa ≤ u ∧ u < gpa + pageSize
  · rw [if_neg (by omega), if_pos hpage, if_pos (by omega)]
  · rw [if_neg hpage]
    by_cases hrest : gpa + pageSize ≤ u ∧ u < gpa + pageSize + size
    · have heq : hpa + pageSize + (u - (gpa + pageSize)) = hpa + (u - gpa) := by omega
      rw [if_pos hrest, if_pos (by omega), heq]
    · rw [if_neg hrest, if_neg (by omega)]

/-- The addresses of the pages from the index on. -/
def pagesFrom (gpaBase i pages : ℕ) : List ℕ :=
  (List.range' i pages).map fun k => gpaBase + k * pageSize

theorem mappable_nil (root : ℕ) (m : Memory) : Mappable root m [] :=
  ⟨fun _ hu => absurd hu List.not_mem_nil, fun _ hk => absurd hk (Nat.not_lt_zero _)⟩

theorem Mappable.head {gpas : List ℕ} (h : Mappable root m (gpa :: gpas)) :
    Mappable root m [gpa] := by
  refine ⟨by simpa using h.1 gpa List.mem_cons_self, h.2.of_le ?_⟩
  exact Finset.card_le_card Tables.missing_subset

/-- When the first page has been mapped, the others can be mapped if they could all be before. -/
theorem Table.mappable_cons_iff (h : Table root m) {gpas : List ℕ} (hlow : gpa < 2 ^ 39)
    (hgpa : gpa % pageSize = 0) (hhpa : hpa % pageSize = 0)
    (hok : GStage.mapPage root m gpa hpa perms = some (.ok (), m'))
    (hmaps : MapsPage root m m' gpa hpa)
    (hothers : ∀ u ∈ gpas, u < 2 ^ 41 ∧ ¬ (gpa ≤ u ∧ u < gpa + pageSize)) :
    Mappable root m (gpa :: gpas) ↔ Mappable root m' gpas := by
  have hfirst := (h.mapPage_ok_iff hlow hgpa hhpa perms).mp ⟨m', hok⟩
  have hall := h.mapPage_allocated hlow hgpa hhpa hok
  have hcard : (missingTables root m (gpa :: gpas)).card =
      (missingTables root m [gpa]).card + (missingTables root m' gpas).card := by
    apply hall.card_missing
    intro p hp
    rcases List.mem_map.mp hp with ⟨u, -, rfl⟩
    exact Nat.lt_succ_self 2
  have hsame : ∀ u ∈ gpas, translate root m' u = translate root m u := by
    intro u hu
    rw [hmaps u (hothers u hu).1, if_neg (hothers u hu).2]
  have hgranted : Granted m (missingTables root m (gpa :: gpas)).card ↔
      Granted m' (missingTables root m' gpas).card := by
    rw [hcard]
    exact (Sv39.granted_add hall.frames hall.requests).trans (and_iff_right hfirst.2)
  rw [Mappable, Mappable, List.forall_mem_cons, hgranted, and_assoc]
  constructor
  · rintro ⟨-, hfree, hframes⟩
    exact ⟨fun u hu => (hsame u hu).trans (hfree u hu), hframes⟩
  · rintro ⟨hfree, hframes⟩
    exact ⟨hfirst.1 gpa List.mem_cons_self, fun u hu => (hsame u hu).symm.trans (hfree u hu), hframes⟩

/-- What the loop has done when it ends: all pages are mapped, or those before the failing one. -/
def PagesMapped (root : ℕ) (m m' : Memory) (gpa hpa pages : ℕ) : Except MmError Unit → Prop
  | .ok _ => MapsRange root m m' gpa hpa (pages * pageSize)
  | .error _ => ∃ mapped < pages, MapsRange root m m' gpa hpa (mapped * pageSize) ∧
      (0 < mapped ↔ Mappable root m [gpa])

theorem PagesMapped.cons (hfirst : Mappable root m [gpa]) (h : MapsPage root m m' gpa hpa)
    (h' : PagesMapped root m' m'' (gpa + pageSize) (hpa + pageSize) pages r) :
    PagesMapped root m m'' gpa hpa (pages + 1) r := by
  have hmul : ∀ n, pageSize + n * pageSize = (n + 1) * pageSize := fun n => by ring
  cases r with
  | ok _ =>
    have hrange := h.append h'
    rwa [hmul] at hrange
  | error err =>
    obtain ⟨mapped, hlt, hrest, -⟩ := h'
    have hrange := h.append hrest
    rw [hmul] at hrange
    exact ⟨mapped + 1, Nat.succ_lt_succ hlt, hrange, iff_of_true (Nat.succ_pos mapped) hfirst⟩

/-- Below 2³⁹ the loop does not panic, and it succeeds exactly if all its pages can be mapped. -/
theorem Table.mapPages (h : Table root m) (perms : MemPerms) (i pages : ℕ)
    (hgpa : gpaBase % pageSize = 0) (hhpa : hpaBase % pageSize = 0)
    (hguest : gpaBase + (i + pages) * pageSize ≤ 2 ^ 39)
    (hhost : hpaBase + (i + pages) * pageSize ≤ 2 ^ 56) :
    ∃ r m', GStage.mapPages root gpaBase hpaBase perms pages i m = some (r, m') ∧
      PagesMapped root m m' (gpaBase + i * pageSize) (hpaBase + i * pageSize) pages r ∧
      (r = .ok () ↔ Mappable root m (pagesFrom gpaBase i pages)) := by
  induction pages generalizing i m with
  | zero =>
    refine ⟨.ok (), m, rfl, ?_, iff_of_true rfl (mappable_nil root m)⟩
    rw [PagesMapped, Nat.zero_mul]
    exact MapsRange.nil root m _ _
  | succ pages ih =>
    have hnext : (i + 1) * pageSize = i * pageSize + pageSize := by ring
    have hsum : (i + (pages + 1)) * pageSize = i * pageSize + pageSize + pages * pageSize := by ring
    have hrest : (i + 1 + pages) * pageSize = i * pageSize + pageSize + pages * pageSize := by ring
    have hpos : 0 < pageSize := by decide
    have hlow : gpaBase + i * pageSize < 2 ^ 39 := by omega
    have hhigh : hpaBase + i * pageSize < 2 ^ 56 := by omega
    have hgpa' : (gpaBase + i * pageSize) % pageSize = 0 := by rw [Nat.add_mul_mod_self_right, hgpa]
    have hhpa' : (hpaBase + i * pageSize) % pageSize = 0 := by rw [Nat.add_mul_mod_self_right, hhpa]
    have hmod : (gpaBase + i * pageSize) % 2 ^ 64 = gpaBase + i * pageSize :=
      Nat.mod_eq_of_lt (hlow.trans (by decide))
    have hmod' : (hpaBase + i * pageSize) % 2 ^ 64 = hpaBase + i * pageSize :=
      Nat.mod_eq_of_lt (hhigh.trans (by decide))
    have hpage := h.mapPage_ok_iff hlow hgpa' hhpa' perms
    obtain ⟨r, m₁, hmap, h₁, -, hr⟩ := h.mapPage_spec perms hlow hhigh
    simp only [GStage.mapPages, hmod, hmod', hmap]
    cases r with
    | error err =>
      have hnot : ¬ Mappable root m [gpaBase + i * pageSize] := by simp [← hpage, hmap]
      refine ⟨.error err, m₁, rfl, ⟨0, Nat.succ_pos pages, ?_, iff_of_false (Nat.lt_irrefl 0) hnot⟩,
        iff_of_false (by simp) fun hall => hnot hall.head⟩
      intro u hu
      rw [if_neg (by omega)]
      exact hr u hu
    | ok _ =>
      obtain ⟨r, m', hpages, hmapped, hiff⟩ := ih h₁ (i + 1) (by omega) (by omega)
      rw [hnext, ← Nat.add_assoc, ← Nat.add_assoc] at hmapped
      refine ⟨r, m', hpages, .cons (hpage.mp ⟨m₁, hmap⟩) hr.1 hmapped, hiff.trans ?_⟩
      refine (h.mappable_cons_iff hlow hgpa' hhpa' hmap hr.1 fun u hu => ?_).symm
      obtain ⟨k, hk, rfl⟩ := List.mem_map.mp hu
      rw [List.mem_range'_1] at hk
      have hlast : k * pageSize ≤ (i + pages) * pageSize := Nat.mul_le_mul_right _ (by omega)
      have hafter : (i + 1) * pageSize ≤ k * pageSize := Nat.mul_le_mul_right _ hk.1
      have hadd : (i + pages) * pageSize = i * pageSize + pages * pageSize := by ring
      omega

theorem Table.mapPages_keeps (h : Table root m)
    (hmap : GStage.mapPages root gpaBase hpaBase perms pages i m = some (r, m')) :
    Table root m' := by
  induction pages generalizing i m with
  | zero =>
    cases hmap
    exact h
  | succ pages ih =>
    rw [GStage.mapPages] at hmap
    split at hmap
    · cases hmap
    next hpage =>
      cases hmap
      exact (h.mapPage hpage).1
    next hpage => exact ih (h.mapPage hpage).1 hmap

/-! ## Tables that the two calls build -/

inductive Op where
  | mapPage (gpa hpa : ℕ) (perms : MemPerms)
  | mapRegion (gpaBase hpaBase size : ℕ) (perms : MemPerms)

/-- A run ends when a call panics. -/
def perform (root : ℕ) (m : Memory) : Op → Option Memory
  | .mapPage gpa hpa perms => (mapPage root m gpa hpa perms).map Prod.snd
  | .mapRegion gpaBase hpaBase size perms =>
    (mapRegion root m gpaBase hpaBase size perms).map Prod.snd

theorem Table.perform (h : Table root m) {op : Op} (hop : GStage.perform root m op = some m') :
    Table root m' := by
  cases op with
  | mapPage gpa hpa perms =>
    obtain ⟨⟨r, m₁⟩, hmap, rfl⟩ := Option.map_eq_some_iff.mp hop
    exact (h.mapPage hmap).1
  | mapRegion gpaBase hpaBase size perms =>
    obtain ⟨⟨r, m₁⟩, hmap, rfl⟩ := Option.map_eq_some_iff.mp hop
    exact h.mapPages_keeps hmap

theorem mapRegion_eq (root : ℕ) (m : Memory) (gpaBase hpaBase : ℕ) (perms : MemPerms)
    (hsize : size ≤ 2 ^ 56) :
    mapRegion root m gpaBase hpaBase size perms =
      mapPages root gpaBase hpaBase perms ((size + pageSize - 1) / pageSize) 0 m := by
  rw [mapRegion, Nat.mod_eq_of_lt (by rw [pageSize]; omega)]

/-- The call for a region is all or nothing exactly if all its pages can be mapped or the first one
cannot. -/
theorem Table.allOrNothing_iff (h : Table root m) (hgpa : gpaBase % pageSize = 0)
    (hhpa : hpaBase % pageSize = 0) (hguest : gpaBase + size ≤ 2 ^ 39)
    (hhost : hpaBase + size ≤ 2 ^ 56) :
    AllOrNothing root m gpaBase hpaBase size perms ↔
      Mappable root m (pagesFrom gpaBase 0 ((size + pageSize - 1) / pageSize)) ∨
        ¬ Mappable root m [gpaBase] := by
  obtain ⟨r, m', heq, hmapped, hiff⟩ := h.mapPages perms 0 ((size + pageSize - 1) / pageSize) hgpa
    hhpa (by rw [pageSize] at *; omega) (by rw [pageSize] at *; omega)
  rw [Nat.zero_mul, Nat.add_zero, Nat.add_zero] at hmapped
  rw [AllOrNothing, mapRegion_eq root m gpaBase hpaBase perms (by omega), heq, ← hiff]
  cases r with
  | ok _ => exact iff_of_true ⟨_, _, rfl, hmapped⟩ (.inl rfl)
  | error err =>
    obtain ⟨mapped, -, hrange, hfirst⟩ := hmapped
    rw [← hfirst]
    cases mapped with
    | zero =>
      refine iff_of_true ⟨_, _, rfl, fun u hu => ?_⟩ (.inr (Nat.lt_irrefl 0))
      rw [hrange u hu, if_neg (by omega)]
    | succ mapped =>
      -- the first page has been mapped and stays so
      refine iff_of_false ?_ ?_
      · rintro ⟨r, m₂, hregion, hkept⟩
        cases hregion
        have hfree := (hfirst.mp (Nat.succ_pos mapped)).1 gpaBase List.mem_cons_self
        have hold := hkept gpaBase (by omega)
        rw [hrange gpaBase (by omega), if_pos (by rw [pageSize]; omega), hfree] at hold
        cases hold
      · rintro (hok | hnot)
        · cases hok
        · exact hnot (Nat.succ_pos mapped)

/-- After any calls from a zeroed root, `map_region` is all or nothing exactly if all pages of the
region can be mapped or the first one cannot. -/
theorem map_region_all_or_nothing_iff (root : ℕ) (m : Memory) (hroot : root % pageSize = 0)
    (hzero : ∀ i < 2048, m.words (root + 8 * i) = 0) (hframes : Supply {root} m) (ops : List Op)
    (m' : Memory) (hrun : run (perform root) m ops = some m') (gpaBase hpaBase size : ℕ)
    (perms : MemPerms) (hgpa : gpaBase % pageSize = 0) (hhpa : hpaBase % pageSize = 0)
    (hguest : gpaBase + size ≤ 2 ^ 39) (hhost : hpaBase + size ≤ 2 ^ 56) :
    AllOrNothing root m' gpaBase hpaBase size perms ↔
      Mappable root m' (pagesFrom gpaBase 0 ((size + pageSize - 1) / pageSize)) ∨
        ¬ Mappable root m' [gpaBase] := by
  have htable : Table root m' :=
    run_preserves (fun _ _ _ h hop => h.perform hop) (table_of_zero hroot hzero hframes).1 hrun
  exact htable.allOrNothing_iff hgpa hhpa hguest hhost

theorem two_pages_all_or_nothing :
    ∃ m', run (perform 4096) Sv39.twoFrames [.mapPage 0 0x80000000 ⟨true, true, false⟩] = some m' ∧
      AllOrNothing 4096 m' 0x1000 0x80001000 0x1800 ⟨true, false, false⟩ := by
  have hrun : run (perform 4096) Sv39.twoFrames [.mapPage 0 0x80000000 ⟨true, true, false⟩] =
      some (Sv39.mapPage 4096 Sv39.twoFrames 0 0x80000000 ⟨true, true, false⟩).2 := rfl
  refine ⟨_, hrun, ?_⟩
  refine (map_region_all_or_nothing_iff 4096 Sv39.twoFrames rfl (fun _ _ => rfl)
    Sv39.twoFrames_supply _ _ hrun 0x1000 0x80001000 0x1800 ⟨true, false, false⟩ (by decide)
    (by decide) (by decide) (by decide)).mpr (.inl ?_)
  decide +kernel

/-- The second page of a region was mapped before. The call fails, and the first page has become
mapped. -/
theorem failed_region_stays_mapped :
    (run (perform 4096) Sv39.twoFrames [.mapPage 0x1000 0x80000000 ⟨true, true, false⟩]).any
      (fun m => decide (translate 4096 m 0 = some none) &&
        (mapRegion 4096 m 0 0x90000000 0x2000 ⟨true, true, false⟩).any fun result =>
          !result.1.isOk && decide (translate 4096 result.2 0 = some (some 0x90000000))) = true := by
  decide +kernel

end OpenIon.Arch.Riscv.GStage
