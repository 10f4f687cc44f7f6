import OpenIon.Arch.Riscv.Sv39.Refines
import OpenIon.Platform.RiscvGeneric.Mmu

/-! # Superpages do not show in the map of addresses

Mapping a region fills the gaps that its pages leave in the map of addresses, page
by page or by superpages. Either way the result is the same function of the map
before, so the two agree whatever the table held.
-/
namespace OpenIon.Platform.RiscvGeneric
open Mm Arch.Riscv Arch.Riscv.Sv39

def sv39PageTable (root : ℕ) : RiscvPageTable Memory where
  mapPage := Sv39.mapPage root
  maxSuperpageSize := superpageSize
  mapSuperpage := Sv39.mapSuperpage root

/-- Addresses of the region that are not mapped become mapped to themselves, with the permissions
of their pages. -/
def fill (permsFor : ℕ → Option MemPerms) (lo hi : ℕ) (f : ℕ → Option ℕ × Option MemPerms)
    (u : ℕ) : Option ℕ × Option MemPerms :=
  match permsFor (u / pageSize * pageSize) with
  | none => f u
  | some perms => if lo ≤ u ∧ u < hi ∧ (f u).1 = none then (some u, some perms) else f u

/-- The second memory maps what the first one does, with the region filled. -/
def Fills (root : ℕ) (permsFor : ℕ → Option MemPerms) (m m' : Memory) (lo hi : ℕ) : Prop :=
  ∀ u < 2 ^ 39, view root m' u = fill permsFor lo hi (view root m) u

def HasPage (permsFor : ℕ → Option MemPerms) (lo hi : ℕ) : Prop :=
  ∃ page, lo ≤ page ∧ page < hi ∧ page % pageSize = 0 ∧ (permsFor page).isSome = true

variable {root lo mid hi : ℕ} {permsFor : ℕ → Option MemPerms} {m m' m'' : Memory}
  {perms : MemPerms}

theorem fill_append (f : ℕ → Option ℕ × Option MemPerms) (hlo : lo ≤ mid) (hhi : mid ≤ hi) (u : ℕ) :
    fill permsFor mid hi (fill permsFor lo mid f) u = fill permsFor lo hi f u := by
  cases hperms : permsFor (u / pageSize * pageSize) with
  | none => simp only [fill, hperms]
  | some perms =>
    by_cases hmid : u < mid
    · have hnot : ¬ mid ≤ u := by omega
      have hlt : u < hi := by omega
      simp [fill, hperms, hmid, hnot, hlt]
    · have hle : lo ≤ u := by omega
      simp [fill, hperms, hmid, hle, Nat.not_lt.mp hmid]

theorem Fills.trans (h : Fills root permsFor m m' lo mid) (h' : Fills root permsFor m' m'' mid hi)
    (hlo : lo ≤ mid) (hhi : mid ≤ hi) : Fills root permsFor m m'' lo hi := by
  intro u hu
  rw [h' u hu, ← fill_append (view root m) hlo hhi, fill, fill, h u hu]

/-- Nothing needs to be done for addresses that are mapped or have no permissions. -/
theorem KeepsView.fills (h : KeepsView root m m')
    (hdone : ∀ u < 2 ^ 39, lo ≤ u → u < hi →
      permsFor (u / pageSize * pageSize) = none ∨ (translate root m u).isSome = true) :
    Fills root permsFor m m' lo hi := by
  intro u hu
  rw [h u, fill]
  cases hperms : permsFor (u / pageSize * pageSize) with
  | none => rfl
  | some perms =>
    refine (if_neg ?_).symm
    rintro ⟨hlo, hhi, hnone⟩
    have hnone : translate root m u = none := hnone
    simpa [hperms, hnone] using hdone u hu hlo hhi

/-- An unmapped block of one permission is filled by mapping it. -/
theorem MapsBlock.fills {addr size : ℕ} (h : MapsBlock root m m' addr addr size perms)
    (hnone : ∀ u < 2 ^ 39, addr ≤ u ∧ u < addr + size → translate root m u = none)
    (hperms : ∀ u, addr ≤ u → u < addr + size → permsFor (u / pageSize * pageSize) = some perms) :
    Fills root permsFor m m' addr (addr + size) := by
  intro u hu
  rw [h u hu]
  by_cases hin : addr ≤ u ∧ u < addr + size
  · have hfree : (view root m u).1 = none := hnone u hu hin
    rw [if_pos hin, fill, hperms u hin.1 hin.2]
    simp [hin, hfree]
  · rw [if_neg hin, fill]
    cases permsFor (u / pageSize * pageSize) with
    | none => rfl
    | some perms => exact (if_neg fun hall => hin ⟨hall.1, hall.2.1⟩).symm

theorem page_of_mem {addr u : ℕ} (haddr : addr % pageSize = 0) (hlo : addr ≤ u)
    (hhi : u < addr + pageSize) : u / pageSize * pageSize = addr := by
  rw [pageSize] at *
  omega

theorem translate_of_mem_page {addr u : ℕ} (haddr : addr % pageSize = 0) (hu : u < 2 ^ 39)
    (hlo : addr ≤ u) (hhi : u < addr + pageSize) :
    (translate root m u).isSome = (translate root m addr).isSome := by
  have hpath : path addr = path u := by
    have hiff := path_eq_iff hu (show addr < 2 ^ 39 by omega)
    exact (hiff.mpr (by rw [pageSize] at *; omega)).eq_of_length rfl
  rw [translate_isSome, translate_isSome, hpath]

theorem hasPage_append (hlo : lo ≤ mid) (hhi : mid ≤ hi) :
    HasPage permsFor lo hi ↔ HasPage permsFor lo mid ∨ HasPage permsFor mid hi := by
  constructor
  · rintro ⟨page, hge, hlt, hpage⟩
    by_cases hmid : page < mid
    · exact .inl ⟨page, hge, hmid, hpage⟩
    · exact .inr ⟨page, by omega, hlt, hpage⟩
  · rintro (⟨page, hge, hlt, hpage⟩ | ⟨page, hge, hlt, hpage⟩)
    · exact ⟨page, hge, by omega, hpage⟩
    · exact ⟨page, by omega, hlt, hpage⟩

theorem hasPage_page {addr : ℕ} (haddr : addr % pageSize = 0) :
    HasPage permsFor addr (addr + pageSize) ↔ (permsFor addr).isSome = true := by
  constructor
  · rintro ⟨page, hge, hlt, halign, hpage⟩
    have heq : page = addr := by
      rw [pageSize] at *
      omega
    rwa [← heq]
  · intro h
    exact ⟨addr, le_rfl, Nat.lt_add_of_pos_right (by decide), haddr, h⟩

/-- A part of the region is filled, and the flag says whether some page had permissions. -/
def Filled (root : ℕ) (permsFor : ℕ → Option MemPerms) (m m' : Memory) (lo hi : ℕ)
    (before after : Bool) : Prop :=
  Fills root permsFor m m' lo hi ∧ (after = true ↔ before = true ∨ HasPage permsFor lo hi)

theorem Filled.trans {a b c : Bool} (h : Filled root permsFor m m' lo mid a b)
    (h' : Filled root permsFor m' m'' mid hi b c) (hlo : lo ≤ mid) (hhi : mid ≤ hi) :
    Filled root permsFor m m'' lo hi a c := by
  refine ⟨h.1.trans h'.1 hlo hhi, ?_⟩
  rw [h'.2, h.2, hasPage_append hlo hhi, or_assoc]

theorem filled_nil (h : KeepsView root m m') (hle : hi ≤ lo) (a : Bool) :
    Filled root permsFor m m' lo hi a a := by
  constructor
  · apply KeepsView.fills h
    intro u _ hlo hhi
    omega
  · have hempty : ¬ HasPage permsFor lo hi := by
      rintro ⟨page, hge, hlt, -⟩
      omega
    simp [hempty]

/-- The region is filled, or a frame for a table was refused when a part of it was filled. -/
def Outcome (root : ℕ) (permsFor : ℕ → Option MemPerms) (m m' : Memory) (lo hi : ℕ)
    (before after : Bool) : Prop :=
  Filled root permsFor m m' lo hi before after ∨
    (Refused m m' ∧ ∃ mid, lo ≤ mid ∧ mid ≤ hi ∧ Fills root permsFor m m' lo mid)

theorem Filled.outcome {a b c : Bool} (h : Filled root permsFor m m' lo mid a b)
    (hlater : Later m m') (hrest : Outcome root permsFor m' m'' mid hi b c) (hlo : lo ≤ mid)
    (hhi : mid ≤ hi) : Outcome root permsFor m m'' lo hi a c := by
  cases hrest with
  | inl hfilled => exact .inl (h.trans hfilled hlo hhi)
  | inr hpart =>
    rcases hpart with ⟨hrefused, stop, hge, hle, hfills⟩
    exact .inr ⟨hlater.refused hrefused, stop, hlo.trans hge, hle, h.1.trans hfills hlo hge⟩

section Region

variable {size stop addr : ℕ} (hperms : ∀ page perms, permsFor page = some perms → perms.NonEmpty)
  (hsize : size = 0 ∨ size = superpageSize) (hstop : stop ≤ 2 ^ 39)
include hperms hsize hstop

/-- An attempt that succeeds fills the superpage, and one that fails changes no address. -/
theorem trySuperpage_spec (hwf : WellFormed root m) (haddr : addr % pageSize = 0)
    (hlt : addr < stop) :
    ∃ b m', trySuperpage 64 (sv39PageTable root) size permsFor stop addr m = (b, m') ∧
      WellFormed root m' ∧ Later m m' ∧
      match b with
      | true => size = superpageSize ∧ addr + superpageSize ≤ stop ∧
          ∀ a, Filled root permsFor m m' addr (addr + superpageSize) a true
      | false => KeepsView root m m' := by
  rw [trySuperpage]
  split
  next hfits =>
    have hsuper : size = superpageSize := hsize.resolve_left hfits.1
    have hsum : addr + superpageSize + pageSize < 2 ^ 64 := by
      rw [superpageSize, pageSize]
      omega
    have hend : addr + superpageSize ≤ stop := by
      have hle := hfits.2.2
      rwa [hsuper, saturatingAdd_eq (by omega)] at hle
    cases huniform : uniformRegionPerms 64 addr size permsFor with
    | none => exact ⟨false, m, rfl, hwf, .refl m, fun _ => rfl⟩
    | some perms =>
      rw [hsuper] at huniform
      have hpage := (uniformRegionPerms_eq_some_iff hsum (by decide)).mp huniform
      have hfirst : permsFor addr = some perms := hpage 0 (by decide)
      rcases hwf.mapSuperpage (show addr < 2 ^ 39 by omega) (show addr < 2 ^ 56 by omega)
        (hperms addr perms hfirst) with ⟨r, m', heq, hwf', hlater, hr⟩
      have heq' : (sv39PageTable root).mapSuperpage m addr addr size perms = (r, m') := by
        rw [hsuper]
        exact heq
      cases r with
      | error err => exact ⟨false, m', by simp [heq'], hwf', hlater, hr⟩
      | ok _ =>
        refine ⟨true, m', by simp [heq'], hwf', hlater, hsuper, hend, ?_⟩
        intro a
        constructor
        · apply MapsBlock.fills hr.2.2 hr.2.1
          intro u hlo hhi
          have hu : u / pageSize * pageSize = addr + pageSize * ((u - addr) / pageSize) := by
            rw [pageSize] at *
            omega
          rw [hu]
          apply hpage
          rw [pageSize, superpageSize] at *
          omega
        · have hhas : HasPage permsFor addr (addr + superpageSize) :=
            ⟨addr, le_rfl, Nat.lt_add_of_pos_right (by decide), haddr, by simp [hfirst]⟩
          simp [hhas]
  next => exact ⟨false, m, rfl, hwf, .refl m, fun _ => rfl⟩

omit hperms hsize in
/-- A page with permissions is filled unless there is no frame for a table. -/
theorem mapPage_spec (hwf : WellFormed root m) (haddr : addr % pageSize = 0) (hlt : addr < stop)
    (hpage : permsFor addr = some perms) :
    ∃ r m', Sv39.mapPage root m addr addr perms = (r, m') ∧ WellFormed root m' ∧ Later m m' ∧
      (((r = .ok () ∨ r = .error .alreadyMapped) ∧
          Fills root permsFor m m' addr (addr + pageSize)) ∨
        (r = .error .outOfMemory ∧ Refused m m' ∧ KeepsView root m m')) := by
  have hin : ∀ u, addr ≤ u → u < addr + pageSize →
      permsFor (u / pageSize * pageSize) = some perms := by
    intro u hlo hhi
    rw [page_of_mem haddr hlo hhi, hpage]
  rcases hwf.mapPage perms (show addr < 2 ^ 39 by omega) (show addr < 2 ^ 56 by omega) with
    ⟨r, m', heq, hwf', hlater, hr⟩
  refine ⟨r, m', heq, hwf', hlater, ?_⟩
  cases r with
  | ok _ =>
    refine .inl ⟨.inl rfl, MapsBlock.fills hr.2.2.2 ?_ hin⟩
    intro u hu hmem
    have hsome : (translate root m u).isSome = (translate root m addr).isSome :=
      translate_of_mem_page haddr hu hmem.1 hmem.2
    simpa [hr.2.2.1] using hsome
  | error err =>
    rcases hr.2 with ⟨-, halign⟩ | ⟨rfl, -, -, hmapped⟩ | ⟨rfl, hrefused, -⟩
    · exact absurd ⟨haddr, haddr⟩ halign
    · refine .inl ⟨.inr rfl, KeepsView.fills hr.1 ?_⟩
      intro u hu hlo hhi
      exact .inr ((translate_of_mem_page haddr hu hlo hhi).trans hmapped)
    · exact .inr ⟨rfl, hrefused, hr.1⟩

/-- The loop fills the region from its address on. -/
theorem mapLoop_spec (hpages : stop % pageSize = 0) (fuel : ℕ) (a : Bool) (hwf : WellFormed root m)
    (haddr : addr % pageSize = 0) (hfuel : stop - addr ≤ fuel) :
    ∃ b m', mapLoop 64 (sv39PageTable root) size permsFor stop fuel addr a m = (b, m') ∧
      Outcome root permsFor m m' addr stop a b := by
  induction fuel generalizing addr a m with
  | zero => exact ⟨a, m, rfl, .inl (filled_nil (fun _ => rfl) (by omega) a)⟩
  | succ fuel ih =>
    -- what a turn has filled is put before what the rest of the loop fills
    have hturn : ∀ next m₁ a₁, addr < next → next ≤ stop → next % pageSize = 0 →
        WellFormed root m₁ → Later m m₁ → Filled root permsFor m m₁ addr next a a₁ →
        ∃ b m', mapLoop 64 (sv39PageTable root) size permsFor stop fuel next a₁ m₁ = (b, m') ∧
          Outcome root permsFor m m' addr stop a b := by
      intro next m₁ a₁ hnext hle halign hwf₁ hlater₁ hfilled
      rcases ih a₁ hwf₁ halign (by omega) with ⟨b, m', heq, hrest⟩
      exact ⟨b, m', heq, hfilled.outcome hlater₁ hrest hnext.le hle⟩
    by_cases hlt : addr < stop
    · have hnext : addr + pageSize ≤ stop := by
        rw [pageSize] at *
        omega
      have hadd : saturatingAdd 64 addr pageSize = addr + pageSize := saturatingAdd_eq (by omega)
      have halign : (addr + pageSize) % pageSize = 0 := by rw [Nat.add_mod_right, haddr]
      have hpos : addr < addr + pageSize := Nat.lt_add_of_pos_right (by decide)
      rcases trySuperpage_spec hperms hsize hstop hwf haddr hlt with
        ⟨b, m₁, htry, hwf₁, hlater₁, hb⟩
      simp only [mapLoop, if_pos hlt, htry]
      cases b with
      | true =>
        rcases hb with ⟨rfl, hend, hfilled⟩
        rw [saturatingAdd_eq (by omega)]
        apply hturn _ m₁ true _ hend _ hwf₁ hlater₁ (hfilled a)
        · exact Nat.lt_add_of_pos_right (by decide)
        · rw [pageSize, superpageSize] at *
          omega
      | false =>
        have hkeep : Filled root permsFor m m₁ addr addr a a := filled_nil hb le_rfl a
        cases hpage : permsFor addr with
        | none =>
          simp only [hadd]
          apply hturn _ m₁ a hpos hnext halign hwf₁ hlater₁
          refine ⟨KeepsView.fills hb ?_, ?_⟩
          · intro u _ hlo hhi
            rw [page_of_mem haddr hlo hhi]
            exact .inl hpage
          · simp [hasPage_page haddr, hpage]
        | some perms =>
          rcases mapPage_spec hstop hwf₁ haddr hlt hpage with
            ⟨r, m₂, hmap, hwf₂, hlater₂, hr⟩
          have hmap' : (sv39PageTable root).mapPage m₁ addr addr perms = (r, m₂) := hmap
          have hlater := hlater₁.trans hlater₂
          rcases hr with ⟨hok, hfills⟩ | ⟨rfl, hrefused, hkeep₂⟩
          · have hfilled : Filled root permsFor m₁ m₂ addr (addr + pageSize) a true :=
              ⟨hfills, by simp [hasPage_page haddr, hpage]⟩
            have hrest := hturn _ m₂ true hpos hnext halign hwf₂ hlater
              (hkeep.trans hfilled le_rfl hpos.le)
            rcases hok with rfl | rfl
            · simpa only [hmap', hadd] using hrest
            · simpa only [hmap', hadd] using hrest
          · refine ⟨a, m₂, by simp only [hmap'], .inr ⟨hlater₁.refused hrefused, addr, le_rfl, ?_⟩⟩
            refine ⟨hlt.le, ?_⟩
            exact hkeep.1.trans (KeepsView.fills hkeep₂ (by omega)) le_rfl le_rfl
    · refine ⟨a, m, ?_, .inl (filled_nil (fun _ => rfl) (by omega) a)⟩
      simp only [mapLoop, if_neg hlt]

end Region

def regionEnd (base size : ℕ) : ℕ :=
  if size = 0 then alignDown 64 base pageSize else alignUp 64 (base + size) pageSize

section Map

variable {base size : ℕ} {useSuperpages : Bool} {b : Bool}
  (hperms : ∀ page perms, permsFor page = some perms → perms.NonEmpty)
  (hsum : base + size + (pageSize - 1) < 2 ^ 64) (hend : alignUp 64 (base + size) pageSize ≤ 2 ^ 39)
  (hwf : WellFormed root m)
include hperms hsum hend hwf

theorem mapIdentityRegionWith_spec
    (h : mapIdentityRegionWith 64 (sv39PageTable root) m base size useSuperpages permsFor =
      (b, m')) :
    Outcome root permsFor m m' (alignDown 64 base pageSize) (regionEnd base size) false b := by
  rw [mapIdentityRegionWith] at h
  by_cases hsize : size = 0
  · rw [if_pos hsize] at h
    cases h
    rw [regionEnd, if_pos hsize]
    exact .inl (filled_nil (fun _ => rfl) le_rfl false)
  · rw [if_neg hsize, saturatingAdd_eq (by omega)] at h
    rw [regionEnd, if_neg hsize]
    have hstart : alignDown 64 base pageSize % pageSize = 0 := by
      rw [show pageSize = 2 ^ 12 from rfl, alignDown_eq (by decide) (by omega), Nat.mul_mod_left]
    have hstop : alignUp 64 (base + size) pageSize % pageSize = 0 := by
      rw [show pageSize = 2 ^ 12 from rfl, alignUp_eq (by decide) hsum, Nat.mul_mod_left]
    have hsuper : (if useSuperpages then superpageSize else 0) = 0 ∨
        (if useSuperpages then superpageSize else 0) = superpageSize := by
      cases useSuperpages with
      | false => exact .inl rfl
      | true => exact .inr rfl
    rcases mapLoop_spec hperms hsuper hend hstop _ false hwf hstart le_rfl with ⟨b', m₁, heq, hout⟩
    have hloop := heq.symm.trans h
    cases hloop
    exact hout

/-- Pages without permissions that are not mapped stay so, also if a frame is refused. -/
theorem unmapped_of_permsFor_none {u : ℕ}
    (h : mapIdentityRegionWith 64 (sv39PageTable root) m base size useSuperpages permsFor = (b, m'))
    (hu : u < 2 ^ 39) (hpage : permsFor (u / pageSize * pageSize) = none)
    (hnone : translate root m u = none) : translate root m' u = none := by
  have hfills : ∃ hi, Fills root permsFor m m' (alignDown 64 base pageSize) hi := by
    rcases mapIdentityRegionWith_spec hperms hsum hend hwf h with hfilled | ⟨-, mid, -, -, hpart⟩
    · exact ⟨_, hfilled.1⟩
    · exact ⟨mid, hpart⟩
  rcases hfills with ⟨hi, hfills⟩
  have hview := hfills u hu
  rw [fill, hpage] at hview
  exact (congrArg Prod.fst hview).trans hnone

end Map

/-- The memory regions that the kernel maps do not include the stack guards. -/
theorem mapMemoryRegion_guard {guards : List ℕ} {sections : KernelSections} {base size guard : ℕ}
    {b : Bool} (hwf : WellFormed root m) (hsum : base + size + (pageSize - 1) < 2 ^ 64)
    (hend : alignUp 64 (base + size) pageSize ≤ 2 ^ 39)
    (h : mapMemoryRegion 64 (sv39PageTable root) guards m base size sections = (b, m'))
    (hguard : guard ∈ guards) {u : ℕ} (hu : u < 2 ^ 39)
    (hpage : u / pageSize * pageSize = alignDown 64 guard pageSize)
    (hnone : translate root m u = none) : translate root m' u = none := by
  apply unmapped_of_permsFor_none _ hsum hend hwf h hu _ hnone
  · intro page perms hperms
    rw [Option.ite_none_left_eq_some] at hperms
    rw [← Option.some.inj hperms.2]
    exact kernelMemoryPerms_nonEmpty 64 page sections
  · have hany : isStackGuardPage 64 guards (u / pageSize * pageSize) = true :=
      List.any_eq_true.mpr ⟨guard, hguard, decide_eq_true hpage⟩
    exact if_pos hany

/-- A region is mapped with superpages as it is mapped with pages. -/
theorem superpages_agree_with_pages (root : ℕ) (m : Memory) (base size : ℕ)
    (permsFor : ℕ → Option MemPerms) (hwf : WellFormed root m)
    (hperms : ∀ page perms, permsFor page = some perms → perms.NonEmpty)
    (hsum : base + size + (pageSize - 1) < 2 ^ 64)
    (hend : alignUp 64 (base + size) pageSize ≤ 2 ^ 39) (b₁ b₂ : Bool) (m₁ m₂ : Memory)
    (hsuper : mapIdentityRegionWith 64 (sv39PageTable root) m base size true permsFor = (b₁, m₁))
    (hplain : mapIdentityRegionWith 64 (sv39PageTable root) m base size false permsFor = (b₂, m₂))
    (hframes₁ : ¬ Refused m m₁) (hframes₂ : ¬ Refused m m₂) :
    b₁ = b₂ ∧ (∀ u, view root m₁ u = view root m₂ u) ∧
      ∀ u < 2 ^ 39, permsFor (u / pageSize * pageSize) = none → translate root m u = none →
        translate root m₁ u = none ∧ translate root m₂ u = none := by
  have hfilled₁ := (mapIdentityRegionWith_spec hperms hsum hend hwf hsuper).resolve_right
    fun hpart => hframes₁ hpart.1
  have hfilled₂ := (mapIdentityRegionWith_spec hperms hsum hend hwf hplain).resolve_right
    fun hpart => hframes₂ hpart.1
  refine ⟨?_, ?_, ?_⟩
  · rw [Bool.eq_iff_iff, hfilled₁.2, hfilled₂.2]
  · intro u
    have hlt : u % 2 ^ 39 < 2 ^ 39 := Nat.mod_lt u (by decide)
    rw [← view_mod root m₁, ← view_mod root m₂, hfilled₁.1 _ hlt, hfilled₂.1 _ hlt]
  · intro u hu hpage hnone
    exact ⟨unmapped_of_permsFor_none hperms hsum hend hwf hsuper hu hpage hnone,
      unmapped_of_permsFor_none hperms hsum hend hwf hplain hu hpage hnone⟩

def guardedPerms (page : ℕ) : Option MemPerms :=
  if page = 0x1000 then none else some ⟨true, true, false⟩

theorem guardedPerms_nonEmpty (page : ℕ) (perms : MemPerms) (h : guardedPerms page = some perms) :
    perms.NonEmpty := by
  rw [guardedPerms, Option.ite_none_left_eq_some] at h
  cases h.2
  rfl

/-- Both frames are in use as the tables on the way to the pages of the second superpage. -/
structure SecondLinked (m : Memory) : Prop where
  root : m.entry 4096 (vpn superpageSize 2) = tableEntry 8192
  table : m.entry 8192 (vpn superpageSize 1) = tableEntry 12288
  requests : m.requests = 2

theorem SecondLinked.mapPage {v : ℕ} (h : SecondLinked m) (hv : v / superpageSize = 1)
    (perms : MemPerms) : SecondLinked (Sv39.mapPage 4096 m v v perms).2 := by
  have hindices : vpn v 2 = vpn superpageSize 2 ∧ vpn v 1 = vpn superpageSize 1 := by
    simp only [Fin.ext_iff, vpn_val]
    rw [superpageSize] at *
    omega
  have hpages : pageAddr (tableEntry 8192) = 8192 ∧ pageAddr (tableEntry 12288) = 12288 := by decide
  have hwalk : walkAlloc v [2, 1] 4096 m = (.ok 12288, m) := by
    simp [walkAlloc, hindices, h.root, h.table, hpages, isValid_tableEntry, isLeaf_tableEntry]
  rw [Sv39.mapPage]
  split
  · exact h
  · simp only [mapAt, hwalk]
    split
    · exact h
    · refine ⟨?_, ?_, h.requests⟩
      · rw [entry_setEntry_of_ne (by decide) (by decide) fun heq => by cases heq]
        exact h.root
      · rw [entry_setEntry_of_ne (by decide) (by decide) fun heq => by cases heq]
        exact h.table

theorem SecondLinked.mapLoop {stop addr : ℕ} (h : SecondLinked m) (hstop : stop ≤ 2 * superpageSize)
    (haddr : superpageSize ≤ addr) (fuel : ℕ) (a : Bool) :
    SecondLinked (mapLoop 64 (sv39PageTable 4096) 0 permsFor stop fuel addr a m).2 := by
  induction fuel generalizing addr a m with
  | zero => exact h
  | succ fuel ih =>
    rw [RiscvGeneric.mapLoop]
    split
    next hlt =>
      have hsecond : addr / superpageSize = 1 := by
        rw [superpageSize] at *
        omega
      have hnext : superpageSize ≤ saturatingAdd 64 addr pageSize := by
        rw [saturatingAdd, superpageSize] at *
        omega
      have htry : trySuperpage 64 (sv39PageTable 4096) 0 permsFor stop addr m = (false, m) := by
        simp [trySuperpage]
      simp only [htry]
      cases permsFor addr with
      | none => exact ih h hnext a
      | some perms =>
        have hpage := h.mapPage hsecond perms
        have hmap : (sv39PageTable 4096).mapPage m addr addr perms =
          Sv39.mapPage 4096 m addr addr perms := rfl
        simp only [hmap]
        split
        next heq => exact ih (by rwa [heq] at hpage) hnext true
        next heq => exact ih (by rwa [heq] at hpage) hnext true
        next heq => rwa [heq] at hpage
    next => exact h

/-- A superpage of an empty address space, against its 512 pages. -/
theorem second_superpage_agrees :
    ∃ m₁ m₂,
      mapIdentityRegionWith 64 (sv39PageTable 4096) twoFrames 0x200000 0x200000 true guardedPerms =
        (true, m₁) ∧
      mapIdentityRegionWith 64 (sv39PageTable 4096) twoFrames 0x200000 0x200000 false guardedPerms =
        (true, m₂) ∧
      m₁.requests = 1 ∧ m₂.requests = 2 ∧ translate 4096 m₁ 0x302008 = some 0x302008 ∧
      ∀ u, view 4096 m₁ u = view 4096 m₂ u := by
  have hwf : WellFormed 4096 twoFrames := wellFormed_of_zero rfl (fun _ => rfl) twoFrames_supply
  have hevaluated : (fun r : Bool × Memory => (r.1 = true ∧ r.2.requests = 1) ∧
      translate 4096 r.2 0x302008 = some 0x302008) (mapIdentityRegionWith 64 (sv39PageTable 4096)
        twoFrames 0x200000 0x200000 true guardedPerms) := by
    decide +kernel
  -- the first page links the two tables, and no page behind it needs another one
  have hfirst : SecondLinked (Sv39.mapPage 4096 twoFrames 0x200000 0x200000 ⟨true, true, false⟩).2 :=
    ⟨by decide +kernel, by decide +kernel, by decide +kernel⟩
  have htwo : (mapIdentityRegionWith 64 (sv39PageTable 4096) twoFrames 0x200000 0x200000 false
      guardedPerms).2.requests = 2 := by
    have hturn : mapIdentityRegionWith 64 (sv39PageTable 4096) twoFrames 0x200000 0x200000 false
        guardedPerms = mapLoop 64 (sv39PageTable 4096) 0 guardedPerms 0x400000 0x1fffff 0x201000 true
          (Sv39.mapPage 4096 twoFrames 0x200000 0x200000 ⟨true, true, false⟩).2 := by
      have hstart : alignDown 64 0x200000 pageSize = 0x200000 := by decide
      have hstop : alignUp 64 (saturatingAdd 64 0x200000 0x200000) pageSize = 0x400000 := by decide
      have hadd : saturatingAdd 64 0x200000 pageSize = 0x201000 := by decide
      have hperms : guardedPerms 0x200000 = some ⟨true, true, false⟩ := by decide
      rw [mapIdentityRegionWith, if_neg (by decide)]
      simp only [hstart, hstop]
      change mapLoop _ _ _ _ _ (0x1fffff + 1) _ _ _ = _
      rw [RiscvGeneric.mapLoop, if_pos (by decide)]
      simp only [trySuperpage, hperms, hadd]
      rfl
    rw [hturn]
    exact (hfirst.mapLoop (by decide) (by decide) _ true).requests
  cases hsuper : mapIdentityRegionWith 64 (sv39PageTable 4096) twoFrames 0x200000 0x200000 true
    guardedPerms with
  | mk b₁ m₁ =>
    cases hplain : mapIdentityRegionWith 64 (sv39PageTable 4096) twoFrames 0x200000 0x200000 false
      guardedPerms with
    | mk b₂ m₂ =>
      rw [hsuper] at hevaluated
      rw [hplain] at htwo
      obtain ⟨⟨rfl, hone⟩, htranslate⟩ := hevaluated
      obtain ⟨rfl, hview, -⟩ := superpages_agree_with_pages 4096 twoFrames 0x200000 0x200000
        guardedPerms hwf guardedPerms_nonEmpty (by decide) (by decide) _ _ m₁ m₂ hsuper hplain
        (twoFrames_not_refused (hone.trans_le (by decide))) (twoFrames_not_refused htwo.le)
      exact ⟨m₁, m₂, rfl, rfl, hone, htwo, htranslate, hview⟩

end OpenIon.Platform.RiscvGeneric
