import OpenIon.Arch.Riscv.Frames
import OpenIon.Arch.Riscv.PageMap
import OpenIon.Arch.Riscv.Sv39.Refines

/-! # G-stage page tables

`GStagePageTable` of `hypervisor/gstage.rs`, which maps the physical addresses of a guest. The root
index of Sv39x4 has 11 bits, but the declared table has 512 entries, so that a larger index panics.
Below 2³⁹ the tables are those of Sv39, and the operations do what they do there. The walk of the
hardware is a definition of its own, with the check of the user bit as a parameter.
-/
namespace OpenIon.Arch.Riscv.GStage
open Mm Lib
open Sv39 (Memory Later Refused Supply Granted isValid isLeaf pageAddr ppn pteV pteR pteW pteX pteA pteD
  withPpn tableEntry pteToPerms translateLeaf)

def pteU : ℕ := 1 <<< 4

def ptEntries : ℕ := 512

def permsToPte (perms : MemPerms) : ℕ :=
  let bits := pteV ||| pteA ||| pteD
  let bits := if perms.read then bits ||| pteR else bits
  let bits := if perms.write then bits ||| pteW else bits
  if perms.execute then bits ||| pteX else bits

/-- `VPN[level]` of a guest address, with 11 bits for the root. -/
def vpn (gpa : ℕ) : ℕ → ℕ
  | 0 => (gpa >>> 12) &&& 0x1FF
  | 1 => (gpa >>> 21) &&& 0x1FF
  | _ => (gpa >>> 30) &&& 0x7FF

/-- `table.entries[idx]`, which panics beyond the declared table. -/
def entry (m : Memory) (table idx : ℕ) : Option ℕ :=
  if idx < ptEntries then some (m.words (table + 8 * idx)) else none

def setEntry (m : Memory) (table idx val : ℕ) : Memory :=
  { m with words := Function.update m.words (table + 8 * idx) val }

/-- The loop of `map_page` over the upper levels. -/
def walkAlloc (gpa : ℕ) : List ℕ → ℕ → Memory → Option (Except MmError ℕ × Memory)
  | [], table, m => some (.ok table, m)
  | level :: levels, table, m =>
    let idx := vpn gpa level
    match entry m table idx with
    | none => none
    | some e =>
      if e &&& pteV = 0 then
        match m.alloc with
        | (none, m) => some (.error .outOfMemory, m)
        | (some page, m) =>
          walkAlloc gpa levels page (setEntry (m.zeroPage page) table idx (tableEntry page))
      else if e &&& (pteR ||| pteW ||| pteX) ≠ 0 then some (.error .alreadyMapped, m)
      else walkAlloc gpa levels (pageAddr e) m

/-- `map_page`; `none` is a panic. -/
def mapPage (root : ℕ) (m : Memory) (gpa hpa : ℕ) (perms : MemPerms) :
    Option (Except MmError Unit × Memory) :=
  if gpa % pageSize ≠ 0 ∨ hpa % pageSize ≠ 0 then some (.error .invalidAlignment, m)
  else
    match walkAlloc gpa [2, 1] root m with
    | none => none
    | some (.error err, m) => some (.error err, m)
    | some (.ok table, m) =>
      let idx := vpn gpa 0
      match entry m table idx with
      | none => none
      | some e =>
        if e &&& pteV ≠ 0 then some (.error .alreadyMapped, m)
        else some (.ok (), setEntry m table idx (withPpn (permsToPte perms) hpa))

/-- The loop of `translate` over the upper levels, where a leaf counts as no mapping, and the last
level. -/
def translateFrom (m : Memory) (gpa : ℕ) : List ℕ → ℕ → Option (Option ℕ)
  | [], table =>
    match entry m table (vpn gpa 0) with
    | none => none
    | some e =>
      if e &&& pteV = 0 then some none else some (some (pageAddr e ||| (gpa &&& 0xFFF)))
  | level :: levels, table =>
    match entry m table (vpn gpa level) with
    | none => none
    | some e =>
      if e &&& pteV = 0 then some none
      else if e &&& (pteR ||| pteW ||| pteX) ≠ 0 then some none
      else translateFrom m gpa levels (pageAddr e)

/-- `translate`; the outer `none` is a panic. -/
def translate (root : ℕ) (m : Memory) (gpa : ℕ) : Option (Option ℕ) :=
  translateFrom m gpa [2, 1] root

/-! ## The walk of the hardware -/

inductive Found where
  | fault
  | leaf (addr : ℕ) (perms : MemPerms)
  | link (table : ℕ)

/-- An entry is invalid, or reserved when it is writable and not readable; it is a leaf when it can
be read or executed. A leaf of an upper level is aligned, and with `userPages` it has the user
bit. -/
def hardwareEntry (userPages : Bool) (gpa level pte : ℕ) : Found :=
  let perms := pteToPerms pte
  if !isValid pte || (!perms.read && perms.write) then .fault
  else if perms.read || perms.execute then
    if userPages && pte &&& pteU = 0 then .fault
    else if ppn pte % 2 ^ (9 * level) ≠ 0 then .fault
    else .leaf (translateLeaf pte level gpa) perms
  else .link (pageAddr pte)

def hardwareWalk (userPages : Bool) (m : Memory) (gpa : ℕ) : ℕ → ℕ → Option (ℕ × MemPerms)
  | 0, table =>
    match hardwareEntry userPages gpa 0 (m.words (table + 8 * vpn gpa 0)) with
    | .leaf addr perms => some (addr, perms)
    | _ => none
  | level + 1, table =>
    match hardwareEntry userPages gpa (level + 1) (m.words (table + 8 * vpn gpa (level + 1))) with
    | .leaf addr perms => some (addr, perms)
    | .link child => hardwareWalk userPages m gpa level child
    | .fault => none

/-! ## Below 2³⁹ -/

variable {root t gpa hpa u : ℕ} {m m' : Memory} {perms : MemPerms} {pre : List Sv39.Index}

theorem vpn_two (gpa : ℕ) : vpn gpa 2 = gpa / 2 ^ 30 % 2048 := by
  change gpa >>> 30 &&& 2 ^ 11 - 1 = _
  rw [Nat.and_two_pow_sub_one_eq_mod, Nat.shiftRight_eq_div_pow]

theorem vpn_eq (h : vpn gpa 2 < ptEntries) {level : ℕ} (hlevel : level < 3) :
    vpn gpa level = (Sv39.vpn gpa level : ℕ) := by
  have hcases : level = 0 ∨ level = 1 ∨ level = 2 := by omega
  rcases hcases with rfl | rfl | rfl
  · rfl
  · rfl
  · rw [vpn_two, ptEntries] at h
    rw [vpn_two, Sv39.vpn_val]
    omega

theorem inBounds_iff (hgpa : gpa < 2 ^ 41) : vpn gpa 2 < ptEntries ↔ gpa < 2 ^ 39 := by
  rw [vpn_two, ptEntries]
  omega

theorem entry_eq (m : Memory) (table : ℕ) (idx : Sv39.Index) :
    entry m table idx = some (m.entry table idx) :=
  if_pos idx.isLt

theorem isValid_eq_false_iff (e : ℕ) : isValid e = false ↔ e &&& pteV = 0 := by
  simp [isValid]

theorem isValid_of_ne {e : ℕ} (hvalid : e &&& pteV ≠ 0) : isValid e = true := by
  simp [isValid, hvalid]

theorem isLeaf_iff {e : ℕ} (hvalid : e &&& pteV ≠ 0) :
    isLeaf e = true ↔ e &&& (pteR ||| pteW ||| pteX) ≠ 0 := by
  simp [isLeaf, hvalid]

theorem walkAlloc_eq (h : vpn gpa 2 < ptEntries) (levels : List ℕ) (hlevels : ∀ l ∈ levels, l < 3)
    (table : ℕ) (m : Memory) :
    walkAlloc gpa levels table m = some (Sv39.walkAlloc gpa levels table m) := by
  induction levels generalizing table m with
  | nil => rfl
  | cons level levels ih =>
    have hrest : ∀ l ∈ levels, l < 3 := fun l hl => hlevels l (List.mem_cons_of_mem _ hl)
    simp only [walkAlloc, Sv39.walkAlloc, vpn_eq h (hlevels level List.mem_cons_self), entry_eq]
    by_cases hvalid : m.entry table (Sv39.vpn gpa level) &&& pteV = 0
    · rw [if_pos hvalid, (isValid_eq_false_iff _).mpr hvalid]
      rcases m.alloc with ⟨frame, m₁⟩
      cases frame with
      | none => rfl
      | some page => exact ih hrest page _
    · have htrue : isValid (m.entry table (Sv39.vpn gpa level)) = true := isValid_of_ne hvalid
      rw [if_neg hvalid, htrue]
      by_cases hleaf : isLeaf (m.entry table (Sv39.vpn gpa level)) = true
      · rw [if_pos ((isLeaf_iff hvalid).mp hleaf), hleaf]
        rfl
      · rw [if_neg fun hbits => hleaf ((isLeaf_iff hvalid).mpr hbits),
          Bool.eq_false_of_not_eq_true hleaf]
        exact ih hrest _ m

/-- In bounds `map_page` is the one of Sv39. -/
theorem mapPage_eq (h : vpn gpa 2 < ptEntries) (root : ℕ) (m : Memory) (hpa : ℕ)
    (perms : MemPerms) :
    mapPage root m gpa hpa perms = some (Sv39.mapPage root m gpa hpa perms) := by
  rw [mapPage, Sv39.mapPage]
  split
  · rfl
  · rw [walkAlloc_eq h [2, 1] (by simp), Sv39.mapAt]
    rcases Sv39.walkAlloc gpa [2, 1] root m with ⟨r, m₁⟩
    cases r with
    | error err => rfl
    | ok table =>
      simp only [vpn_eq h (show 0 < 3 by decide), entry_eq]
      by_cases hvalid : m₁.entry table (Sv39.vpn gpa 0) &&& pteV = 0
      · rw [if_neg (not_not.mpr hvalid), (isValid_eq_false_iff _).mpr hvalid]
        rfl
      · have htrue : isValid (m₁.entry table (Sv39.vpn gpa 0)) = true := isValid_of_ne hvalid
        rw [if_pos hvalid, htrue]
        rfl

/-- Out of bounds an aligned call panics at the first index. -/
theorem mapPage_panics (h : ¬ vpn gpa 2 < ptEntries) (root : ℕ) (m : Memory) (perms : MemPerms)
    (hgpa : gpa % pageSize = 0) (hhpa : hpa % pageSize = 0) :
    mapPage root m gpa hpa perms = none := by
  rw [mapPage, if_neg (by simp [hgpa, hhpa]), walkAlloc, entry, if_neg h]

/-- The tables of the root form a tree with all leaves in the last tables. -/
structure Table (root : ℕ) (m : Memory) : Prop where
  wellFormed : Sv39.WellFormed root m
  leavesLast : Sv39.paging.LeavesLast root m

theorem translateFrom_eq (hlast : Sv39.paging.LeavesLast root m) (h : vpn u 2 < ptEntries)
    (levels : List ℕ) (hlevels : ∀ l ∈ levels, l < 3)
    (hpre : Sv39.paging.follow m root pre = some t) (hlen : pre.length + levels.length < 3) :
    translateFrom m u levels t = some (Sv39.translateFrom m u levels t) := by
  induction levels generalizing pre t with
  | nil =>
    simp only [translateFrom, Sv39.translateFrom, vpn_eq h (show 0 < 3 by decide), entry_eq]
    by_cases hvalid : m.entry t (Sv39.vpn u 0) &&& pteV = 0
    · rw [if_pos hvalid, (isValid_eq_false_iff _).mpr hvalid]
      rfl
    · have htrue : isValid (m.entry t (Sv39.vpn u 0)) = true := isValid_of_ne hvalid
      rw [if_neg hvalid, htrue]
      rfl
  | cons level levels ih =>
    have hrest : ∀ l ∈ levels, l < 3 := fun l hl => hlevels l (List.mem_cons_of_mem _ hl)
    rw [List.length_cons] at hlen
    simp only [translateFrom, Sv39.translateFrom, vpn_eq h (hlevels level List.mem_cons_self),
      entry_eq]
    by_cases hvalid : m.entry t (Sv39.vpn u level) &&& pteV = 0
    · rw [if_pos hvalid, (isValid_eq_false_iff _).mpr hvalid]
      rfl
    · have htrue : isValid (m.entry t (Sv39.vpn u level)) = true := isValid_of_ne hvalid
      have hleaf : isLeaf (m.entry t (Sv39.vpn u level)) = false :=
        hlast.leaf_eq_false hpre (Sv39.vpn u level) (by change _ < 3; omega) htrue
      rw [if_neg hvalid, if_neg fun hbits => by simp [(isLeaf_iff hvalid).mpr hbits] at hleaf, htrue,
        hleaf]
      exact ih hrest (Paging.follow_snoc hpre htrue hleaf)
        (by rw [List.length_append, List.length_singleton]; omega)

/-- In bounds `translate` is the one of Sv39, which knows superpages but does not meet one. -/
theorem Table.translate_eq (h : Table root m) (hu : vpn u 2 < ptEntries) :
    translate root m u = some (Sv39.translate root m u) :=
  translateFrom_eq h.leavesLast hu [2, 1] (by simp) Tables.follow_nil (by decide)

/-- Out of bounds `translate` panics. -/
theorem translate_panics (h : ¬ vpn u 2 < ptEntries) (root : ℕ) (m : Memory) :
    translate root m u = none := by
  rw [translate, translateFrom, entry, if_neg h]

theorem Table.mapPage (h : Table root m) {r : Except MmError Unit}
    (hmap : GStage.mapPage root m gpa hpa perms = some (r, m')) : Table root m' ∧ Later m m' := by
  by_cases halign : gpa % pageSize = 0 ∧ hpa % pageSize = 0
  · have hin : vpn gpa 2 < ptEntries := by
      by_contra hout
      rw [mapPage_panics hout root m perms halign.1 halign.2] at hmap
      cases hmap
    rw [mapPage_eq hin] at hmap
    obtain ⟨r', m₁, heq, hwf, hlater, hmapped⟩ := h.wellFormed.mapPage_mapped perms halign.1 halign.2
    rw [heq] at hmap
    cases hmap
    exact ⟨⟨hwf, hmapped.leavesLast rfl h.leavesLast⟩, hlater⟩
  · rw [GStage.mapPage, if_pos (by omega)] at hmap
    cases hmap
    exact ⟨h, .refl m⟩

def MapsPage (root : ℕ) (m m' : Memory) (gpa hpa : ℕ) : Prop :=
  ∀ u < 2 ^ 41, translate root m' u =
    if gpa ≤ u ∧ u < gpa + pageSize then some (some (hpa + (u - gpa))) else translate root m u

def KeepsTranslation (root : ℕ) (m m' : Memory) : Prop :=
  ∀ u < 2 ^ 41, translate root m' u = translate root m u

def PageMapped (root : ℕ) (m m' : Memory) (gpa hpa : ℕ) (perms : MemPerms) :
    Except MmError Unit → Prop
  | .ok _ => MapsPage root m m' gpa hpa ∧ Sv39.MapsBlock root m m' gpa hpa pageSize perms ∧
      translate root m gpa = some none
  | .error _ => KeepsTranslation root m m'

theorem Table.mapPage_spec (h : Table root m) (perms : MemPerms) (hgpa : gpa < 2 ^ 39)
    (hhpa : hpa < 2 ^ 56) :
    ∃ r m', GStage.mapPage root m gpa hpa perms = some (r, m') ∧ Table root m' ∧ Later m m' ∧
      PageMapped root m m' gpa hpa perms r := by
  have hin : vpn gpa 2 < ptEntries := (inBounds_iff (by omega)).mpr hgpa
  obtain ⟨r, m', heq, -, -, hr⟩ := h.wellFormed.mapPage perms hgpa hhpa
  have hmap : GStage.mapPage root m gpa hpa perms = some (r, m') := by rw [mapPage_eq hin, heq]
  obtain ⟨h', hlater⟩ := h.mapPage hmap
  refine ⟨r, m', hmap, h', hlater, ?_⟩
  cases r with
  | ok _ =>
    obtain ⟨halign, -, hnone, hblock⟩ := hr
    refine ⟨?_, hblock, by rw [h.translate_eq hin, hnone]⟩
    intro u hu
    by_cases hlow : u < 2 ^ 39
    · have hu' : vpn u 2 < ptEntries := (inBounds_iff hu).mpr hlow
      have hview : Sv39.translate root m' u = _ := congrArg Prod.fst (hblock u hlow)
      rw [h'.translate_eq hu', h.translate_eq hu', hview]
      split
      · rfl
      · rfl
    · have hu' : ¬ vpn u 2 < ptEntries := fun hin' => hlow ((inBounds_iff hu).mp hin')
      have hout : ¬ (gpa ≤ u ∧ u < gpa + pageSize) := by
        rw [pageSize] at *
        omega
      rw [translate_panics hu', translate_panics hu', if_neg hout]
  | error err =>
    intro u hu
    by_cases hin' : vpn u 2 < ptEntries
    · rw [h'.translate_eq hin', h.translate_eq hin']
      exact congrArg some (congrArg Prod.fst (hr.1 u))
    · rw [translate_panics hin', translate_panics hin']

/-! ## Pages that can be mapped -/

def upperPath (gpa : ℕ) : List Sv39.Index := [2, 1].map (Sv39.vpn gpa)

/-- The tables that are missing on the way to the pages. -/
def missingTables (root : ℕ) (m : Memory) (gpas : List ℕ) : Finset (List Sv39.Index) :=
  Sv39.paging.missing m root (gpas.map upperPath)

/-- None of the pages is mapped, and the allocator grants a frame for each missing table. -/
def Mappable (root : ℕ) (m : Memory) (gpas : List ℕ) : Prop :=
  (∀ gpa ∈ gpas, translate root m gpa = some none) ∧ Granted m (missingTables root m gpas).card

instance Mappable.instDecidable (root : ℕ) (m : Memory) (gpas : List ℕ) :
    Decidable (Mappable root m gpas) :=
  inferInstanceAs (Decidable (_ ∧ _))

section Page

variable (hlow : gpa < 2 ^ 39) (hgpa : gpa % pageSize = 0) (hhpa : hpa % pageSize = 0)
include hlow hgpa hhpa

theorem mapPage_eq_mapAt (root : ℕ) (m : Memory) (perms : MemPerms) :
    mapPage root m gpa hpa perms = some (Sv39.paging.mapAt root m (upperPath gpa) (Sv39.vpn gpa 0)
      (Sv39.leafEntry perms hpa)) := by
  rw [mapPage_eq ((inBounds_iff (by omega)).mpr hlow), Sv39.mapPage, if_neg (by simp [hgpa, hhpa]),
    Sv39.mapAt_eq]
  rfl

theorem Table.mapPage_ok_iff (h : Table root m) (perms : MemPerms) :
    (∃ m', GStage.mapPage root m gpa hpa perms = some (.ok (), m')) ↔ Mappable root m [gpa] := by
  have hfree : translate root m gpa = some none ↔
      Sv39.paging.lookup m root (upperPath gpa ++ [Sv39.vpn gpa 0]) = none := by
    rw [h.translate_eq ((inBounds_iff (by omega)).mpr hlow), Option.some.injEq, Sv39.translate_eq,
      Option.map_eq_none_iff]
    rfl
  have hmap : _ ↔ _ ∧ Granted m (missingTables root m [gpa]).card :=
    h.wellFormed.mapAt_ok_iff (upperPath gpa) (Sv39.vpn gpa 0) rfl
      (Sv39.isValid_leafEntry perms hpa)
  rw [mapPage_eq_mapAt hlow hgpa hhpa, Mappable, List.forall_mem_singleton, hfree, ← hmap]
  constructor
  · rintro ⟨m', hok⟩
    rw [Option.some.inj hok]
  · intro hok
    exact ⟨_, congrArg some (Prod.ext hok rfl)⟩

theorem Table.mapPage_allocated (h : Table root m)
    (hok : GStage.mapPage root m gpa hpa perms = some (.ok (), m')) :
    Sv39.paging.Allocated root m m' (upperPath gpa) := by
  rw [mapPage_eq_mapAt hlow hgpa hhpa] at hok
  exact h.wellFormed.mapAt_allocated rfl (Option.some.inj hok)

end Page

/-! ## The walk of the hardware over these tables -/

def Readable (root : ℕ) (m : Memory) : Prop :=
  ∀ p k e, p.length = 3 → Sv39.paging.lookup m root p = some (k, e) →
    ∃ perms hpa, perms.read = true ∧ e = Sv39.leafEntry perms hpa

theorem Readable.mapped {p : List Sv39.Index} {r : Except MmError Unit} (h : Readable root m)
    (hread : perms.read = true)
    (hmapped : Sv39.paging.Mapped root m m' p (Sv39.leafEntry perms hpa) r) : Readable root m' := by
  intro q k e hq hlookup
  cases r with
  | ok _ =>
    rw [hmapped.2 q hq] at hlookup
    split at hlookup
    · cases hlookup
      exact ⟨perms, hpa, hread, rfl⟩
    · exact h q k e hq hlookup
  | error err =>
    rw [hmapped.1 q hq] at hlookup
    exact h q k e hq hlookup

theorem hardwareEntry_invalid (userPages : Bool) (u level : ℕ) {e : ℕ} (h : isValid e = false) :
    hardwareEntry userPages u level e = .fault := by
  simp [hardwareEntry, h]

theorem hardwareEntry_link (userPages : Bool) (u level : ℕ) {e : ℕ} (hvalid : isValid e = true)
    (hleaf : isLeaf e = false) : hardwareEntry userPages u level e = .link (pageAddr e) := by
  have hbits : e &&& (pteR ||| pteW ||| pteX) = 0 := by
    by_contra hne
    have hV : e &&& pteV ≠ 0 := by simpa [isValid] using hvalid
    simp [(isLeaf_iff hV).mpr hne] at hleaf
  rw [Nat.and_or_distrib_left, Nat.and_or_distrib_left, Nat.or_eq_zero_iff,
    Nat.or_eq_zero_iff] at hbits
  simp [hardwareEntry, hvalid, pteToPerms, hbits]

/-- A leaf of the last level never has the user bit. -/
theorem hardwareEntry_leafEntry (userPages : Bool) (u : ℕ) (hread : perms.read = true) :
    hardwareEntry userPages u 0 (Sv39.leafEntry perms hpa) =
      if userPages then .fault
      else .leaf (translateLeaf (Sv39.leafEntry perms hpa) 0 u) perms := by
  have huser : Sv39.leafEntry perms hpa &&& pteU = 0 := by
    rw [Sv39.leafEntry, withPpn, Sv39.flags_and (by decide)]
    rcases perms with ⟨r, w, x⟩
    revert r w x
    decide
  cases userPages with
  | true =>
    simp [hardwareEntry, Sv39.isValid_leafEntry, Sv39.pteToPerms_leafEntry, hread, huser]
  | false =>
    simp [hardwareEntry, Sv39.isValid_leafEntry, Sv39.pteToPerms_leafEntry, hread, Nat.mod_one]

def pathFrom (u : ℕ) : ℕ → List Sv39.Index
  | 0 => [Sv39.vpn u 0]
  | level + 1 => Sv39.vpn u (level + 1) :: pathFrom u level

theorem pathFrom_ne_nil (u level : ℕ) : pathFrom u level ≠ [] := by
  cases level <;> simp [pathFrom]

/-- The hardware finds what a lookup finds, unless it asks for the user bit. -/
theorem hardwareWalk_eq (h : Table root m) (hread : Readable root m) (userPages : Bool)
    (hu : vpn u 2 < ptEntries) (level : ℕ) (hpre : Sv39.paging.follow m root pre = some t)
    (hlen : pre.length + level = 2) :
    hardwareWalk userPages m u level t =
      if userPages then none
      else (Sv39.paging.lookup m t (pathFrom u level)).map fun leaf =>
        (translateLeaf leaf.2 leaf.1 u, pteToPerms leaf.2) := by
  induction level generalizing pre t with
  | zero =>
    have hword : m.words (t + 8 * vpn u 0) = Sv39.paging.get m t (Sv39.vpn u 0) := by
      rw [vpn_eq hu (by decide)]
      rfl
    rw [hardwareWalk, hword, pathFrom, Tables.lookup]
    cases hvalid : Sv39.paging.valid (Sv39.paging.get m t (Sv39.vpn u 0)) with
    | false =>
      rw [hardwareEntry_invalid userPages u 0 hvalid]
      simp
    | true =>
      have hlookup : Sv39.paging.lookup m root (pre ++ [Sv39.vpn u 0]) =
          some (0, Sv39.paging.get m t (Sv39.vpn u 0)) := by
        rw [Tables.lookup_append (by simp) hpre]
        simp [Tables.lookup, hvalid]
      obtain ⟨perms, hpa, hperms, he⟩ := hread _ 0 _ (by simp; omega) hlookup
      rw [he, hardwareEntry_leafEntry userPages u hperms]
      cases userPages with
      | true => rfl
      | false => simp [Sv39.pteToPerms_leafEntry]
  | succ level ih =>
    have hword : m.words (t + 8 * vpn u (level + 1)) =
        Sv39.paging.get m t (Sv39.vpn u (level + 1)) := by
      rw [vpn_eq hu (by omega)]
      rfl
    have hne : (pathFrom u level).isEmpty = false := by simp [pathFrom_ne_nil]
    rw [hardwareWalk, hword, pathFrom, Tables.lookup]
    cases hvalid : Sv39.paging.valid (Sv39.paging.get m t (Sv39.vpn u (level + 1))) with
    | false =>
      rw [hardwareEntry_invalid userPages u _ hvalid]
      simp
    | true =>
      have hleaf : Sv39.paging.leaf (Sv39.paging.get m t (Sv39.vpn u (level + 1))) = false :=
        h.leavesLast.leaf_eq_false hpre _ (by change _ < 3; omega) hvalid
      rw [hardwareEntry_link userPages u _ hvalid hleaf]
      simp only [hleaf, hne, Bool.not_true, Bool.or_self, Bool.false_eq_true, if_false]
      exact ih (Paging.follow_snoc hpre hvalid hleaf)
        (by rw [List.length_append, List.length_singleton]; omega)

/-- With the check of the user bit the hardware reaches no page. -/
theorem hardwareWalk_user (h : Table root m) (hread : Readable root m) (hu : u < 2 ^ 39) :
    hardwareWalk true m u 2 root = none :=
  hardwareWalk_eq h hread true ((inBounds_iff (by omega)).mpr hu) 2 Tables.follow_nil rfl

/-- Without it the hardware agrees with the map of addresses. -/
theorem hardwareWalk_of_view (h : Table root m) (hread : Readable root m) (hu : u < 2 ^ 39)
    {addr : ℕ} (hview : Sv39.view root m u = (some addr, some perms)) :
    hardwareWalk false m u 2 root = some (addr, perms) := by
  rw [hardwareWalk_eq h hread false ((inBounds_iff (by omega)).mpr hu) 2 Tables.follow_nil rfl]
  cases hlookup : Sv39.paging.lookup m root (Sv39.path u) with
  | none =>
    rw [Sv39.view_eq_none hlookup] at hview
    cases hview
  | some leaf =>
    rw [Sv39.view_eq_of_lookup hlookup] at hview
    cases hview
    change Option.map _ (Sv39.paging.lookup m root (Sv39.path u)) = _
    rw [hlookup]
    rfl

/-! ## Runs of `map_page` -/

structure Call where
  gpa : ℕ
  hpa : ℕ
  perms : MemPerms

def Call.InRange (c : Call) : Prop := c.gpa < 2 ^ 41 ∧ c.hpa < 2 ^ 56 ∧ c.perms.read = true

instance Call.InRange.instDecidable (c : Call) : Decidable c.InRange :=
  inferInstanceAs (Decidable (_ ∧ _ ∧ _))

/-- The root index is one of the declared table, or the call is refused before it is used. -/
def Call.InBounds (c : Call) : Prop :=
  c.gpa < 2 ^ 39 ∨ ¬ (c.gpa % pageSize = 0 ∧ c.hpa % pageSize = 0)

def call (root : ℕ) (m : Memory) (c : Call) : Option (Except MmError Unit × Memory) :=
  mapPage root m c.gpa c.hpa c.perms

def step (root : ℕ) (m : Memory) (c : Call) : Option Memory :=
  if c.InRange then (call root m c).map Prod.snd else none

/-- A call that succeeds translates its page and no other address, and the hardware reaches the page
with the permissions of the call. A call that fails changes no translation. -/
def Answered (userPages : Bool) (root : ℕ) (m m' : Memory) (c : Call) : Except MmError Unit → Prop
  | .ok _ => MapsPage root m m' c.gpa c.hpa ∧ ∀ o < pageSize,
      hardwareWalk userPages m' (c.gpa + o) 2 root = some (c.hpa + o, c.perms)
  | .error _ => KeepsTranslation root m m'

/-- The call does not panic and does what it answers. -/
def Correct (userPages : Bool) (root : ℕ) (m : Memory) (c : Call) : Prop :=
  ∃ r m', call root m c = some (r, m') ∧ Answered userPages root m m' c r

def Succeeds (root : ℕ) (m : Memory) (c : Call) : Prop := ∃ m', call root m c = some (.ok (), m')

/-- The addresses are aligned, and the page can be mapped. -/
def Call.Mappable (root : ℕ) (m : Memory) (c : Call) : Prop :=
  c.gpa % pageSize = 0 ∧ c.hpa % pageSize = 0 ∧ GStage.Mappable root m [c.gpa]

theorem Readable.call (h : Table root m) (hread : Readable root m) {c : Call}
    {r : Except MmError Unit} (hperms : c.perms.read = true)
    (hcall : GStage.call root m c = some (r, m')) : Readable root m' := by
  by_cases halign : c.gpa % pageSize = 0 ∧ c.hpa % pageSize = 0
  · have hin : vpn c.gpa 2 < ptEntries := by
      by_contra hout
      rw [GStage.call, mapPage_panics hout root m c.perms halign.1 halign.2] at hcall
      cases hcall
    obtain ⟨r', m₁, heq, -, -, hmapped⟩ :=
      h.wellFormed.mapPage_mapped c.perms halign.1 halign.2
    rw [GStage.call, mapPage_eq hin, heq] at hcall
    cases hcall
    exact hread.mapped hperms hmapped
  · rw [GStage.call, GStage.mapPage, if_pos (by omega)] at hcall
    cases hcall
    exact hread

theorem table_of_zero (hroot : root % pageSize = 0) (hzero : ∀ i < 2048, m.words (root + 8 * i) = 0)
    (hframes : Supply {root} m) : Table root m ∧ Readable root m := by
  have hempty : ∀ idx, m.entry root idx = 0 :=
    fun idx => hzero idx (idx.isLt.trans (by decide))
  have hnone : ∀ p, Sv39.paging.lookup m root p = none := by
    intro p
    cases p with
    | nil => rfl
    | cons idx p =>
      have hentry : Sv39.paging.valid (Sv39.paging.get m root idx) = false := by
        change isValid (m.entry root idx) = false
        rw [hempty idx]
        rfl
      simp [Tables.lookup, hentry]
  refine ⟨⟨Sv39.wellFormed_of_zero hroot hempty hframes, ?_⟩, ?_⟩
  · intro p k e _ hlookup
    rw [hnone] at hlookup
    cases hlookup
  · intro p k e _ hlookup
    rw [hnone] at hlookup
    cases hlookup

theorem correct_iff_of_call {userPages : Bool} {c : Call} {r : Except MmError Unit}
    (hcall : call root m c = some (r, m')) :
    Correct userPages root m c ↔ Answered userPages root m m' c r := by
  constructor
  · rintro ⟨r', m₁, hcall', hr⟩
    rw [hcall] at hcall'
    cases hcall'
    exact hr
  · exact fun hr => ⟨r, m', hcall, hr⟩

/-- A page that is mapped is reached by the hardware exactly if it does not ask for the user bit. -/
theorem hardware_reaches_iff (h : Table root m') (hread : Readable root m')
    (hblock : Sv39.MapsBlock root m m' gpa hpa pageSize perms) (hgpa : gpa < 2 ^ 39)
    (halign : gpa % pageSize = 0) (userPages : Bool) :
    (∀ o < pageSize, hardwareWalk userPages m' (gpa + o) 2 root = some (hpa + o, perms)) ↔
      userPages = false := by
  cases userPages with
  | true =>
    refine iff_of_false (fun hall => ?_) (by simp)
    have hfirst := hall 0 (by decide)
    rw [Nat.add_zero, hardwareWalk_user h hread hgpa] at hfirst
    cases hfirst
  | false =>
    refine iff_of_true ?_ rfl
    intro o ho
    have hlow : gpa + o < 2 ^ 39 := by
      rw [pageSize] at *
      omega
    apply hardwareWalk_of_view h hread hlow
    rw [hblock (gpa + o) hlow, if_pos ⟨Nat.le_add_right .., Nat.add_lt_add_left ho gpa⟩,
      Nat.add_sub_cancel_left]

theorem Table.correct_iff (h : Table root m) (hread : Readable root m) (userPages : Bool) {c : Call}
    (hc : c.InRange) :
    Correct userPages root m c ↔ c.InBounds ∧ (userPages = true → ¬ Succeeds root m c) := by
  by_cases halign : c.gpa % pageSize = 0 ∧ c.hpa % pageSize = 0
  · by_cases hlow : c.gpa < 2 ^ 39
    · obtain ⟨r, m', hcall, h', -, hr⟩ := h.mapPage_spec c.perms hlow hc.2.1
      have hread' : Readable root m' := hread.call h hc.2.2 hcall
      have hcall : call root m c = some (r, m') := hcall
      rw [correct_iff_of_call hcall]
      cases r with
      | ok _ =>
        have hsucceeds : Succeeds root m c := ⟨m', hcall⟩
        rw [Answered, hardware_reaches_iff h' hread' hr.2.1 hlow halign.1]
        have hbounds : c.InBounds := .inl hlow
        simp [hr.1, hsucceeds, hbounds]
      | error err =>
        have hfails : ¬ Succeeds root m c := by
          rintro ⟨m₁, hok⟩
          rw [hcall] at hok
          cases hok
        exact iff_of_true hr ⟨.inl hlow, fun _ => hfails⟩
    · have hpanic : call root m c = none :=
        mapPage_panics (fun hin => hlow ((inBounds_iff hc.1).mp hin)) root m c.perms halign.1 halign.2
      refine iff_of_false ?_ fun hin => hin.1.elim hlow fun hnot => hnot halign
      rintro ⟨r, m', hcall, -⟩
      rw [hpanic] at hcall
      cases hcall
  · have hcall : call root m c = some (.error .invalidAlignment, m) := if_pos (by omega)
    have hfails : ¬ Succeeds root m c := by
      rintro ⟨m₁, hok⟩
      rw [hcall] at hok
      cases hok
    rw [correct_iff_of_call hcall]
    exact iff_of_true (fun _ _ => rfl) ⟨.inr halign, fun _ => hfails⟩

theorem Table.succeeds_iff (h : Table root m) {c : Call} (hc : c.InRange) :
    Succeeds root m c ↔ c.Mappable root m := by
  by_cases halign : c.gpa % pageSize = 0 ∧ c.hpa % pageSize = 0
  · by_cases hlow : c.gpa < 2 ^ 39
    · have hmap := h.mapPage_ok_iff hlow halign.1 halign.2 c.perms
      exact hmap.trans ⟨fun hpage => ⟨halign.1, halign.2, hpage⟩, fun hpage => hpage.2.2⟩
    · have hout : ¬ vpn c.gpa 2 < ptEntries := fun hin => hlow ((inBounds_iff hc.1).mp hin)
      refine iff_of_false ?_ ?_
      · rintro ⟨m', hok⟩
        rw [call, mapPage_panics hout root m c.perms halign.1 halign.2] at hok
        cases hok
      · rintro ⟨-, -, hfree, -⟩
        have hnone := hfree c.gpa List.mem_cons_self
        rw [translate_panics hout] at hnone
        cases hnone
  · refine iff_of_false ?_ fun hpage => halign ⟨hpage.1, hpage.2.1⟩
    rintro ⟨m', hok⟩
    rw [call, GStage.mapPage, if_pos (by omega)] at hok
    cases hok

/-- After any run from a zeroed root of 2048 entries, a call is correct for the hardware, which asks
for the user bit, exactly if its root index is one of the declared table and its page cannot be
mapped. -/
theorem gstage_call_correct_iff (root : ℕ) (m : Memory) (hroot : root % pageSize = 0)
    (hzero : ∀ i < 2048, m.words (root + 8 * i) = 0) (hframes : Supply {root} m)
    (calls : List Call) (m' : Memory) (hrun : run (step root) m calls = some m') (c : Call)
    (hc : c.InRange) : Correct true root m' c ↔ c.InBounds ∧ ¬ c.Mappable root m' := by
  obtain ⟨htable, hread⟩ : Table root m' ∧ Readable root m' := by
    refine run_preserves (P := fun m => Table root m ∧ Readable root m) ?_
      (table_of_zero hroot hzero hframes) hrun
    rintro m d m₁ ⟨h, hreadable⟩ hstep
    rw [step, Option.ite_none_right_eq_some] at hstep
    obtain ⟨hd, hmap⟩ := hstep
    obtain ⟨⟨r, m₂⟩, hcall, rfl⟩ := Option.map_eq_some_iff.mp hmap
    exact ⟨(h.mapPage hcall).1, hreadable.call h hd.2.2 hcall⟩
  rw [htable.correct_iff hread true hc, htable.succeeds_iff hc]
  simp

theorem second_mapping_refused :
    ∃ m', run (step 4096) Sv39.twoFrames [⟨0, 0x80000000, ⟨true, true, false⟩⟩] = some m' ∧
      translate 4096 m' 5 = some (some 0x80000005) ∧
      Correct true 4096 m' ⟨0, 0x80001000, ⟨true, false, true⟩⟩ := by
  have hrun : run (step 4096) Sv39.twoFrames [⟨0, 0x80000000, ⟨true, true, false⟩⟩] =
      some (Sv39.mapPage 4096 Sv39.twoFrames 0 0x80000000 ⟨true, true, false⟩).2 := rfl
  refine ⟨_, hrun, by decide +kernel, ?_⟩
  refine (gstage_call_correct_iff 4096 Sv39.twoFrames rfl (fun _ _ => rfl) Sv39.twoFrames_supply _ _
    hrun _ (by decide)).mpr ⟨.inl (by decide), ?_⟩
  rintro ⟨-, -, hpage⟩
  have hmapped : ¬ Mappable 4096
      (Sv39.mapPage 4096 Sv39.twoFrames 0 0x80000000 ⟨true, true, false⟩).2 [0] := by
    decide +kernel
  exact hmapped hpage

/-- The root index of a guest address from 2³⁹ on is out of the declared table. A page below it is
mapped and translated, but the hardware faults on it because the entry has no user bit. -/
theorem guest_page_faults :
    (mapPage 4096 Sv39.twoFrames (2 ^ 39) 0x80000000 ⟨true, true, false⟩).isNone = true ∧
      (mapPage 4096 Sv39.twoFrames 0 0x80000000 ⟨true, true, false⟩).any (fun result =>
        result.1.isOk && decide (translate 4096 result.2 0 = some (some 0x80000000)) &&
          (hardwareWalk true result.2 0 2 4096).isNone) = true := by
  decide +kernel

end OpenIon.Arch.Riscv.GStage
