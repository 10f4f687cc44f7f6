import OpenIon.Driver.Manager

/-! # Consistency of the driver registry

Every registration puts the driver into the table of all drivers and into the bucket
of each of its classes, and unregistering takes it out of all of them. The buckets
hold parts of the table of all drivers, which has as many slots as a bucket, so a
bucket is never full while that table has a free slot.
-/
namespace OpenIon.Driver
open Lib

/-- The fast path holds registered drivers, each at its own interrupt. -/
def Registry.FastPathSound (maxIrqs : ℕ) (r : Registry) : Prop :=
  ∀ irq driver, r.irqDrivers irq = some driver →
    driver ∈ r.registered ∧ driver.resource.irq = irq ∧ irq ≠ 0 ∧ irq < maxIrqs

/-- The registry stands for the drivers `L`: each table holds those it should. -/
structure Represents (maxIrqs : ℕ) (r : Registry) (L : List AnyDriver) : Prop where
  size : r.drivers.length = maxDrivers
  bucketSize : ∀ c, (r.buckets c).length = maxDrivers
  drivers : r.registered.Perm L
  bucket : ∀ c, (r.bucket c).Perm (L.filter (c ∈ ·.deviceClass))
  identities : (L.map AnyDriver.identity).Nodup
  irq : r.FastPathSound maxIrqs
  count : r.registeredDrivers = UInt32.ofNat L.length
  countOf : ∀ c, r.registeredOf c = UInt32.ofNat (L.filter (c ∈ ·.deviceClass)).length

/-- The condition under which `register_driver` succeeds. -/
def Registry.Accepts (r : Registry) (driver : AnyDriver) : Prop :=
  isValidDriverName driver.name = true ∧
    driver.identity ∉ r.registered.map AnyDriver.identity ∧ none ∈ r.drivers

variable {r : Registry} {L : List AnyDriver} {maxIrqs : ℕ} {driver : AnyDriver}

theorem new_represents : Represents maxIrqs {} [] where
  size := List.length_replicate
  bucketSize _ := List.length_replicate
  drivers := by simp [Registry.registered]
  bucket := by simp [Registry.bucket]
  identities := by simp
  irq := by simp [Registry.FastPathSound]
  count := rfl
  countOf _ := rfl

theorem Represents.nodup (h : Represents maxIrqs r L) : L.Nodup := h.identities.of_map _

theorem bucketHasSpace_iff {bucket : List (Option AnyDriver)} :
    bucketHasSpace bucket = true ↔ none ∈ bucket := by
  simp [bucketHasSpace]

/-- Where the table of all drivers has a free slot, every bucket has one. -/
theorem Represents.bucketHasSpace (h : Represents maxIrqs r L) (hroom : none ∈ r.drivers)
    (c : DeviceClass) : bucketHasSpace (r.buckets c) = true := by
  rw [← List.reduceOption_length_lt_iff, h.size] at hroom
  rw [bucketHasSpace_iff, ← List.reduceOption_length_lt_iff, h.bucketSize]
  calc (r.bucket c).length = (L.filter (c ∈ ·.deviceClass)).length := (h.bucket c).length_eq
    _ ≤ L.length := List.length_filter_le _ _
    _ = r.registered.length := h.drivers.length_eq.symm
    _ < maxDrivers := hroom

theorem scanDrivers_eq_scanSlots (identity : DriverIdentity) (slots : List (Option AnyDriver))
    (i : ℕ) (firstEmpty : Option ℕ) : scanDrivers identity slots i firstEmpty =
      (scanSlots (·.identity = identity) slots i firstEmpty).elim (.error .invalidConfig) .ok := by
  fun_induction scanDrivers identity slots i firstEmpty with
  | case1 => rfl
  | case2 existing slots i firstEmpty hsame => simp [scanSlots, hsame]
  | case3 existing slots i firstEmpty hsame ih => simp [scanSlots, hsame, ih]
  | case4 slots i firstEmpty ih => rw [ih, scanSlots]

theorem scanDrivers_eq (identity : DriverIdentity) (slots : List (Option AnyDriver)) (i : ℕ)
    (firstEmpty : Option ℕ) : scanDrivers identity slots i firstEmpty =
      if identity ∈ slots.reduceOption.map AnyDriver.identity then .error .invalidConfig
      else .ok (firstEmpty.or ((slots.findIdx? Option.isNone).map (· + i))) := by
  have hany : slots.reduceOption.any (·.identity = identity) = true ↔
      identity ∈ slots.reduceOption.map AnyDriver.identity := by
    simp only [List.any_eq_true, decide_eq_true_eq, List.mem_map]
  rw [scanDrivers_eq_scanSlots, scanSlots_eq]
  simp only [hany]
  split_ifs
  · rfl
  · rfl

theorem findIdx_of_scanDrivers {identity : DriverIdentity} {slots : List (Option AnyDriver)}
    {idx : ℕ} (hscan : scanDrivers identity slots 0 none = .ok (some idx)) :
    slots.findIdx? Option.isNone = some idx := by
  rw [scanDrivers_eq] at hscan
  split_ifs at hscan
  simpa using hscan

/-- A registration is refused, or stores the driver in free slots. -/
theorem registerDriver_cases (maxIrqs : ℕ) (driver : AnyDriver) (r : Registry) :
    (∃ e, r.registerDriver maxIrqs driver = (.error e, r)) ∨
      ∃ idx, r.drivers.findIdx? Option.isNone = some idx ∧
        (∀ c ∈ driver.deviceClass, none ∈ r.buckets c) ∧ r.registerDriver maxIrqs driver =
          (.ok (), (r.store driver idx).registerIrqFastPath maxIrqs driver) := by
  unfold Registry.registerDriver
  split
  · exact .inl ⟨_, rfl⟩
  · split
    next => exact .inl ⟨_, rfl⟩
    next => exact .inl ⟨_, rfl⟩
    next idx hscan =>
      split
      · exact .inl ⟨_, rfl⟩
      next hspace =>
        refine .inr ⟨idx, findIdx_of_scanDrivers hscan, fun c hc => ?_, rfl⟩
        rw [← bucketHasSpace_iff, ← Bool.not_eq_false]
        exact fun hfull => hspace ⟨c, hc, hfull⟩

theorem registered_store {idx : ℕ} (hidx : r.drivers.findIdx? Option.isNone = some idx) :
    (r.store driver idx).registered.Perm (driver :: r.registered) := by
  change (r.drivers.set idx (some driver)).reduceOption.Perm _
  rw [set_findIdx idx hidx]
  exact reduceOption_pushSlot (none_mem_of_findIdx hidx)

theorem Represents.registerDriver_of_accepts (h : Represents maxIrqs r L)
    (haccepts : r.Accepts driver) :
    ∃ idx, r.drivers.set idx (some driver) = pushSlot driver r.drivers ∧
      r.registerDriver maxIrqs driver =
        (.ok (), (r.store driver idx).registerIrqFastPath maxIrqs driver) := by
  rcases haccepts with ⟨hname, hnew, hroom⟩
  obtain ⟨idx, hidx⟩ : ∃ idx, r.drivers.findIdx? Option.isNone = some idx := by
    rw [← Option.isSome_iff_exists, List.findIdx?_isSome, List.any_eq_true]
    exact ⟨none, hroom, rfl⟩
  have hscan : scanDrivers driver.identity r.drivers 0 none = .ok (some idx) := by
    rw [scanDrivers_eq, ← Registry.registered, if_neg hnew, hidx]
    rfl
  refine ⟨idx, set_findIdx idx hidx, ?_⟩
  simp [Registry.registerDriver, hscan, hname, h.bucketHasSpace hroom]

theorem registerDriver_of_not_accepts (maxIrqs : ℕ) (haccepts : ¬ r.Accepts driver) :
    ∃ e, r.registerDriver maxIrqs driver = (.error e, r) := by
  by_cases hname : isValidDriverName driver.name = true
  · by_cases hnew : driver.identity ∈ r.registered.map AnyDriver.identity
    · refine ⟨.invalidConfig, ?_⟩
      rw [Registry.registerDriver, scanDrivers_eq, ← Registry.registered, if_pos hnew]
      simp [hname]
    · have hfull : r.drivers.findIdx? Option.isNone = none := by
        rw [List.findIdx?_eq_none_iff]
        intro slot hslot
        rw [Option.isNone_eq_false_iff, Option.isSome_iff_ne_none]
        rintro rfl
        exact haccepts ⟨hname, hnew, hslot⟩
      refine ⟨.registryFull, ?_⟩
      rw [Registry.registerDriver, scanDrivers_eq, ← Registry.registered, if_neg hnew, hfull]
      simp [hname]
  · exact ⟨.invalidConfig, by simp [Registry.registerDriver, hname]⟩

theorem Represents.registerDriver_ok_iff (h : Represents maxIrqs r L) :
    (r.registerDriver maxIrqs driver).1 = .ok () ↔ r.Accepts driver := by
  constructor
  · intro hok
    by_contra haccepts
    rcases registerDriver_of_not_accepts maxIrqs haccepts with ⟨e, herr⟩
    rw [herr] at hok
    cases hok
  · intro haccepts
    rcases h.registerDriver_of_accepts haccepts with ⟨idx, -, hreg⟩
    rw [hreg]

/-- The fast path changes its own table and its counter only. -/
theorem registerIrqFastPath_spec (maxIrqs : ℕ) (driver : AnyDriver) (r : Registry) :
    ∃ irqs conflicts, r.registerIrqFastPath maxIrqs driver =
        { r with irqDrivers := irqs, irqFastConflicts := conflicts } ∧
      ∀ i d, irqs i = some d → r.irqDrivers i = some d ∨
        d = driver ∧ driver.resource.irq = i ∧ i ≠ 0 ∧ i < maxIrqs := by
  rw [Registry.registerIrqFastPath]
  split_ifs with hrange
  · exact ⟨r.irqDrivers, _, rfl, fun i d hd => .inl hd⟩
  · split
    · refine ⟨_, _, rfl, ?_⟩
      intro i d hd
      by_cases hi : i = driver.resource.irq
      · subst hi
        rw [Function.update_self, Option.some_inj] at hd
        exact .inr ⟨hd.symm, rfl, by omega, by omega⟩
      · rw [Function.update_of_ne hi] at hd
        exact .inl hd
    · split_ifs
      · exact ⟨r.irqDrivers, _, rfl, fun i d hd => .inl hd⟩
      · exact ⟨r.irqDrivers, _, rfl, fun i d hd => .inl hd⟩

theorem unregisterIrqFastPath_spec (maxIrqs : ℕ) (driver : AnyDriver) (r : Registry) :
    ∃ irqs, r.unregisterIrqFastPath maxIrqs driver = { r with irqDrivers := irqs } ∧
      (∀ i d, irqs i = some d → r.irqDrivers i = some d) ∧
      (driver.resource.irq ≠ 0 → driver.resource.irq < maxIrqs →
        irqs driver.resource.irq ≠ some driver) := by
  rw [Registry.unregisterIrqFastPath]
  split_ifs with hrange
  · exact ⟨r.irqDrivers, rfl, fun i d hd => hd, by omega⟩
  · split
    case _ hnone => exact ⟨r.irqDrivers, rfl, fun i d hd => hd, by simp [hnone]⟩
    case _ existing hsome =>
      split_ifs with haddr
      · refine ⟨_, rfl, ?_, by simp⟩
        intro i d hd
        by_cases hi : i = driver.resource.irq
        · subst hi
          simp at hd
        · rwa [Function.update_of_ne hi] at hd
      · refine ⟨r.irqDrivers, rfl, fun i d hd => hd, ?_⟩
        intro _ _ hself
        rw [hself, Option.some_inj] at hsome
        exact haddr (by simp [addrEq, hsome])

theorem unregisterWhere_cases (maxIrqs : ℕ) (p : AnyDriver → Bool) (r : Registry) :
    (∃ e, r.unregisterWhere maxIrqs p = (.error e, r)) ∨
      ∃ driver, r.registered.find? p = some driver ∧
        (r.unregisterWhere maxIrqs p).1 = .ok () ∧
        (r.unregisterWhere maxIrqs p).2.registered = r.registered.erase driver := by
  rw [Registry.unregisterWhere, findSlot_eq_find, ← Registry.registered]
  cases hfind : r.registered.find? p with
  | none => exact .inl ⟨_, rfl⟩
  | some driver =>
    rcases unregisterIrqFastPath_spec maxIrqs driver { r with drivers := removeSlot p r.drivers }
      with ⟨irqs, hirq, -, -⟩
    refine .inr ⟨driver, rfl, rfl, ?_⟩
    dsimp only
    rw [hirq]
    change (removeSlot p r.drivers).reduceOption = _
    rw [reduceOption_removeSlot, ← Registry.registered, eraseP_eq_erase hfind]

theorem Registry.FastPathSound.register (h : r.FastPathSound maxIrqs) (driver : AnyDriver) :
    (r.registerDriver maxIrqs driver).2.FastPathSound maxIrqs := by
  rcases registerDriver_cases maxIrqs driver r with ⟨e, herr⟩ | ⟨idx, hidx, -, hstore⟩
  · rw [herr]
    exact h
  · rw [hstore]
    rcases registerIrqFastPath_spec maxIrqs driver (r.store driver idx) with
      ⟨irqs, conflicts, hfast, hirqs⟩
    intro irq d hd
    rw [hfast] at hd ⊢
    change d ∈ (r.store driver idx).registered ∧ _
    rw [(registered_store hidx).mem_iff, List.mem_cons]
    rcases hirqs irq d hd with hold | ⟨rfl, hirq⟩
    · exact ⟨.inr (h irq d hold).1, (h irq d hold).2⟩
    · exact ⟨.inl rfl, hirq⟩

theorem Registry.FastPathSound.unregisterWhere (h : r.FastPathSound maxIrqs)
    (p : AnyDriver → Bool) : (r.unregisterWhere maxIrqs p).2.FastPathSound maxIrqs := by
  rw [Registry.unregisterWhere, findSlot_eq_find, ← Registry.registered]
  cases hfind : r.registered.find? p with
  | none => exact h
  | some driver =>
    rcases unregisterIrqFastPath_spec maxIrqs driver { r with drivers := removeSlot p r.drivers }
      with ⟨irqs, hfast, hkept, hgone⟩
    dsimp only
    rw [hfast]
    intro irq d hd
    obtain ⟨hmem, rfl, hrange⟩ := h irq d (hkept irq d hd)
    have hne : d ≠ driver := by
      rintro rfl
      exact hgone hrange.1 hrange.2 hd
    refine ⟨?_, rfl, hrange⟩
    change d ∈ (removeSlot p r.drivers).reduceOption
    rw [reduceOption_removeSlot, ← Registry.registered, eraseP_eq_erase hfind]
    exact (List.mem_erase_of_ne hne).mpr hmem

theorem Represents.register (h : Represents maxIrqs r L) (haccepts : r.Accepts driver) :
    Represents maxIrqs (r.registerDriver maxIrqs driver).2 (driver :: L) := by
  rcases h.registerDriver_of_accepts haccepts with ⟨idx, hset, hreg⟩
  rcases registerIrqFastPath_spec maxIrqs driver (r.store driver idx) with
    ⟨irqs, conflicts, hirq, -⟩
  rcases haccepts with ⟨-, hnew, hroom⟩
  rw [hreg, hirq]
  refine ⟨?_, ?_, ?_, ?_, ?_, ?_, ?_, ?_⟩
  · simpa [Registry.store] using h.size
  · intro c
    simp only [Registry.store]
    split_ifs
    · rw [length_pushSlot, h.bucketSize]
    · exact h.bucketSize c
  · change (r.drivers.set idx (some driver)).reduceOption.Perm (driver :: L)
    rw [hset]
    exact (reduceOption_pushSlot hroom).trans (h.drivers.cons driver)
  · intro c
    simp only [Registry.bucket, Registry.store, List.filter_cons, decide_eq_true_eq]
    split_ifs
    · exact (reduceOption_pushSlot (bucketHasSpace_iff.mp (h.bucketHasSpace hroom c))).trans
        ((h.bucket c).cons driver)
    · exact h.bucket c
  · rw [List.map_cons, List.nodup_cons, ← (h.drivers.map AnyDriver.identity).mem_iff]
    exact ⟨hnew, h.identities⟩
  · exact hirq ▸ hreg ▸ h.irq.register driver
  · rw [List.length_cons, UInt32.ofNat_add, ← h.count]
    rfl
  · intro c
    simp only [Registry.store, List.filter_cons, decide_eq_true_eq]
    split_ifs
    · rw [List.length_cons, UInt32.ofNat_add, ← h.countOf]
      rfl
    · exact h.countOf c

theorem ofNat_erase_length {l : List AnyDriver} (hmem : driver ∈ l) :
    UInt32.ofNat (l.erase driver).length = UInt32.ofNat l.length - 1 := by
  rw [← List.length_erase_add_one hmem, UInt32.ofNat_add]
  exact (UInt32.add_sub_cancel _ 1).symm

theorem filter_erase_of_nodup {l : List AnyDriver} (hl : l.Nodup) (p : AnyDriver → Bool) :
    (l.erase driver).filter p = (l.filter p).erase driver := by
  rw [hl.erase_eq_filter, (hl.filter p).erase_eq_filter, List.filter_filter, List.filter_filter]
  simp only [Bool.and_comm]

/-- Unregistering takes out the first driver with the property, when no two drivers
have the same address. -/
theorem Represents.unregisterWhere (h : Represents maxIrqs r L)
    (haddr : ∀ d ∈ L, ∀ d' ∈ L, d.addr = d'.addr → d = d') {p : AnyDriver → Bool}
    (hfind : r.registered.find? p = some driver) :
    Represents maxIrqs (r.unregisterWhere maxIrqs p).2 (L.erase driver) := by
  have hmem : driver ∈ L := h.drivers.mem_iff.mp (List.mem_of_find?_eq_some hfind)
  rcases unregisterIrqFastPath_spec maxIrqs driver { r with drivers := removeSlot p r.drivers } with
    ⟨irqs, hirq, -, -⟩
  have hsound := h.irq.unregisterWhere p
  rw [Registry.unregisterWhere, findSlot_eq_find, ← Registry.registered, hfind] at hsound ⊢
  simp only [hirq] at hsound ⊢
  have hbucket : ∀ c, (r.bucket c).eraseP (addrEq · driver) = (r.bucket c).erase driver := by
    intro c
    apply eraseP_eq_erase_of_forall
    intro d hd
    have hdL := List.mem_of_mem_filter ((h.bucket c).mem_iff.mp hd)
    rw [addrEq, decide_eq_true_iff]
    exact ⟨haddr d hdL driver hmem, congrArg AnyDriver.addr⟩
  refine ⟨?_, ?_, ?_, ?_, ?_, ?_, ?_, ?_⟩
  · simpa [Registry.forget] using h.size
  · intro c
    simpa [Registry.forget] using h.bucketSize c
  · change (removeSlot p r.drivers).reduceOption.Perm _
    rw [reduceOption_removeSlot, ← Registry.registered, eraseP_eq_erase hfind]
    exact h.drivers.erase driver
  · intro c
    change (removeSlot (addrEq · driver) (r.buckets c)).reduceOption.Perm _
    rw [reduceOption_removeSlot, ← Registry.bucket, hbucket, filter_erase_of_nodup h.nodup]
    exact (h.bucket c).erase driver
  · exact h.identities.sublist (List.erase_sublist.map _)
  · exact hsound
  · rw [ofNat_erase_length hmem, ← h.count]
    rfl
  · intro c
    rw [filter_erase_of_nodup h.nodup]
    simp only [Registry.forget]
    split_ifs with hc
    · rw [ofNat_erase_length (by simpa [hmem] using hc), ← h.countOf]
    · rw [List.erase_of_not_mem (by simp [hc]), ← h.countOf]

/-- A failed operation changes nothing, and a successful one adds or removes one driver. -/
theorem Represents.exec (h : Represents maxIrqs r L)
    (haddr : ∀ d ∈ L, ∀ d' ∈ L, d.addr = d'.addr → d = d') (op : RegistryOp) :
    (∃ e, r.exec maxIrqs op = (.error e, r)) ∨
      (r.exec maxIrqs op).1 = .ok () ∧ ∃ L', Represents maxIrqs (r.exec maxIrqs op).2 L' ∧
        ∀ d ∈ L', d ∈ L ∨ op = .register d := by
  have hunregister : ∀ p, (∃ e, r.unregisterWhere maxIrqs p = (.error e, r)) ∨
      (r.unregisterWhere maxIrqs p).1 = .ok () ∧
        ∃ L', Represents maxIrqs (r.unregisterWhere maxIrqs p).2 L' ∧
          ∀ d ∈ L', d ∈ L ∨ op = .register d := by
    intro p
    apply (unregisterWhere_cases maxIrqs p r).imp_right
    rintro ⟨driver, hfind, hok, -⟩
    exact ⟨hok, _, h.unregisterWhere haddr hfind, fun d hd => .inl (List.mem_of_mem_erase hd)⟩
  cases op with
  | register driver =>
    by_cases haccepts : r.Accepts driver
    · right
      refine ⟨h.registerDriver_ok_iff.mpr haccepts, _, h.register haccepts, fun d hd => ?_⟩
      rcases List.mem_cons.mp hd with rfl | hd
      · exact .inr rfl
      · exact .inl hd
    · exact .inl (registerDriver_of_not_accepts maxIrqs haccepts)
  | unregister name => exact hunregister _
  | unregisterByIdentity identity => exact hunregister _

def DistinctAddrs (ops : List RegistryOp) : Prop :=
  ∀ d d', .register d ∈ ops → .register d' ∈ ops → d.addr = d'.addr → d = d'

theorem after_represents (maxIrqs : ℕ) {ops : List RegistryOp} (haddr : DistinctAddrs ops) :
    ∃ L, Represents maxIrqs (Registry.after maxIrqs ops) L ∧ ∀ d ∈ L, .register d ∈ ops := by
  induction ops using List.reverseRecOn with
  | nil => exact ⟨[], new_represents, by simp⟩
  | append_singleton ops op ih =>
    have hprev : DistinctAddrs ops := by
      intro d d' hd hd'
      exact haddr d d' (List.mem_append_left _ hd) (List.mem_append_left _ hd')
    rcases ih hprev with ⟨L, h, hL⟩
    have hlast : Registry.after maxIrqs (ops ++ [op]) =
        ((Registry.after maxIrqs ops).exec maxIrqs op).2 := by
      simp [Registry.after]
    have hdistinct : ∀ d ∈ L, ∀ d' ∈ L, d.addr = d'.addr → d = d' := by
      intro d hd d' hd'
      exact hprev d d' (hL d hd) (hL d' hd')
    rw [hlast]
    rcases h.exec hdistinct op with ⟨e, herr⟩ | ⟨-, L', h', hL'⟩
    · rw [herr]
      exact ⟨L, h, fun d hd => List.mem_append_left _ (hL d hd)⟩
    · refine ⟨L', h', fun d hd => ?_⟩
      rcases hL' d hd with hd | rfl
      · exact List.mem_append_left _ (hL d hd)
      · exact List.mem_append_right _ List.mem_cons_self

theorem Represents.mem_bucket (h : Represents maxIrqs r L) {c : DeviceClass} {d : AnyDriver} :
    d ∈ r.bucket c ↔ d ∈ r.registered ∧ c ∈ d.deviceClass := by
  rw [(h.bucket c).mem_iff, h.drivers.mem_iff, List.mem_filter, decide_eq_true_iff]

theorem registered_of_unregisterWhere {p : AnyDriver → Bool}
    (hok : (r.unregisterWhere maxIrqs p).1 = .ok ()) :
    ∃ d ∈ r.registered, p d = true ∧
      (r.unregisterWhere maxIrqs p).2.registered = r.registered.erase d := by
  rcases unregisterWhere_cases maxIrqs p r with ⟨e, herr⟩ | ⟨driver, hfind, -, hgone⟩
  · rw [herr] at hok
    cases hok
  · exact ⟨driver, List.mem_of_find?_eq_some hfind, List.find?_some hfind, hgone⟩

/-- After any operations the tables of the registry agree with each other, a driver is
refused only for its name, its identity or a full table, and errors change nothing. A
registration that succeeds adds its driver, and an unregistration that succeeds takes out
one driver of that name or identity. -/
theorem registry_consistent (maxIrqs : ℕ) (ops : List RegistryOp) (haddr : DistinctAddrs ops) :
    let r := Registry.after maxIrqs ops
    (r.registered.map AnyDriver.identity).Nodup ∧
      (∀ c, (r.bucket c).Nodup ∧
        ∀ d, d ∈ r.bucket c ↔ d ∈ r.registered ∧ c ∈ d.deviceClass) ∧
      (∀ i d, r.irqDrivers i = some d → d ∈ r.registered ∧ d.resource.irq = i) ∧
      (∀ d, (r.registerDriver maxIrqs d).1 = .ok () ↔ isValidDriverName d.name = true ∧
        d.identity ∉ r.registered.map AnyDriver.identity ∧ none ∈ r.drivers) ∧
      (∀ op e, (r.exec maxIrqs op).1 = .error e → (r.exec maxIrqs op).2 = r) ∧
      (∀ d, (r.registerDriver maxIrqs d).1 = .ok () →
        (r.registerDriver maxIrqs d).2.registered.Perm (d :: r.registered)) ∧
      (∀ name, (r.unregisterDriver maxIrqs name).1 = .ok () → ∃ d ∈ r.registered, d.name = name ∧
        (r.unregisterDriver maxIrqs name).2.registered = r.registered.erase d) ∧
      ∀ identity, (r.unregisterDriverByIdentity maxIrqs identity).1 = .ok () →
        ∃ d ∈ r.registered, d.identity = identity ∧
          (r.unregisterDriverByIdentity maxIrqs identity).2.registered = r.registered.erase d := by
  intro r
  rcases after_represents maxIrqs haddr with ⟨L, h, hL⟩
  have hdistinct : ∀ d ∈ L, ∀ d' ∈ L, d.addr = d'.addr → d = d' := by
    intro d hd d' hd'
    exact haddr d d' (hL d hd) (hL d' hd')
  refine ⟨?_, ?_, ?_, fun d => h.registerDriver_ok_iff, ?_, ?_, ?_, ?_⟩
  · exact (h.drivers.map AnyDriver.identity).nodup_iff.mpr h.identities
  · intro c
    exact ⟨(h.bucket c).nodup_iff.mpr (h.nodup.filter _), fun d => h.mem_bucket⟩
  · intro i d hd
    rcases h.irq i d hd with ⟨hmem, hi, -⟩
    exact ⟨hmem, hi⟩
  · intro op e herr
    rcases h.exec hdistinct op with ⟨e', hsame⟩ | ⟨hok, -⟩
    · rw [hsame]
    · rw [hok] at herr
      cases herr
  · intro d hok
    have hadded := h.register (h.registerDriver_ok_iff.mp hok)
    exact hadded.drivers.trans (h.drivers.symm.cons d)
  · intro name hok
    rcases registered_of_unregisterWhere hok with ⟨d, hd, hname, hgone⟩
    exact ⟨d, hd, of_decide_eq_true hname, hgone⟩
  · intro identity hok
    rcases registered_of_unregisterWhere hok with ⟨d, hd, hidentity, hgone⟩
    exact ⟨d, hd, of_decide_eq_true hidentity, hgone⟩

def uartAt (addr baseAddr : ℕ) : AnyDriver where
  addr := addr
  name := [0x75, 0x61, 0x72, 0x74]
  resource := ⟨baseAddr, 10⟩
  deviceClass := {.char, .terminal}

theorem uarts_consistent :
    let ops : List RegistryOp := [.register (uartAt 1 0x1000), .register (uartAt 2 0x2000),
      .unregister [0x75, 0x61, 0x72, 0x74]]
    let r := Registry.after 64 ops
    r.registered = [uartAt 2 0x2000] ∧ (r.bucket .char).Nodup ∧ r.irqDrivers 10 = none ∧
      (r.registerDriver 64 (uartAt 1 0x1000)).1 = .ok () := by
  intro ops r
  have haddr : DistinctAddrs ops := by
    intro d d' hd hd' heq
    have hmem : ∀ d, .register d ∈ ops → d = uartAt 1 0x1000 ∨ d = uartAt 2 0x2000 := by
      simp [ops]
    rcases hmem d hd with rfl | rfl <;> rcases hmem d' hd' with rfl | rfl
    · rfl
    · cases heq
    · cases heq
    · rfl
  rcases registry_consistent 64 ops haddr with ⟨-, hbucket, -, haccepts, -⟩
  exact ⟨by decide +kernel, (hbucket .char).1, by decide +kernel,
    (haccepts _).mpr (by decide +kernel)⟩

end OpenIon.Driver
