import OpenIon.Driver.Dispatch

/-! # The statistics of the driver registry

`registry_stats` of `driver/manager.rs` reports counters that are kept beside the tables. Those of
the drivers and of the classes follow their tables as long as drivers at one address are of the same
classes. The one of the factories is written nowhere.
-/
namespace OpenIon.Driver
open Lib

/-- A `&'static dyn DriverFactory` as `core::ptr::eq` compares it, by the address of the factory and
that of its methods. -/
structure FactoryPtr where
  addr : ℕ
  vtable : ℕ
deriving DecidableEq

def maxFactories : ℕ := 16

structure Manager where
  registry : Registry := {}
  factories : List (Option FactoryPtr) := List.replicate maxFactories none
  registeredFactories : UInt32 := 0
  probeMatches : UInt32 := 0
  probeSuccesses : UInt32 := 0
  probeFailures : UInt32 := 0
  irqStats : IrqStats := {}

structure DriverRegistryStats where
  registeredDrivers : ℕ
  registeredFactories : ℕ
  registeredBlockDevices : ℕ
  registeredCharDevices : ℕ
  registeredTerminalDevices : ℕ
  registeredGpioControllers : ℕ
  registeredFramebufferDevices : ℕ
  registeredNetDevices : ℕ
  registeredRngDevices : ℕ
  probeMatches : UInt32
  probeSuccesses : UInt32
  probeFailures : UInt32
  irqDispatches : UInt32
  irqDriverHits : UInt32
  irqDriverMisses : UInt32
  irqFastSlots : ℕ
  irqFastHits : UInt32
  irqFastFallbacks : UInt32
  irqFastConflicts : UInt32

def DriverRegistryStats.registeredOf (stats : DriverRegistryStats) : DeviceClass → ℕ
  | .block => stats.registeredBlockDevices
  | .char => stats.registeredCharDevices
  | .terminal => stats.registeredTerminalDevices
  | .gpio => stats.registeredGpioControllers
  | .framebuffer => stats.registeredFramebufferDevices
  | .net => stats.registeredNetDevices
  | .rng => stats.registeredRngDevices

def Registry.irqFastSlotCount (maxIrqs : ℕ) (r : Registry) : ℕ :=
  (List.range maxIrqs).countP fun irq => (r.irqDrivers irq).isSome

/-- The driver that an operation takes out of the tables, so that the counters go down. -/
def Registry.takenOut (r : Registry) : RegistryOp → Option AnyDriver
  | .register _ => none
  | .unregister name => findSlot (·.name = name) r.drivers
  | .unregisterByIdentity identity => findSlot (·.identity = identity) r.drivers

inductive ManagerOp where
  | registry (op : RegistryOp)
  | registerFactory (factory : FactoryPtr)

namespace Manager

def registryStats (maxIrqs : ℕ) (m : Manager) : DriverRegistryStats where
  registeredDrivers := m.registry.registeredDrivers.toNat
  registeredFactories := m.registeredFactories.toNat
  registeredBlockDevices := (m.registry.registeredOf .block).toNat
  registeredCharDevices := (m.registry.registeredOf .char).toNat
  registeredTerminalDevices := (m.registry.registeredOf .terminal).toNat
  registeredGpioControllers := (m.registry.registeredOf .gpio).toNat
  registeredFramebufferDevices := (m.registry.registeredOf .framebuffer).toNat
  registeredNetDevices := (m.registry.registeredOf .net).toNat
  registeredRngDevices := (m.registry.registeredOf .rng).toNat
  probeMatches := m.probeMatches
  probeSuccesses := m.probeSuccesses
  probeFailures := m.probeFailures
  irqDispatches := m.irqStats.dispatches
  irqDriverHits := m.irqStats.driverHits
  irqDriverMisses := m.irqStats.driverMisses
  irqFastSlots := m.registry.irqFastSlotCount maxIrqs
  irqFastHits := m.irqStats.fastHits
  irqFastFallbacks := m.irqStats.fastFallbacks
  irqFastConflicts := m.registry.irqFastConflicts

def registerFactory (factory : FactoryPtr) (m : Manager) : Except DriverErr Unit × Manager :=
  match scanSlots (· = factory) m.factories 0 none with
  | none => (.error .invalidConfig, m)
  | some none => (.error .registryFull, m)
  | some (some idx) => (.ok (), { m with factories := m.factories.set idx (some factory) })

def exec (maxIrqs : ℕ) (m : Manager) : ManagerOp → Except DriverErr Unit × Manager
  | .registry op =>
    let (result, r) := m.registry.exec maxIrqs op
    (result, { m with registry := r })
  | .registerFactory factory => m.registerFactory factory

def after (maxIrqs : ℕ) (ops : List ManagerOp) : Manager :=
  ops.foldl (fun m op => (m.exec maxIrqs op).2) {}

end Manager

/-- Drivers at one address are of the same classes. -/
def OneClassPerAddr (known : AnyDriver → Prop) : Prop :=
  ∀ d d', known d → known d' → d.addr = d'.addr → d.deviceClass = d'.deviceClass

/-! ## The counters of the drivers -/

/-- The counters agree with the tables. A bucket holds the addresses of the registered drivers of
its class. -/
structure Counted (known : AnyDriver → Prop) (r : Registry) : Prop where
  size : r.drivers.length = maxDrivers
  known : ∀ d ∈ r.registered, known d
  addrs : ∀ c, ((r.bucket c).map AnyDriver.addr).Perm
    ((r.registered.filter (c ∈ ·.deviceClass)).map AnyDriver.addr)
  count : r.registeredDrivers.toNat = r.registered.length
  countOf : ∀ c, (r.registeredOf c).toNat = (r.bucket c).length

section

variable {known : AnyDriver → Prop} {r : Registry} {maxIrqs : ℕ} {driver : AnyDriver}

theorem new_counted (known : AnyDriver → Prop) : Counted known {} where
  size := List.length_replicate
  known := by simp [Registry.registered]
  addrs := by simp [Registry.registered, Registry.bucket]
  count := by simp [Registry.registered]
  countOf := by simp [Registry.bucket]

/-- The table of the fast path does not matter. -/
theorem Counted.withIrqs (h : Counted known r) (irqs : ℕ → Option AnyDriver) (conflicts : UInt32) :
    Counted known { r with irqDrivers := irqs, irqFastConflicts := conflicts } :=
  ⟨h.size, h.known, h.addrs, h.count, h.countOf⟩

theorem Counted.registered_length_le (h : Counted known r) : r.registered.length ≤ maxDrivers :=
  h.size ▸ List.reduceOption_length_le r.drivers

theorem Counted.bucket_length_le (h : Counted known r) (c : DeviceClass) :
    (r.bucket c).length ≤ maxDrivers := by
  have hlen := (h.addrs c).length_eq
  rw [List.length_map, List.length_map] at hlen
  calc (r.bucket c).length = (r.registered.filter (c ∈ ·.deviceClass)).length := hlen
    _ ≤ r.registered.length := List.length_filter_le _ _
    _ ≤ maxDrivers := h.registered_length_le

theorem toNat_add_one {n : UInt32} (h : n.toNat ≤ maxDrivers) : (n + 1).toNat = n.toNat + 1 := by
  have hone : (1 : UInt32).toNat = 1 := rfl
  rw [maxDrivers] at h
  rw [UInt32.toNat_add, hone]
  omega

theorem toNat_sub_one {n : UInt32} (h : 0 < n.toNat) : (n - 1).toNat = n.toNat - 1 :=
  UInt32.toNat_sub_of_le n 1 (UInt32.le_iff_toNat_le.mpr h)

theorem Counted.store (h : Counted known r) {idx : ℕ}
    (hidx : r.drivers.findIdx? Option.isNone = some idx)
    (hroom : ∀ c ∈ driver.deviceClass, none ∈ r.buckets c) (hknown : known driver) :
    Counted known (r.store driver idx) := by
  have hperm : (r.store driver idx).registered.Perm (driver :: r.registered) :=
    registered_store hidx
  have hbucket : ∀ c, ((r.store driver idx).bucket c).Perm
      (if c ∈ driver.deviceClass then driver :: r.bucket c else r.bucket c) := by
    intro c
    simp only [Registry.bucket, Registry.store]
    split_ifs with hc
    · exact reduceOption_pushSlot (hroom c hc)
    · exact .refl _
  refine ⟨?_, ?_, ?_, ?_, ?_⟩
  · simpa [Registry.store] using h.size
  · intro d hd
    rw [hperm.mem_iff, List.mem_cons] at hd
    rcases hd with rfl | hd
    · exact hknown
    · exact h.known d hd
  · intro c
    refine ((hbucket c).map _).trans (.trans ?_ ((hperm.filter _).map _).symm)
    by_cases hc : c ∈ driver.deviceClass
    · simpa [hc] using h.addrs c
    · simpa [hc] using h.addrs c
  · change (r.registeredDrivers + 1).toNat = _
    rw [toNat_add_one (h.count ▸ h.registered_length_le), h.count, hperm.length_eq,
      List.length_cons]
  · intro c
    rw [(hbucket c).length_eq]
    simp only [Registry.store]
    split_ifs
    · rw [toNat_add_one (h.countOf c ▸ h.bucket_length_le c), h.countOf, List.length_cons]
    · exact h.countOf c

theorem Counted.register (h : Counted known r) (hknown : known driver) :
    Counted known (r.registerDriver maxIrqs driver).2 := by
  rcases registerDriver_cases maxIrqs driver r with ⟨e, herr⟩ | ⟨idx, hidx, hroom, hstore⟩
  · rw [herr]
    exact h
  · rcases registerIrqFastPath_spec maxIrqs driver (r.store driver idx) with
      ⟨irqs, conflicts, hirq, -⟩
    rw [hstore, hirq]
    exact (h.store hidx hroom hknown).withIrqs irqs conflicts

theorem Counted.exists_in_bucket (h : Counted known r) (hmem : driver ∈ r.registered)
    {c : DeviceClass} (hc : c ∈ driver.deviceClass) : ∃ d ∈ r.bucket c, addrEq d driver = true := by
  have haddr : driver.addr ∈ (r.bucket c).map AnyDriver.addr := by
    rw [(h.addrs c).mem_iff]
    exact List.mem_map_of_mem (List.mem_filter.mpr ⟨hmem, decide_eq_true hc⟩)
  obtain ⟨d, hd, heq⟩ := List.mem_map.mp haddr
  exact ⟨d, hd, decide_eq_true heq⟩

theorem Counted.not_in_bucket (h : Counted known r) (hclass : OneClassPerAddr known)
    (hmem : driver ∈ r.registered) {c : DeviceClass} (hc : c ∉ driver.deviceClass) :
    ∀ d ∈ r.bucket c, ¬addrEq d driver = true := by
  intro d hd heq
  have haddr : d.addr ∈ (r.registered.filter (c ∈ ·.deviceClass)).map AnyDriver.addr :=
    (h.addrs c).mem_iff.mp (List.mem_map_of_mem hd)
  obtain ⟨d', hd', heq'⟩ := List.mem_map.mp haddr
  rw [List.mem_filter, decide_eq_true_eq] at hd'
  have hsame := hclass d' driver (h.known d' hd'.1) (h.known driver hmem)
    (heq'.trans (of_decide_eq_true heq))
  exact hc (hsame ▸ hd'.2)

theorem Counted.pos (h : Counted known r) (hmem : driver ∈ r.registered) :
    0 < r.registeredDrivers.toNat ∧ ∀ c ∈ driver.deviceClass, 0 < (r.registeredOf c).toNat := by
  refine ⟨?_, fun c hc => ?_⟩
  · rw [h.count]
    exact List.length_pos_of_mem hmem
  · obtain ⟨d, hd, -⟩ := h.exists_in_bucket hmem hc
    rw [h.countOf]
    exact List.length_pos_of_mem hd

theorem map_addr_eraseP (l : List AnyDriver) (driver : AnyDriver) :
    (l.eraseP (addrEq · driver)).map AnyDriver.addr = (l.map AnyDriver.addr).erase driver.addr := by
  rw [List.erase_eq_eraseP', List.eraseP_map]
  congr 2

/-- The tables and counters that the driver found by `p` has left. -/
theorem Counted.forget (h : Counted known r) (hclass : OneClassPerAddr known)
    {p : AnyDriver → Bool} (hfind : r.registered.find? p = some driver) :
    Counted known ({ r with drivers := removeSlot p r.drivers }.forget driver) := by
  have hmem : driver ∈ r.registered := List.mem_of_find?_eq_some hfind
  obtain ⟨hpos, hposOf⟩ := h.pos hmem
  have hregistered : ({ r with drivers := removeSlot p r.drivers }.forget driver).registered =
      r.registered.erase driver :=
    reduceOption_removeSlot.trans (eraseP_eq_erase hfind)
  have hbucket : ∀ c, ({ r with drivers := removeSlot p r.drivers }.forget driver).bucket c =
      (r.bucket c).eraseP (addrEq · driver) := fun c => reduceOption_removeSlot
  have hperm : r.registered.Perm (driver :: r.registered.erase driver) :=
    List.perm_cons_erase hmem
  refine ⟨?_, ?_, ?_, ?_, ?_⟩
  · simpa [Registry.forget] using h.size
  · intro d hd
    rw [hregistered] at hd
    exact h.known d (List.mem_of_mem_erase hd)
  · intro c
    have hfiltered := (hperm.filter (c ∈ ·.deviceClass)).map AnyDriver.addr
    rw [hbucket, hregistered]
    by_cases hc : c ∈ driver.deviceClass
    · rw [map_addr_eraseP]
      refine ((h.addrs c).erase driver.addr).trans ?_
      simpa [hc] using hfiltered.erase driver.addr
    · rw [List.eraseP_of_forall_not (h.not_in_bucket hclass hmem hc)]
      refine (h.addrs c).trans ?_
      simpa [hc] using hfiltered
  · rw [hregistered, List.length_erase_of_mem hmem, ← h.count]
    exact toNat_sub_one hpos
  · intro c
    rw [hbucket]
    simp only [Registry.forget]
    split_ifs with hc
    · obtain ⟨d, hd, heq⟩ := h.exists_in_bucket hmem hc
      rw [toNat_sub_one (hposOf c hc), List.length_eraseP_of_mem hd heq, h.countOf]
    · rw [List.eraseP_of_forall_not (h.not_in_bucket hclass hmem hc), h.countOf]

theorem Counted.unregisterWhere (h : Counted known r) (hclass : OneClassPerAddr known)
    (p : AnyDriver → Bool) : Counted known (r.unregisterWhere maxIrqs p).2 := by
  rw [Registry.unregisterWhere, findSlot_eq_find, ← Registry.registered]
  cases hfind : r.registered.find? p with
  | none => exact h
  | some driver =>
    rcases unregisterIrqFastPath_spec maxIrqs driver { r with drivers := removeSlot p r.drivers }
      with ⟨irqs, hirq, -, -⟩
    dsimp only
    rw [hirq]
    exact (h.forget hclass hfind).withIrqs irqs r.irqFastConflicts

theorem Counted.exec (h : Counted known r) (hclass : OneClassPerAddr known) {op : RegistryOp}
    (hknown : ∀ d, op = .register d → known d) : Counted known (r.exec maxIrqs op).2 := by
  cases op with
  | register driver => exact h.register (hknown driver rfl)
  | unregister name => exact h.unregisterWhere hclass _
  | unregisterByIdentity identity => exact h.unregisterWhere hclass _

theorem mem_registered_of_takenOut {op : RegistryOp} (htaken : r.takenOut op = some driver) :
    driver ∈ r.registered := by
  have hfound : ∀ p, findSlot p r.drivers = some driver → driver ∈ r.registered := by
    intro p hp
    rw [findSlot_eq_find] at hp
    exact List.mem_of_find?_eq_some hp
  cases op with
  | register driver => cases htaken
  | unregister name => exact hfound _ htaken
  | unregisterByIdentity identity => exact hfound _ htaken

end

/-! ## The factories -/

section

variable {m : Manager} {maxIrqs : ℕ}

/-- The table of the factories keeps its size, and nothing is counted. -/
structure Uncounted (m : Manager) : Prop where
  size : m.factories.length = maxFactories
  count : m.registeredFactories = 0

theorem new_uncounted : Uncounted {} := ⟨List.length_replicate, rfl⟩

/-- A factory is refused if it is there or the table is full, and is added otherwise. -/
theorem registerFactory_cases (factory : FactoryPtr) (m : Manager) :
    (∃ e, m.registerFactory factory = (.error e, m) ∧
        (factory ∈ m.factories.reduceOption ∨ none ∉ m.factories)) ∨
      none ∈ m.factories ∧ m.registerFactory factory =
        (.ok (), { m with factories := pushSlot factory m.factories }) := by
  unfold Manager.registerFactory
  rw [scanSlots_eq]
  split_ifs with hsame
  · left
    refine ⟨.invalidConfig, rfl, .inl ?_⟩
    simpa using hsame
  · cases hidx : m.factories.findIdx? Option.isNone with
    | none =>
      left
      refine ⟨.registryFull, rfl, .inr fun hroom => ?_⟩
      exact absurd (List.findIdx?_eq_none_iff.mp hidx none hroom) (by decide)
    | some idx =>
      right
      refine ⟨none_mem_of_findIdx hidx, ?_⟩
      rw [← set_findIdx idx hidx]
      rfl

theorem Uncounted.exec (h : Uncounted m) (op : ManagerOp) : Uncounted (m.exec maxIrqs op).2 := by
  cases op with
  | registry op => exact ⟨h.size, h.count⟩
  | registerFactory factory =>
    rw [Manager.exec]
    rcases registerFactory_cases factory m with ⟨e, herr, -⟩ | ⟨-, hok⟩
    · rw [herr]
      exact h
    · rw [hok]
      exact ⟨length_pushSlot.trans h.size, h.count⟩

/-- The table is empty as long as no factory was to be registered: a refused one finds an entry in
it too. -/
theorem Uncounted.factories_eq_nil_iff (h : Uncounted m) (op : ManagerOp) :
    (m.exec maxIrqs op).2.factories.reduceOption = [] ↔
      m.factories.reduceOption = [] ∧ ∀ factory, op ≠ .registerFactory factory := by
  cases op with
  | registry op => simp [Manager.exec]
  | registerFactory factory =>
    have hfilled : (m.registerFactory factory).2.factories.reduceOption ≠ [] := by
      rcases registerFactory_cases factory m with ⟨e, herr, hsame | hfull⟩ | ⟨hroom, hok⟩
      · rw [herr]
        exact List.ne_nil_of_mem hsame
      · rw [herr]
        intro hnil
        rw [← List.reduceOption_length_lt_iff, hnil, h.size] at hfull
        exact hfull (Nat.succ_pos 15)
      · rw [hok]
        intro hnil
        have hperm := reduceOption_pushSlot (x := factory) hroom
        rw [hnil] at hperm
        cases hperm.length_eq
    constructor
    · exact fun hnil => absurd hnil hfilled
    · exact fun hno => absurd rfl (hno.2 factory)

end

/-! ## Histories -/

theorem after_append (maxIrqs : ℕ) (ops : List ManagerOp) (op : ManagerOp) :
    Manager.after maxIrqs (ops ++ [op]) = ((Manager.after maxIrqs ops).exec maxIrqs op).2 := by
  rw [Manager.after, List.foldl_append]
  rfl

theorem after_counted (maxIrqs : ℕ) {known : AnyDriver → Prop} (hclass : OneClassPerAddr known)
    {ops : List ManagerOp} (hknown : ∀ d, .registry (.register d) ∈ ops → known d) :
    Counted known (Manager.after maxIrqs ops).registry := by
  induction ops using List.reverseRecOn with
  | nil => exact new_counted known
  | append_singleton ops op ih =>
    have hprev := ih fun d hd => hknown d (List.mem_append_left _ hd)
    rw [after_append]
    cases op with
    | registry op =>
      refine hprev.exec hclass ?_
      rintro d rfl
      exact hknown d (List.mem_append_right _ List.mem_cons_self)
    | registerFactory factory =>
      rw [Manager.exec]
      rcases registerFactory_cases factory (Manager.after maxIrqs ops) with
        ⟨e, herr, -⟩ | ⟨-, hok⟩
      · rw [herr]
        exact hprev
      · rw [hok]
        exact hprev

theorem after_uncounted (maxIrqs : ℕ) (ops : List ManagerOp) :
    Uncounted (Manager.after maxIrqs ops) := by
  induction ops using List.reverseRecOn with
  | nil => exact new_uncounted
  | append_singleton ops op ih =>
    rw [after_append]
    exact ih.exec op

theorem after_factories_eq_nil_iff (maxIrqs : ℕ) (ops : List ManagerOp) :
    (Manager.after maxIrqs ops).factories.reduceOption = [] ↔
      ∀ factory, .registerFactory factory ∉ ops := by
  induction ops using List.reverseRecOn with
  | nil => simp [Manager.after]
  | append_singleton ops op ih =>
    rw [after_append, (after_uncounted maxIrqs ops).factories_eq_nil_iff, ih, ← forall_and]
    refine forall_congr' fun factory => ?_
    rw [List.mem_append, List.mem_singleton, not_or, ne_comm]

/-- After any operations with drivers that keep their addresses apart by class, the counters of the
drivers and classes are the numbers of entries in their tables, and none of them is zero where it
goes down. The counter of the factories is right only if there was no factory to register. -/
theorem registry_stats_exact_iff (maxIrqs : ℕ) (ops : List ManagerOp)
    (hclass : OneClassPerAddr fun d => .registry (.register d) ∈ ops) :
    let m := Manager.after maxIrqs ops
    let stats := m.registryStats maxIrqs
    stats.registeredDrivers = occupied m.registry.drivers ∧
      (∀ c, stats.registeredOf c = occupied (m.registry.buckets c)) ∧
      (∀ op d, m.registry.takenOut op = some d → 0 < stats.registeredDrivers ∧
        ∀ c ∈ d.deviceClass, 0 < stats.registeredOf c) ∧
      (stats.registeredFactories = occupied m.factories ↔
        ∀ factory, .registerFactory factory ∉ ops) := by
  intro m stats
  have hcounted := after_counted maxIrqs hclass fun d hd => hd
  have hof : ∀ c, stats.registeredOf c = (m.registry.registeredOf c).toNat := by
    intro c
    cases c <;> rfl
  refine ⟨?_, fun c => ?_, fun op d htaken => ?_, ?_⟩
  · rw [occupied_eq_length]
    exact hcounted.count
  · rw [occupied_eq_length, hof]
    exact hcounted.countOf c
  · obtain ⟨hpos, hposOf⟩ := hcounted.pos (mem_registered_of_takenOut htaken)
    exact ⟨hpos, fun c hc => hof c ▸ hposOf c hc⟩
  · have hzero : stats.registeredFactories = 0 :=
      congrArg UInt32.toNat (after_uncounted maxIrqs ops).count
    rw [hzero, occupied_eq_length, eq_comm, List.length_eq_zero_iff]
    exact after_factories_eq_nil_iff maxIrqs ops

theorem uarts_stats_exact :
    let ops : List ManagerOp := [.registry (.register (uartAt 1 0x1000)),
      .registry (.register (uartAt 2 0x2000)), .registry (.unregister [0x75, 0x61, 0x72, 0x74])]
    let m := Manager.after 64 ops
    let stats := m.registryStats 64
    m.registry.registered = [uartAt 2 0x2000] ∧ stats.registeredDrivers = occupied m.registry.drivers ∧
      stats.registeredOf .char = occupied (m.registry.buckets .char) ∧
      stats.registeredFactories = occupied m.factories := by
  intro ops m stats
  have hclass : OneClassPerAddr fun d => .registry (.register d) ∈ ops := by
    have hmem : ∀ d, .registry (.register d) ∈ ops → d = uartAt 1 0x1000 ∨ d = uartAt 2 0x2000 := by
      simp [ops]
    intro d d' hd hd' _
    rcases hmem d hd with rfl | rfl <;> rcases hmem d' hd' with rfl | rfl <;> rfl
  obtain ⟨hdrivers, hof, -, hfactories⟩ := registry_stats_exact_iff 64 ops hclass
  exact ⟨by decide +kernel, hdrivers, hof .char, hfactories.mpr (by simp [ops])⟩

/-- One factory is registered, and the statistics still report none. -/
theorem factories_not_counted :
    let m := Manager.after 64 [.registerFactory ⟨0x1000, 0x2000⟩]
    m.factories.head? = some (some ⟨0x1000, 0x2000⟩) ∧ occupied m.factories = 1 ∧
      (m.registryStats 64).registeredFactories = 0 := by
  decide +kernel

/-- A block device at the address of a serial port takes the port out of its bucket as it leaves,
which the counter of the class does not see. -/
example :
    let disk : AnyDriver :=
      { addr := 1, name := [0x64], resource := ⟨0x3000, 11⟩, deviceClass := {.block} }
    let m := Manager.after 64 [.registry (.register (uartAt 1 0x1000)), .registry (.register disk),
      .registry (.unregister [0x64])]
    (m.registryStats 64).registeredOf .char = 1 ∧ occupied (m.registry.buckets .char) = 0 := by
  decide +kernel

end OpenIon.Driver
