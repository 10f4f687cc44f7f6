import OpenIon.Driver.AutoProbe
import OpenIon.Fdt.Blob

/-! # When probing leaves only working drivers

Each attempt is of one of four kinds, by how far it came. Probing does what it is for,
and undoes what it could not finish, exactly if no attempt ends after the registration
and none takes a slot of a pool for a node that gets no driver.
-/
namespace OpenIon.Driver
open Lib Fdt

/-- How an attempt ends: before a slot of a pool was taken, after that, after the driver was
registered, or with a driver that works. -/
inductive Attempt where
  | refused
  | wasted
  | dead
  | up
  deriving DecidableEq

/-- A registration is refused or adds the driver. -/
theorem registerDriver_refused_or_added (maxIrqs : ℕ) (driver : AnyDriver) (r : Registry) :
    (∃ e, r.registerDriver maxIrqs driver = (.error e, r)) ∨
      ∃ r', r.registerDriver maxIrqs driver = (.ok (), r') ∧
        r'.registered.Perm (driver :: r.registered) := by
  rcases registerDriver_cases maxIrqs driver r with herr | ⟨idx, hidx, -, hstore⟩
  · exact .inl herr
  · refine .inr ⟨_, hstore, ?_⟩
    rcases registerIrqFastPath_spec maxIrqs driver (r.store driver idx) with
      ⟨irqs, conflicts, hirq, -⟩
    rw [hirq]
    exact registered_store hidx

namespace Probing

variable (maxIrqs : ℕ) (env : ℕ → Outcome) (resource : ProbeResource) (node : FdtNode)
  (factories : List (Option Factory))

def kind (f : Factory) (w : Probing) : Attempt :=
  let o := env w.attempts
  if f.checksId && !o.idMatches then .refused
  else if f.capacity ≤ w.next f.pool || f.initsHw && !o.initHw then .wasted
  else
    match (w.registry.registerDriver maxIrqs (f.driver (w.next f.pool) resource node)).1 with
    | .error _ => .wasted
    | .ok _ => if o.autoInit then .up else .dead

/-- The factories in the order in which a node matches their texts. -/
def candidates (fs : List (Option Factory)) : List Factory :=
  fs.reduceOption.flatMap fun f => (f.compatible.filter node.compatibleMatches).map fun _ => f

/-- The attempts on a node, until one brings a driver up. -/
def tryEach : List Factory → Probing → Option AnyDriver × Probing
  | [], w => (none, w)
  | f :: fs, w => orNext (attempt maxIrqs env resource node f w) (tryEach fs)

def kinds : List Factory → Probing → List Attempt
  | [], _ => []
  | f :: fs, w =>
    if kind maxIrqs env resource node f w = .up then [.up]
    else kind maxIrqs env resource node f w :: kinds fs (attempt maxIrqs env resource node f w).2

/-- What an attempt of each kind does. -/
inductive Did (w : Probing) (f : Factory) : Attempt → Option AnyDriver × Probing → Prop
  | refused {w'} (hregistry : w'.registry = w.registry) (hnext : w'.next = w.next) :
    Did w f .refused (none, w')
  | wasted {w'} (hregistry : w'.registry = w.registry)
    (hnext : w'.next = Function.update w.next f.pool (w.next f.pool + 1)) :
    Did w f .wasted (none, w')
  | dead {w'} (driver) (hregistry : w'.registry.registered.Perm (driver :: w.registry.registered))
    (hnext : w'.next = Function.update w.next f.pool (w.next f.pool + 1)) :
    Did w f .dead (none, w')
  | up {w'} (driver) (hregistry : w'.registry.registered.Perm (driver :: w.registry.registered)) :
    Did w f .up (some driver, w')

variable {maxIrqs env resource node factories} {w w' : Probing} {f : Factory}

theorem did_attempt (f : Factory) (w : Probing) :
    Did w f (kind maxIrqs env resource node f w) (attempt maxIrqs env resource node f w) := by
  rw [kind, attempt]
  rw [probe]
  by_cases hid : (f.checksId && !(env w.attempts).idMatches) = true
  · rw [if_pos hid, if_pos hid]
    exact .refused rfl rfl
  rw [if_neg hid, if_neg hid, alloc]
  dsimp only
  by_cases hfull : f.capacity ≤ w.next f.pool
  · simp only [hfull, if_true, decide_true, Bool.true_or]
    exact .wasted rfl rfl
  by_cases hhw : (f.initsHw && !(env w.attempts).initHw) = true
  · simp only [hfull, if_false, decide_false, Bool.false_or, hhw, if_true]
    exact .wasted rfl rfl
  simp only [hfull, if_false, decide_false, Bool.false_or, hhw, Bool.false_eq_true]
  rcases registerDriver_refused_or_added maxIrqs (f.driver (w.next f.pool) resource node) w.registry with
    ⟨e, hreg⟩ | ⟨r', hreg, hperm⟩
  · simp only [hreg]
    exact .wasted rfl rfl
  · simp only [hreg]
    split
    · exact .up _ hperm
    · exact .dead _ hperm rfl

theorem orNext_assoc (x : Option AnyDriver × Probing) (k k' : Probing → Option AnyDriver × Probing) :
    orNext (orNext x k) k' = orNext x fun w => orNext (k w) k' := by
  rcases x with ⟨_ | driver, w⟩
  · rfl
  · rfl

theorem tryEach_append (fs gs : List Factory) (w : Probing) :
    tryEach maxIrqs env resource node (fs ++ gs) w =
      orNext (tryEach maxIrqs env resource node fs w) (tryEach maxIrqs env resource node gs) := by
  induction fs generalizing w with
  | nil => rfl
  | cons f fs ih =>
    rw [List.cons_append, tryEach, tryEach, orNext_assoc]
    congr 1
    funext w
    exact ih w

theorem tryCompatible_eq (f : Factory) (cs : List (List UInt8)) (w : Probing) :
    tryCompatible maxIrqs env resource node f cs w =
      tryEach maxIrqs env resource node
        ((cs.filter node.compatibleMatches).map fun _ => f) w := by
  induction cs generalizing w with
  | nil => rfl
  | cons c cs ih =>
    rw [tryCompatible, List.filter_cons]
    split
    · rw [List.map_cons, tryEach]
      congr 1
      funext w
      exact ih w
    · exact ih w

/-- The nested loops try the candidates one after the other. -/
theorem tryFactories_eq (fs : List (Option Factory)) (w : Probing) :
    tryFactories maxIrqs env resource node fs w =
      tryEach maxIrqs env resource node (candidates node fs) w := by
  induction fs generalizing w with
  | nil => rfl
  | cons f fs ih =>
    cases f with
    | none => exact ih w
    | some f =>
      have hcandidates : candidates node (some f :: fs) =
          ((f.compatible.filter node.compatibleMatches).map fun _ => f) ++ candidates node fs := by
        simp [candidates]
      rw [tryFactories, hcandidates, tryEach_append, tryCompatible_eq]
      congr 1
      funext w
      exact ih w

/-- What the attempts on a node do, by their kinds. -/
structure Tried (w : Probing) (ks : List Attempt) (x : Option AnyDriver × Probing) : Prop where
  up_iff : x.1.isSome = true ↔ .up ∈ ks
  length : x.2.registry.registered.length =
    w.registry.registered.length + ks.count .dead + x.1.toList.length
  drivers : .dead ∉ ks → x.2.registry.registered.Perm (x.1.toList ++ w.registry.registered)
  registry : .dead ∉ ks → x.1 = none → x.2.registry = w.registry
  le : x.1 = none → ∀ p, w.next p ≤ x.2.next p
  next : x.1 = none → (x.2.next = w.next ↔ ∀ k ∈ ks, k = .refused)

theorem next_ne_of_le {g : ℕ → ℕ}
    (h : ∀ p, Function.update w.next f.pool (w.next f.pool + 1) p ≤ g p) : g ≠ w.next := by
  rintro rfl
  have hpool := h f.pool
  rw [Function.update_self] at hpool
  omega

theorem le_update_succ (p : ℕ) :
    w.next p ≤ Function.update w.next f.pool (w.next f.pool + 1) p := by
  rw [Function.update_apply]
  split_ifs with hp
  · rw [hp]
    omega
  · exact le_rfl

theorem tried (fs : List Factory) (w : Probing) :
    Tried w (kinds maxIrqs env resource node fs w) (tryEach maxIrqs env resource node fs w) := by
  induction fs generalizing w with
  | nil => exact ⟨by simp [tryEach, kinds], rfl, fun _ => .refl _, fun _ _ => rfl, fun _ _ => le_rfl,
      fun _ => by simp [kinds, tryEach]⟩
  | cons f fs ih =>
    rw [tryEach, kinds]
    generalize hk : kind maxIrqs env resource node f w = k
    generalize hx : attempt maxIrqs env resource node f w = x
    have hdid : Did w f k x := hk ▸ hx ▸ did_attempt f w
    cases hdid with
    | up driver hregistry =>
      rw [if_pos rfl]
      refine ⟨by simp [orNext], ?_, fun _ => hregistry, ?_, ?_, ?_⟩
      · simpa [orNext] using hregistry.length_eq
      all_goals simp [orNext]
    | @refused w' hregistry hnext =>
      rw [if_neg (by decide)]
      change Tried w (.refused :: kinds maxIrqs env resource node fs w')
        (tryEach maxIrqs env resource node fs w')
      rcases ih w' with ⟨hup, hlength, hdrivers, hreg, hle, hfree⟩
      rw [hregistry] at hlength hdrivers hreg
      rw [hnext] at hle hfree
      exact ⟨by simpa using hup, by simpa using hlength, by simpa using hdrivers, by simpa using hreg,
        hle, by simpa using hfree⟩
    | @wasted w' hregistry hnext =>
      rw [if_neg (by decide)]
      change Tried w (.wasted :: kinds maxIrqs env resource node fs w')
        (tryEach maxIrqs env resource node fs w')
      rcases ih w' with ⟨hup, hlength, hdrivers, hreg, hle, -⟩
      rw [hregistry] at hlength hdrivers hreg
      rw [hnext] at hle
      refine ⟨by simpa using hup, by simpa using hlength, by simpa using hdrivers, by simpa using hreg,
        fun hnone p => (le_update_succ p).trans (hle hnone p), fun hnone => ?_⟩
      simp [next_ne_of_le (hle hnone)]
    | @dead w' driver hregistry hnext =>
      rw [if_neg (by decide)]
      change Tried w (.dead :: kinds maxIrqs env resource node fs w')
        (tryEach maxIrqs env resource node fs w')
      rcases ih w' with ⟨hup, hlength, hdrivers, hreg, hle, -⟩
      rw [hregistry.length_eq, List.length_cons] at hlength
      rw [hnext] at hle
      refine ⟨by simpa using hup, ?_, by simp, by simp,
        fun hnone p => (le_update_succ p).trans (hle hnone p), fun hnone => ?_⟩
      · rw [hlength, List.count_cons_self]
        omega
      · simp [next_ne_of_le (hle hnone)]

variable (maxIrqs env factories) in
def nodeKinds (w : Probing) (node : FdtNode) : List Attempt :=
  if !node.isAvailable then []
  else
    match node.firstReg with
    | none => []
    | some reg =>
      kinds maxIrqs env ⟨⟨reg.base, node.interruptOrZero⟩, reg.size⟩ node (candidates node factories) w

theorem tried_probeNode (w : Probing) (node : FdtNode) :
    Tried w (nodeKinds maxIrqs env factories w node) (probeNode maxIrqs env factories node w) := by
  have hnothing : Tried w [] (none, w) :=
    ⟨by simp, by simp, fun _ => .refl _, fun _ _ => rfl, fun _ _ => le_rfl, fun _ => by simp⟩
  rw [nodeKinds, probeNode]
  split
  · exact hnothing
  · cases node.firstReg with
    | none => exact hnothing
    | some reg =>
      dsimp only
      rw [tryFactories_eq]
      exact tried _ w

variable (maxIrqs env factories) in
/-- A node gets one driver at most, and every driver it got works. If it got none, then the registry
and the pools are as they were. -/
structure NodeSound (w : Probing) (node : FdtNode) : Prop where
  working : ∀ d ∈ (probeNode maxIrqs env factories node w).2.registry.registered,
    d ∈ w.registry.registered ∨ (probeNode maxIrqs env factories node w).1 = some d
  single : (probeNode maxIrqs env factories node w).2.registry.registered.length ≤
    w.registry.registered.length + 1
  clean : (probeNode maxIrqs env factories node w).1 = none →
    (probeNode maxIrqs env factories node w).2.registry = w.registry ∧
      (probeNode maxIrqs env factories node w).2.next = w.next

variable (maxIrqs env factories) in
/-- No attempt fails after the registration, and none takes a slot for a node without a driver. -/
def NothingToUndo (w : Probing) (node : FdtNode) : Prop :=
  .dead ∉ nodeKinds maxIrqs env factories w node ∧
    (.up ∈ nodeKinds maxIrqs env factories w node ∨
      ∀ k ∈ nodeKinds maxIrqs env factories w node, k = .refused)

theorem nodeSound_iff (w : Probing) (node : FdtNode) :
    NodeSound maxIrqs env factories w node ↔ NothingToUndo maxIrqs env factories w node := by
  have htried : Tried w (nodeKinds maxIrqs env factories w node)
      (probeNode maxIrqs env factories node w) := tried_probeNode w node
  rw [NothingToUndo]
  generalize nodeKinds maxIrqs env factories w node = ks at htried ⊢
  constructor
  · rintro ⟨-, hsingle, hclean⟩
    have hlength := htried.length
    cases hx : (probeNode maxIrqs env factories node w).1 with
    | none =>
      rcases hclean hx with ⟨hregistry, hnext⟩
      rw [hregistry, hx] at hlength
      refine ⟨List.count_eq_zero.mp ?_, .inr ((htried.next hx).mp hnext)⟩
      simpa using hlength
    | some driver =>
      rw [hx] at hlength
      refine ⟨List.count_eq_zero.mp ?_, .inl (htried.up_iff.mp (by rw [hx]; rfl))⟩
      simp only [Option.toList_some, List.length_singleton] at hlength
      omega
  · rintro ⟨hdead, hends⟩
    refine ⟨?_, ?_, ?_⟩
    · intro d hd
      have hmem := (htried.drivers hdead).mem_iff.mp hd
      rw [List.mem_append, Option.mem_toList] at hmem
      exact hmem.symm
    · have hlength := htried.length
      rw [List.count_eq_zero.mpr hdead] at hlength
      have hle : (probeNode maxIrqs env factories node w).1.toList.length ≤ 1 := by
        cases (probeNode maxIrqs env factories node w).1 <;> simp
      omega
    · intro hx
      refine ⟨htried.registry hdead hx, (htried.next hx).mpr ?_⟩
      rcases hends with hup | hrefused
      · have hsome := htried.up_iff.mpr hup
        rw [hx] at hsome
        cases hsome
      · exact hrefused

variable (maxIrqs env factories) in
def step (w : Probing) (node : FdtNode) : Option Probing :=
  some (probeNode maxIrqs env factories node w).2

/-- If there is nothing to undo then the drivers that work are the ones that were added. -/
theorem registered_probeNodes (nodes : List FdtNode) (w : Probing)
    (h : Along (step maxIrqs env factories) (NothingToUndo maxIrqs env factories) w nodes) :
    (probeNodes maxIrqs env factories nodes w).2.registry.registered.Perm
      ((probeNodes maxIrqs env factories nodes w).1 ++ w.registry.registered) := by
  induction nodes generalizing w with
  | nil => exact .refl _
  | cons node nodes ih =>
    rcases h _ rfl with ⟨hnode, hrest⟩
    have hdrivers := (tried_probeNode w node).drivers hnode.1
    rw [probeNodes]
    dsimp only
    refine (ih _ hrest).trans ?_
    refine (hdrivers.append_left _).trans ?_
    rw [List.append_assoc, ← List.append_assoc, ← List.append_assoc]
    exact List.perm_append_comm.append_right _

end Probing

/-- What `auto_probe_fdt` is for: every driver that was added works, the count says how many were
added, and each node got one driver at most and left nothing behind if it got none. -/
structure ProbedWell (maxIrqs : ℕ) (env : ℕ → Outcome) (factories : List (Option Factory))
    (dtb : Option (List UInt8)) (w : Probing) : Prop where
  working : ∀ d ∈ (autoProbeFdt maxIrqs env factories dtb w).2.registry.registered,
    d ∈ w.registry.registered ∨ d ∈ (w.probeNodes maxIrqs env factories (dtbNodes dtb)).1
  count : (autoProbeFdt maxIrqs env factories dtb w).2.registry.registered.length =
    w.registry.registered.length + (autoProbeFdt maxIrqs env factories dtb w).1
  nodes : Along (Probing.step maxIrqs env factories) (Probing.NodeSound maxIrqs env factories) w
    (dtbNodes dtb)

/-- Probing works exactly if no attempt has to be undone. -/
theorem probed_well_iff (maxIrqs : ℕ) (env : ℕ → Outcome) (factories : List (Option Factory))
    (dtb : Option (List UInt8)) (w : Probing) :
    ProbedWell maxIrqs env factories dtb w ↔
      Along (Probing.step maxIrqs env factories) (Probing.NothingToUndo maxIrqs env factories) w
        (dtbNodes dtb) := by
  have hnodes : Probing.NodeSound maxIrqs env factories =
      Probing.NothingToUndo maxIrqs env factories := by
    funext w node
    exact propext (Probing.nodeSound_iff w node)
  constructor
  · intro h
    rw [← hnodes]
    exact h.nodes
  · intro h
    have hperm := Probing.registered_probeNodes (dtbNodes dtb) w h
    rw [← hnodes] at h
    refine ⟨?_, ?_, h⟩
    · intro d hd
      exact (List.mem_append.mp (hperm.mem_iff.mp hd)).symm
    · rw [autoProbeFdt]
      dsimp only
      rw [hperm.length_eq, List.length_append, Nat.add_comm]

/-- `Lan9118Factory`, with the addresses of the slots of its pool. -/
def lan9118Factory (slotAddr : ℕ → ℕ) : Factory where
  compatible := [ascii "smsc,lan9118"]
  pool := 0
  capacity := 2
  checksId := false
  initsHw := false
  driver idx resource _ :=
    { addr := slotAddr idx
      name := ascii "lan9118"
      resource := resource.toDeviceResource
      deviceClass := {.net} }

/-- A device tree with an Ethernet controller. -/
def ethBlob : List UInt8 :=
  [0xd00dfeed, 111, 16, 96].flatMap be32 ++
    be32 1 ++ [0, 0, 0, 0] ++
    be32 1 ++ ascii "eth" ++ [0] ++
      be32 3 ++ be32 12 ++ be32 0 ++ be32 0 ++ be32 0x40200000 ++ be32 0x100 ++
      be32 3 ++ be32 13 ++ be32 4 ++ ascii "smsc,lan9118" ++ [0, 0, 0, 0] ++
    be32 2 ++
    be32 2 ++ be32 9 ++
    ascii "reg" ++ [0] ++ ascii "compatible" ++ [0]

/-- The controller has another id, so `auto_init` fails. The driver stays registered and keeps its
slot, and the count does not tell. -/
theorem failed_driver_stays_registered :
    (autoProbeFdt 64 (fun _ => ⟨true, true, false⟩) [some (lan9118Factory id)] (some ethBlob) {}).1 =
      0 ∧
      (autoProbeFdt 64 (fun _ => ⟨true, true, false⟩) [some (lan9118Factory id)] (some ethBlob)
        {}).2.registry.registered.map AnyDriver.name = [ascii "lan9118"] ∧
      (autoProbeFdt 64 (fun _ => ⟨true, true, false⟩) [some (lan9118Factory id)] (some ethBlob)
        {}).2.next 0 = 1 ∧
      ¬ ProbedWell 64 (fun _ => ⟨true, true, false⟩) [some (lan9118Factory id)] (some ethBlob) {} := by
  have hcount : (autoProbeFdt 64 (fun _ => ⟨true, true, false⟩) [some (lan9118Factory id)]
      (some ethBlob) {}).1 = 0 := by decide +kernel
  have hnames : (autoProbeFdt 64 (fun _ => ⟨true, true, false⟩) [some (lan9118Factory id)]
      (some ethBlob) {}).2.registry.registered.map AnyDriver.name = [ascii "lan9118"] := by
    decide +kernel
  refine ⟨hcount, hnames, by decide +kernel, ?_⟩
  intro hwell
  have hlength := congrArg List.length hnames
  rw [List.length_map, hwell.count, hcount] at hlength
  cases hlength

end OpenIon.Driver
