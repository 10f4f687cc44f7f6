import OpenIon.Fdt.Blob
import OpenIon.Platform.RiscvGeneric.ExternalIrq

/-! # What the device tree says

`discover_dtb_info` walks over the device tree once. The memory, the frequency of the timer, the
interrupt controllers and the number of interrupts that the kernel knows come from there.
-/
namespace OpenIon.Platform.RiscvGeneric.Discovery
open Lib Fdt Arch.Riscv ExternalIrq

structure RiscvDtbInfo where
  cpuFreqHz : ℕ
  memoryBase : ℕ
  memorySize : ℕ
  plicBase : ℕ
  plicIrqSources : ℕ
  clicBase : ℕ
  clicIrqSources : ℕ
  clintBase : ℕ

namespace RiscvDtbInfo

def fallback : RiscvDtbInfo where
  cpuFreqHz := 10000000
  memoryBase := 0x80000000
  memorySize := 128 * 1024 * 1024
  plicBase := 0
  plicIrqSources := 64 - 1
  clicBase := 0
  clicIrqSources := 0
  clintBase := 0

def externalIrqCount (info : RiscvDtbInfo) : ℕ :=
  min (max info.plicIrqSources info.clicIrqSources + 1) (2 ^ 64 - 1)

end RiscvDtbInfo

section Node

variable (node : FdtNode)

def isMemory : Bool := node.deviceType.bind firstNulString = some (ascii "memory")

def isPlic : Bool :=
  node.compatibleMatches (ascii "riscv,plic0") ||
    node.compatibleMatches (ascii "sifive,plic-1.0.0")

def isClic : Bool :=
  node.compatibleMatches (ascii "riscv,clic0") ||
    node.compatibleMatches (ascii "sifive,clic-1.0.0")

def isClint : Bool :=
  node.compatibleMatches (ascii "riscv,clint0") || node.compatibleMatches (ascii "sifive,clint0")

def ndev : Option ℕ := node.propU32 (ascii "riscv,ndev")

def numints : Option ℕ :=
  ((node.propU32 (ascii "riscv,numints")).or (node.propU32 (ascii "riscv,num-interrupts"))).or
    (node.propU32 (ascii "riscv,ndev"))

end Node

/-- What the walk does with one node. A field for which the node has no value is kept. -/
def RiscvDtbInfo.visit (info : RiscvDtbInfo) (node : FdtNode) : RiscvDtbInfo :=
  if !node.isAvailable then info
  else
    let base := node.firstReg.map FdtReg.base
    let info :=
      if isMemory node then
        { info with
          memoryBase := base.getD info.memoryBase
          memorySize := (node.firstReg.map FdtReg.size).getD info.memorySize }
      else info
    let info := { info with cpuFreqHz := node.timebaseFrequency.getD info.cpuFreqHz }
    let info :=
      if isPlic node then
        { info with
          plicBase := base.getD info.plicBase
          plicIrqSources := (ndev node).getD info.plicIrqSources }
      else info
    let info :=
      if isClic node then
        { info with
          clicBase := base.getD info.clicBase
          clicIrqSources := (numints node).getD info.clicIrqSources }
      else info
    if isClint node then { info with clintBase := base.getD info.clintBase } else info

/-- Without a device tree the fallback is used. Nodes count also if the walk stops after them. -/
def discoverDtbInfo : Option (List UInt8) → RiscvDtbInfo
  | none => .fallback
  | some mem => (walkNodes mem).log.foldl .visit .fallback

/-! ### The last node counts -/

/-- The value of the last available node that has one. -/
def latest {α : Type} (f : FdtNode → Option α) (nodes : List FdtNode) : Option α :=
  (nodes.filter (·.isAvailable)).reverse.findSome? f

/-- A value that only nodes of one kind have. -/
def only {α : Type} (kind : FdtNode → Bool) (f : FdtNode → Option α) (node : FdtNode) : Option α :=
  if kind node then f node else none

/-- Each field for itself: that of the last available node which has a value for it. -/
def RiscvDtbInfo.ofNodes (nodes : List FdtNode) : RiscvDtbInfo where
  cpuFreqHz := (latest (·.timebaseFrequency) nodes).getD 10000000
  memoryBase := ((latest (only isMemory (·.firstReg)) nodes).map FdtReg.base).getD 0x80000000
  memorySize := ((latest (only isMemory (·.firstReg)) nodes).map FdtReg.size).getD 0x8000000
  plicBase := ((latest (only isPlic (·.firstReg)) nodes).map FdtReg.base).getD 0
  plicIrqSources := (latest (only isPlic ndev) nodes).getD 63
  clicBase := ((latest (only isClic (·.firstReg)) nodes).map FdtReg.base).getD 0
  clicIrqSources := (latest (only isClic numints) nodes).getD 0
  clintBase := ((latest (only isClint (·.firstReg)) nodes).map FdtReg.base).getD 0

variable {α : Type} {f : FdtNode → Option α} {nodes : List FdtNode} {node : FdtNode}

theorem latest_concat :
    latest f (nodes ++ [node]) =
      if node.isAvailable then (f node).or (latest f nodes) else latest f nodes := by
  cases havailable : node.isAvailable
  · simp [latest, havailable]
  · simp only [latest, List.filter_append, List.filter_cons_of_pos havailable, List.filter_nil,
      List.reverse_append, List.reverse_singleton, List.singleton_append, if_true]
    cases hf : f node <;> simp [hf]

theorem ofNodes_concat :
    RiscvDtbInfo.ofNodes (nodes ++ [node]) = (RiscvDtbInfo.ofNodes nodes).visit node := by
  cases havailable : node.isAvailable
  · simp [RiscvDtbInfo.ofNodes, RiscvDtbInfo.visit, latest_concat, havailable]
  · cases hmemory : isMemory node <;> cases hplic : isPlic node <;> cases hclic : isClic node <;>
      cases hclint : isClint node <;>
      simp [RiscvDtbInfo.ofNodes, RiscvDtbInfo.visit, latest_concat, only, havailable, hmemory,
        hplic, hclic, hclint, Option.getD_or, Option.map_or]

theorem foldl_visit (nodes : List FdtNode) :
    nodes.foldl .visit .fallback = RiscvDtbInfo.ofNodes nodes := by
  induction nodes using List.reverseRecOn with
  | nil => rfl
  | append_singleton nodes node ih => rw [List.foldl_concat, ih, ofNodes_concat]

/-- On a flattened tree each field is that of the last available node which has a value for it, of
those less than sixteen deep and children before their parent. The address and the number of
interrupts of a controller can so come from two nodes. -/
theorem discovery_takes_last {t : Tree} {mem : List UInt8} (h : Encodes mem t) :
    discoverDtbInfo (some mem) = .ofNodes (t.nodes.visits 0 none) := by
  rw [discoverDtbInfo, h.walkNodes, foldl_visit]

/-! A board with the controller `virtPlic`. -/

def plicProps : Props :=
  [(ascii "compatible", ascii "riscv,plic0" ++ [0]),
    (ascii "reg", be32 0xC000000 ++ be32 0x600000), (ascii "riscv,ndev", be32 95)]

def virtTree : Tree where
  name := []
  props := [(ascii "#address-cells", be32 1)]
  children := .cons (ascii "plic") plicProps .nil .nil

def virtBlob : List UInt8 :=
  [0xd00dfeed, 205, 56, 164, 40, 17, 16, 0, 41, 108, 0, 0, 0, 0].flatMap be32 ++
    be32 1 ++ [0, 0, 0, 0] ++
      be32 3 ++ be32 4 ++ be32 0 ++ be32 1 ++
      be32 1 ++ ascii "plic" ++ [0, 0, 0, 0] ++
        be32 3 ++ be32 12 ++ be32 15 ++ ascii "riscv,plic0" ++ [0] ++
        be32 3 ++ be32 8 ++ be32 26 ++ be32 0xC000000 ++ be32 0x600000 ++
        be32 3 ++ be32 4 ++ be32 30 ++ be32 95 ++
      be32 2 ++
    be32 2 ++ be32 9 ++
    ["#address-cells", "compatible", "reg", "riscv,ndev"].flatMap fun name => ascii name ++ [0]

theorem virtBlob_encodes : Encodes virtBlob virtTree :=
  ⟨205, 56, 164, 160, virtTree.nodes.tokens,
    ⟨by decide +kernel, by decide +kernel, by decide +kernel, by decide⟩, by decide +kernel⟩

theorem virt_discovery :
    discoverDtbInfo (some virtBlob) = .ofNodes (virtTree.nodes.visits 0 none) ∧
      (discoverDtbInfo (some virtBlob)).plicBase = 0xC000000 ∧
      (discoverDtbInfo (some virtBlob)).memorySize = 128 * 1024 * 1024 := by
  have h := discovery_takes_last virtBlob_encodes
  rw [h]
  exact ⟨rfl, by decide +kernel, by decide +kernel⟩

theorem latest_eq_some {v : α} (hmem : node ∈ nodes) (havailable : node.isAvailable = true)
    (hf : f node = some v)
    (hother : ∀ other ∈ nodes, other.isAvailable = true → other = node ∨ f other = none) :
    latest f nodes = some v := by
  have hisSome : (latest f nodes).isSome = true := by
    rw [latest, List.findSome?_isSome_iff]
    exact ⟨node, by simp [hmem, havailable], by simp [hf]⟩
  obtain ⟨w, hw⟩ := Option.isSome_iff_exists.mp hisSome
  obtain ⟨other, hother', hfother⟩ := List.exists_of_findSome?_eq_some hw
  simp only [List.mem_reverse, List.mem_filter] at hother'
  rcases hother other hother'.1 hother'.2 with rfl | hnone
  · rw [hw, ← hfother, hf]
  · rw [hnone] at hfother
    cases hfother

theorem latest_eq_none (h : ∀ node ∈ nodes, node.isAvailable = true → f node = none) :
    latest f nodes = none := by
  rw [latest, List.findSome?_eq_none_iff]
  intro node hnode
  simp only [List.mem_reverse, List.mem_filter] at hnode
  exact h node hnode.1 hnode.2

/-! ### The interrupt controller of the tree -/

/-- `init_irqs` prefers the CLIC, if it is aligned. -/
def usesClic (info : RiscvDtbInfo) : Bool := info.clicBase ≠ 0 && info.clicBase % 4 = 0

/-- The system that `init_irqs` and the kernel's `irq::init` leave, unless the CLIC is used. -/
def bootIrqs (H : Type) (maxExternalIrqs context : ℕ) (info : RiscvDtbInfo) (d : Plic.Device) :
    Option (Sys H maxExternalIrqs) :=
  if usesClic info then none
  else
    some (boot maxExternalIrqs context (configure info.plicBase info.plicIrqSources) d
      info.externalIrqCount)

/-- If the tree describes the controller of the machine and no other, then after any run every line
that is high is served or can be, and the kernel has a place in its table for every interrupt but
those above the size of the table. -/
theorem discovered_plic_serves {H : Type} {t : Tree} {mem : List UInt8} (h : Encodes mem t)
    (plic : FdtNode) (reg : FdtReg) (d : Plic.Device) (maxExternalIrqs context : ℕ)
    (hplic : plic ∈ t.nodes.visits 0 none) (havailable : plic.isAvailable = true)
    (hkind : isPlic plic = true) (hreg : plic.firstReg = some reg)
    (hndev : plic.riscvNdev = some d.sources)
    (honly : ∀ node ∈ t.nodes.visits 0 none, node.isAvailable = true →
      isClic node = false ∧ (node = plic ∨ isPlic node = false))
    (hd : Plic.Attached reg.base d) (haligned : reg.base % 0x1000 = 0)
    (hidle : d.gateways = .idle) (hc : context < 2) :
    ∃ s₀ : Sys H maxExternalIrqs,
      bootIrqs H maxExternalIrqs context (discoverDtbInfo (some mem)) d = some s₀ ∧
      ∀ acts s, Lib.run (step context ⟨reg.base, d.sources⟩) s₀ acts = some s →
        (∀ irq, irq ≠ 0 → irq ≤ s.device.sources → s.device.gateways.line irq = true →
          irq ∈ s.device.claimable context ∨ s.active.map Prod.fst = some irq ∨
            s.device.priority irq = 0) ∧
        ∀ irq target, (irq, target) ∈ s.log →
          irq ≤ s.device.sources ∧ (target = .outOfRange ↔ maxExternalIrqs ≤ irq) := by
  generalize hnodes : t.nodes.visits 0 none = nodes at hplic honly
  have hother {β : Type} (f : FdtNode → Option β) : ∀ other ∈ nodes, other.isAvailable = true →
      other = plic ∨ only isPlic f other = none := by
    intro other hmem hother
    exact (honly other hmem hother).2.imp_right fun hno => by simp [only, hno]
  have hbase : latest (only isPlic (·.firstReg)) nodes = some reg :=
    latest_eq_some hplic havailable (by simp [only, hkind, hreg]) (hother _)
  have hsources : latest (only isPlic ndev) nodes = some d.sources :=
    latest_eq_some hplic havailable (by rw [only, if_pos hkind]; exact hndev) (hother _)
  have hclic {β : Type} (f : FdtNode → Option β) : latest (only isClic f) nodes = none :=
    latest_eq_none fun node hmem hnode => by simp [only, (honly node hmem hnode).1]
  have hlt := hd.sources_lt
  have hinfo : bootIrqs H maxExternalIrqs context (discoverDtbInfo (some mem)) d =
      some (boot maxExternalIrqs context ⟨reg.base, d.sources⟩ d (d.sources + 1)) := by
    have hcount : min (d.sources + 1) (2 ^ 64 - 1) = d.sources + 1 := by omega
    rw [discoverDtbInfo, h.walkNodes, foldl_visit, hnodes]
    simp [bootIrqs, usesClic, RiscvDtbInfo.ofNodes, RiscvDtbInfo.externalIrqCount, hbase, hsources,
      hclic, configure_eq haligned, hcount, -Nat.reducePow, -Nat.reduceSub]
  refine ⟨_, hinfo, fun acts s hrun => ?_⟩
  have hinv := Lib.run_preserves (fun _ a _ hinv hstep => hinv.step hc a hstep)
    (boot_inv hd hc rfl hidle (d.sources + 1)) hrun
  refine ⟨fun _ => hinv.claimable_of_line, fun irq target hmem => ?_⟩
  obtain ⟨-, hle, htarget⟩ := hinv.targets irq target hmem
  refine ⟨hle, htarget.trans ?_⟩
  have hsources_eq : s.device.sources = d.sources := hinv.sources_eq
  omega

theorem virt_plic_serves :
    ∃ s₀ : Sys Unit 64,
      bootIrqs Unit 64 1 (discoverDtbInfo (some virtBlob)) virtPlic = some s₀ ∧
      ∀ acts s, Lib.run (step 1 ⟨0xC000000, 95⟩) s₀ acts = some s → ∀ irq target,
        (irq, target) ∈ s.log → irq ≤ s.device.sources ∧ (target = .outOfRange ↔ 64 ≤ irq) := by
  obtain ⟨s₀, hs₀, hruns⟩ := discovered_plic_serves virtBlob_encodes
    (describe (some virtTree.props) (ascii "plic") plicProps) ⟨0xC000000, 0x600000⟩ virtPlic 64 1
    (by decide +kernel) (by decide +kernel) (by decide +kernel) (by decide +kernel)
    (by decide +kernel) (by decide +kernel) virtPlic_attached (by decide) rfl (by decide)
  exact ⟨s₀, hs₀, fun acts s hrun => (hruns acts s hrun).2⟩

end OpenIon.Platform.RiscvGeneric.Discovery
