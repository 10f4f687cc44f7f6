import Mathlib.Data.List.MinMax
import Mathlib.Data.Nat.Bitwise
import OpenIon.Lib.Gateway

/-! # The platform-level interrupt controller

The registers of the controller and the driver in `arch/riscv/plic.rs`, which reads and writes
them by address. The controller is modelled as far as the driver uses it: the pending bits, which
can be read, are not among its registers here. A completion for a source that is not enabled in
the context is ignored.
-/
namespace OpenIon.Arch.Riscv.Plic
open Lib

inductive Register where
  | priority (irq : ℕ)
  | enable (context word : ℕ)
  | threshold (context : ℕ)
  | claim (context : ℕ)
  | other
  deriving DecidableEq

def Register.decode (offset : ℕ) : Register :=
  if offset < 0x1000 then .priority (offset / 4)
  else if offset < 0x2000 then .other
  else if offset < 0x200000 then
    .enable ((offset - 0x2000) / 0x80) ((offset - 0x2000) % 0x80 / 4)
  else if (offset - 0x200000) % 0x1000 = 0 then .threshold ((offset - 0x200000) / 0x1000)
  else if (offset - 0x200000) % 0x1000 = 4 then .claim ((offset - 0x200000) / 0x1000)
  else .other

/-- The controller with its sources `1` to `sources`. -/
structure Device where
  base : ℕ
  sources : ℕ
  priority : ℕ → ℕ
  enable : ℕ → ℕ → ℕ
  threshold : ℕ → ℕ
  gateways : Gateways

namespace Device

def enabled (d : Device) (context irq : ℕ) : Bool :=
  (d.enable context (irq / 32)).testBit (irq % 32)

/-- The sources with a request that the context is interrupted for. -/
def claimable (d : Device) (context : ℕ) : List ℕ :=
  (List.range' 1 d.sources).filter fun irq =>
    d.gateways.pending irq && d.enabled context irq && d.threshold context < d.priority irq

def best (d : Device) (context : ℕ) : Option ℕ := (d.claimable context).argmax d.priority

def read (d : Device) (addr : ℕ) : ℕ × Device :=
  match Register.decode (addr - d.base) with
  | .priority irq => (d.priority irq, d)
  | .enable context word => (d.enable context word, d)
  | .threshold context => (d.threshold context, d)
  | .claim context =>
    (d.best context).elim (0, d) fun irq => (irq, { d with gateways := d.gateways.claim irq })
  | .other => (0, d)

def write (d : Device) (addr value : ℕ) : Device :=
  match Register.decode (addr - d.base) with
  | .priority irq => { d with priority := Function.update d.priority irq value }
  | .enable context word =>
    { d with
      enable := Function.update d.enable context
        (Function.update (d.enable context) word value) }
  | .threshold context => { d with threshold := Function.update d.threshold context value }
  | .claim context =>
    if d.enabled context value then { d with gateways := d.gateways.complete value } else d
  | .other => d

def setLine (d : Device) (irq : ℕ) (b : Bool) : Device :=
  { d with gateways := d.gateways.setLine irq b }

end Device

/-! ### The driver -/

section Driver

variable (base context : ℕ)

def initContext (d : Device) : Device :=
  if base = 0 then d else d.write (base + 0x200000 + context * 0x1000) 0

def enableIrq (irq priority : ℕ) (d : Device) : Device :=
  if base = 0 ∨ irq = 0 then d
  else
    let d := d.write (base + 0x0 + irq * 4) priority
    let enablePtr := base + 0x2000 + context * 0x80 + irq / 32 * 4
    let (val, d) := d.read enablePtr
    d.write enablePtr (val ||| 1 <<< (irq % 32))

def claim (d : Device) : ℕ × Device :=
  if base = 0 then (0, d) else d.read (base + 0x200004 + context * 0x1000)

def complete (irq : ℕ) (d : Device) : Device :=
  if base = 0 ∨ irq = 0 then d else d.write (base + 0x200004 + context * 0x1000) irq

end Driver

/-! ### What the driver does to the controller -/

variable {base context irq irq' priority : ℕ} {d : Device}

theorem decode_priority (h : irq < 1024) : Register.decode (irq * 4) = .priority irq := by
  have hlt : irq * 4 < 0x1000 := by omega
  have hdiv : irq * 4 / 4 = irq := by omega
  rw [Register.decode, if_pos hlt, hdiv]

theorem decode_enable (hc : context < 2) (h : irq < 1024) :
    Register.decode (0x2000 + context * 0x80 + irq / 32 * 4) = .enable context (irq / 32) := by
  have hdiv : (0x2000 + context * 0x80 + irq / 32 * 4 - 0x2000) / 0x80 = context := by omega
  have hmod : (0x2000 + context * 0x80 + irq / 32 * 4 - 0x2000) % 0x80 / 4 = irq / 32 := by omega
  rw [Register.decode, if_neg (by omega), if_neg (by omega), if_pos (by omega), hdiv, hmod]

theorem decode_threshold (context : ℕ) :
    Register.decode (0x200000 + context * 0x1000) = .threshold context := by
  have hdiv : (0x200000 + context * 0x1000 - 0x200000) / 0x1000 = context := by omega
  rw [Register.decode, if_neg (by omega), if_neg (by omega), if_neg (by omega), if_pos (by omega),
    hdiv]

theorem decode_claim (context : ℕ) :
    Register.decode (0x200004 + context * 0x1000) = .claim context := by
  have hdiv : (0x200004 + context * 0x1000 - 0x200000) / 0x1000 = context := by omega
  rw [Register.decode, if_neg (by omega), if_neg (by omega), if_neg (by omega), if_neg (by omega),
    if_pos (by omega), hdiv]

structure Attached (base : ℕ) (d : Device) : Prop where
  base_eq : d.base = base
  base_ne : base ≠ 0
  sources_lt : d.sources < 1024

theorem initContext_eq (context : ℕ) (h : Attached base d) :
    initContext base context d = { d with threshold := Function.update d.threshold context 0 } := by
  have hoff : base + 0x200000 + context * 0x1000 - d.base = 0x200000 + context * 0x1000 := by
    have := h.base_eq
    omega
  rw [initContext, if_neg h.base_ne, Device.write, hoff, decode_threshold]

/-- The interrupt is enabled with the given priority, and all others are as they were. -/
theorem enableIrq_eq (h : Attached base d) (hc : context < 2) (hirq : irq ≠ 0) (hlt : irq < 1024) :
    enableIrq base context irq priority d =
      { d with
        priority := Function.update d.priority irq priority
        enable := Function.update d.enable context (Function.update (d.enable context) (irq / 32)
          (d.enable context (irq / 32) ||| 1 <<< (irq % 32))) } := by
  have hbase := h.base_eq
  have hoff : base + 0x0 + irq * 4 - d.base = irq * 4 := by omega
  have hoff' : base + 0x2000 + context * 0x80 + irq / 32 * 4 - d.base =
      0x2000 + context * 0x80 + irq / 32 * 4 := by omega
  rw [enableIrq, if_neg (not_or.mpr ⟨h.base_ne, hirq⟩)]
  simp only [Device.write, Device.read, hoff, hoff', decode_priority hlt, decode_enable hc hlt]

theorem enabled_enableIrq (h : Attached base d) (hc : context < 2) (hirq : irq ≠ 0)
    (hlt : irq < 1024) :
    (enableIrq base context irq priority d).enabled context irq' =
      (d.enabled context irq' || irq' == irq) := by
  rw [enableIrq_eq h hc hirq hlt]
  simp only [Device.enabled, Function.update_self]
  by_cases hword : irq' / 32 = irq / 32
  · rw [hword, Function.update_self, Nat.testBit_or, Nat.one_shiftLeft, Nat.testBit_two_pow]
    congr 1
    rw [Bool.eq_iff_iff]
    simp only [decide_eq_true_eq, beq_iff_eq]
    omega
  · have hne : irq' ≠ irq := fun heq => hword (by rw [heq])
    rw [Function.update_of_ne hword, beq_eq_false_iff_ne.mpr hne, Bool.or_false]

/-- What is the same after interrupts have been enabled. Enabled ones are never disabled by their
bit, only by their priority. -/
structure Keeps (context : ℕ) (d d' : Device) : Prop where
  base : d'.base = d.base
  sources : d'.sources = d.sources
  gateways : d'.gateways = d.gateways
  threshold : d'.threshold = d.threshold
  enabled : ∀ irq, d.enabled context irq = true → d'.enabled context irq = true

theorem Keeps.trans {d' d'' : Device} (h : Keeps context d d') (h' : Keeps context d' d'') :
    Keeps context d d'' where
  base := h'.base.trans h.base
  sources := h'.sources.trans h.sources
  gateways := h'.gateways.trans h.gateways
  threshold := h'.threshold.trans h.threshold
  enabled irq hirq := h'.enabled irq (h.enabled irq hirq)

theorem Keeps.attached {d' : Device} (hk : Keeps context d d') (h : Attached base d) :
    Attached base d' :=
  ⟨hk.base.trans h.base_eq, h.base_ne, hk.sources ▸ h.sources_lt⟩

theorem enableIrq_keeps (h : Attached base d) (hc : context < 2) (hle : irq ≤ d.sources) :
    Keeps context d (enableIrq base context irq priority d) := by
  by_cases hirq : irq = 0
  · rw [enableIrq, if_pos (Or.inr hirq)]
    exact ⟨rfl, rfl, rfl, rfl, fun _ => id⟩
  · have hlt : irq < 1024 := Nat.lt_of_le_of_lt hle h.sources_lt
    have henabled : ∀ irq', d.enabled context irq' = true →
        (enableIrq base context irq priority d).enabled context irq' = true := by
      intro irq' h'
      rw [enabled_enableIrq h hc hirq hlt, h', Bool.true_or]
    rw [enableIrq_eq h hc hirq hlt] at henabled ⊢
    exact ⟨rfl, rfl, rfl, rfl, henabled⟩

theorem claim_eq (h : Attached base d) :
    claim base context d =
      (d.best context).elim (0, d) fun irq =>
        (irq, { d with gateways := d.gateways.claim irq }) := by
  have hoff : base + 0x200004 + context * 0x1000 - d.base = 0x200004 + context * 0x1000 := by
    have := h.base_eq
    omega
  rw [claim, if_neg h.base_ne, Device.read, hoff, decode_claim]

theorem complete_eq (h : Attached base d) (hirq : irq ≠ 0) (he : d.enabled context irq = true) :
    complete base context irq d = { d with gateways := d.gateways.complete irq } := by
  have hoff : base + 0x200004 + context * 0x1000 - d.base = 0x200004 + context * 0x1000 := by
    have := h.base_eq
    omega
  rw [complete, if_neg (not_or.mpr ⟨h.base_ne, hirq⟩), Device.write, hoff, decode_claim]
  simp only [he, if_true]

theorem mem_claimable : irq ∈ d.claimable context ↔
    irq ≠ 0 ∧ irq ≤ d.sources ∧ d.gateways.pending irq = true ∧ d.enabled context irq = true ∧
      d.threshold context < d.priority irq := by
  simp only [Device.claimable, List.mem_filter, List.mem_range'_1, Bool.and_eq_true,
    decide_eq_true_eq]
  constructor
  · rintro ⟨⟨h1, h2⟩, ⟨h3, h4⟩, h5⟩
    exact ⟨by omega, by omega, h3, h4, h5⟩
  · rintro ⟨h1, h2, h3, h4, h5⟩
    exact ⟨⟨by omega, by omega⟩, ⟨h3, h4⟩, h5⟩

theorem best_mem (h : d.best context = some irq) : irq ∈ d.claimable context :=
  List.argmax_mem h

theorem claimable_pairwise (d : Device) (context : ℕ) : (d.claimable context).Pairwise (· < ·) :=
  List.Pairwise.filter _ List.pairwise_lt_range'

/-- The order in which sources are claimed. -/
def Before (d : Device) (irq irq' : ℕ) : Prop :=
  d.priority irq' < d.priority irq ∨ d.priority irq = d.priority irq' ∧ irq < irq'

instance decidableBefore (d : Device) : DecidableRel (Before d) := fun _ _ =>
  inferInstanceAs (Decidable (_ ∨ _ ∧ _))

theorem idxOf_lt_of_pairwise {l : List ℕ} (hl : l.Pairwise (· < ·)) {a b : ℕ} (ha : a ∈ l)
    (hb : b ∈ l) (hab : a < b) : l.idxOf a < l.idxOf b := by
  by_contra hle
  have hia := List.idxOf_lt_length_of_mem ha
  have hib := List.idxOf_lt_length_of_mem hb
  rcases Nat.lt_or_eq_of_le (Nat.le_of_not_lt hle) with hlt | heq
  · have hget := List.pairwise_iff_getElem.mp hl _ _ hib hia hlt
    rw [List.getElem_idxOf hib, List.getElem_idxOf hia] at hget
    omega
  · exact absurd (List.idxOf_inj hb |>.mp heq) (by omega)

/-- A claim returns the source that comes before all others. -/
theorem best_eq_some {rest : List ℕ} (hperm : (irq :: rest).Perm (d.claimable context))
    (hbefore : ∀ irq' ∈ rest, Before d irq irq') : d.best context = some irq := by
  have hmem : irq ∈ d.claimable context := hperm.subset List.mem_cons_self
  cases hbest : d.best context with
  | none =>
    rw [List.argmax_eq_none.mp hbest] at hmem
    cases hmem
  | some best =>
    have hle : d.priority irq ≤ d.priority best := List.le_of_mem_argmax hmem hbest
    rcases List.mem_cons.mp (hperm.symm.subset (best_mem hbest)) with rfl | hrest
    · rfl
    · rcases hbefore best hrest with hlt | ⟨heq, hlt⟩
      · omega
      · have hidx := List.index_of_argmax hbest hmem (Nat.le_of_eq heq.symm)
        have hidx' := idxOf_lt_of_pairwise (claimable_pairwise d context) hmem (best_mem hbest) hlt
        omega

end OpenIon.Arch.Riscv.Plic
