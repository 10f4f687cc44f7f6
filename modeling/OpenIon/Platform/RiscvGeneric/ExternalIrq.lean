import OpenIon.Arch.Riscv.Plic
import OpenIon.Driver.Dispatch
import OpenIon.Irq
import OpenIon.Lib.Run

/-! # External interrupts

From the line of a device to the handler of its interrupt: the interrupt controller, the code of
`platform/riscv-generic` around it, and the kernel's table of handlers. Interrupts are masked while
one is handled. Devices raise and lower their lines at any time, also then.
-/
namespace OpenIon.Platform.RiscvGeneric.ExternalIrq
open Lib Arch.Riscv Irq

/-- `PLIC_BASE` and `IRQ_COUNT`. -/
structure PlicStatics where
  base : ℕ
  irqCount : ℕ

def configure (base irqCount : ℕ) : PlicStatics :=
  if base ≠ 0 ∧ base % 0x1000 ≠ 0 then ⟨0, 0⟩ else ⟨base, irqCount⟩

section Controller

variable (context : ℕ) (p : PlicStatics)

def initPlic (d : Plic.Device) : Plic.Device :=
  if p.base = 0 then d
  else
    (List.range' 1 (min p.irqCount 0xFFFFFFFF)).foldl
      (fun d irq => Plic.enableIrq p.base context irq 1 d) (Plic.initContext p.base context d)

def enableIrq (irq priority : ℕ) (d : Plic.Device) : Plic.Device :=
  if p.base = 0 then d else Plic.enableIrq p.base context irq priority d

def disableIrq (irq : ℕ) (d : Plic.Device) : Plic.Device :=
  if p.base = 0 then d else Plic.enableIrq p.base context irq 0 d

def claim (d : Plic.Device) : ℕ × Plic.Device :=
  if p.base = 0 then (0, d) else Plic.claim p.base context d

def complete (irq : ℕ) (d : Plic.Device) : Plic.Device :=
  if p.base = 0 then d else Plic.complete p.base context irq d

end Controller

/-- The interrupt that is being handled is `active`; `log` has all that have been claimed. -/
structure Sys (H : Type) (maxExternalIrqs : ℕ) where
  device : Plic.Device
  irqs : Irqs H maxExternalIrqs
  registry : Driver.Registry
  stats : Driver.IrqStats
  active : Option (ℕ × Target H)
  log : List (ℕ × Target H)

/-- A line changes; a trap calls `external_irq_handler`; what it called returns, where `accepts` are
the answers of the drivers; interrupts of the controller are enabled and disabled, handlers added
and removed, and drivers registered and unregistered. -/
inductive Action (H : Type) where
  | line (irq : ℕ) (b : Bool)
  | trap
  | done (accepts : Driver.AnyDriver → ℕ → Bool)
  | enable (irq priority : ℕ)
  | disable (irq : ℕ)
  | addHandler (irq : ℕ) (h : H)
  | removeHandler (irq : ℕ)
  | registry (op : Driver.RegistryOp)

variable {H : Type} {maxExternalIrqs : ℕ}

/-- Whether an interrupt is handled by what is called for it, and the counters of the drivers. -/
def answer (accepts : Driver.AnyDriver → ℕ → Bool) (s : Sys H maxExternalIrqs) (irq : ℕ) :
    Target H → Bool × Driver.IrqStats
  | .outOfRange => (false, s.stats)
  | .handler _ => (true, s.stats)
  | .drivers =>
    let dispatch := s.registry.dispatchIrq maxExternalIrqs accepts s.stats irq
    (dispatch.handled, dispatch.stats)

/-- The rest of `external_irq_handler` after what it called. -/
def finish (context : ℕ) (p : PlicStatics) (accepts : Driver.AnyDriver → ℕ → Bool)
    (s : Sys H maxExternalIrqs) (irq : ℕ) (t : Target H) : Sys H maxExternalIrqs :=
  { s with
    device := complete context p irq s.device
    irqs := s.irqs.leave irq t (answer accepts s irq t).1
    stats := (answer accepts s irq t).2
    active := none }

def handling (s : Sys H maxExternalIrqs) (device : Plic.Device) (irq : ℕ) :
    Sys H maxExternalIrqs :=
  { s with
    device := device
    irqs := s.irqs.enter irq
    active := some (irq, s.irqs.target irq)
    log := s.log ++ [(irq, s.irqs.target irq)] }

def step (context : ℕ) (p : PlicStatics) (s : Sys H maxExternalIrqs) :
    Action H → Option (Sys H maxExternalIrqs)
  | .line irq b => some { s with device := s.device.setLine irq b }
  | .trap =>
    if s.active.isSome then none
    else
      let (irq, device) := claim context p s.device
      if irq = 0 then some { s with device := device } else some (handling s device irq)
  | .done accepts => s.active.map fun (irq, t) => finish context p accepts s irq t
  | .enable irq priority =>
    if irq ≤ s.device.sources then
      some { s with device := enableIrq context p irq priority s.device }
    else none
  | .disable irq =>
    if irq ≤ s.device.sources then some { s with device := disableIrq context p irq s.device }
    else none
  | .addHandler irq h => some { s with irqs := (s.irqs.addIrqHandler irq h).2 }
  | .removeHandler irq => some { s with irqs := (s.irqs.removeIrqHandler irq).2 }
  | .registry op => some { s with registry := (s.registry.exec maxExternalIrqs op).2 }

/-- The state after boot. The kernel knows `count` interrupts. -/
def boot (maxExternalIrqs context : ℕ) (p : PlicStatics) (device : Plic.Device) (count : ℕ) :
    Sys H maxExternalIrqs where
  device := initPlic context p device
  irqs := .init maxExternalIrqs count
  registry := {}
  stats := {}
  active := none
  log := []

/-! ### The invariant -/

structure Inv (context : ℕ) (p : PlicStatics) (count : ℕ) (s : Sys H maxExternalIrqs) : Prop where
  attached : Plic.Attached p.base s.device
  sources_eq : s.device.sources = p.irqCount
  gateways : s.device.gateways.Accounted (s.active.map Prod.fst)
  claimed : ∀ irq, s.device.gateways.claimed irq = (s.log.map Prod.fst).count irq
  enabled : ∀ irq, irq ≠ 0 → irq ≤ s.device.sources → s.device.enabled context irq = true
  threshold : s.device.threshold context = 0
  active : ∀ irq t, s.active = some (irq, t) → irq ≠ 0 ∧ irq ≤ s.device.sources
  counted : s.irqs.counted + UInt32.ofNat s.active.toList.length = UInt32.ofNat s.log.length
  missed : s.irqs.unhandled = s.stats.driverMisses
  count_eq : s.irqs.state.count = min count maxExternalIrqs
  targets : ∀ irq t, (irq, t) ∈ s.log →
    irq ≠ 0 ∧ irq ≤ s.device.sources ∧ (t = .outOfRange ↔ min count maxExternalIrqs ≤ irq)

variable {context count irq priority : ℕ} {p : PlicStatics} {d : Plic.Device}
  {s s' : Sys H maxExternalIrqs}

theorem foldl_enableIrq (hc : context < 2) (irqs : List ℕ) (h : Plic.Attached p.base d)
    (hirqs : ∀ irq ∈ irqs, irq ≠ 0 ∧ irq ≤ d.sources) :
    Plic.Keeps context d
        (irqs.foldl (fun d irq => Plic.enableIrq p.base context irq 1 d) d) ∧
      ∀ irq ∈ irqs,
        (irqs.foldl (fun d irq => Plic.enableIrq p.base context irq 1 d) d).enabled context irq =
          true := by
  induction irqs generalizing d with
  | nil => exact ⟨⟨rfl, rfl, rfl, rfl, fun _ => id⟩, fun irq hirq => by cases hirq⟩
  | cons irq irqs ih =>
    obtain ⟨hne, hle⟩ := hirqs irq List.mem_cons_self
    have hkeeps : Plic.Keeps context d (Plic.enableIrq p.base context irq 1 d) :=
      Plic.enableIrq_keeps h hc hle
    have hself : (Plic.enableIrq p.base context irq 1 d).enabled context irq = true := by
      rw [Plic.enabled_enableIrq h hc hne (Nat.lt_of_le_of_lt hle h.sources_lt), beq_self_eq_true,
        Bool.or_true]
    obtain ⟨hrest, hall⟩ := ih (hkeeps.attached h) fun irq' hirq' =>
      hkeeps.sources ▸ hirqs irq' (List.mem_cons_of_mem _ hirq')
    refine ⟨hkeeps.trans hrest, fun irq' hirq' => ?_⟩
    rcases List.mem_cons.mp hirq' with rfl | hmem
    · exact hrest.enabled _ hself
    · exact hall irq' hmem

theorem initPlic_spec (h : Plic.Attached p.base d) (hc : context < 2)
    (hcount : p.irqCount = d.sources) :
    Plic.Attached p.base (initPlic context p d) ∧
      (initPlic context p d).gateways = d.gateways ∧ (initPlic context p d).sources = d.sources ∧
      (initPlic context p d).threshold context = 0 ∧
      ∀ irq, irq ≠ 0 → irq ≤ d.sources → (initPlic context p d).enabled context irq = true := by
  have hlt := h.sources_lt
  have hinit := Plic.initContext_eq context h
  have hattached : Plic.Attached p.base (Plic.initContext p.base context d) :=
    hinit ▸ ⟨h.base_eq, h.base_ne, hlt⟩
  have hirqs : ∀ irq ∈ List.range' 1 d.sources,
      irq ≠ 0 ∧ irq ≤ (Plic.initContext p.base context d).sources := by
    intro irq hirq
    rw [List.mem_range'_1] at hirq
    rw [hinit]
    exact ⟨by omega, by simp only; omega⟩
  have hmin : min p.irqCount 0xFFFFFFFF = d.sources := by omega
  obtain ⟨hkeeps, henabled⟩ := foldl_enableIrq hc _ hattached hirqs
  rw [initPlic, if_neg h.base_ne, hmin]
  refine ⟨hkeeps.attached hattached, ?_, ?_, ?_, fun irq hne hle => henabled irq ?_⟩
  · rw [hkeeps.gateways, hinit]
  · rw [hkeeps.sources, hinit]
  · rw [hkeeps.threshold, hinit]
    exact Function.update_self ..
  · rw [List.mem_range'_1]
    omega

theorem boot_inv (h : Plic.Attached p.base d) (hc : context < 2)
    (hcount : p.irqCount = d.sources) (hidle : d.gateways = .idle) (count : ℕ) :
    Inv context p count (boot maxExternalIrqs context p d count : Sys H maxExternalIrqs) := by
  obtain ⟨hattached, hgateways, hsources, hthreshold, henabled⟩ := initPlic_spec h hc hcount
  rw [hidle] at hgateways
  have hgateways' : (initPlic context p d).gateways.Accounted none :=
    hgateways ▸ Gateways.idle_accounted
  refine ⟨hattached, hsources.trans hcount.symm, hgateways', fun irq => ?_,
    fun irq hne hle => henabled irq hne (hsources ▸ hle), hthreshold,
    fun _ _ hsome => (by cases hsome), rfl, rfl, rfl, fun _ _ hmem => (by cases hmem)⟩
  exact congrArg (·.claimed irq) hgateways

theorem Inv.of_keeps (h : Inv context p count s) (hkeeps : Plic.Keeps context s.device d) :
    Inv context p count { s with device := d } := by
  have hsources := hkeeps.sources
  have hgateways := hkeeps.gateways
  refine { h with
    attached := hkeeps.attached h.attached
    sources_eq := hsources.trans h.sources_eq
    gateways := ?_, claimed := ?_, enabled := ?_, threshold := ?_, active := ?_, targets := ?_ }
  · rw [hgateways]
    exact h.gateways
  · rw [hgateways]
    exact h.claimed
  · intro irq hne hle
    exact hkeeps.enabled irq (h.enabled irq hne (hsources ▸ hle))
  · rw [hkeeps.threshold]
    exact h.threshold
  · rw [hsources]
    exact h.active
  · rw [hsources]
    exact h.targets

theorem Inv.trap (h : Inv context p count s) (hidle : s.active = none)
    (hbest : s.device.best context = some irq) :
    Inv context p count
      (handling s { s.device with gateways := s.device.gateways.claim irq } irq) := by
  obtain ⟨hne, hle, hpending, -, -⟩ := Plic.mem_claimable.mp (Plic.best_mem hbest)
  have hgateways : s.device.gateways.Accounted none := by
    have := h.gateways
    rwa [hidle] at this
  rw [handling]
  refine ⟨⟨h.attached.base_eq, h.attached.base_ne, h.attached.sources_lt⟩, h.sources_eq,
    hgateways.claim hpending, fun irq' => ?_, h.enabled, h.threshold, ?_, ?_, h.missed, h.count_eq,
    ?_⟩
  · rw [List.map_append, List.count_append, List.map_cons, List.map_nil, List.count_singleton,
      ← h.claimed irq']
    by_cases heq : irq' = irq
    · subst heq
      simp [Gateways.claim]
    · simp [Gateways.claim, Function.update_of_ne heq, Ne.symm heq]
  · rintro irq' t ⟨⟩
    exact ⟨hne, hle⟩
  · have hcounted := h.counted
    rw [hidle] at hcounted
    rw [List.length_append, UInt32.ofNat_add, ← hcounted]
    exact congrArg (· + 1) (UInt32.add_zero _).symm
  · intro irq' t hmem
    rcases List.mem_append.mp hmem with hold | hnew
    · exact h.targets irq' t hold
    · obtain ⟨rfl, rfl⟩ := Prod.mk.inj (List.mem_singleton.mp hnew)
      exact ⟨hne, hle, by rw [Irqs.target_eq_outOfRange, h.count_eq]⟩

theorem driverMisses_dispatchIrq (accepts : Driver.AnyDriver → ℕ → Bool) (r : Driver.Registry)
    (stats : Driver.IrqStats) :
    (r.dispatchIrq maxExternalIrqs accepts stats irq).stats.driverMisses =
      if (r.dispatchIrq maxExternalIrqs accepts stats irq).handled then stats.driverMisses
      else stats.driverMisses + 1 := by
  unfold Driver.Registry.dispatchIrq Driver.Registry.dispatchSlow
  dsimp only
  split
  · split_ifs <;> rfl
  · split_ifs <;> first | rfl | contradiction

/-- What the kernel counts as unhandled, the drivers count as missed. -/
theorem unhandled_leave (h : s.irqs.unhandled = s.stats.driverMisses)
    (accepts : Driver.AnyDriver → ℕ → Bool) (t : Target H) :
    (s.irqs.leave irq t (answer accepts s irq t).1).unhandled =
      (answer accepts s irq t).2.driverMisses := by
  cases t with
  | outOfRange => exact h
  | handler x => exact h
  | drivers =>
    rw [Irqs.unhandled_leave_drivers, answer, driverMisses_dispatchIrq, h]

theorem Inv.done (h : Inv context p count s) {t : Target H} (hactive : s.active = some (irq, t))
    (accepts : Driver.AnyDriver → ℕ → Bool) :
    Inv context p count (finish context p accepts s irq t) := by
  obtain ⟨hne, hle⟩ := h.active irq t hactive
  have hgateways : s.device.gateways.Accounted (some irq) := by
    have := h.gateways
    rwa [hactive] at this
  have hcomplete : complete context p irq s.device =
      { s.device with gateways := s.device.gateways.complete irq } := by
    rw [complete, if_neg h.attached.base_ne,
      Plic.complete_eq h.attached hne (h.enabled irq hne hle)]
  have hcounted := h.counted
  rw [hactive] at hcounted
  rw [ExternalIrq.finish, hcomplete]
  refine ⟨⟨h.attached.base_eq, h.attached.base_ne, h.attached.sources_lt⟩, h.sources_eq,
    hgateways.complete, fun irq' => ?_, h.enabled, h.threshold,
    fun irq' t' hnone => (by cases hnone), ?_, ?_, ?_, h.targets⟩
  · rw [← h.claimed irq']
    exact congrFun Gateways.forward_claimed irq'
  · rw [Irqs.counted_leave, ← hcounted]
    exact UInt32.add_zero _
  · exact unhandled_leave h.missed accepts t
  · rw [Irqs.state_leave, h.count_eq]

theorem Inv.of_irqs {k : Irqs H maxExternalIrqs} (h : Inv context p count s)
    (hk : k.state.count = s.irqs.state.count ∧ k.counted = s.irqs.counted ∧
      k.unhandled = s.irqs.unhandled) : Inv context p count { s with irqs := k } :=
  { h with
    counted := hk.2.1 ▸ h.counted
    missed := hk.2.2.trans h.missed
    count_eq := hk.1.trans h.count_eq }

theorem Inv.step_trap (h : Inv context p count s) (hidle : s.active = none)
    (hbest : s.device.best context = some irq) :
    step context p s .trap =
      some (handling s { s.device with gateways := s.device.gateways.claim irq } irq) := by
  have hne := (Plic.mem_claimable.mp (Plic.best_mem hbest)).1
  simp only [ExternalIrq.step, claim, if_neg h.attached.base_ne, Plic.claim_eq h.attached, hbest,
    Option.elim_some, if_neg hne, hidle, Option.isSome_none, Bool.false_eq_true, if_false]

theorem Inv.step (h : Inv context p count s) (hc : context < 2) (a : Action H)
    (hstep : step context p s a = some s') : Inv context p count s' := by
  have hbase := h.attached.base_ne
  cases a with
  | line irq b =>
    rw [ExternalIrq.step, Option.some.injEq] at hstep
    subst hstep
    exact
      { h with
        attached := ⟨h.attached.base_eq, h.attached.base_ne, h.attached.sources_lt⟩
        sources_eq := h.sources_eq
        gateways := h.gateways.setLine irq b
        claimed := fun irq' => by
          rw [← h.claimed irq']
          exact congrFun Gateways.forward_claimed irq'
        enabled := h.enabled
        threshold := h.threshold }
  | trap =>
    cases hactive : s.active with
    | some x => simp [ExternalIrq.step, hactive] at hstep
    | none =>
      cases hbest : s.device.best context with
      | none =>
        simp only [ExternalIrq.step, claim, if_neg hbase, Plic.claim_eq h.attached, hbest,
          Option.elim_none, hactive, Option.isSome_none, Bool.false_eq_true, if_false, if_true,
          Option.some.injEq] at hstep
        obtain rfl : s = s' := by rwa [← hactive] at hstep
        exact h
      | some irq =>
        rw [h.step_trap hactive hbest, Option.some.injEq] at hstep
        exact hstep ▸ h.trap hactive hbest
  | done accepts =>
    rw [ExternalIrq.step, Option.map_eq_some_iff] at hstep
    obtain ⟨⟨irq, t⟩, hactive, rfl⟩ := hstep
    exact h.done hactive accepts
  | enable irq priority =>
    simp only [ExternalIrq.step, Option.ite_none_right_eq_some, Option.some.injEq, enableIrq,
      if_neg hbase] at hstep
    obtain ⟨hle, rfl⟩ := hstep
    exact h.of_keeps (Plic.enableIrq_keeps h.attached hc hle)
  | disable irq =>
    simp only [ExternalIrq.step, Option.ite_none_right_eq_some, Option.some.injEq, disableIrq,
      if_neg hbase] at hstep
    obtain ⟨hle, rfl⟩ := hstep
    exact h.of_keeps (Plic.enableIrq_keeps h.attached hc hle)
  | addHandler irq x =>
    rw [ExternalIrq.step, Option.some.injEq] at hstep
    exact hstep ▸ h.of_irqs (Irqs.addIrqHandler_keeps x)
  | removeHandler irq =>
    rw [ExternalIrq.step, Option.some.injEq] at hstep
    exact hstep ▸ h.of_irqs Irqs.removeIrqHandler_keeps
  | registry op =>
    rw [ExternalIrq.step, Option.some.injEq] at hstep
    subst hstep
    exact ⟨h.attached, h.sources_eq, h.gateways, h.claimed, h.enabled, h.threshold, h.active,
      h.counted, h.missed, h.count_eq, h.targets⟩

/-- The states that the system can be in after boot, with the controller where the device tree says
that it is. -/
def Reaches (context base count : ℕ) (d : Plic.Device) (acts : List (Action H))
    (s : Sys H maxExternalIrqs) : Prop :=
  Lib.run (step context (configure base d.sources))
    (boot maxExternalIrqs context (configure base d.sources) d count) acts = some s

theorem configure_eq {base : ℕ} (haligned : base % 0x1000 = 0) (n : ℕ) :
    configure base n = ⟨base, n⟩ := by
  rw [configure, if_neg fun h => h.2 haligned]

theorem Reaches.inv {base : ℕ} {acts : List (Action H)} (h : Reaches context base count d acts s)
    (hd : Plic.Attached base d) (haligned : base % 0x1000 = 0) (hidle : d.gateways = .idle)
    (hc : context < 2) : Inv context ⟨base, d.sources⟩ count s := by
  rw [Reaches, configure_eq haligned] at h
  exact Lib.run_preserves (fun _ a _ hinv hstep => hinv.step hc a hstep)
    (boot_inv hd hc rfl hidle count) h

theorem Inv.claimable_of_line (h : Inv context p count s) (hne : irq ≠ 0)
    (hle : irq ≤ s.device.sources) (hline : s.device.gateways.line irq = true) :
    irq ∈ s.device.claimable context ∨ s.active.map Prod.fst = some irq ∨
      s.device.priority irq = 0 := by
  by_cases hpriority : s.device.priority irq = 0
  · exact .inr (.inr hpriority)
  · rcases h.gateways.requested irq hline with hpending | hactive
    · left
      rw [Plic.mem_claimable, h.threshold]
      exact ⟨hne, hle, hpending, h.enabled irq hne hle, Nat.pos_of_ne_zero hpriority⟩
    · exact .inr (.inl hactive)

/-- No request of a device is lost, and none is handled twice: in every state, the only source that
the controller holds back is the one being handled, a source whose line is high can be claimed
unless it is being handled or its priority is zero, and every request has been handed over once
or is pending. The counters account for every interrupt, and those that the kernel does not know
are the ones out of range. -/
theorem irqs_delivered_once {base : ℕ} (d : Plic.Device) (hd : Plic.Attached base d)
    (haligned : base % 0x1000 = 0) (hidle : d.gateways = .idle) (hc : context < 2) (count : ℕ)
    (acts : List (Action H)) (s : Sys H maxExternalIrqs)
    (hrun : Reaches context base count d acts s) :
    (∀ irq, s.device.gateways.inService irq = true ↔ s.active.map Prod.fst = some irq) ∧
      (∀ irq, irq ≠ 0 → irq ≤ s.device.sources → s.device.gateways.line irq = true →
        irq ∈ s.device.claimable context ∨ s.active.map Prod.fst = some irq ∨
          s.device.priority irq = 0) ∧
      (∀ irq, s.device.gateways.forwarded irq =
        (s.log.map Prod.fst).count irq + (s.device.gateways.pending irq).toNat) ∧
      s.irqs.handled + s.irqs.unhandled + s.irqs.outOfRange +
        UInt32.ofNat s.active.toList.length = UInt32.ofNat s.log.length ∧
      s.irqs.unhandled = s.stats.driverMisses ∧
      ∀ irq t, (irq, t) ∈ s.log → (t = .outOfRange ↔ min count maxExternalIrqs ≤ irq) := by
  have h := hrun.inv hd haligned hidle hc
  refine ⟨h.gateways.inService_iff, fun _ => h.claimable_of_line, fun irq => ?_, h.counted,
    h.missed, fun irq t hmem => (h.targets irq t hmem).2.2⟩
  rw [h.gateways.once irq, h.claimed irq]

def virtPlic : Plic.Device := ⟨0xC000000, 95, fun _ => 0, fun _ _ => 0, fun _ => 7, .idle⟩

theorem virtPlic_attached : Plic.Attached 0xC000000 virtPlic := ⟨rfl, by decide, by decide⟩

/-- A device raises its line again while its interrupt is handled, and another one has an interrupt
that the table has no room for. -/
def raisedTwice : List (Action Unit) :=
  [.line 10 true, .addHandler 10 (), .trap, .line 10 false, .line 10 true, .line 70 true,
    .done fun _ _ => false, .trap, .line 10 false, .done fun _ _ => false, .trap]

theorem raisedTwice_delivered_once :
    ∃ s : Sys Unit 64, Reaches 1 0xC000000 96 virtPlic raisedTwice s ∧
      s.log = [(10, .handler ()), (10, .handler ()), (70, .outOfRange)] ∧
      s.device.gateways.forwarded 10 =
        (s.log.map Prod.fst).count 10 + (s.device.gateways.pending 10).toNat := by
  have hlog : (Lib.run (step 1 (configure 0xC000000 95))
      (boot 64 1 (configure 0xC000000 95) virtPlic 96) raisedTwice).map Sys.log =
        some [(10, .handler ()), (10, .handler ()), (70, .outOfRange)] := by decide +kernel
  obtain ⟨s, hs, hlog⟩ := Option.map_eq_some_iff.mp hlog
  exact ⟨s, hs, hlog, (irqs_delivered_once virtPlic virtPlic_attached (by decide) rfl (by decide) 96
    raisedTwice s hs).2.2.1 10⟩

/-- Every interrupt is taken once, and its handler makes its device lower the line. -/
def serve (accepts : Driver.AnyDriver → ℕ → Bool) (order : List ℕ) : List (Action H) :=
  order.flatMap fun irq => [.trap, .line irq false, .done accepts]

/-- One round: the best source is claimed, its line is lowered, and it is completed. -/
theorem Inv.serve_one (h : Inv context p count s) (hidle : s.active = none)
    (hbest : s.device.best context = some irq) (accepts : Driver.AnyDriver → ℕ → Bool) :
    ∃ s', Lib.run (ExternalIrq.step context p) s [.trap, .line irq false, .done accepts] = some s' ∧
      s'.active = none ∧ s'.log = s.log ++ [(irq, s.irqs.target irq)] ∧
      s'.irqs.state = s.irqs.state ∧ s'.device.priority = s.device.priority ∧
      s'.device.claimable context = (s.device.claimable context).filter (· ≠ irq) := by
  obtain ⟨hne, hle, -, -, -⟩ := Plic.mem_claimable.mp (Plic.best_mem hbest)
  have hattached : Plic.Attached p.base (Plic.Device.setLine
      { s.device with gateways := s.device.gateways.claim irq } irq false) :=
    ⟨h.attached.base_eq, h.attached.base_ne, h.attached.sources_lt⟩
  have hcomplete : complete context p irq (Plic.Device.setLine
      { s.device with gateways := s.device.gateways.claim irq } irq false) =
      { s.device with
        gateways := ((s.device.gateways.claim irq).setLine irq false).complete irq } := by
    rw [complete, if_neg h.attached.base_ne,
      Plic.complete_eq hattached hne (h.enabled irq hne hle)]
    rfl
  refine ⟨finish context p accepts (handling s (Plic.Device.setLine
    { s.device with gateways := s.device.gateways.claim irq } irq false) irq) irq
      (s.irqs.target irq), ?_, rfl, rfl, Irqs.state_leave _ _, ?_, ?_⟩
  · rw [Lib.run_cons, h.step_trap hidle hbest]
    rfl
  · simp only [finish, handling, hcomplete]
  · simp only [finish, handling, hcomplete]
    simp only [Plic.Device.claimable, Gateways.pending_served, Plic.Device.enabled,
      List.filter_filter]
    refine List.filter_congr fun irq' _ => ?_
    rw [Bool.eq_iff_iff]
    simp only [Bool.and_eq_true, bne_iff_ne, decide_eq_true_eq]
    tauto

/-- If every handler makes its device lower the line and no other line is raised, as many traps as
there are requests serve each of them once, by priority and then by number, and nothing can be
claimed afterwards. -/
theorem traps_serve_in_order {base : ℕ} (d : Plic.Device) (hd : Plic.Attached base d)
    (haligned : base % 0x1000 = 0) (hidle : d.gateways = .idle) (hc : context < 2) (count : ℕ)
    (acts : List (Action H)) (s : Sys H maxExternalIrqs)
    (hrun : Reaches context base count d acts s) (hactive : s.active = none) (order : List ℕ)
    (hperm : order.Perm (s.device.claimable context))
    (hsorted : order.Pairwise (Plic.Before s.device))
    (accepts : Driver.AnyDriver → ℕ → Bool) :
    ∃ s' : Sys H maxExternalIrqs,
      Reaches context base count d (acts ++ serve accepts order) s' ∧ s'.active = none ∧
      s'.log = s.log ++ order.map (fun irq => (irq, s.irqs.target irq)) ∧
      s'.device.claimable context = [] := by
  induction order generalizing s acts with
  | nil =>
    refine ⟨s, by rwa [serve, List.flatMap_nil, List.append_nil], hactive, by simp, ?_⟩
    exact List.perm_nil.mp hperm.symm
  | cons irq rest ih =>
    rw [List.pairwise_cons] at hsorted
    have hinv := hrun.inv hd haligned hidle hc
    obtain ⟨s₁, hone, hactive₁, hlog₁, hstate₁, hpriority₁, hclaimable₁⟩ :=
      hinv.serve_one hactive (Plic.best_eq_some hperm hsorted.1) accepts
    have hreaches : Reaches context base count d
        (acts ++ [.trap, .line irq false, .done accepts]) s₁ := by
      rw [Reaches, Lib.run_append, hrun, Option.bind_some, configure_eq haligned, hone]
    have hnodup : (irq :: rest).Nodup :=
      hperm.nodup_iff.mpr (Plic.claimable_pairwise s.device context).nodup
    have hperm₁ : rest.Perm (s₁.device.claimable context) := by
      have hfilter := hperm.filter (· ≠ irq)
      rw [List.filter_cons_of_neg (by simp), List.filter_eq_self.mpr] at hfilter
      · rwa [hclaimable₁]
      · intro irq' hirq'
        exact decide_eq_true (ne_of_mem_of_not_mem hirq' (List.nodup_cons.mp hnodup).1)
    have hsorted₁ : rest.Pairwise (Plic.Before s₁.device) := by
      refine hsorted.2.imp fun hbefore => ?_
      rwa [Plic.Before, hpriority₁]
    obtain ⟨s', hs', hactive', hlog', hclaimable'⟩ := ih _ s₁ hreaches hactive₁ hperm₁ hsorted₁
    refine ⟨s', ?_, hactive', ?_, hclaimable'⟩
    · rwa [List.append_assoc] at hs'
    · simp only [hlog', hlog₁, Irqs.target, hstate₁, List.map_cons, List.append_assoc,
        List.singleton_append]

theorem two_requests_served_in_order :
    ∃ s s' : Sys Unit 64,
      Reaches 1 0xC000000 96 virtPlic [.enable 10 2, .line 3 true, .line 10 true] s ∧
      Reaches 1 0xC000000 96 virtPlic
        ([.enable 10 2, .line 3 true, .line 10 true] ++ serve (fun _ _ => false) [10, 3]) s' ∧
      s'.log = s.log ++ [10, 3].map (fun irq => (irq, s.irqs.target irq)) := by
  have hstate : (Lib.run (step 1 (configure 0xC000000 95))
      (boot 64 1 (configure 0xC000000 95) virtPlic 96)
      ([.enable 10 2, .line 3 true, .line 10 true] : List (Action Unit))).map
        (fun s => (s.active, s.device.claimable 1, decide (Plic.Before s.device 10 3))) =
        some (none, [3, 10], true) := by decide +kernel
  obtain ⟨s, hs, hfields⟩ := Option.map_eq_some_iff.mp hstate
  obtain ⟨hactive, hclaimable, hbefore⟩ : s.active = none ∧ s.device.claimable 1 = [3, 10] ∧
      Plic.Before s.device 10 3 := by simpa using hfields
  obtain ⟨s', hs', -, hlog, -⟩ := traps_serve_in_order virtPlic virtPlic_attached (by decide) rfl
    (by decide) 96 _ s hs hactive [10, 3] (hclaimable ▸ List.Perm.swap 3 10 [])
    (by simpa using hbefore) fun _ _ => false
  exact ⟨s, s', hs, hs', hlog⟩

end OpenIon.Platform.RiscvGeneric.ExternalIrq
