import OpenIon.Fdt.Walk

/-! # Device trees

What a flattened device tree stands for: nodes with names, properties and children, and the
tokens they are written with. `visits` are the nodes that a walk should report, children before
their parent, with the values their properties have. A walk over the tokens of a tree reports
exactly those and leaves the stack as it found it.
-/
namespace OpenIon.Fdt
open Lib

abbrev Props := List (List UInt8 × List UInt8)

/-- Sibling nodes in their order: the first with its properties and children, and the rest. -/
inductive Nodes where
  | nil
  | cons (name : List UInt8) (props : Props) (children rest : Nodes)

inductive Token where
  | beginNode (name : List UInt8)
  | endNode
  | prop (name data : List UInt8)
  | nop
  deriving DecidableEq

def Nodes.tokens : Nodes → List Token
  | .nil => []
  | .cons name props children rest =>
    .beginNode name :: (props.map (fun p => .prop p.1 p.2) ++
      (children.tokens ++ .endNode :: rest.tokens))

/-! ### What is expected -/

/-- The value of a property; of several the last one counts. -/
def Props.value (props : Props) (k : PropKey) : Option (List UInt8) :=
  (props.reverse.find? fun p => p.1 ∈ k.names).map Prod.snd

/-- The first word of the last property of that kind with at least four bytes. -/
def Props.word (props : Props) (k : PropKey) : Option ℕ :=
  (props.reverse.find? fun p => p.1 ∈ k.names ∧ 4 ≤ p.2.length).map fun p => readBe32Slice p.2

/-- Numbers of cells are capped at 255. -/
def Props.cells (props : Props) (k : PropKey) (default : ℕ) : ℕ :=
  match props.word k with
  | some v => min v 255
  | none => default

/-- A node as it should be reported, below a parent with the given properties. -/
def describe (parent : Option Props) (name : List UInt8) (props : Props) : FdtNode where
  name := name
  compatible := props.value .compatible
  model := props.value .model
  reg := props.value .reg
  interrupt := props.word .interrupts
  interruptsExtended := props.value .interruptsExtended
  timebaseFrequency := props.word .timebaseFrequency
  deviceType := props.value .deviceType
  riscvIsa := props.value .riscvIsa
  status := props.value .status
  stdoutPath := props.value .stdoutPath
  regShift := props.word .regShift
  regIoWidth := props.word .regIoWidth
  clockFrequency := props.word .clockFrequency
  currentSpeed := props.word .currentSpeed
  riscvNdev := props.word .riscvNdev
  riscvNumints := props.word .riscvNumints
  addressCells := (parent.getD []).cells .addressCells 2
  sizeCells := (parent.getD []).cells .sizeCells 1
  childAddressCells := props.cells .addressCells 2
  childSizeCells := props.cells .sizeCells 1

/-- The nodes of depth below sixteen in post-order; the first ones are at depth `d`. -/
def Nodes.visits (d : ℕ) (parent : Option Props) : Nodes → List FdtNode
  | .nil => []
  | .cons name props children rest =>
    children.visits (d + 1) (some props) ++
      ((if d < maxDepth then [describe parent name props] else []) ++ rest.visits d parent)

/-! ### Properties -/

theorem recognise_eq_some {name : List UInt8} {k : PropKey} :
    recognise name = some k ↔ name ∈ k.names := by
  constructor
  · intro h
    simpa using List.find?_some h
  · intro h
    have hall : ∀ k ∈ PropKey.all, ∀ n ∈ k.names, recognise n = some k := by decide +kernel
    exact hall k (by cases k <;> decide) name h

variable {props : Props} {name data : List UInt8} {k : PropKey} {parent : Option Props}

theorem Props.value_concat :
    Props.value (props ++ [(name, data)]) k =
      if recognise name = some k then some data else props.value k := by
  simp only [Props.value, List.reverse_concat, List.find?_cons, recognise_eq_some]
  by_cases h : name ∈ k.names <;> simp [h]

theorem Props.word_concat :
    Props.word (props ++ [(name, data)]) k =
      if recognise name = some k then wordOr (props.word k) data else props.word k := by
  simp only [Props.word, wordOr, List.reverse_concat, List.find?_cons, recognise_eq_some]
  by_cases h : name ∈ k.names <;> by_cases hlen : 4 ≤ data.length <;> simp [h, hlen]

theorem Props.cells_concat {default : ℕ} :
    Props.cells (props ++ [(name, data)]) k default =
      if recognise name = some k then cellsOr (props.cells k default) data
      else props.cells k default := by
  simp only [Props.cells, Props.word_concat, wordOr, cellsOr]
  split_ifs <;> rfl

theorem setProp_describe (p : List UInt8 × List UInt8) :
    (describe parent name props).setProp p.1 p.2 = describe parent name (props ++ [p]) := by
  obtain ⟨n, data⟩ := p
  unfold FdtNode.setProp describe
  simp only [Props.value_concat, Props.word_concat, Props.cells_concat]
  cases recognise n with
  | none => simp
  | some k => cases k <;> simp

/-! ### The walk over tokens -/

/-- What a token does to the stack, and the node it reports. -/
def Token.run : Token → Level → Level × List FdtNode
  | .beginNode name, l => (l.beginNode name, [])
  | .endNode, l => (l.endNode, l.ending.toList)
  | .prop name data, l => (l.setProp name data, [])
  | .nop, l => (l, [])

def runTokens : List Token → Level → Level × List FdtNode
  | [], l => (l, [])
  | t :: ts, l =>
    ((runTokens ts (t.run l).1).1, (t.run l).2 ++ (runTokens ts (t.run l).1).2)

variable {l l' : Level} {ts ts' : List Token} {out out' : List FdtNode}

theorem runTokens_append (h : runTokens ts l = (l', out)) :
    runTokens (ts ++ ts') l = ((runTokens ts' l').1, out ++ (runTokens ts' l').2) := by
  induction ts generalizing l out with
  | nil =>
    obtain ⟨rfl, rfl⟩ := Prod.mk.inj h
    rfl
  | cons t ts ih =>
    rw [runTokens] at h
    obtain ⟨hlevel, rfl⟩ := Prod.mk.inj h
    rw [List.cons_append, runTokens, ih (Prod.ext hlevel rfl), List.append_assoc]

theorem runTokens_filter :
    runTokens (ts.filter (· ≠ .nop)) l = runTokens ts l := by
  induction ts generalizing l with
  | nil => rfl
  | cons t ts ih =>
    by_cases ht : t = .nop
    · subst ht
      rw [List.filter_cons_of_neg (by simp), ih]
      rfl
    · rw [List.filter_cons_of_pos (by simpa using ht), runTokens, runTokens, ih]

def Level.opened (l : Level) (parent : Option Props) (name : List UInt8) (props : Props) :
    Level where
  depth := l.depth + 1
  nodes :=
    if l.depth < maxDepth then Function.update l.nodes l.depth (some (describe parent name props))
    else l.nodes

/-- The cells of a node that begins here are those its parent asks for. -/
def Level.Below (l : Level) (parent : Option Props) : Prop :=
  l.depth < maxDepth →
    l.cells = ((parent.getD []).cells .addressCells 2, (parent.getD []).cells .sizeCells 1)

/-- No node is open at this depth or deeper. -/
def Level.Clean (l : Level) : Prop := ∀ i, l.depth ≤ i → l.nodes i = none

theorem Level.Below.beginNode (h : l.Below parent) : l.beginNode name = l.opened parent name [] := by
  unfold Level.beginNode Level.opened
  congr 1
  split_ifs with hdepth
  · rw [h hdepth]
    rfl
  · rfl

theorem Level.current_opened :
    (l.opened parent name props).current =
      if l.depth < maxDepth then some (describe parent name props) else none := by
  unfold Level.current Level.opened
  by_cases hdepth : l.depth < maxDepth
  · simp [hdepth, Nat.not_le.mpr hdepth]
  · simp [hdepth, Nat.not_lt.mp hdepth]

theorem Level.setProp_opened (p : List UInt8 × List UInt8) :
    (l.opened parent name props).setProp p.1 p.2 = l.opened parent name (props ++ [p]) := by
  unfold Level.setProp
  rw [Level.current_opened]
  by_cases hdepth : l.depth < maxDepth
  · simp [hdepth, Level.opened, setProp_describe]
  · simp [hdepth, Level.opened]

theorem runTokens_props (rest : Props) :
    runTokens (rest.map fun p => .prop p.1 p.2) (l.opened parent name props) =
      (l.opened parent name (props ++ rest), []) := by
  induction rest generalizing props with
  | nil => simp [runTokens]
  | cons p rest ih =>
    rw [List.map_cons, runTokens, Token.run, Level.setProp_opened, ih, List.append_assoc]
    rfl

theorem Level.ending_opened :
    (l.opened parent name props).ending =
      if l.depth < maxDepth then some (describe parent name props) else none := by
  unfold Level.ending Level.opened
  by_cases hdepth : l.depth < maxDepth <;> simp [hdepth]

theorem Level.Clean.endNode_opened (h : l.Clean) : (l.opened parent name props).endNode = l := by
  unfold Level.endNode
  rw [Level.ending_opened]
  obtain ⟨d, nodes⟩ := l
  by_cases hdepth : d < maxDepth
  · have hnone : Function.update nodes d none = nodes := by
      rw [← h d le_rfl, Function.update_eq_self]
    simp [hdepth, Level.opened, hnone]
  · simp [hdepth, Level.opened]

theorem Level.Clean.opened (h : l.Clean) : (l.opened parent name props).Clean := by
  intro i hi
  have hlt : l.depth < i := hi
  have hnone := h i hlt.le
  have hne : i ≠ l.depth := hlt.ne'
  by_cases hdepth : l.depth < maxDepth
  · simpa [Level.opened, hdepth, hne] using hnone
  · simpa [Level.opened, hdepth] using hnone

theorem Level.below_opened : (l.opened parent name props).Below (some props) := by
  intro hdepth
  have hlt : l.depth < maxDepth := Nat.lt_of_succ_lt hdepth
  simp [Level.cells, Level.opened, hlt, describe]

/-- The walk over the tokens of sibling nodes reports them and those below them, and leaves the
stack as it was. -/
theorem runTokens_nodes (ns : Nodes) (hclean : l.Clean) (hbelow : l.Below parent) :
    runTokens ns.tokens l = (l, ns.visits l.depth parent) := by
  induction ns generalizing l parent with
  | nil => rfl
  | cons name props children rest ihchildren ihrest =>
    have hprops : runTokens (props.map fun p => .prop p.1 p.2) (l.opened parent name []) =
        (l.opened parent name props, []) := runTokens_props props
    have hchildren : runTokens children.tokens (l.opened parent name props) =
        (l.opened parent name props, children.visits (l.depth + 1) (some props)) :=
      ihchildren hclean.opened Level.below_opened
    have hend : runTokens (.endNode :: rest.tokens) (l.opened parent name props) =
        (l, (if l.depth < maxDepth then [describe parent name props] else []) ++
          rest.visits l.depth parent) := by
      rw [runTokens, Token.run, hclean.endNode_opened, ihrest hclean hbelow, Level.ending_opened]
      split_ifs <;> rfl
    rw [Nodes.tokens, runTokens, Token.run, hbelow.beginNode, runTokens_append hprops,
      List.nil_append, runTokens_append hchildren, hend]
    rfl

end OpenIon.Fdt
