import OpenIon.Lib.While
import OpenIon.Lib.Text
import Mathlib.Logic.Function.Basic

/-! # The walk over a flattened device tree

`walk_nodes` of `fdt.rs` on a 64-bit target, with the accessors of a node. The memory is the list
of the readable bytes from the address of the blob on; reading beyond it is a fault. Texts are
lists of bytes. The callback is called for a node at its end token.
-/
namespace OpenIon.Fdt
open Lib

def fdtMagic : ℕ := 0xd00dfeed
def fdtBeginNode : ℕ := 1
def fdtEndNode : ℕ := 2
def fdtProp : ℕ := 3
def fdtNop : ℕ := 4
def fdtEnd : ℕ := 9
def maxDepth : ℕ := 16
def defaultAddressCells : ℕ := 2
def defaultSizeCells : ℕ := 1

structure FdtReg where
  base : ℕ
  size : ℕ
  deriving DecidableEq

structure FdtNode where
  name : List UInt8
  compatible : Option (List UInt8) := none
  model : Option (List UInt8) := none
  reg : Option (List UInt8) := none
  interrupt : Option ℕ := none
  interruptsExtended : Option (List UInt8) := none
  timebaseFrequency : Option ℕ := none
  deviceType : Option (List UInt8) := none
  riscvIsa : Option (List UInt8) := none
  status : Option (List UInt8) := none
  stdoutPath : Option (List UInt8) := none
  regShift : Option ℕ := none
  regIoWidth : Option ℕ := none
  clockFrequency : Option ℕ := none
  currentSpeed : Option ℕ := none
  riscvNdev : Option ℕ := none
  riscvNumints : Option ℕ := none
  addressCells : ℕ
  sizeCells : ℕ
  childAddressCells : ℕ := defaultAddressCells
  childSizeCells : ℕ := defaultSizeCells
  deriving DecidableEq

/-- The first four bytes as a big-endian word; callers have them. -/
def readBe32Slice : List UInt8 → ℕ
  | a :: b :: c :: d :: _ => ((a.toNat * 2 ^ 8 + b.toNat) * 2 ^ 8 + c.toNat) * 2 ^ 8 + d.toNat
  | _ => 0

/-! ### Accessors -/

/-- `NulStringIter::next`: the first item that is not empty, and what follows its end. -/
def nulStringNext : List UInt8 → Option (List UInt8 × List UInt8)
  | [] => none
  | b :: data =>
    if b = 0 then nulStringNext data
    else some ((b :: data).takeWhile (· != 0), ((b :: data).dropWhile (· != 0)).drop 1)

/-- The loop of `compatible_matches`; every item is shorter than what is left. -/
def anyNulString (expected : List UInt8) : ℕ → List UInt8 → Bool
  | 0, _ => false
  | n + 1, data =>
    match nulStringNext data with
    | none => false
    | some (item, rest) => item = expected || anyNulString expected n rest

def FdtNode.compatibleMatches (node : FdtNode) (expected : List UInt8) : Bool :=
  match node.compatible with
  | none => false
  | some data => anyNulString expected (data.length + 1) data

def readCells (bytes : List UInt8) (cells : ℕ) : Option ℕ :=
  if cells = 0 then some 0
  else if 2 < cells ∨ bytes.length < cells * 4 then none
  else
    some ((List.range cells).foldl (fun value i =>
      (value <<< 32) % 2 ^ 64 ||| readBe32Slice (bytes.drop (i * 4))) 0)

def FdtNode.firstReg (node : FdtNode) : Option FdtReg := do
  let reg ← node.reg
  let entryLen := (node.addressCells + node.sizeCells) * 4
  if entryLen = 0 ∨ reg.length < entryLen then none
  else
    let base ← readCells (reg.take (node.addressCells * 4)) node.addressCells
    let size ← if node.sizeCells = 0 then some 0
      else readCells ((reg.drop (node.addressCells * 4)).take (node.sizeCells * 4)) node.sizeCells
    some ⟨base % 2 ^ 64, size % 2 ^ 64⟩

/-- The text before the first NUL byte, if there is any. -/
def firstNulString (data : List UInt8) : Option (List UInt8) :=
  let item := data.takeWhile (· != 0)
  if item.isEmpty then none else some item

/-- A shortcut for the searches by name. -/
instance lawfulBEqBytes : LawfulBEq (List UInt8) := inferInstance

def FdtNode.isAvailable (node : FdtNode) : Bool :=
  match node.status.bind firstNulString with
  | some status => status ∉ [ascii "disabled", ascii "reserved", ascii "fail"]
  | none => true

def FdtNode.interruptsExtendedIrq (node : FdtNode) : Option ℕ := do
  let data ← node.interruptsExtended
  if data.length < 8 ∨ data.length % 4 ≠ 0 then none
  else some (readBe32Slice (data.drop ((data.length / 4 - 1) * 4)))

def FdtNode.interruptOrZero (node : FdtNode) : ℕ :=
  (node.interrupt.or node.interruptsExtendedIrq).getD 0

/-! ### Properties -/

/-- The properties the walk knows. -/
inductive PropKey where
  | compatible | model | reg | interrupts | interruptsExtended | timebaseFrequency | deviceType
  | riscvIsa | status | stdoutPath | regShift | regIoWidth | clockFrequency | currentSpeed
  | riscvNdev | riscvNumints | addressCells | sizeCells
  deriving DecidableEq

def PropKey.names : PropKey → List (List UInt8)
  | .compatible => [ascii "compatible"]
  | .model => [ascii "model"]
  | .reg => [ascii "reg"]
  | .interrupts => [ascii "interrupts"]
  | .interruptsExtended => [ascii "interrupts-extended"]
  | .timebaseFrequency => [ascii "timebase-frequency"]
  | .deviceType => [ascii "device_type"]
  | .riscvIsa => [ascii "riscv,isa"]
  | .status => [ascii "status"]
  | .stdoutPath => [ascii "stdout-path"]
  | .regShift => [ascii "reg-shift"]
  | .regIoWidth => [ascii "reg-io-width"]
  | .clockFrequency => [ascii "clock-frequency"]
  | .currentSpeed => [ascii "current-speed"]
  | .riscvNdev => [ascii "riscv,ndev"]
  | .riscvNumints => [ascii "riscv,numints", ascii "riscv,num-interrupts"]
  | .addressCells => [ascii "#address-cells"]
  | .sizeCells => [ascii "#size-cells"]

/-- The arms of the match on the name of a property, in their order. -/
def PropKey.all : List PropKey :=
  [.compatible, .model, .reg, .interrupts, .interruptsExtended, .timebaseFrequency, .deviceType,
    .riscvIsa, .status, .stdoutPath, .regShift, .regIoWidth, .clockFrequency, .currentSpeed,
    .riscvNdev, .riscvNumints, .addressCells, .sizeCells]

def recognise (name : List UInt8) : Option PropKey := PropKey.all.find? fun k => name ∈ k.names

/-- The first word of a property of at least four bytes; of a shorter one the old value stays. -/
def wordOr (old : Option ℕ) (data : List UInt8) : Option ℕ :=
  if 4 ≤ data.length then some (readBe32Slice data) else old

def cellsOr (old : ℕ) (data : List UInt8) : ℕ :=
  if 4 ≤ data.length then min (readBe32Slice data) 255 else old

def FdtNode.setProp (node : FdtNode) (name data : List UInt8) : FdtNode :=
  match recognise name with
  | none => node
  | some .compatible => { node with compatible := some data }
  | some .model => { node with model := some data }
  | some .reg => { node with reg := some data }
  | some .interrupts => { node with interrupt := wordOr node.interrupt data }
  | some .interruptsExtended => { node with interruptsExtended := some data }
  | some .timebaseFrequency => { node with timebaseFrequency := wordOr node.timebaseFrequency data }
  | some .deviceType => { node with deviceType := some data }
  | some .riscvIsa => { node with riscvIsa := some data }
  | some .status => { node with status := some data }
  | some .stdoutPath => { node with stdoutPath := some data }
  | some .regShift => { node with regShift := wordOr node.regShift data }
  | some .regIoWidth => { node with regIoWidth := wordOr node.regIoWidth data }
  | some .clockFrequency => { node with clockFrequency := wordOr node.clockFrequency data }
  | some .currentSpeed => { node with currentSpeed := wordOr node.currentSpeed data }
  | some .riscvNdev => { node with riscvNdev := wordOr node.riscvNdev data }
  | some .riscvNumints => { node with riscvNumints := wordOr node.riscvNumints data }
  | some .addressCells => { node with childAddressCells := cellsOr node.childAddressCells data }
  | some .sizeCells => { node with childSizeCells := cellsOr node.childSizeCells data }

def FdtNode.propU32 (node : FdtNode) (name : List UInt8) : Option ℕ :=
  match recognise name with
  | some .regShift => node.regShift
  | some .regIoWidth => node.regIoWidth
  | some .clockFrequency => node.clockFrequency
  | some .currentSpeed => node.currentSpeed
  | some .riscvNdev => node.riscvNdev
  | some .riscvNumints => node.riscvNumints
  | _ => none

/-! ### The stack of open nodes -/

/-- The depth, and the nodes that are open at the depths below sixteen. -/
structure Level where
  depth : ℕ
  nodes : ℕ → Option FdtNode

namespace Level

def cells (l : Level) : ℕ × ℕ :=
  if l.depth = 0 then (defaultAddressCells, defaultSizeCells)
  else
    match l.nodes (l.depth - 1) with
    | some parent => (parent.childAddressCells, parent.childSizeCells)
    | none => (defaultAddressCells, defaultSizeCells)

def beginNode (l : Level) (name : List UInt8) : Level where
  depth := l.depth + 1
  nodes :=
    if l.depth < maxDepth then
      Function.update l.nodes l.depth
        (some { name := name, addressCells := l.cells.1, sizeCells := l.cells.2 })
    else l.nodes

/-- The node that ends, if it is reported. -/
def ending (l : Level) : Option FdtNode :=
  if 0 < l.depth ∧ l.depth - 1 < maxDepth then l.nodes (l.depth - 1) else none

def endNode (l : Level) : Level where
  depth := l.depth - 1
  nodes := if l.ending.isSome then Function.update l.nodes (l.depth - 1) none else l.nodes

def current (l : Level) : Option FdtNode :=
  if l.depth = 0 ∨ maxDepth ≤ l.depth - 1 then none else l.nodes (l.depth - 1)

def setProp (l : Level) (name data : List UInt8) : Level :=
  match l.current with
  | none => l
  | some node =>
    { l with nodes := Function.update l.nodes (l.depth - 1) (some (node.setProp name data)) }

end Level

/-! ### The walk -/

inductive Stop where
  | fault
  | fuel
  deriving DecidableEq

abbrev Io := Logged FdtNode Stop

structure Walk where
  pos : ℕ
  level : Level
  broken : Bool

variable (mem : List UInt8)

def readBe32Ptr (ptr : ℕ) : Io ℕ :=
  if ptr + 4 ≤ mem.length then pure (readBe32Slice (mem.drop ptr)) else Logged.fail .fault

def fdtString (ptr : ℕ) : Io (List UInt8) :=
  let s := (mem.drop ptr).takeWhile (· != 0)
  if ptr + s.length < mem.length then pure s else Logged.fail .fault

def slice (ptr len : ℕ) : Io (List UInt8) :=
  if ptr + len ≤ mem.length then pure ((mem.drop ptr).take len) else Logged.fail .fault

def clearLow (n : ℕ) : ℕ := n / 4 * 4

/-- One turn of the loop of `walk_nodes`. -/
def turn (stringsBase : ℕ) (s : Walk) : Io Walk := do
  let token ← readBe32Ptr mem s.pos
  let pos := s.pos + 4
  if token = fdtBeginNode then
    let name ← fdtString mem pos
    pure { s with pos := pos + clearLow (name.length + 4), level := s.level.beginNode name }
  else if token = fdtEndNode then
    Logged.tellAll s.level.ending.toList
    pure { s with pos := pos, level := s.level.endNode }
  else if token = fdtProp then
    let len ← readBe32Ptr mem pos
    if s.level.current = none then pure { s with pos := pos + (8 + clearLow (len + 3)) }
    else
      let nameoff ← readBe32Ptr mem (pos + 4)
      let name ← fdtString mem (stringsBase + nameoff)
      let data ← slice mem (pos + 8) len
      pure { s with pos := pos + 8 + clearLow (len + 3), level := s.level.setProp name data }
  else if token = fdtNop then pure { s with pos := pos }
  else pure { s with pos := pos, broken := true }

/-- The condition of the loop, which `break` ends. -/
def going (end_ : ℕ) (s : Walk) : Bool := !s.broken && decide (s.pos < end_)

/-- Every turn moves on by at least four bytes, so there are fewer turns than bytes. -/
def walkNodes : Io Unit := do
  let magic ← readBe32Ptr mem 0
  if magic ≠ fdtMagic then pure ()
  else
    let totalsize ← readBe32Ptr mem 4
    let offStruct ← readBe32Ptr mem 8
    let offStrings ← readBe32Ptr mem 12
    let _ ← loop .fuel (going totalsize) (turn mem offStrings) (totalsize + 1)
      ⟨offStruct, ⟨0, fun _ => none⟩, false⟩
    pure ()

end OpenIon.Fdt
