import OpenIon.Fdt.Tree
import OpenIon.Fdt.Accessors

/-! # Flattened device trees

How the tokens of a tree stand in memory, and that `walk_nodes` reports the nodes of the tree
from there. Between the tokens of the tree there may be `FDT_NOP` tokens.
-/
namespace OpenIon.Fdt
open Lib

/-! ### The format -/

structure Tree where
  name : List UInt8
  props : Props
  children : Nodes

/-- The nodes that begin at depth zero: the root alone. -/
def Tree.nodes (t : Tree) : Nodes := .cons t.name t.props t.children .nil

section Format

variable (mem : List UInt8)

def WordAt (ptr v : ℕ) : Prop := ptr + 4 ≤ mem.length ∧ readBe32Slice (mem.drop ptr) = v

def TextAt (ptr : ℕ) (s : List UInt8) : Prop := 0 ∉ s ∧ s ++ [0] <+: mem.drop ptr

def align4 (n : ℕ) : ℕ := (n + 3) / 4 * 4

/-- A property whose name stands in the strings block, at the offset the third word says. -/
def PropAt (strings pos : ℕ) (name data : List UInt8) : Prop :=
  WordAt mem pos fdtProp ∧ WordAt mem (pos + 4) data.length ∧ pos + 12 ≤ mem.length ∧
    TextAt mem (strings + readBe32Slice (mem.drop (pos + 8))) name ∧ data <+: mem.drop (pos + 12)

/-- The tokens stand one after the other between two positions. -/
def Stored (strings : ℕ) : ℕ → List Token → ℕ → Prop
  | pos, [], fin => pos = fin
  | pos, .beginNode name :: ts, fin =>
    (WordAt mem pos fdtBeginNode ∧ TextAt mem (pos + 4) name) ∧
      Stored strings (pos + 4 + align4 (name.length + 1)) ts fin
  | pos, .endNode :: ts, fin => WordAt mem pos fdtEndNode ∧ Stored strings (pos + 4) ts fin
  | pos, .prop name data :: ts, fin =>
    PropAt mem strings pos name data ∧ Stored strings (pos + 12 + align4 data.length) ts fin
  | pos, .nop :: ts, fin => WordAt mem pos fdtNop ∧ Stored strings (pos + 4) ts fin

instance (ptr v : ℕ) : Decidable (WordAt mem ptr v) := inferInstanceAs (Decidable (_ ∧ _))

instance (ptr : ℕ) (s : List UInt8) : Decidable (TextAt mem ptr s) :=
  inferInstanceAs (Decidable (_ ∧ _))

instance (strings pos : ℕ) (name data : List UInt8) :
    Decidable (PropAt mem strings pos name data) :=
  inferInstanceAs (Decidable (_ ∧ _))

instance Stored.decide (strings : ℕ) :
    (pos : ℕ) → (ts : List Token) → (fin : ℕ) → Decidable (Stored mem strings pos ts fin)
  | pos, [], fin => inferInstanceAs (Decidable (pos = fin))
  | pos, .beginNode name :: ts, fin =>
    have := Stored.decide strings (pos + 4 + align4 (name.length + 1)) ts fin
    inferInstanceAs (Decidable (_ ∧ _))
  | pos, .endNode :: ts, fin | pos, .nop :: ts, fin =>
    have := Stored.decide strings (pos + 4) ts fin
    inferInstanceAs (Decidable (_ ∧ _))
  | pos, .prop _ data :: ts, fin =>
    have := Stored.decide strings (pos + 12 + align4 data.length) ts fin
    inferInstanceAs (Decidable (_ ∧ _))

/-- The words of a header of version 17 that matter to a walk. -/
def headerWords (totalsize offStruct offStrings : ℕ) : List (ℕ × ℕ) :=
  [(0, fdtMagic), (4, totalsize), (8, offStruct), (12, offStrings), (20, 17)]

/-- A header and a structure block with the tokens `ts`, which ends at `fin`. -/
structure Layout (totalsize offStruct offStrings fin : ℕ) (ts : List Token) : Prop where
  header : ∀ w ∈ headerWords totalsize offStruct offStrings, WordAt mem w.1 w.2
  stored : Stored mem offStrings offStruct ts fin
  last : WordAt mem fin fdtEnd
  inside : fin + 4 ≤ totalsize

/-- The memory holds the tree in its flattened form. -/
def Encodes (t : Tree) : Prop :=
  ∃ totalsize offStruct offStrings fin ts,
    Layout mem totalsize offStruct offStrings fin ts ∧ ts.filter (· ≠ .nop) = t.nodes.tokens

end Format

/-! ### Reading -/

variable {mem : List UInt8} {ptr v : ℕ} {s : List UInt8}

theorem WordAt.readBe32Ptr (h : WordAt mem ptr v) : readBe32Ptr mem ptr = pure v := by
  unfold Fdt.readBe32Ptr
  rw [if_pos h.1, h.2]

theorem TextAt.fdtString (h : TextAt mem ptr s) : fdtString mem ptr = pure s := by
  obtain ⟨hzero, rest, hrest⟩ := h
  have htake : (mem.drop ptr).takeWhile (· != 0) = s := by
    rw [← hrest, List.append_assoc, List.takeWhile_append_of_pos]
    · simp
    · intro b hb
      simpa using fun hb0 : b = 0 => hzero (hb0 ▸ hb)
  have hlen : s.length + (rest.length + 1) = mem.length - ptr := by
    simpa using congrArg List.length hrest
  unfold Fdt.fdtString
  dsimp only
  rw [htake, if_pos (by omega)]

theorem slice_eq (hptr : ptr ≤ mem.length) (h : s <+: mem.drop ptr) :
    slice mem ptr s.length = pure s := by
  have hlen := h.length_le
  rw [List.length_drop] at hlen
  unfold slice
  rw [if_pos (by omega), ← List.prefix_iff_eq_take.mp h]

/-! ### One turn -/

variable {strings pos fin : ℕ} {l : Level} {name data : List UInt8}

theorem turn_beginNode (hword : WordAt mem pos fdtBeginNode) (hname : TextAt mem (pos + 4) name) :
    turn mem strings ⟨pos, l, false⟩ =
      pure ⟨pos + 4 + align4 (name.length + 1), l.beginNode name, false⟩ := by
  unfold turn
  rw [hword.readBe32Ptr, Logged.pure_bind, if_pos rfl, hname.fdtString]
  rfl

theorem turn_endNode (hword : WordAt mem pos fdtEndNode) :
    turn mem strings ⟨pos, l, false⟩ =
      (Logged.tellAll l.ending.toList >>= fun _ => pure ⟨pos + 4, l.endNode, false⟩) := by
  unfold turn
  rw [hword.readBe32Ptr, Logged.pure_bind, if_neg (by decide), if_pos rfl]

/-- A property of no node that is kept is skipped unread, which changes nothing. -/
theorem turn_prop (h : PropAt mem strings pos name data) :
    turn mem strings ⟨pos, l, false⟩ =
      pure ⟨pos + 12 + align4 data.length, l.setProp name data, false⟩ := by
  obtain ⟨hword, hlen, hinside, hname, hdata⟩ := h
  unfold turn
  rw [hword.readBe32Ptr, Logged.pure_bind, if_neg (by decide), if_neg (by decide), if_pos rfl,
    hlen.readBe32Ptr, Logged.pure_bind]
  by_cases hcurrent : l.current = none
  · have hskip : pos + 4 + (8 + clearLow (data.length + 3)) = pos + 12 + align4 data.length := by
      unfold clearLow align4
      omega
    rw [if_pos hcurrent, hskip]
    simp [Level.setProp, hcurrent]
  · have hoff : WordAt mem (pos + 8) (readBe32Slice (mem.drop (pos + 8))) := ⟨hinside, rfl⟩
    have hslice : slice mem (pos + 4 + 8) data.length = pure data := slice_eq hinside hdata
    rw [if_neg hcurrent, hoff.readBe32Ptr, Logged.pure_bind, hname.fdtString, Logged.pure_bind,
      hslice]
    rfl

theorem turn_nop (hword : WordAt mem pos fdtNop) :
    turn mem strings ⟨pos, l, false⟩ = pure ⟨pos + 4, l, false⟩ := by
  unfold turn
  rw [hword.readBe32Ptr, Logged.pure_bind, if_neg (by decide), if_neg (by decide),
    if_neg (by decide), if_pos rfl]

theorem turn_end (hword : WordAt mem pos fdtEnd) :
    turn mem strings ⟨pos, l, false⟩ = pure ⟨pos + 4, l, true⟩ := by
  unfold turn
  rw [hword.readBe32Ptr, Logged.pure_bind, if_neg (by decide), if_neg (by decide),
    if_neg (by decide), if_neg (by decide)]

/-! ### The loop -/

theorem going_of_lt {end_ : ℕ} (h : pos < end_) : going end_ ⟨pos, l, false⟩ = true := by
  simp [going, h]

theorem Stored.le {ts : List Token} (h : Stored mem strings pos ts fin) : pos ≤ fin := by
  induction ts generalizing pos with
  | nil => exact h.le
  | cons t ts ih =>
    cases t <;>
    · have hle := ih h.2
      omega

theorem Stored.lt {t : Token} {ts : List Token} (h : Stored mem strings pos (t :: ts) fin) :
    pos < fin := by
  cases t <;>
  · have hle := h.2.le
    omega

/-- The loop does to the stack what the tokens do, and reports the same nodes. -/
theorem Stored.leads {end_ : ℕ} {ts : List Token} (h : Stored mem strings pos ts fin)
    (hend : fin ≤ end_) :
    Leads .fuel (going end_) (turn mem strings) ⟨pos, l, false⟩ (runTokens ts l).2
      ⟨fin, (runTokens ts l).1, false⟩ := by
  induction ts generalizing pos l with
  | nil =>
    obtain rfl : pos = fin := h
    exact Leads.refl _
  | cons t ts ih =>
    have hgoing : going end_ ⟨pos, l, false⟩ = true := going_of_lt (h.lt.trans_le hend)
    cases t with
    | beginNode name => exact (Leads.single hgoing (turn_beginNode h.1.1 h.1.2)).trans (ih h.2)
    | endNode => exact (Leads.single hgoing (turn_endNode h.1)).trans (ih h.2)
    | prop name data => exact (Leads.single hgoing (turn_prop h.1)).trans (ih h.2)
    | nop => exact (Leads.single hgoing (turn_nop h.1)).trans (ih h.2)

/-! ### There is always enough fuel -/

theorem turn_pos {w w' : Walk} (h : (turn mem strings w).value = .ok w') : w.pos + 4 ≤ w'.pos := by
  unfold turn at h
  obtain ⟨token, -, h⟩ := Logged.value_bind_eq_ok.mp h
  split_ifs at h
  · obtain ⟨name, -, h⟩ := Logged.value_bind_eq_ok.mp h
    obtain rfl := Except.ok.inj h
    exact Nat.le_add_right _ _
  · obtain ⟨-, -, h⟩ := Logged.value_bind_eq_ok.mp h
    obtain rfl := Except.ok.inj h
    exact le_rfl
  · obtain ⟨len, -, h⟩ := Logged.value_bind_eq_ok.mp h
    obtain rfl := Except.ok.inj h
    exact Nat.le_add_right _ _
  · obtain ⟨len, -, h⟩ := Logged.value_bind_eq_ok.mp h
    obtain ⟨nameoff, -, h⟩ := Logged.value_bind_eq_ok.mp h
    obtain ⟨name, -, h⟩ := Logged.value_bind_eq_ok.mp h
    obtain ⟨data, -, h⟩ := Logged.value_bind_eq_ok.mp h
    obtain rfl := Except.ok.inj h
    dsimp only
    omega
  · obtain rfl := Except.ok.inj h
    exact le_rfl
  · obtain rfl := Except.ok.inj h
    exact le_rfl

theorem readBe32Ptr_ne_fuel : (readBe32Ptr mem ptr).value ≠ .error .fuel := by
  unfold readBe32Ptr
  split_ifs <;> simp

theorem fdtString_ne_fuel : (fdtString mem ptr).value ≠ .error .fuel := by
  unfold fdtString
  dsimp only
  split_ifs <;> simp

theorem slice_ne_fuel {len : ℕ} : (slice mem ptr len).value ≠ .error .fuel := by
  unfold slice
  split_ifs <;> simp

theorem turn_ne_fuel (w : Walk) : (turn mem strings w).value ≠ .error .fuel := by
  unfold turn
  refine Logged.value_bind_ne_error readBe32Ptr_ne_fuel fun token => ?_
  dsimp only
  split_ifs
  · exact Logged.value_bind_ne_error fdtString_ne_fuel (by simp)
  · exact Logged.value_bind_ne_error (by simp) (by simp)
  · exact Logged.value_bind_ne_error readBe32Ptr_ne_fuel (by simp)
  · exact Logged.value_bind_ne_error readBe32Ptr_ne_fuel fun _ =>
      Logged.value_bind_ne_error readBe32Ptr_ne_fuel fun _ =>
        Logged.value_bind_ne_error fdtString_ne_fuel fun _ =>
          Logged.value_bind_ne_error slice_ne_fuel (by simp)
  · simp
  · simp

/-- Whatever the memory holds, the loop ends by its condition, a `break` or a fault. -/
theorem loop_ne_fuel {end_ : ℕ} (w : Walk) :
    (loop .fuel (going end_) (turn mem strings) (end_ + 1) w).value ≠ .error .fuel := by
  refine loop_ne_out_of_measure turn_ne_fuel (fun w => end_ - w.pos) ?_ (by omega)
  intro w w' hmove
  obtain ⟨hgoing, hturn⟩ := move_eq_some.mp hmove
  have hpos := turn_pos hturn
  have hlt : w.pos < end_ := by
    simp only [going, Bool.and_eq_true, decide_eq_true_eq] at hgoing
    exact hgoing.2
  omega

/-! ### The walk -/

theorem Layout.walkNodes {totalsize offStruct offStrings fin : ℕ} {ts : List Token}
    (h : Layout mem totalsize offStruct offStrings fin ts) :
    walkNodes mem = ⟨.ok (), (runTokens ts ⟨0, fun _ => none⟩).2⟩ := by
  have hinside := h.inside
  have htokens := h.stored.leads (l := ⟨0, fun _ => none⟩) (by omega : fin ≤ totalsize)
  have hlast : Leads .fuel (going totalsize) (turn mem offStrings)
      ⟨fin, (runTokens ts ⟨0, fun _ => none⟩).1, false⟩ []
      ⟨fin + 4, (runTokens ts ⟨0, fun _ => none⟩).1, true⟩ :=
    Leads.single (going_of_lt (by omega)) (turn_end h.last)
  have hloop := (htokens.trans hlast).loop_eq rfl (loop_ne_fuel _)
  have hmagic : WordAt mem 0 fdtMagic := h.header (0, fdtMagic) (by simp [headerWords])
  have htotalsize : WordAt mem 4 totalsize := h.header (4, totalsize) (by simp [headerWords])
  have hstruct : WordAt mem 8 offStruct := h.header (8, offStruct) (by simp [headerWords])
  have hstrings : WordAt mem 12 offStrings := h.header (12, offStrings) (by simp [headerWords])
  unfold Fdt.walkNodes
  rw [hmagic.readBe32Ptr, Logged.pure_bind, if_neg (by simp), htotalsize.readBe32Ptr,
    Logged.pure_bind, hstruct.readBe32Ptr, Logged.pure_bind, hstrings.readBe32Ptr,
    Logged.pure_bind, hloop]
  simp [bind, pure]

theorem Encodes.walkNodes {t : Tree} (h : Encodes mem t) :
    walkNodes mem = ⟨.ok (), t.nodes.visits 0 none⟩ := by
  obtain ⟨totalsize, offStruct, offStrings, fin, ts, hlayout, hts⟩ := h
  have hclean : (⟨0, fun _ => none⟩ : Level).Clean := fun _ _ => rfl
  have hbelow : (⟨0, fun _ => none⟩ : Level).Below none := fun _ => rfl
  rw [hlayout.walkNodes, ← runTokens_filter, hts, runTokens_nodes t.nodes hclean hbelow]

/-- A walk over a flattened tree reports every node of depth below sixteen once and no other,
children before their parent, with its name and properties and the cells that its parent asks
for; the accessors then read the first entry of `reg` and the texts of `compatible`. -/
theorem walk_reports_tree {t : Tree} (h : Encodes mem t) :
    walkNodes mem = ⟨.ok (), t.nodes.visits 0 none⟩ ∧
      ∀ node ∈ t.nodes.visits 0 none,
        (∀ reg, node.reg = some reg → node.addressCells ≤ 2 → node.sizeCells ≤ 2 →
          0 < node.addressCells + node.sizeCells →
          (node.addressCells + node.sizeCells) * 4 ≤ reg.length →
          node.firstReg = some ⟨bigEndian (reg.take (node.addressCells * 4)),
            bigEndian ((reg.drop (node.addressCells * 4)).take (node.sizeCells * 4))⟩) ∧
        ∀ c, node.compatibleMatches c = true ↔ c ∈ pieces 0 (node.compatible.getD []) :=
  ⟨h.walkNodes, fun _ _ => ⟨fun _ => firstReg_eq, fun _ => compatibleMatches_iff⟩⟩

/-! ### A board with both spellings of one property -/

def be32 (v : ℕ) : List UInt8 :=
  [UInt8.ofNat (v / 2 ^ 24), UInt8.ofNat (v / 2 ^ 16), UInt8.ofNat (v / 2 ^ 8), UInt8.ofNat v]

def uartName : List UInt8 := ascii "uart@1000"

def uartProps : Props :=
  [(ascii "reg", be32 0x1000 ++ be32 0x100), (ascii "compatible", ascii "ns16550" ++ [0])]

def boardTree : Tree where
  name := []
  props := [(ascii "#address-cells", be32 1), (ascii "riscv,numints", be32 5),
    (ascii "riscv,num-interrupts", be32 7)]
  children := .cons uartName uartProps .nil .nil

/-- With a `FDT_NOP` between the properties of the root. -/
def boardStruct : List UInt8 :=
  be32 1 ++ [0, 0, 0, 0] ++
    be32 3 ++ be32 4 ++ be32 0 ++ be32 1 ++
    be32 3 ++ be32 4 ++ be32 15 ++ be32 5 ++
    be32 4 ++
    be32 3 ++ be32 4 ++ be32 29 ++ be32 7 ++
    be32 1 ++ uartName ++ [0, 0, 0] ++
      be32 3 ++ be32 8 ++ be32 50 ++ be32 0x1000 ++ be32 0x100 ++
      be32 3 ++ be32 8 ++ be32 54 ++ ascii "ns16550" ++ [0] ++
    be32 2 ++
  be32 2 ++ be32 9

def boardStrings : List UInt8 :=
  ["#address-cells", "riscv,numints", "riscv,num-interrupts", "reg", "compatible"].flatMap
    fun name => ascii name ++ [0]

def boardBlob : List UInt8 :=
  [0xd00dfeed, 249, 56, 184, 40, 17, 16, 0, 65, 128, 0, 0, 0, 0].flatMap be32 ++
    boardStruct ++ boardStrings

def boardTokens : List Token :=
  [.beginNode [], .prop (ascii "#address-cells") (be32 1),
    .prop (ascii "riscv,numints") (be32 5), .nop,
    .prop (ascii "riscv,num-interrupts") (be32 7), .beginNode uartName,
    .prop (ascii "reg") (be32 0x1000 ++ be32 0x100),
    .prop (ascii "compatible") (ascii "ns16550" ++ [0]), .endNode, .endNode]

theorem boardBlob_encodes : Encodes boardBlob boardTree :=
  ⟨249, 56, 184, 180, boardTokens,
    ⟨by decide +kernel, by decide +kernel, by decide +kernel, by decide⟩, by decide +kernel⟩

theorem board_uart_is_read :
    walkNodes boardBlob = ⟨.ok (), boardTree.nodes.visits 0 none⟩ ∧
      (describe (some boardTree.props) uartName uartProps).firstReg = some ⟨0x1000, 0x100⟩ ∧
      (describe (some boardTree.props) uartName uartProps).compatibleMatches
        (ascii "ns16550") = true := by
  obtain ⟨hwalk, hnodes⟩ := walk_reports_tree boardBlob_encodes
  obtain ⟨hreg, hcompatible⟩ := hnodes (describe (some boardTree.props) uartName uartProps)
    (by decide +kernel)
  refine ⟨hwalk, ?_, (hcompatible _).mpr (by decide +kernel)⟩
  rw [hreg (be32 0x1000 ++ be32 0x100) (by decide +kernel) (by decide +kernel)
    (by decide +kernel) (by decide +kernel) (by decide +kernel)]
  decide +kernel

/-- The root has `riscv,numints` with the value 5, but is reported with 7: the other spelling is
kept in the same field. -/
theorem later_spelling_replaces_value :
    Encodes boardBlob boardTree ∧ (ascii "riscv,numints", be32 5) ∈ boardTree.props ∧
      (walkNodes boardBlob).value = .ok () ∧
      (walkNodes boardBlob).log.map (fun node =>
        (node.name, node.propU32 (ascii "riscv,numints"))) =
          [(uartName, none), (boardTree.name, some 7)] := by
  refine ⟨boardBlob_encodes, by decide +kernel, ?_, ?_⟩
  · rw [boardBlob_encodes.walkNodes]
  · rw [boardBlob_encodes.walkNodes]
    decide +kernel

end OpenIon.Fdt
