import OpenIon.Fdt.Walk

/-! # The accessors of a node

`first_reg` reads the two numbers that the first entry of `reg` holds, and `compatible_matches`
looks for one of the texts between the zero bytes of `compatible`.
-/
namespace OpenIon.Fdt
open Lib

/-! ### `first_reg` -/

theorem readBe32Slice_eq {bytes : List UInt8} (hlen : bytes.length = 4) (rest : List UInt8) :
    readBe32Slice (bytes ++ rest) = bigEndian bytes := by
  match bytes, hlen with
  | [a, b, c, d], _ => simp [readBe32Slice, bigEndian]

theorem shiftLeft_or_eq {hi lo : ℕ} (hhi : hi < 2 ^ 32) (hlo : lo < 2 ^ 32) :
    (hi <<< 32) % 2 ^ 64 ||| lo = hi * 2 ^ 32 + lo := by
  have hshift : hi <<< 32 < 2 ^ 64 := by
    rw [Nat.shiftLeft_eq]
    omega
  rw [Nat.mod_eq_of_lt hshift, ← Nat.shiftLeft_add_eq_or_of_lt hlo, Nat.shiftLeft_eq]

theorem readCells_eq {bytes : List UInt8} {cells : ℕ} (hcells : cells ≤ 2)
    (hlen : bytes.length = cells * 4) : readCells bytes cells = some (bigEndian bytes) := by
  match cells, hcells with
  | 0, _ =>
    rw [List.eq_nil_of_length_eq_zero hlen]
    rfl
  | 1, _ =>
    have hword := readBe32Slice_eq hlen []
    rw [List.append_nil] at hword
    simp [readCells, hlen, List.range_succ, hword]
  | 2, _ =>
    obtain ⟨hi, lo, rfl, hhi, hlo⟩ : ∃ hi lo, bytes = hi ++ lo ∧ hi.length = 4 ∧ lo.length = 4 :=
      ⟨bytes.take 4, bytes.drop 4, (List.take_append_drop 4 bytes).symm, by simp [hlen],
        by simp [hlen]⟩
    have hfirst := readBe32Slice_eq hhi lo
    have hsecond := readBe32Slice_eq hlo []
    have hhilt := bigEndian_lt hi
    have hlolt := bigEndian_lt lo
    rw [List.append_nil] at hsecond
    rw [hhi] at hhilt
    rw [hlo] at hlolt
    rw [bigEndian_append, hlo, ← shiftLeft_or_eq hhilt hlolt]
    simp [readCells, hhi, hlo, List.range_succ, hfirst, hsecond]

/-- At most two cells fit into the 64 bits of an address. -/
theorem bigEndian_mod {bytes : List UInt8} {cells : ℕ} (hcells : cells ≤ 2)
    (hlen : bytes.length = cells * 4) : bigEndian bytes % 2 ^ 64 = bigEndian bytes := by
  have hpow : 2 ^ (8 * bytes.length) ≤ 2 ^ 64 := Nat.pow_le_pow_right (by decide) (by omega)
  exact Nat.mod_eq_of_lt ((bigEndian_lt bytes).trans_le hpow)

variable {node : FdtNode}

theorem firstReg_eq {reg : List UInt8} (hreg : node.reg = some reg)
    (haddress : node.addressCells ≤ 2) (hsize : node.sizeCells ≤ 2)
    (hsome : 0 < node.addressCells + node.sizeCells)
    (hlen : (node.addressCells + node.sizeCells) * 4 ≤ reg.length) :
    node.firstReg = some ⟨bigEndian (reg.take (node.addressCells * 4)),
      bigEndian ((reg.drop (node.addressCells * 4)).take (node.sizeCells * 4))⟩ := by
  have hentry : ¬((node.addressCells + node.sizeCells) * 4 = 0 ∨
      reg.length < (node.addressCells + node.sizeCells) * 4) := by omega
  have hbaselen : (reg.take (node.addressCells * 4)).length = node.addressCells * 4 := by
    rw [List.length_take]
    omega
  have hsizelen : ((reg.drop (node.addressCells * 4)).take (node.sizeCells * 4)).length =
      node.sizeCells * 4 := by
    rw [List.length_take, List.length_drop]
    omega
  unfold FdtNode.firstReg
  rw [hreg, Option.bind_eq_bind, Option.bind_some]
  dsimp only
  rw [if_neg hentry, readCells_eq haddress hbaselen, readCells_eq hsize hsizelen]
  simp only [Option.bind_eq_bind, Option.bind_some]
  rw [bigEndian_mod haddress hbaselen, bigEndian_mod hsize hsizelen]
  split_ifs with hzero
  · simp [hzero, bigEndian]
  · rfl

/-! ### `compatible_matches` -/

theorem pieces_nulStringNext (data : List UInt8) :
    match nulStringNext data with
    | none => pieces 0 data = []
    | some (item, rest) => pieces 0 data = item :: pieces 0 rest ∧ rest.length < data.length := by
  induction data with
  | nil => rfl
  | cons b data ih =>
    rw [nulStringNext]
    by_cases hb : b = 0
    · rw [if_pos hb, hb, pieces_cons_self]
      split at ih
      · exact ih
      · exact ⟨ih.1, Nat.lt_succ_of_lt ih.2⟩
    · rw [if_neg hb]
      refine ⟨pieces_cons hb, ?_⟩
      have hle := (List.dropWhile_sublist (· != 0) (l := b :: data)).length_le
      rw [List.length_drop]
      simp only [List.length_cons] at hle ⊢
      omega

theorem anyNulString_iff {expected data : List UInt8} {n : ℕ} (hn : data.length < n) :
    anyNulString expected n data = true ↔ expected ∈ pieces 0 data := by
  induction n generalizing data with
  | zero => omega
  | succ n ih =>
    have hnext := pieces_nulStringNext data
    rw [anyNulString]
    cases hdata : nulStringNext data with
    | none =>
      rw [hdata] at hnext
      simp [hnext]
    | some p =>
      obtain ⟨item, rest⟩ := p
      rw [hdata] at hnext
      obtain ⟨hpieces, hlt⟩ := hnext
      have hrest : anyNulString expected n rest = true ↔ expected ∈ pieces 0 rest :=
        ih (by omega)
      rw [hpieces, List.mem_cons, ← hrest, Bool.or_eq_true, decide_eq_true_eq, eq_comm]

theorem compatibleMatches_iff {expected : List UInt8} :
    node.compatibleMatches expected = true ↔
      expected ∈ pieces 0 (node.compatible.getD []) := by
  unfold FdtNode.compatibleMatches
  cases node.compatible with
  | none => simp
  | some data => exact anyNulString_iff (Nat.lt_succ_self _)

end OpenIon.Fdt
