import OpenIon.Fs.Mount
import Mathlib.Data.Nat.Digits.Lemmas

/-! # Names of devices

`format_dev_name` names the devices under `/dev`, and `parse_blk_name` finds the index of a block
device from its name. The digits are written in reverse to a buffer of ten bytes first.
-/
namespace OpenIon.Fs
open Lib

/-- A loop that writes to the name until it has 15 bytes. -/
def fillName : List UInt8 → List UInt8 → List UInt8
  | name, [] => name
  | name, b :: bytes => if 15 ≤ name.length then name else fillName (name ++ [b]) bytes

/-- The loop over the digits: `tmp` has room for that many more, and a digit beyond is a panic. -/
def indexDigits : ℕ → UInt32 → List UInt8 → Option (List UInt8)
  | 0, _, _ => none
  | room + 1, n, tmp =>
    let tmp := tmp ++ [0x30 + (n % 10).toUInt8]
    if n / 10 = 0 then some tmp else indexDigits room (n / 10) tmp

/-- The buffer of 16 bytes and the length of the name in it. -/
def formatDevName (start : List UInt8) (idx : UInt32) : Option (List UInt8 × ℕ) := do
  let named := fillName [] start
  let tmp ← indexDigits 10 idx []
  let name := fillName named tmp.reverse
  pure (name ++ List.replicate (16 - name.length) 0, name.length)

def devName (start : List UInt8) (idx : UInt32) : Option (List UInt8) :=
  (formatDevName start idx).map fun named => named.1.take named.2

/-! ## Digits -/

def decimal (n : ℕ) : List ℕ := if n = 0 then [0] else Nat.digits 10 n

def asciiDigit (d : ℕ) : UInt8 := 0x30 + UInt8.ofNat d

theorem decimal_of_lt {n : ℕ} (h : n < 10) : decimal n = [n] := by
  unfold decimal
  split
  case isTrue hn => rw [hn]
  case isFalse hn => exact Nat.digits_of_lt 10 n hn h

theorem decimal_of_ge {n : ℕ} (h : 10 ≤ n) : decimal n = n % 10 :: decimal (n / 10) := by
  rw [decimal, if_neg (by omega), decimal, if_neg (by omega)]
  exact Nat.digits_def' (by decide) (by omega)

theorem ofDigits_decimal (n : ℕ) : Nat.ofDigits 10 (decimal n) = n := by
  unfold decimal
  split
  case isTrue hn => simp [hn]
  case isFalse hn => exact Nat.ofDigits_digits 10 n

theorem lt_of_mem_decimal {n d : ℕ} (h : d ∈ decimal n) : d < 10 := by
  unfold decimal at h
  split at h
  · simp only [List.mem_singleton] at h
    omega
  · exact Nat.digits_lt_base (by decide) h

theorem length_decimal_le {n k : ℕ} (h : n < 10 ^ (k + 1)) : (decimal n).length ≤ k + 1 := by
  unfold decimal
  split
  · simp
  · exact (Nat.digits_length_le_iff (by decide) n).mpr h

/-- The highest digit of a number other than zero is not zero. -/
theorem getLast?_decimal_ne_zero {n : ℕ} (h : n ≠ 0) : (decimal n).getLast? ≠ some 0 := by
  rw [decimal, if_neg h, List.getLast?_eq_some_getLast (Nat.digits_ne_nil_iff_ne_zero.mpr h)]
  exact fun hzero => Nat.getLast_digit_ne_zero 10 h (Option.some.inj hzero)

theorem toNat_asciiDigit {d : ℕ} (h : d < 10) : (asciiDigit d).toNat = 0x30 + d := by
  rw [asciiDigit, UInt8.toNat_add, UInt8.toNat_ofNat']
  have hd : d % 2 ^ 8 = d := Nat.mod_eq_of_lt (by omega)
  rw [hd]
  exact Nat.mod_eq_of_lt (by simp; omega)

/-! ## Writing the name -/

theorem fillName_eq {name bytes : List UInt8} (h : name.length + bytes.length ≤ 15) :
    fillName name bytes = name ++ bytes := by
  induction bytes generalizing name with
  | nil => rw [fillName, List.append_nil]
  | cons b bytes ih =>
    rw [List.length_cons] at h
    rw [fillName, if_neg (by omega), ih (by simp; omega), List.append_assoc]
    rfl

theorem digitByte_eq (n : UInt32) : 0x30 + (n % 10).toUInt8 = asciiDigit (n.toNat % 10) := by
  rw [asciiDigit]
  congr 1

theorem toNat_div_ten (n : UInt32) : (n / 10).toNat = n.toNat / 10 := UInt32.toNat_div n 10

theorem div_ten_eq_zero {n : UInt32} : n / 10 = 0 ↔ n.toNat < 10 := by
  rw [← UInt32.toNat_inj, toNat_div_ten, UInt32.toNat_zero]
  omega

/-- The loop writes the digits of the index, the lowest first. -/
theorem indexDigits_eq {room : ℕ} {n : UInt32} (h : n.toNat < 10 ^ (room + 1))
    (tmp : List UInt8) :
    indexDigits (room + 1) n tmp = some (tmp ++ (decimal n.toNat).map asciiDigit) := by
  induction room generalizing n tmp with
  | zero =>
    have hn : n.toNat < 10 := h
    rw [indexDigits, if_pos (div_ten_eq_zero.mpr hn), digitByte_eq, Nat.mod_eq_of_lt hn,
      decimal_of_lt hn]
    rfl
  | succ room ih =>
    rw [indexDigits, digitByte_eq]
    by_cases hn : n.toNat < 10
    · rw [if_pos (div_ten_eq_zero.mpr hn), Nat.mod_eq_of_lt hn, decimal_of_lt hn]
      rfl
    · have hlt : (n / 10).toNat < 10 ^ (room + 1) := by
        rw [toNat_div_ten]
        rw [Nat.pow_succ] at h
        omega
      have hdecimal := decimal_of_ge (Nat.not_lt.mp hn)
      rw [if_neg (fun h => hn (div_ten_eq_zero.mp h)), ih hlt, toNat_div_ten, hdecimal,
        List.map_cons, List.append_assoc]
      rfl

def indexText (idx : UInt32) : List UInt8 := ((decimal idx.toNat).map asciiDigit).reverse

theorem devName_eq {start : List UInt8} (hstart : start.length ≤ 5) (idx : UInt32) :
    devName start idx = some (start ++ indexText idx) := by
  have hidx : idx.toNat < 10 ^ (9 + 1) := Nat.lt_trans idx.toNat_lt (by decide)
  have hlen := length_decimal_le hidx
  have hfill : fillName (fillName [] start) (indexText idx) = start ++ indexText idx := by
    have hnamed : fillName [] start = start := fillName_eq (by rw [List.length_nil]; omega)
    rw [hnamed, fillName_eq]
    simp only [indexText, List.length_reverse, List.length_map]
    omega
  simp only [devName, formatDevName, indexDigits_eq hidx, List.nil_append, Option.bind_eq_bind,
    Option.bind_some, Option.pure_def, Option.map_some]
  rw [← indexText, hfill, List.take_left]

/-! ## Reading it back -/

theorem pushDigit_asciiDigit (cfg : Config) {value d : ℕ} (hd : d < 10)
    (h : value * 10 + d < 2 ^ cfg.w) : pushDigit cfg value (asciiDigit d) = some (value * 10 + d) := by
  have hbyte := toNat_asciiDigit hd
  have hdigit : 0x30 ≤ asciiDigit d ∧ asciiDigit d ≤ 0x39 := by
    rw [UInt8.le_iff_toNat_le, UInt8.le_iff_toNat_le, hbyte]
    exact ⟨by simp, by simp; omega⟩
  simp only [pushDigit, hdigit, and_self, if_true, hbyte, Nat.add_sub_cancel_left, h]

theorem foldlM_pushDigit (cfg : Config) {digits : List ℕ} (hdigits : ∀ d ∈ digits, d < 10)
    (h : Nat.ofDigits 10 digits < 2 ^ cfg.w) :
    (digits.map asciiDigit).reverse.foldlM (pushDigit cfg) 0 = some (Nat.ofDigits 10 digits) := by
  induction digits with
  | nil => rfl
  | cons d digits ih =>
    rw [Nat.ofDigits_cons] at h ⊢
    have hrest := ih (fun e he => hdigits e (List.mem_cons_of_mem d he)) (by omega)
    rw [List.map_cons, List.reverse_cons, List.foldlM_append, hrest]
    have hpush : pushDigit cfg (Nat.ofDigits 10 digits) (asciiDigit d) =
        some (Nat.ofDigits 10 digits * 10 + d) :=
      pushDigit_asciiDigit cfg (hdigits d List.mem_cons_self) (by omega)
    rw [Option.bind_eq_bind, Option.bind_some, List.foldlM_cons, hpush]
    exact congrArg some (by omega)

theorem indexText_ne_nil (idx : UInt32) : indexText idx ≠ [] := by
  rw [indexText, ne_eq, List.reverse_eq_nil_iff, List.map_eq_nil_iff, decimal]
  split
  · exact List.cons_ne_nil _ _
  · rename_i h
    exact Nat.digits_ne_nil_iff_ne_zero.mpr h

theorem parseBlkName_indexText (cfg : Config) {idx : UInt32} (h : idx.toNat < 2 ^ cfg.w) :
    parseBlkName cfg (ascii "blk" ++ indexText idx) = some idx.toNat := by
  have hstrip : stripStart (ascii "blk") (ascii "blk" ++ indexText idx) = some (indexText idx) := by
    simp [stripStart]
  have hvalue : (indexText idx).foldlM (pushDigit cfg) 0 = some idx.toNat := by
    have hfold := foldlM_pushDigit cfg (fun d hd => lt_of_mem_decimal hd)
      (by rwa [ofDigits_decimal idx.toNat])
    rwa [ofDigits_decimal] at hfold
  rw [parseBlkName, hstrip]
  cases htext : indexText idx with
  | nil => exact absurd htext (indexText_ne_nil idx)
  | cons b bytes => rwa [htext] at hvalue

/-- Only the name of index zero has a leading zero, and it has no other digit. -/
theorem indexText_head? (idx : UInt32) :
    (indexText idx).head? = some 0x30 ↔ idx = 0 := by
  rw [indexText, List.head?_reverse, List.getLast?_map]
  constructor
  · intro h
    obtain ⟨d, hd, hbyte⟩ := Option.map_eq_some_iff.mp h
    have hlt := lt_of_mem_decimal (List.mem_of_getLast? hd)
    have hzero : d = 0 := by
      have htoNat := toNat_asciiDigit hlt
      rw [hbyte] at htoNat
      simpa using htoNat
    by_contra hne
    have hnat : idx.toNat ≠ 0 := fun h => hne (UInt32.toNat_inj.mp h)
    exact getLast?_decimal_ne_zero hnat (hzero ▸ hd)
  · rintro rfl
    rfl

/-- The name of a block device gives its index back, has no leading zero unless the index is zero
and is the name of no other index. -/
theorem device_names_round_trip (cfg : Config) (hw : 32 ≤ cfg.w) (idx : UInt32) :
    ∃ digits, devName (ascii "blk") idx = some (ascii "blk" ++ digits) ∧
      parseBlkName cfg (ascii "blk" ++ digits) = some idx.toNat ∧
      (digits.head? = some 0x30 ↔ idx = 0) ∧ (idx = 0 → digits = [0x30]) ∧
      ∀ idx', devName (ascii "blk") idx' = devName (ascii "blk") idx → idx' = idx := by
  have hfits : ∀ i : UInt32, i.toNat < 2 ^ cfg.w := fun i =>
    Nat.lt_of_lt_of_le i.toNat_lt (Nat.pow_le_pow_right (by decide) hw)
  refine ⟨indexText idx, devName_eq (by decide) idx, parseBlkName_indexText cfg (hfits idx),
    indexText_head? idx, ?_, ?_⟩
  · rintro rfl
    rfl
  · intro idx' hname
    rw [devName_eq (by decide), devName_eq (by decide)] at hname
    have hparse := parseBlkName_indexText cfg (hfits idx')
    rw [Option.some.inj hname, parseBlkName_indexText cfg (hfits idx)] at hparse
    exact (UInt32.toNat_inj.mp (Option.some.inj hparse)).symm

theorem device_names_round_trip_42 :
    32 ≤ (⟨32, 0, 0⟩ : Config).w ∧
      ∃ digits, devName (ascii "blk") 42 = some (ascii "blk" ++ digits) ∧
        parseBlkName ⟨32, 0, 0⟩ (ascii "blk" ++ digits) = some (42 : UInt32).toNat ∧
        (digits.head? = some 0x30 ↔ (42 : UInt32) = 0) ∧ ((42 : UInt32) = 0 → digits = [0x30]) ∧
        ∀ idx', devName (ascii "blk") idx' = devName (ascii "blk") 42 → idx' = 42 :=
  ⟨Nat.le_refl 32, device_names_round_trip ⟨32, 0, 0⟩ (Nat.le_refl 32) 42⟩

end OpenIon.Fs
