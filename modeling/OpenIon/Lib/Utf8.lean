import Mathlib.Data.List.Basic

/-! # Texts in UTF-8

Which lists of bytes are texts, and the text without the white space at its ends.
-/
namespace OpenIon.Lib.Utf8

def isContinuation (b : UInt8) : Bool := 0x80 ≤ b && b ≤ 0xBF

/-- What may follow the first byte of three or four: no overlong form, no surrogate, and nothing
beyond the last code point. -/
def isSecond (a b : UInt8) : Bool :=
  if a = 0xE0 then 0xA0 ≤ b && b ≤ 0xBF
  else if a = 0xED then 0x80 ≤ b && b ≤ 0x9F
  else if a = 0xF0 then 0x90 ≤ b && b ≤ 0xBF
  else if a = 0xF4 then 0x80 ≤ b && b ≤ 0x8F
  else isContinuation b

def valid : List UInt8 → Bool
  | [] => true
  | a :: rest =>
    if a < 0x80 then valid rest
    else if 0xC2 ≤ a ∧ a ≤ 0xDF then
      match rest with
      | b :: rest => isContinuation b && valid rest
      | _ => false
    else if 0xE0 ≤ a ∧ a ≤ 0xEF then
      match rest with
      | b :: c :: rest => isSecond a b && isContinuation c && valid rest
      | _ => false
    else if 0xF0 ≤ a ∧ a ≤ 0xF4 then
      match rest with
      | b :: c :: d :: rest => isSecond a b && isContinuation c && isContinuation d && valid rest
      | _ => false
    else false

/-- The text, or the empty text if the bytes are not one. -/
def textOrEmpty (bytes : List UInt8) : List UInt8 := if valid bytes then bytes else []

def spaces : List (List UInt8) :=
  [[0x09], [0x0A], [0x0B], [0x0C], [0x0D], [0x20], [0xC2, 0x85], [0xC2, 0xA0],
    [0xE1, 0x9A, 0x80], [0xE2, 0x80, 0x80], [0xE2, 0x80, 0x81], [0xE2, 0x80, 0x82],
    [0xE2, 0x80, 0x83], [0xE2, 0x80, 0x84], [0xE2, 0x80, 0x85], [0xE2, 0x80, 0x86],
    [0xE2, 0x80, 0x87], [0xE2, 0x80, 0x88], [0xE2, 0x80, 0x89], [0xE2, 0x80, 0x8A],
    [0xE2, 0x80, 0xA8], [0xE2, 0x80, 0xA9], [0xE2, 0x80, 0xAF], [0xE2, 0x81, 0x9F],
    [0xE3, 0x80, 0x80]]

/-- Takes words off the front, at most `n` of them. -/
def stripFront (words : List (List UInt8)) : ℕ → List UInt8 → List UInt8
  | 0, text => text
  | n + 1, text =>
    match words.find? (·.isPrefixOf text) with
    | none => text
    | some word => stripFront words n (text.drop word.length)

def trimStart (text : List UInt8) : List UInt8 := stripFront spaces text.length text

def trimEnd (text : List UInt8) : List UInt8 :=
  (stripFront (spaces.map List.reverse) text.length text.reverse).reverse

def trim (text : List UInt8) : List UInt8 := trimEnd (trimStart text)

theorem valid_of_lt {text : List UInt8} (h : ∀ b ∈ text, b < 0x80) : valid text = true := by
  induction text with
  | nil => rfl
  | cons b text ih =>
    rw [valid.eq_def]
    dsimp only
    rw [if_pos (h b List.mem_cons_self)]
    exact ih fun c hc => h c (List.mem_cons_of_mem b hc)

theorem textOrEmpty_of_lt {text : List UInt8} (h : ∀ b ∈ text, b < 0x80) :
    textOrEmpty text = text := by
  rw [textOrEmpty, if_pos (valid_of_lt h)]

theorem length_textOrEmpty_le (text : List UInt8) : (textOrEmpty text).length ≤ text.length := by
  unfold textOrEmpty
  split_ifs
  · exact Nat.le_refl _
  · exact Nat.zero_le _

end OpenIon.Lib.Utf8
