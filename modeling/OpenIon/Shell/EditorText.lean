import Mathlib.Data.List.Infix
import OpenIon.Shell.Editor

/-! # The line editor as a text with a cursor

The buffer of the editor holds the text before the cursor and the text behind it. The bytes that
are read are keys, each of one byte or an escape sequence, and a key does to the two texts what it
says. This holds as long as the line does not fill the buffer.
-/
namespace OpenIon.Shell
open Lib

/-! ### Keys and texts -/

inductive Key where
  | char (c : UInt8)
  | backspace
  | delete
  | left
  | right
  | home
  | last
  | up
  | enter

/-- The text before and behind the cursor, the line that was remembered, and the commands that were
executed. -/
@[ext]
structure Text where
  left : List UInt8
  right : List UInt8
  remembered : List UInt8
  executed : List (List UInt8)

namespace Text

def start : Text := ⟨[], [], [], []⟩

def line (t : Text) : List UInt8 := t.left ++ t.right

def apply (t : Text) : Key → Text
  | .char c => { t with left := t.left ++ [c] }
  | .backspace => { t with left := t.left.dropLast }
  | .delete => { t with right := t.right.tail }
  | .left => { t with left := t.left.dropLast, right := t.left.getLast?.toList ++ t.right }
  | .right => { t with left := t.left ++ t.right.head?.toList, right := t.right.tail }
  | .home => { t with left := [], right := t.line }
  | .last => { t with left := t.line, right := [] }
  | .up => if t.remembered = [] then t else { t with left := t.remembered, right := [] }
  | .enter =>
    if t.line = [] then t
    else ⟨[], [], t.line, t.executed ++ [Utf8.trim t.line]⟩

end Text

def plainKey (c : UInt8) : List Key :=
  if c = 0x0D ∨ c = 0x0A then [.enter]
  else if c = 8 ∨ c = 127 then [.backspace]
  else if 0x20 ≤ c ∧ c < 0x7F then [.char c]
  else []

def bracketKey (c : UInt8) : List Key :=
  if c = 0x41 then [.up]
  else if c = 0x43 then [.right]
  else if c = 0x44 then [.left]
  else if c = 0x48 then [.home]
  else if c = 0x46 then [.last]
  else []

/-- The keys of a sequence of bytes. An escape sequence is `ESC` with a byte, `ESC [` with a byte or
`ESC [ 3` with a byte; one that is not complete at the end is no key yet. -/
def keys : List UInt8 → List Key
  | [] => []
  | c :: rest =>
    if c = 0x1B then
      match rest with
      | [] => []
      | c :: rest =>
        if c = 0x5B then
          match rest with
          | [] => []
          | c :: rest =>
            if c = 0x33 then
              match rest with
              | [] => []
              | c :: rest => (if c = 0x7E then [.delete] else []) ++ keys rest
            else bracketKey c ++ keys rest
        else keys rest
    else plainKey c ++ keys rest

def textAfter (bytes : List UInt8) : Text := (keys bytes).foldl Text.apply Text.start

/-! ### Reading the keys byte by byte -/

/-- The bytes of the escape sequence that is being read. -/
def EscState.pending : EscState → List UInt8
  | .normal => []
  | .sawEsc => [0x1B]
  | .sawBracket => [0x1B, 0x5B]
  | .saw3 => [0x1B, 0x5B, 0x33]

/-- The key that a byte completes, and the state after it. -/
def EscState.decode (c : UInt8) : EscState → List Key × EscState
  | .normal => if c = 0x1B then ([], .sawEsc) else (plainKey c, .normal)
  | .sawEsc => ([], if c = 0x5B then .sawBracket else .normal)
  | .sawBracket => if c = 0x33 then ([], .saw3) else (bracketKey c, .normal)
  | .saw3 => (if c = 0x7E then [.delete] else [], .normal)

theorem keys_pending (esc : EscState) (c : UInt8) (rest : List UInt8) :
    keys (esc.pending ++ c :: rest) =
      (esc.decode c).1 ++ keys ((esc.decode c).2.pending ++ rest) := by
  cases esc with
  | normal =>
    by_cases hc : c = 0x1B
    · simp [EscState.pending, EscState.decode, hc]
    · rw [EscState.pending, List.nil_append, keys.eq_def]
      simp [EscState.pending, EscState.decode, hc]
  | sawEsc =>
    by_cases hc : c = 0x5B
    · simp [EscState.pending, EscState.decode, hc]
    · rw [EscState.pending, keys.eq_def]
      simp [EscState.pending, EscState.decode, hc]
  | sawBracket =>
    by_cases hc : c = 0x33
    · simp [EscState.pending, EscState.decode, hc]
    · rw [EscState.pending, keys.eq_def]
      simp [EscState.pending, EscState.decode, hc]
  | saw3 =>
    rw [EscState.pending, keys.eq_def]
    simp [EscState.pending, EscState.decode]

theorem keys_of_pending (esc : EscState) : keys esc.pending = [] := by
  cases esc <;> simp [EscState.pending, keys]

/-! ### The buffer holds the two texts -/

/-- The editor shows the text, with the cursor between its two parts. -/
structure Editor.Shows (e : Editor) (left right : List UInt8) : Prop where
  buf : ∃ rest, e.inputBuf = left ++ right ++ rest
  length : e.inputBuf.length = inputMax
  pos : e.cursorPos = left.length
  last : e.cursorEnd = left.length + right.length
  lastCmd : e.state.lastCmd.length = inputMax
  lastCmdLen : e.state.lastCmdLen ≤ inputMax

/-- The result is an editor that shows the text and differs in nothing else. -/
def Editor.Edits (e : Editor) (result : Option Editor) (left right : List UInt8) : Prop :=
  ∃ e', result = some e' ∧ e'.Shows left right ∧ e'.state = e.state ∧ e'.escState = e.escState ∧
    e'.executed = e.executed

namespace Editor

variable {e : Editor} {left right : List UInt8} {c : UInt8}

theorem Shows.last_le (h : e.Shows left right) : left.length + right.length ≤ inputMax := by
  obtain ⟨rest, hbuf⟩ := h.buf
  have hlength := h.length
  rw [hbuf, List.length_append, List.length_append] at hlength
  omega

theorem Shows.redrawInput (h : e.Shows left right) : e.redrawInput = some e := by
  have hlast := h.last_le
  have hend : e.cursorEnd ≤ e.inputBuf.length := by rw [h.last, h.length]; exact hlast
  have hpos : e.cursorPos ≤ e.inputBuf.length := by rw [h.pos, h.length]; omega
  unfold Editor.redrawInput
  rw [Buffer.readAll_of_le hend, Buffer.readAll_of_le hpos]
  split_ifs
  · rfl
  · rfl

theorem Edits.self (h : e.Shows left right) : e.Edits (some e) left right :=
  ⟨e, rfl, h, rfl, rfl, rfl⟩

/-- The line is printed again after every change. -/
theorem Shows.edits {e' : Editor} (h : e'.Shows left right) (hstate : e'.state = e.state)
    (hesc : e'.escState = e.escState) (hexecuted : e'.executed = e.executed) :
    e.Edits e'.redrawInput left right :=
  ⟨e', h.redrawInput, h, hstate, hesc, hexecuted⟩

theorem Shows.onBackspace (h : e.Shows left right) :
    e.Edits e.onBackspace left.dropLast right := by
  obtain ⟨rest, hbuf⟩ := h.buf
  have hpos := h.pos
  have hlast := h.last
  induction left using List.reverseRecOn with
  | nil =>
    rw [Editor.onBackspace, if_neg (by rw [hpos]; simp)]
    exact Edits.self h
  | append_singleton left x _ =>
    rw [List.length_append, List.length_singleton] at hpos hlast
    obtain ⟨y, hshift⟩ := Buffer.shiftDown_append left right rest x
    have hlength := h.length
    rw [hbuf] at hlength
    rw [Editor.onBackspace, if_pos (by omega), hbuf, hpos, hlast]
    rw [List.append_assoc, List.append_assoc, List.singleton_append, hshift, List.dropLast_concat]
    refine Shows.edits ⟨⟨y :: rest, rfl⟩, ?_, ?_, ?_, h.lastCmd, h.lastCmdLen⟩ rfl rfl rfl
    · rw [← hlength]
      simp only [List.length_append, List.length_cons, List.length_nil]
      omega
    · rw [Nat.add_sub_cancel]
    · dsimp only
      omega

theorem Shows.onSaw3 (h : e.Shows left right) :
    e.Edits (e.onSaw3 0x7E) left right.tail := by
  obtain ⟨rest, hbuf⟩ := h.buf
  have hpos := h.pos
  have hlast := h.last
  cases right with
  | nil =>
    rw [Editor.onSaw3, if_neg (by rw [hpos, hlast]; simp)]
    exact Edits.self h
  | cons x right =>
    rw [List.length_cons] at hlast
    obtain ⟨y, hshift⟩ := Buffer.shiftDown_append left right rest x
    have hlength := h.length
    have hend : left.length + (right.length + 1) = left.length + 1 + right.length := by omega
    rw [hbuf] at hlength
    rw [Editor.onSaw3, if_pos ⟨rfl, by omega⟩, hbuf, hpos, hlast, hend, List.append_assoc,
      List.cons_append, hshift]
    refine Shows.edits ⟨⟨y :: rest, rfl⟩, ?_, rfl, ?_, h.lastCmd, h.lastCmdLen⟩ rfl rfl rfl
    · rw [← hlength]
      simp only [List.length_append, List.length_cons]
      omega
    · dsimp only
      rw [List.tail_cons]
      omega

theorem Shows.onPrintable (h : e.Shows left right) (hroom : left.length + right.length < inputMax)
    (c : UInt8) : e.Edits (e.onPrintable c) (left ++ [c]) right := by
  obtain ⟨rest, hbuf⟩ := h.buf
  have hlength := h.length
  rw [hbuf] at hlength
  cases rest with
  | nil =>
    simp at hlength
    omega
  | cons x rest =>
    obtain ⟨y, hshift⟩ := Buffer.shiftUp_append left right rest x
    rw [Editor.onPrintable, if_pos (by rw [h.last, h.length]; exact hroom), hbuf, h.pos, h.last,
      hshift]
    have hput : Buffer.put (left ++ y :: (right ++ rest)) left.length c =
        some (left ++ c :: (right ++ rest)) := Buffer.put_append c
    dsimp only [Option.bind_eq_bind, Option.bind_some]
    rw [hput]
    refine Shows.edits ⟨⟨rest, ?_⟩, ?_, ?_, ?_, h.lastCmd, h.lastCmdLen⟩ rfl rfl rfl
    · simp
    · rw [← hlength]
      simp
      omega
    · simp
    · simp
      omega

theorem Shows.onRight (h : e.Shows left right) :
    e.Edits (e.onBracket 0x43) (left ++ right.head?.toList) right.tail := by
  rw [Editor.onBracket, if_neg (by decide), if_pos rfl, h.pos, h.last]
  cases right with
  | nil =>
    rw [if_neg (by simp)]
    simpa using Edits.self h
  | cons x right =>
    obtain ⟨rest, hbuf⟩ := h.buf
    rw [if_pos (by simp)]
    refine Shows.edits ⟨⟨rest, ?_⟩, h.length, ?_, ?_, h.lastCmd, h.lastCmdLen⟩ rfl rfl rfl
    · rw [hbuf]
      simp
    · simp
    · simp
      omega

theorem Shows.onLeft (h : e.Shows left right) :
    e.Edits (e.onBracket 0x44) left.dropLast (left.getLast?.toList ++ right) := by
  rw [Editor.onBracket, if_neg (by decide), if_neg (by decide), if_pos rfl, h.pos]
  induction left using List.reverseRecOn with
  | nil =>
    rw [if_neg (by simp)]
    simpa using Edits.self h
  | append_singleton left x _ =>
    obtain ⟨rest, hbuf⟩ := h.buf
    have hlast := h.last
    rw [if_pos (by simp), List.dropLast_concat, List.getLast?_concat]
    refine Shows.edits ⟨⟨rest, ?_⟩, h.length, ?_, ?_, h.lastCmd, h.lastCmdLen⟩ rfl rfl rfl
    · rw [hbuf]
      simp
    · simp
    · rw [hlast]
      simp
      omega

theorem Shows.onHome (h : e.Shows left right) : e.Edits (e.onBracket 0x48) [] (left ++ right) := by
  obtain ⟨rest, hbuf⟩ := h.buf
  rw [Editor.onBracket, if_neg (by decide), if_neg (by decide), if_neg (by decide), if_pos rfl]
  refine Shows.edits ⟨⟨rest, hbuf⟩, h.length, rfl, ?_, h.lastCmd, h.lastCmdLen⟩ rfl rfl rfl
  rw [h.last]
  simp

theorem Shows.onLast (h : e.Shows left right) : e.Edits (e.onBracket 0x46) (left ++ right) [] := by
  obtain ⟨rest, hbuf⟩ := h.buf
  rw [Editor.onBracket, if_neg (by decide), if_neg (by decide), if_neg (by decide),
    if_neg (by decide), if_pos rfl]
  refine Shows.edits ⟨⟨rest, ?_⟩, h.length, ?_, ?_, h.lastCmd, h.lastCmdLen⟩ rfl rfl rfl
  · rw [hbuf, List.append_nil]
  · rw [h.last, List.length_append]
  · rw [h.last, List.length_append]
    rfl

theorem Shows.onUp (h : e.Shows left right) (hpos : 0 < e.state.lastCmdLen)
    (hlt : e.state.lastCmdLen < inputMax) :
    e.Edits (e.onBracket 0x41) (e.state.lastCmd.take e.state.lastCmdLen) [] := by
  have hread : e.state.lastCmdLen ≤ e.state.lastCmd.length := by rw [h.lastCmd]; exact hlt.le
  have hlength : (e.state.lastCmd.take e.state.lastCmdLen).length = e.state.lastCmdLen :=
    List.length_take_of_le hread
  have hwrite : 0 + (e.state.lastCmd.take e.state.lastCmdLen).length ≤ e.inputBuf.length := by
    rw [hlength, h.length]
    omega
  rw [Editor.onBracket, if_pos rfl, if_pos ⟨hpos, by rw [h.length]; exact hlt⟩,
    Buffer.readAll_of_le hread]
  dsimp only [Option.bind_eq_bind, Option.bind_some]
  rw [Buffer.putAll_of_le hwrite, List.take_zero, List.nil_append, Nat.zero_add, hlength]
  refine Shows.edits ⟨⟨e.inputBuf.drop e.state.lastCmdLen, ?_⟩, ?_, hlength.symm, ?_, h.lastCmd,
    h.lastCmdLen⟩ rfl rfl rfl
  · rw [List.append_nil]
  · have hall := h.length
    dsimp only
    rw [List.length_append, hlength, List.length_drop]
    omega
  · dsimp only
    rw [hlength]
    rfl

theorem onUp_of_not (h : ¬ (0 < e.state.lastCmdLen ∧ e.state.lastCmdLen < e.inputBuf.length)) :
    e.onBracket 0x41 = some e := by
  rw [Editor.onBracket, if_pos rfl, if_neg h]

theorem Shows.onEnter_nil (h : e.Shows [] []) (execute : List UInt8 → List UInt8 → List UInt8) :
    e.Edits (e.onEnter execute) [] [] := by
  have hlast : e.cursorEnd = 0 := h.last
  rw [Editor.onEnter, if_neg (by omega)]
  exact ⟨_, rfl, ⟨h.buf, h.length, rfl, rfl, h.lastCmd, h.lastCmdLen⟩, rfl, rfl, rfl⟩

theorem rememberCmd_eq {state : ShellState} {cmd : List UInt8}
    (hlength : state.lastCmd.length = inputMax) (hcmd : cmd.length ≤ inputMax) :
    state.rememberCmd cmd = some { state with
      lastCmd := cmd ++ state.lastCmd.drop cmd.length, lastCmdLen := cmd.length } := by
  have hmin : min cmd.length state.lastCmd.length = cmd.length := by omega
  have hfits : 0 + cmd.length ≤ state.lastCmd.length := by omega
  rw [ShellState.rememberCmd, hmin, List.take_length, Buffer.putAll_of_le hfits]
  simp

/-- A line that does not fill the buffer is remembered and executed. -/
theorem Shows.onEnter (h : e.Shows left right) (hne : left ++ right ≠ [])
    (hroom : left.length + right.length < inputMax)
    (execute : List UInt8 → List UInt8 → List UInt8) :
    ∃ e', e.onEnter execute = some e' ∧ e'.Shows [] [] ∧ e'.escState = e.escState ∧
      e'.executed = e.executed ++ [Utf8.trim (Utf8.textOrEmpty (left ++ right))] ∧
      e'.state.lastCmd.take e'.state.lastCmdLen = Utf8.textOrEmpty (left ++ right) ∧
      e'.state.lastCmdLen = (Utf8.textOrEmpty (left ++ right)).length := by
  obtain ⟨rest, hbuf⟩ := h.buf
  have hlast : e.cursorEnd = (left ++ right).length := by rw [h.last, List.length_append]
  have hpos : 0 < e.cursorEnd := by rw [hlast]; exact List.length_pos_of_ne_nil hne
  have hlength := h.length
  rw [hbuf] at hlength
  cases rest with
  | nil =>
    simp at hlength
    omega
  | cons x rest =>
    have hcmd : (Utf8.textOrEmpty (left ++ right)).length ≤ inputMax := by
      have hle := Utf8.length_textOrEmpty_le (left ++ right)
      rw [List.length_append] at hle
      omega
    have hput : Buffer.put e.inputBuf e.cursorEnd 0 = some (left ++ right ++ 0 :: rest) := by
      rw [hbuf, hlast, Buffer.put_append]
    have hslice : Buffer.slice (left ++ right ++ 0 :: rest) 0 e.cursorEnd = some (left ++ right) := by
      rw [hlast, Buffer.slice_append]
    rw [Editor.onEnter, if_pos hpos, hput]
    dsimp only [Option.bind_eq_bind, Option.bind_some]
    rw [hslice, Option.bind_some, rememberCmd_eq h.lastCmd hcmd]
    refine ⟨_, rfl, ⟨⟨left ++ right ++ 0 :: rest, rfl⟩, ?_, rfl, rfl, ?_, hcmd⟩, rfl, rfl, ?_, rfl⟩
    · rw [← hlength]
      simp
    · have hlastCmd := h.lastCmd
      dsimp only
      rw [List.length_append, List.length_drop]
      omega
    · dsimp only
      rw [List.take_left]

/-! ### The editor refines the text -/

/-- What the editor and the text have in common. -/
structure Refines (e : Editor) (t : Text) : Prop where
  line : e.inputBuf.take e.cursorEnd = t.left ++ t.right
  pos : e.cursorPos = t.left.length
  last : e.cursorEnd = (t.left ++ t.right).length
  remembered : e.state.lastCmd.take e.state.lastCmdLen = t.remembered
  executed : e.executed = t.executed

/-- The relation that every byte keeps: the line is shorter than the buffer, and all bytes are
characters of one byte. -/
structure Matches (e : Editor) (t : Text) : Prop where
  shown : e.Shows t.left t.right
  room : t.line.length < inputMax
  remembered : e.state.lastCmd.take e.state.lastCmdLen = t.remembered
  lastCmdLen : e.state.lastCmdLen = t.remembered.length
  short : t.remembered.length < inputMax
  executed : e.executed = t.executed
  ascii : ∀ b ∈ t.line, b < 0x80
  asciiRemembered : ∀ b ∈ t.remembered, b < 0x80

variable {t : Text} {input : Input} {asyncRt : Bool}

theorem Matches.refines (h : e.Matches t) : e.Refines t := by
  obtain ⟨rest, hbuf⟩ := h.shown.buf
  have hlast : e.cursorEnd = (t.left ++ t.right).length := by
    rw [h.shown.last, List.length_append]
  exact ⟨by rw [hbuf, hlast, List.take_left], h.shown.pos, hlast, h.remembered, h.executed⟩

/-- A change of the two texts keeps the relation. -/
theorem Matches.edits (h : e.Matches t) {result : Option Editor}
    (hedits : e.Edits result left right) (hroom : (left ++ right).length < inputMax)
    (hascii : ∀ b ∈ left ++ right, b < 0x80) :
    ∃ e', result = some e' ∧ e'.escState = e.escState ∧
      e'.Matches { t with left := left, right := right } := by
  obtain ⟨e', hresult, hshows, hstate, hesc, hexecuted⟩ := hedits
  refine ⟨e', hresult, hesc, hshows, hroom, ?_, ?_, h.short, ?_, hascii, h.asciiRemembered⟩
  · rw [hstate, h.remembered]
  · rw [hstate, h.lastCmdLen]
  · rw [hexecuted, h.executed]

/-- A byte after `ESC [` that is not the beginning of a longer sequence. -/
theorem Matches.onBracket (h : e.Matches t) (hc : c ≠ 0x33) :
    ∃ e', e.onBracket c = some e' ∧ e'.escState = e.escState ∧
      e'.Matches ((bracketKey c).foldl Text.apply t) := by
  unfold bracketKey
  have hroom := h.room
  have hascii := h.ascii
  unfold Text.line at hroom hascii
  split_ifs with hup hright hleft hhome hlast
  · subst hup
    by_cases hnone : t.remembered = []
    · have hzero : e.state.lastCmdLen = 0 := by rw [h.lastCmdLen, hnone]; rfl
      rw [onUp_of_not (by omega)]
      refine ⟨e, rfl, rfl, ?_⟩
      simpa [Text.apply, hnone] using h
    · have hpos : 0 < e.state.lastCmdLen := by
        rw [h.lastCmdLen]
        exact List.length_pos_of_ne_nil hnone
      have hedits := h.shown.onUp hpos (by rw [h.lastCmdLen]; exact h.short)
      rw [h.remembered] at hedits
      simpa [Text.apply, hnone] using h.edits hedits (by simpa using h.short)
        (by simpa using h.asciiRemembered)
  · subst hright
    have hline : t.left ++ t.right.head?.toList ++ t.right.tail = t.left ++ t.right := by
      cases t.right <;> simp
    exact h.edits h.shown.onRight (by rwa [hline]) (by rwa [hline])
  · subst hleft
    have hline : t.left.dropLast ++ (t.left.getLast?.toList ++ t.right) = t.left ++ t.right := by
      obtain hnil | ⟨before, x, hx⟩ := List.eq_nil_or_concat t.left
      · simp [hnil]
      · simp [hx]
    exact h.edits h.shown.onLeft (by rwa [hline]) (by rwa [hline])
  · subst hhome
    exact h.edits h.shown.onHome h.room h.ascii
  · subst hlast
    exact h.edits h.shown.onLast (by rw [List.append_nil]; exact h.room)
      (by rw [List.append_nil]; exact h.ascii)
  · rw [Editor.onBracket, if_neg hup, if_neg hright, if_neg hleft, if_neg hhome, if_neg hlast,
      if_neg hc]
    exact ⟨e, rfl, rfl, h⟩

theorem Matches.onEnter (h : e.Matches t) (execute : List UInt8 → List UInt8 → List UInt8) :
    ∃ e', e.onEnter execute = some e' ∧ e'.escState = e.escState ∧ e'.Matches (t.apply .enter) := by
  have hroom := h.room
  rw [Text.line, List.length_append] at hroom
  by_cases hnil : t.line = []
  · obtain ⟨hleft, hright⟩ := List.append_eq_nil_iff.mp hnil
    have hshown := h.shown
    rw [hleft, hright] at hshown
    have hsame : ({ t with left := [], right := [] } : Text) = t.apply .enter := by
      rw [Text.apply, if_pos hnil, Text.ext_iff]
      exact ⟨hleft.symm, hright.symm, rfl, rfl⟩
    rw [← hsame]
    exact h.edits (hshown.onEnter_nil execute) (by decide) (by simp)
  · obtain ⟨e', he', hshows, hesc, hexecuted, hremembered, hlen⟩ :=
      h.shown.onEnter hnil hroom execute
    have htext : Utf8.textOrEmpty (t.left ++ t.right) = t.line := Utf8.textOrEmpty_of_lt h.ascii
    rw [htext] at hexecuted hremembered hlen
    refine ⟨e', he', hesc, ?_⟩
    rw [Text.apply, if_neg hnil]
    exact ⟨hshows, by simp [Text.line, inputMax], hremembered, hlen, h.room, by rw [hexecuted, h.executed],
      by simp [Text.line], h.ascii⟩

theorem Matches.onByte (h : e.Matches t) (hesc : input.byte ≠ 0x1B) (htab : input.byte ≠ 9)
    (hroom : ((plainKey input.byte).foldl Text.apply t).line.length < inputMax) :
    ∃ e', e.onByte asyncRt input = some e' ∧ e'.escState = e.escState ∧
      e'.Matches ((plainKey input.byte).foldl Text.apply t) := by
  have hline := h.room
  rw [Text.line, List.length_append] at hline
  unfold Editor.onByte
  dsimp only
  rw [if_neg hesc]
  unfold plainKey at hroom ⊢
  split_ifs at hroom ⊢ with henter hback hchar
  · exact h.onEnter input.execute
  · exact h.edits h.shown.onBackspace hroom fun b hb => h.ascii b
      (List.mem_append.mpr ((List.mem_append.mp hb).imp_left (List.dropLast_subset _ ·)))
  · refine h.edits (h.shown.onPrintable hline input.byte) hroom fun b hb => ?_
    rw [List.append_assoc, List.mem_append, List.mem_append, List.mem_singleton] at hb
    obtain hb | rfl | hb := hb
    · exact h.ascii b (List.mem_append_left _ hb)
    · exact UInt8.lt_trans hchar.2 (by decide)
    · exact h.ascii b (List.mem_append_right _ hb)
  · exact ⟨e, rfl, rfl, h⟩

/-- A byte in the middle of a sequence only changes the state of the parser. -/
theorem Matches.escState (h : e.Matches t) (esc : EscState) :
    ({ e with escState := esc } : Editor).Matches t :=
  ⟨⟨h.shown.buf, h.shown.length, h.shown.pos, h.shown.last, h.shown.lastCmd, h.shown.lastCmdLen⟩,
    h.room, h.remembered, h.lastCmdLen, h.short, h.executed, h.ascii, h.asciiRemembered⟩

/-- Every byte does to the editor what the key it completes does to the text. -/
theorem Matches.step (h : e.Matches t) (asyncRt : Bool) (htab : input.byte ≠ 9)
    (hroom : ((e.escState.decode input.byte).1.foldl Text.apply t).line.length < inputMax) :
    ∃ e', e.step asyncRt input = some e' ∧ e'.escState = (e.escState.decode input.byte).2 ∧
      e'.Matches ((e.escState.decode input.byte).1.foldl Text.apply t) := by
  cases hesc : e.escState with
  | normal =>
    have hstep : e.step asyncRt input = e.onByte asyncRt input := by rw [Editor.step, hesc]
    rw [hesc] at hroom
    by_cases hc : input.byte = 0x1B
    · have hdecode : EscState.normal.decode input.byte = ([], .sawEsc) := if_pos hc
      rw [hdecode]
      refine ⟨{ e with escState := .sawEsc }, ?_, rfl, h.escState .sawEsc⟩
      rw [hstep, Editor.onByte, if_pos hc]
    · have hdecode : EscState.normal.decode input.byte = (plainKey input.byte, .normal) := if_neg hc
      rw [hdecode] at hroom ⊢
      rw [hstep]
      simpa only [hesc] using h.onByte hc htab hroom
  | sawEsc =>
    have hstep : e.step asyncRt input =
        some { e with escState := if input.byte = 0x5B then .sawBracket else .normal } := by
      rw [Editor.step, hesc]
    exact ⟨_, hstep, rfl, h.escState _⟩
  | sawBracket =>
    have hstep : e.step asyncRt input = Editor.onBracket { e with escState := .normal } input.byte := by
      rw [Editor.step, hesc]
    rw [hstep]
    by_cases hc : input.byte = 0x33
    · have hdecode : EscState.sawBracket.decode input.byte = ([], .saw3) := if_pos hc
      rw [hdecode, hc]
      exact ⟨{ e with escState := .saw3 }, rfl, rfl, h.escState .saw3⟩
    · have hdecode : EscState.sawBracket.decode input.byte = (bracketKey input.byte, .normal) :=
        if_neg hc
      rw [hdecode]
      exact (h.escState .normal).onBracket hc
  | saw3 =>
    have hstep : e.step asyncRt input = Editor.onSaw3 { e with escState := .normal } input.byte := by
      rw [Editor.step, hesc]
    have hnormal := h.escState .normal
    rw [hesc] at hroom
    rw [hstep]
    by_cases hc : input.byte = 0x7E
    · have hdecode : EscState.saw3.decode input.byte = ([.delete], .normal) :=
        Prod.ext (if_pos hc) rfl
      rw [hdecode] at hroom ⊢
      rw [hc]
      exact hnormal.edits hnormal.shown.onSaw3 hroom fun b hb => h.ascii b
        (List.mem_append.mpr ((List.mem_append.mp hb).imp_right (List.mem_of_mem_tail ·)))
    · have hdecode : EscState.saw3.decode input.byte = ([], .normal) := Prod.ext (if_neg hc) rfl
      rw [hdecode, Editor.onSaw3, if_neg fun h => hc h.1]
      exact ⟨_, rfl, rfl, hnormal⟩

/-- From any state of the parser, the bytes do to the editor what their keys do to the text. -/
theorem Matches.run (h : e.Matches t) (asyncRt : Bool) (inputs : List Input)
    (htab : ∀ input ∈ inputs, input.byte ≠ 9)
    (hroom : ∀ read, read <+: inputs.map Input.byte →
      ((keys (e.escState.pending ++ read)).foldl Text.apply t).line.length < inputMax) :
    ∃ e', Lib.run (Editor.step asyncRt) e inputs = some e' ∧
      e'.Matches ((keys (e.escState.pending ++ inputs.map Input.byte)).foldl Text.apply t) := by
  induction inputs generalizing e t with
  | nil =>
    rw [List.map_nil, List.append_nil, keys_of_pending]
    exact ⟨e, rfl, h⟩
  | cons input inputs ih =>
    have hkeys : ∀ read, (keys (e.escState.pending ++ input.byte :: read)).foldl Text.apply t =
        (keys ((e.escState.decode input.byte).2.pending ++ read)).foldl Text.apply
          ((e.escState.decode input.byte).1.foldl Text.apply t) := by
      intro read
      rw [keys_pending, List.foldl_append]
    have hfirst := hroom [input.byte] (by simp)
    rw [hkeys, List.append_nil, keys_of_pending] at hfirst
    obtain ⟨e₁, hstep, hesc, h₁⟩ := h.step asyncRt (htab input List.mem_cons_self) hfirst
    obtain ⟨e', hrun, h'⟩ := ih h₁ (fun i hi => htab i (List.mem_cons_of_mem input hi)) (by
      intro read hread
      have hnext := hroom (input.byte :: read) (by simpa using hread)
      rwa [hkeys, ← hesc] at hnext)
    refine ⟨e', run_cons_eq_some.mpr ⟨e₁, hstep, hrun⟩, ?_⟩
    rw [List.map_cons, hkeys, ← hesc]
    exact h'

theorem matches_start : start.Matches Text.start := by
  refine ⟨⟨⟨List.replicate inputMax 0, rfl⟩, ?_, rfl, rfl, ?_, ?_⟩, ?_, rfl, rfl, ?_, rfl, ?_, ?_⟩
  · exact List.length_replicate
  · exact List.length_replicate
  · exact Nat.zero_le _
  · decide
  · decide
  · simp [Text.start, Text.line]
  · simp [Text.start]

/-- For every sequence of bytes without a tab in which no line reaches 128 characters, the editor
holds the text that the keys of these bytes give. -/
theorem editor_refines_text (asyncRt : Bool) (inputs : List Input)
    (htab : ∀ input ∈ inputs, input.byte ≠ 9)
    (hroom : ∀ read, read <+: inputs.map Input.byte → (textAfter read).line.length < inputMax) :
    ∃ e, run (step asyncRt) start inputs = some e ∧
      e.Refines (textAfter (inputs.map Input.byte)) := by
  obtain ⟨e, hrun, h⟩ := matches_start.run asyncRt inputs htab hroom
  exact ⟨e, hrun, h.refines⟩

def typed (bytes : List UInt8) : List Input := bytes.map fun b => ⟨b, fun cwd _ => cwd, fun _ => []⟩

theorem byte_typed (bytes : List UInt8) : (typed bytes).map Input.byte = bytes := by
  rw [typed, List.map_map]
  exact List.map_id bytes

/-- `ab`, one place to the left, a blank, enter, and the line is taken back. -/
def blankInWord : List UInt8 := [0x61, 0x62, 0x1B, 0x5B, 0x44, 0x20, 0x0D, 0x1B, 0x5B, 0x41]

theorem blank_is_inserted :
    ∃ e, run (step false) start (typed blankInWord) = some e ∧
      e.inputBuf.take e.cursorEnd = ascii "a b" ∧ e.executed = [ascii "a b"] := by
  have hbytes := byte_typed blankInWord
  have htext : (textAfter blankInWord).left ++ (textAfter blankInWord).right = ascii "a b" ∧
      (textAfter blankInWord).executed = [ascii "a b"] := by decide +kernel
  have hinits : ∀ read ∈ blankInWord.inits, (textAfter read).line.length < inputMax := by
    decide +kernel
  have htab : ∀ input ∈ typed blankInWord, input.byte ≠ 9 := by
    intro input hinput htab
    have hmem : 9 ∈ blankInWord := by
      rw [← hbytes, ← htab]
      exact List.mem_map_of_mem hinput
    exact absurd hmem (by decide)
  obtain ⟨e, hrun, h⟩ := editor_refines_text false (typed blankInWord) htab (by
    rw [hbytes]
    exact fun read hread => hinits read ((List.mem_inits _ _).mpr hread))
  rw [hbytes] at h
  exact ⟨e, hrun, h.line.trans htext.1, h.executed.trans htext.2⟩

end Editor

end OpenIon.Shell
