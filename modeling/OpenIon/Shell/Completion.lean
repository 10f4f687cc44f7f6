import OpenIon.Shell.EditorBounds

/-! # Completing a file name

Tab replaces the name before the cursor by the only entry of the directory that begins with it. The
text in front of the name stays. The text behind the cursor does not: the line ends with the name.
-/
namespace OpenIon.Shell
open Lib Fs

def ListedEntry.text (entry : ListedEntry) : List UInt8 :=
  entry.name ++ if entry.isDir then [slash] else []

/-- The argument before the cursor names exactly one entry of a directory. -/
structure UniqueMatch (entries : List UInt8 → List ListedEntry) (cwd left : List UInt8) where
  before : List UInt8
  arg : List UInt8
  dirPart : List UInt8
  nameStart : List UInt8
  replaceStart : ℕ
  dir : List UInt8
  entry : ListedEntry
  left_eq : left = before ++ 0x20 :: arg
  no_space : 0x20 ∉ arg
  split : Editor.splitCompletionPath (Utf8.textOrEmpty arg) = (dirPart, nameStart, replaceStart)
  normal : normalizePath cwd dirPart = some dir
  only : (entries dir).filter (fun entry => nameStart.isPrefixOf entry.name) = [entry]

namespace UniqueMatch

variable {entries : List UInt8 → List ListedEntry} {cwd left : List UInt8}

def replacePos (m : UniqueMatch entries cwd left) : ℕ := m.before.length + 1 + m.replaceStart

theorem replacePos_le (m : UniqueMatch entries cwd left) : m.replacePos ≤ left.length := by
  have hstart := Editor.splitCompletionPath_le (Utf8.textOrEmpty m.arg)
  have htext := Utf8.length_textOrEmpty_le m.arg
  have hlength := congrArg List.length m.left_eq
  rw [m.split] at hstart
  rw [List.length_append, List.length_cons] at hlength
  rw [replacePos]
  dsimp only at hstart
  omega

end UniqueMatch

namespace Editor

variable {e : Editor} {left right : List UInt8} {entries : List UInt8 → List ListedEntry}

theorem argStart_append (before arg rest : List UInt8) (harg : 0x20 ∉ arg) :
    argStart (before ++ 0x20 :: arg ++ rest) (before.length + 1 + arg.length) =
      some (some (before.length + 1)) := by
  induction arg using List.reverseRecOn generalizing rest with
  | nil =>
    obtain ⟨start, hstart, -⟩ : ∃ start, argStart (before ++ [0x20] ++ rest) before.length =
        some start ∧ ∀ i, start = some i → i ≤ before.length :=
      argStart_le (by simp)
    have hread : (before ++ [0x20] ++ rest)[before.length]? = some 0x20 := by simp
    exact argStart_succ hstart hread
  | append_singleton arg a ih =>
    rw [List.mem_append, List.mem_singleton, not_or] at harg
    have hstart := ih ([a] ++ rest) harg.1
    have hbuf : before ++ 0x20 :: (arg ++ [a]) ++ rest = before ++ 0x20 :: arg ++ ([a] ++ rest) := by
      simp
    have hread : (before ++ 0x20 :: arg ++ ([a] ++ rest))[before.length + 1 + arg.length]? =
        some a := by
      have hlength : before.length + 1 + arg.length = (before ++ 0x20 :: arg).length := by
        rw [List.length_append, List.length_cons]
        omega
      rw [hlength, List.getElem?_append_right (Nat.le_refl _), Nat.sub_self]
      rfl
    rw [hbuf, List.length_append, List.length_singleton, ← Nat.add_assoc,
      argStart_succ hstart hread, if_neg (Ne.symm harg.2)]

theorem Shows.handleTabCompletion (h : e.Shows left right) (asyncRt : Bool)
    (m : UniqueMatch entries e.state.cwd left) :
    e.handleTabCompletion asyncRt entries =
      (e.insertName m.replacePos m.entry).bind Editor.redrawInput := by
  obtain ⟨rest, hbuf⟩ := h.buf
  have hsplit : e.inputBuf = m.before ++ 0x20 :: m.arg ++ (right ++ rest) := by
    rw [hbuf, List.append_assoc]
    exact congrArg (· ++ (right ++ rest)) m.left_eq
  have hpos : e.cursorPos = m.before.length + 1 + m.arg.length := by
    rw [h.pos, congrArg List.length m.left_eq, List.length_append, List.length_cons]
    omega
  have hstart : argStart e.inputBuf e.cursorPos = some (some (m.before.length + 1)) := by
    rw [hsplit, hpos]
    exact argStart_append m.before m.arg (right ++ rest) m.no_space
  have hslice : Buffer.slice e.inputBuf (m.before.length + 1)
      (m.before.length + 1 + (e.cursorPos - (m.before.length + 1))) = some m.arg := by
    have hmiddle := Buffer.slice_middle (m.before ++ [0x20]) m.arg (right ++ rest)
    rw [List.length_append, List.length_singleton] at hmiddle
    rw [hpos, Nat.add_sub_cancel_left, hsplit, ← hmiddle]
    simp
  have hend : e.cursorEnd ≠ 0 := by
    rw [h.last, ← h.pos, hpos]
    omega
  unfold Editor.handleTabCompletion
  rw [if_neg hend, hstart]
  dsimp only [Option.bind_eq_bind, Option.bind_some]
  rw [if_pos (by omega), completeFilename, hslice]
  dsimp only [Option.bind_eq_bind, Option.bind_some]
  rw [m.split]
  dsimp only
  rw [m.normal]
  dsimp only
  rw [m.only]
  rfl

/-- The two texts that an editor shows are in its buffer and its cursor. -/
theorem Shows.unique {left' right' : List UInt8} (h : e.Shows left right)
    (h' : e.Shows left' right') : left.length = left'.length ∧ right.length = right'.length := by
  have hpos := h.pos.symm.trans h'.pos
  have hlast := h.last.symm.trans h'.last
  omega

/-- As many bytes of the entry are written as there are places, and nothing is done without one. -/
theorem insertName_eq (entry : ListedEntry) {replacePos n : ℕ} (hpos : replacePos ≤ inputMax)
    (hn : n = min entry.text.length (inputMax - replacePos)) :
    e.insertName replacePos entry =
      if 0 < n then
        ((Buffer.putAll e.inputBuf replacePos (entry.name.take n)).bind fun buf =>
          if entry.isDir ∧ entry.name.length < n then
            Buffer.put buf (replacePos + entry.name.length) slash
          else some buf).map fun buf =>
        { e with inputBuf := buf, cursorPos := replacePos + n, cursorEnd := replacePos + n }
      else some e := by
  have hname : entry.name.length ≤ 32 := entry.name_le
  have hfound : min entry.name.length 63 = entry.name.length := min_eq_left (by omega)
  have htotal : entry.name.length + (if entry.isDir = true then 1 else 0) = entry.text.length := by
    rw [ListedEntry.text, List.length_append]
    split_ifs <;> rfl
  have hcopy : min entry.text.length (128 - replacePos) = n := hn.symm
  unfold Editor.insertName
  dsimp only
  rw [hfound, htotal, if_pos ⟨rfl, hpos⟩, hcopy]
  by_cases hsome : 0 < n
  · rw [if_pos hsome, if_pos hsome]
    cases Buffer.putAll e.inputBuf replacePos (entry.name.take n) with
    | none => rfl
    | some buf =>
      rw [Option.bind_some, Option.bind_eq_bind, Option.bind_some, Option.map_eq_bind]
      split_ifs
      · rfl
      · rfl
  · rw [if_neg hsome, if_neg hsome]

/-- The writes for an entry, which are cut at the end of the buffer: first the name, then the slash
if there is a place for it. -/
theorem insertName_writes (entry : ListedEntry) {buf front : List UInt8}
    (hlength : buf.length = inputMax) (hfront : front.length ≤ inputMax)
    (hbuf : buf.take front.length = front) {n : ℕ}
    (hn : n = min entry.text.length (inputMax - front.length)) :
    ∃ rest, (Buffer.putAll buf front.length (entry.name.take n)).bind (fun buf =>
        if entry.isDir ∧ entry.name.length < n then
          Buffer.put buf (front.length + entry.name.length) slash
        else some buf) = some (front ++ entry.text.take n ++ rest) ∧
      (front ++ entry.text.take n ++ rest).length = inputMax := by
  have hfits : front.length + (entry.name.take n).length ≤ buf.length := by
    rw [List.length_take]
    omega
  rw [Buffer.putAll_of_le hfits, Option.bind_some, hbuf]
  have hdrop : front.length + (entry.name.take n).length +
      (buf.drop (front.length + (entry.name.take n).length)).length = inputMax := by
    rw [List.length_drop]
    omega
  generalize buf.drop (front.length + (entry.name.take n).length) = behind at hdrop
  by_cases hslash : entry.isDir ∧ entry.name.length < n
  · have htext : entry.text = entry.name ++ [slash] := by
      rw [ListedEntry.text, if_pos hslash.1]
    have hname : entry.name.take n = entry.name := List.take_of_length_le (Nat.le_of_lt hslash.2)
    have hall : entry.text.take n = entry.text := by
      rw [htext, List.length_append, List.length_singleton] at hn
      rw [htext]
      exact List.take_of_length_le (by rw [List.length_append, List.length_singleton]; omega)
    rw [hname] at hdrop
    rw [if_pos hslash, hname, hall, htext]
    cases behind with
    | nil =>
      rw [List.length_nil] at hdrop
      omega
    | cons x behind =>
      have hput := @Buffer.put_append _ (front ++ entry.name) behind x slash
      rw [List.length_append] at hput
      refine ⟨behind, ?_, ?_⟩
      · rw [hput]
        simp
      · rw [← hdrop]
        simp only [List.length_append, List.length_cons, List.length_nil]
        omega
  · have hsame : entry.text.take n = entry.name.take n := by
      rw [ListedEntry.text]
      split_ifs with hdir
      · exact List.take_append_of_le_length (Nat.not_lt.mp fun hlt => hslash ⟨hdir, hlt⟩)
      · rw [List.append_nil]
    rw [if_neg hslash, hsame]
    refine ⟨behind, rfl, ?_⟩
    rw [List.length_append, List.length_append]
    exact hdrop

/-- An entry with a text is written over what begins at the place, and the line ends with it. -/
theorem Shows.insertName (h : e.Shows left right) {replacePos : ℕ} (hpos : replacePos ≤ left.length)
    {entry : ListedEntry} (htext : entry.text ≠ []) :
    e.Edits (e.insertName replacePos entry) ((left.take replacePos ++ entry.text).take inputMax)
      [] := by
  obtain ⟨rest, hbuf⟩ := h.buf
  have hlast := h.last_le
  have hpositive : 0 < entry.text.length := List.length_pos_of_ne_nil htext
  have hfront : (left.take replacePos).length = replacePos := List.length_take_of_le hpos
  have hline : (left.take replacePos ++ entry.text).take inputMax =
      left.take replacePos ++ entry.text.take (min entry.text.length (inputMax - replacePos)) := by
    rw [List.take_append, hfront, List.take_of_length_le (by omega), min_comm, ← List.take_take,
      List.take_length]
  generalize hn : min entry.text.length (inputMax - replacePos) = n at hline
  rw [insertName_eq entry (by omega) hn.symm, hline]
  by_cases hsome : 0 < n
  · have htake : e.inputBuf.take (left.take replacePos).length = left.take replacePos := by
      rw [hfront, hbuf, List.append_assoc, List.take_append_of_le_length hpos]
    have hn' : n = min entry.text.length (inputMax - (left.take replacePos).length) := by
      rw [hfront, hn]
    obtain ⟨behind, hwrites, hlength⟩ := insertName_writes entry h.length (by omega) htake hn'
    have hwritten : (left.take replacePos ++ entry.text.take n).length = replacePos + n := by
      rw [List.length_append, hfront, List.length_take]
      omega
    rw [hfront] at hwrites
    rw [if_pos hsome, hwrites]
    refine ⟨_, rfl, ⟨⟨behind, ?_⟩, hlength, hwritten.symm, ?_, h.lastCmd, h.lastCmdLen⟩, rfl, rfl, rfl⟩
    · rw [List.append_nil]
    · rw [hwritten]
      rfl
  · -- the name would begin behind the buffer, so the line fills it
    have hfull : replacePos = left.length ∧ right = [] := by
      constructor
      · omega
      · exact List.eq_nil_of_length_eq_zero (by omega)
    obtain ⟨rfl, rfl⟩ := hfull
    obtain rfl : n = 0 := Nat.eq_zero_of_not_pos hsome
    rw [if_neg hsome, List.take_length, List.take_zero, List.append_nil]
    exact Edits.self h

theorem insertName_of_nil {replacePos : ℕ} (hpos : replacePos ≤ inputMax) {entry : ListedEntry}
    (htext : entry.text = []) : e.insertName replacePos entry = some e := by
  rw [insertName_eq entry hpos rfl, htext, List.length_nil, Nat.zero_min]
  rfl

/-- The completed line is the text before the name, the entry and the text behind the cursor, cut at
the end of the buffer and with the cursor behind the entry, exactly if nothing stands behind the
cursor or nothing of it has a place. An entry without a text leaves the line as it is. -/
theorem tab_keeps_rest_iff (asyncRt : Bool) (h : e.Shows left right)
    (m : UniqueMatch entries e.state.cwd left) :
    e.Edits (e.handleTabCompletion asyncRt entries)
        ((left.take m.replacePos ++ m.entry.text).take inputMax)
        (right.take (inputMax - (m.replacePos + m.entry.text.length))) ↔
      (m.entry.text = [] → m.replacePos = left.length) ∧
        (m.entry.text ≠ [] → right = [] ∨ inputMax ≤ m.replacePos + m.entry.text.length) := by
  have hlast := h.last_le
  have hpos := m.replacePos_le
  have hfront : (left.take m.replacePos).length = m.replacePos := List.length_take_of_le hpos
  rw [h.handleTabCompletion asyncRt m]
  by_cases htext : m.entry.text = []
  · rw [insertName_of_nil (hpos.trans (by omega)) htext, Option.bind_some, h.redrawInput, htext,
      List.append_nil, List.length_nil, Nat.add_zero]
    constructor
    · rintro ⟨e', he', hshows, -⟩
      obtain rfl := Option.some.inj he'
      refine ⟨fun _ => ?_, fun hne => absurd rfl hne⟩
      have hlength := (h.unique hshows).1
      rw [List.length_take, hfront] at hlength
      omega
    · intro hkept
      rw [hkept.1 rfl, List.take_length, List.take_of_length_le (by omega),
        List.take_of_length_le (by omega)]
      exact Edits.self h
  · obtain ⟨e', hinsert, hshows, hsame⟩ := h.insertName hpos htext
    rw [hinsert, Option.bind_some, hshows.redrawInput]
    have hrest : right.take (inputMax - (m.replacePos + m.entry.text.length)) = [] ↔
        right = [] ∨ inputMax ≤ m.replacePos + m.entry.text.length := by
      rw [List.take_eq_nil_iff, Nat.sub_eq_zero_iff_le, or_comm]
    constructor
    · rintro ⟨e₁, he₁, hshows₁, -⟩
      obtain rfl := Option.some.inj he₁
      refine ⟨fun hnil => absurd hnil htext, fun _ => hrest.mp ?_⟩
      exact List.eq_nil_of_length_eq_zero (hshows.unique hshows₁).2.symm
    · intro hkept
      rw [hrest.mpr (hkept.2 htext)]
      exact ⟨e', rfl, hshows, hsame⟩

/-! ### The file `file` -/

def fileEntry : ListedEntry := ⟨ascii "file", false, Nat.le_of_ble_eq_true rfl⟩

def withLine (left right : List UInt8) : Editor :=
  ⟨.new, left ++ right ++ List.replicate (inputMax - (left.length + right.length)) 0, left.length,
    left.length + right.length, .normal, []⟩

theorem withLine_shows (hroom : left.length + right.length ≤ inputMax) :
    (withLine left right).Shows left right := by
  refine ⟨⟨_, rfl⟩, ?_, rfl, rfl, List.length_replicate, Nat.zero_le _⟩
  simp only [withLine, List.length_append, List.length_replicate]
  omega

def catFile : UniqueMatch (fun _ => [fileEntry]) [slash] (ascii "cat f") where
  before := ascii "cat"
  arg := ascii "f"
  dirPart := []
  nameStart := ascii "f"
  replaceStart := 0
  dir := [slash]
  entry := fileEntry
  left_eq := rfl
  no_space := of_decide_eq_true rfl
  split := rfl
  normal := rfl
  only := rfl

theorem name_completed_at_end :
    (withLine (ascii "cat f") []).Edits
      ((withLine (ascii "cat f") []).handleTabCompletion false fun _ => [fileEntry])
      (ascii "cat file") [] :=
  (tab_keeps_rest_iff false (withLine_shows (by decide)) catFile).mpr
    ⟨fun htext => absurd htext (by decide), fun _ => .inl rfl⟩

/-- `cat f x`, two places to the left and a tab. -/
def completedInLine : List Input :=
  (ascii "cat f x" ++ [0x1B, 0x5B, 0x44, 0x1B, 0x5B, 0x44, 9]).map fun b =>
    ⟨b, fun cwd _ => cwd, fun _ => [fileEntry]⟩

/-- The line becomes `cat file`, and the argument behind the cursor is lost. -/
theorem completion_drops_rest :
    ((run (step false) start completedInLine.dropLast).map fun e =>
      (e.inputBuf.take e.cursorEnd, e.cursorPos)) = some (ascii "cat f x", 5) ∧
    ((run (step false) start completedInLine).map fun e =>
      (e.inputBuf.take e.cursorEnd, e.cursorPos)) = some (ascii "cat file", 8) := by
  decide +kernel

end Editor

end OpenIon.Shell
