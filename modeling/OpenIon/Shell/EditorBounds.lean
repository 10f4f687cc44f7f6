import OpenIon.Shell.EditorText

/-! # The bounds of the line editor

The cursor stays within the line and the line within the buffer, whatever bytes are read and
whatever the directories contain. The only access out of range is the byte that is written behind
the line when it is entered: the line may fill the buffer, and then there is no such place.
-/
namespace OpenIon.Shell
open Lib Fs

namespace Editor

/-- The cursor is in the line, and the line in the buffer. -/
structure Valid (e : Editor) : Prop where
  length : e.inputBuf.length = inputMax
  lastCmd : e.state.lastCmd.length = inputMax
  lastCmdLen : e.state.lastCmdLen ≤ inputMax
  pos_le : e.cursorPos ≤ e.cursorEnd
  end_le : e.cursorEnd ≤ inputMax

/-- The line is entered while it fills the buffer. -/
def EntersFull (e : Editor) (input : Input) : Prop :=
  e.escState = .normal ∧ (input.byte = 0x0D ∨ input.byte = 0x0A) ∧ e.cursorEnd = inputMax

variable {e : Editor} {left right : List UInt8} {input : Input} {result : Option Editor}

theorem Shows.valid (h : e.Shows left right) : e.Valid := by
  have hle := h.last_le
  exact ⟨h.length, h.lastCmd, h.lastCmdLen, by rw [h.pos, h.last]; omega, by rw [h.last]; exact hle⟩

theorem Valid.exists_shows (h : e.Valid) : ∃ left right, e.Shows left right := by
  have hend := h.end_le
  have hpos := h.pos_le
  have hlength := h.length
  refine ⟨e.inputBuf.take e.cursorPos, (e.inputBuf.take e.cursorEnd).drop e.cursorPos,
    ⟨e.inputBuf.drop e.cursorEnd, ?_⟩, h.length, ?_, ?_, h.lastCmd, h.lastCmdLen⟩
  · have htake : e.inputBuf.take e.cursorPos = (e.inputBuf.take e.cursorEnd).take e.cursorPos := by
      rw [List.take_take, min_eq_left hpos]
    rw [htake, List.take_append_drop, List.take_append_drop]
  · rw [List.length_take]
    omega
  · rw [List.length_drop, List.length_take, List.length_take]
    omega

theorem Valid.redrawInput (h : e.Valid) : e.redrawInput = some e := by
  obtain ⟨left, right, hshows⟩ := h.exists_shows
  exact hshows.redrawInput

theorem Edits.valid (h : e.Edits result left right) : ∃ e', result = some e' ∧ e'.Valid := by
  obtain ⟨e', hresult, hshows, -⟩ := h
  exact ⟨e', hresult, hshows.valid⟩

/-! ### Completion -/

theorem commands_length (asyncRt : Bool) : ∀ cmd ∈ commands asyncRt, cmd.length ≤ 127 := by
  cases asyncRt <;> decide

theorem Valid.completeCommand (h : e.Valid) (asyncRt : Bool) :
    ∃ e', e.completeCommand asyncRt = some e' ∧ e'.Valid := by
  have hend : e.cursorEnd ≤ e.inputBuf.length := h.length ▸ h.end_le
  unfold Editor.completeCommand
  rw [Buffer.slice_of_le (Nat.zero_le _) hend, Buffer.readAll_of_le hend]
  dsimp only [Option.bind_eq_bind, Option.bind_some]
  split
  · exact ⟨e, rfl, h⟩
  next cmd hmatch =>
    have hmem : cmd ∈ commands asyncRt :=
      List.mem_of_mem_filter (hmatch ▸ List.mem_singleton_self cmd)
    have hlength := commands_length asyncRt cmd hmem
    have hbuf := h.length
    have hfits : 0 + cmd.length ≤ e.inputBuf.length := by rw [hbuf, inputMax]; omega
    obtain ⟨buf, hput, hsame⟩ := Buffer.exists_putAll hfits
    rw [if_pos (min_eq_left hlength), hput]
    refine ⟨_, rfl, hsame.trans hbuf, h.lastCmd, h.lastCmdLen, le_rfl, ?_⟩
    dsimp only
    rw [inputMax]
    omega
  · exact ⟨e, rfl, h⟩

theorem Valid.insertName (h : e.Valid) {replacePos : ℕ} (hpos : replacePos ≤ inputMax)
    (entry : ListedEntry) : ∃ e', e.insertName replacePos entry = some e' ∧ e'.Valid := by
  have hname : entry.name.length ≤ 32 := entry.name_le
  have hbuf : e.inputBuf.length = 128 := h.length
  have hpos : replacePos ≤ 128 := hpos
  have hfound : min entry.name.length 63 = entry.name.length := min_eq_left (by omega)
  unfold Editor.insertName
  dsimp only
  rw [hfound, if_pos ⟨rfl, hpos⟩]
  generalize hcopy : min (entry.name.length + if entry.isDir = true then 1 else 0)
    (128 - replacePos) = copyLen
  have hroom : replacePos + copyLen ≤ 128 := by omega
  by_cases hpositive : 0 < copyLen
  · have hfits : replacePos + (entry.name.take copyLen).length ≤ e.inputBuf.length := by
      rw [List.length_take]
      omega
    obtain ⟨buf, hput, hsame⟩ := Buffer.exists_putAll hfits
    rw [if_pos hpositive, hput, Option.bind_eq_bind, Option.bind_some]
    split_ifs with hdir
    · rw [Buffer.put_of_lt (by omega), Option.bind_some]
      refine ⟨_, rfl, ?_, h.lastCmd, h.lastCmdLen, le_rfl, hroom⟩
      rw [List.length_set, hsame, h.length]
    · exact ⟨_, rfl, hsame.trans h.length, h.lastCmd, h.lastCmdLen, le_rfl, hroom⟩
  · rw [if_neg hpositive]
    exact ⟨e, rfl, h⟩

theorem splitCompletionPath_le (path : List UInt8) : (splitCompletionPath path).2.2 ≤ path.length := by
  unfold splitCompletionPath
  split
  next before name hsplit =>
    rw [splitLast_eq_some hsplit]
    simp
  · exact Nat.zero_le _

theorem Valid.completeFilename (h : e.Valid) (entries : List UInt8 → List ListedEntry)
    {start n : ℕ} (hpos : start + n = e.cursorPos) :
    ∃ e', e.completeFilename entries start n = some e' ∧ e'.Valid := by
  have hend : e.cursorEnd ≤ e.inputBuf.length := h.length ▸ h.end_le
  have hle := h.pos_le
  unfold Editor.completeFilename
  rw [Buffer.slice_of_le (Nat.le_add_right _ _) (by omega), Buffer.readAll_of_le hend]
  dsimp only [Option.bind_eq_bind, Option.bind_some]
  have htext := Utf8.length_textOrEmpty_le ((e.inputBuf.drop start).take (start + n - start))
  rw [List.length_take] at htext
  generalize Utf8.textOrEmpty ((e.inputBuf.drop start).take (start + n - start)) = search at htext
  have hstart := splitCompletionPath_le search
  rcases hsplit : splitCompletionPath search with ⟨dirPart, namePrefix, replaceStart⟩
  rw [hsplit] at hstart
  dsimp only at hstart ⊢
  split
  · exact ⟨e, rfl, h⟩
  split
  · exact ⟨e, rfl, h⟩
  next entry hmatch =>
    have hend' := h.end_le
    exact h.insertName (by omega) entry
  · exact ⟨e, rfl, h⟩

theorem argStart_succ {buf : List UInt8} {n : ℕ} {start : Option ℕ} {b : UInt8}
    (hstart : argStart buf n = some start) (hb : buf[n]? = some b) :
    argStart buf (n + 1) = some (if b = 0x20 then some (n + 1) else start) := by
  rw [argStart] at hstart
  rw [argStart, List.range_succ, List.foldlM_append, hstart]
  simp [hb]

theorem argStart_le {buf : List UInt8} {n : ℕ} (hn : n ≤ buf.length) :
    ∃ start, argStart buf n = some start ∧ ∀ i, start = some i → i ≤ n := by
  induction n with
  | zero => exact ⟨none, rfl, by simp⟩
  | succ n ih =>
    obtain ⟨start, hstart, hle⟩ := ih (by omega)
    have hlt : n < buf.length := by omega
    refine ⟨_, argStart_succ hstart (List.getElem?_eq_getElem hlt), fun i hi => ?_⟩
    split_ifs at hi
    · exact (Option.some.inj hi).ge
    · exact (hle i hi).trans (Nat.le_succ n)

theorem Valid.handleTabCompletion (h : e.Valid) (asyncRt : Bool)
    (entries : List UInt8 → List ListedEntry) :
    ∃ e', e.handleTabCompletion asyncRt entries = some e' ∧ e'.Valid := by
  have hpos : e.cursorPos ≤ e.inputBuf.length := by
    rw [h.length]
    exact h.pos_le.trans h.end_le
  unfold Editor.handleTabCompletion
  split_ifs with hempty
  · exact ⟨e, rfl, h⟩
  obtain ⟨start, hstart, hle⟩ := argStart_le hpos
  rw [hstart, Option.bind_eq_bind, Option.bind_some]
  cases start with
  | none =>
    obtain ⟨e', he', hvalid⟩ := h.completeCommand asyncRt
    dsimp only
    rw [he']
    exact ⟨e', hvalid.redrawInput, hvalid⟩
  | some start =>
    have hbefore := hle start rfl
    obtain ⟨e', he', hvalid⟩ := h.completeFilename entries (Nat.add_sub_of_le hbefore)
    dsimp only
    rw [if_pos hbefore, he']
    exact ⟨e', hvalid.redrawInput, hvalid⟩

/-! ### The bytes -/

theorem Valid.escState (h : e.Valid) (esc : EscState) : ({ e with escState := esc } : Editor).Valid :=
  ⟨h.length, h.lastCmd, h.lastCmdLen, h.pos_le, h.end_le⟩

theorem Valid.onBracket (h : e.Valid) (c : UInt8) : ∃ e', e.onBracket c = some e' ∧ e'.Valid := by
  obtain ⟨left, right, hshows⟩ := h.exists_shows
  by_cases hup : c = 0x41
  · subst hup
    by_cases hlen : 0 < e.state.lastCmdLen ∧ e.state.lastCmdLen < inputMax
    · exact (hshows.onUp hlen.1 hlen.2).valid
    · exact ⟨e, onUp_of_not (by rw [h.length]; exact hlen), h⟩
  by_cases hright : c = 0x43
  · exact hright ▸ hshows.onRight.valid
  by_cases hleft : c = 0x44
  · exact hleft ▸ hshows.onLeft.valid
  by_cases hhome : c = 0x48
  · exact hhome ▸ hshows.onHome.valid
  by_cases hlast : c = 0x46
  · exact hlast ▸ hshows.onLast.valid
  rw [Editor.onBracket, if_neg hup, if_neg hright, if_neg hleft, if_neg hhome, if_neg hlast]
  split_ifs
  · exact ⟨_, rfl, h.escState .saw3⟩
  · exact ⟨e, rfl, h⟩

theorem Valid.onSaw3 (h : e.Valid) (c : UInt8) : ∃ e', e.onSaw3 c = some e' ∧ e'.Valid := by
  obtain ⟨left, right, hshows⟩ := h.exists_shows
  by_cases hc : c = 0x7E
  · exact hc ▸ hshows.onSaw3.valid
  · rw [Editor.onSaw3, if_neg fun h => hc h.1]
    exact ⟨e, rfl, h⟩

theorem Valid.onPrintable (h : e.Valid) (c : UInt8) :
    ∃ e', e.onPrintable c = some e' ∧ e'.Valid := by
  obtain ⟨left, right, hshows⟩ := h.exists_shows
  by_cases hroom : e.cursorEnd < e.inputBuf.length
  · rw [h.length, hshows.last] at hroom
    exact (hshows.onPrintable hroom c).valid
  · rw [Editor.onPrintable, if_neg hroom]
    exact ⟨e, rfl, h⟩

/-- The line can be entered if and only if there is a place behind it. -/
theorem Valid.onEnter (h : e.Valid) (execute : List UInt8 → List UInt8 → List UInt8)
    (hroom : e.cursorEnd ≠ inputMax) : ∃ e', e.onEnter execute = some e' ∧ e'.Valid := by
  obtain ⟨left, right, hshows⟩ := h.exists_shows
  have hle := h.end_le
  have hlt : left.length + right.length < inputMax := by
    rw [← hshows.last]
    omega
  by_cases hnil : left ++ right = []
  · obtain ⟨rfl, rfl⟩ := List.append_eq_nil_iff.mp hnil
    exact (hshows.onEnter_nil execute).valid
  · obtain ⟨e', he', hshows', -⟩ := hshows.onEnter hnil hlt execute
    exact ⟨e', he', hshows'.valid⟩

theorem Valid.onEnter_full (h : e.Valid) (execute : List UInt8 → List UInt8 → List UInt8)
    (hfull : e.cursorEnd = inputMax) : e.onEnter execute = none := by
  have hlength := h.length
  rw [Editor.onEnter, if_pos (by rw [hfull]; decide), Buffer.put, if_neg (by omega)]
  rfl

theorem Valid.onByte (h : e.Valid) (asyncRt : Bool) (input : Input)
    (hroom : ¬ ((input.byte = 0x0D ∨ input.byte = 0x0A) ∧ e.cursorEnd = inputMax)) :
    ∃ e', e.onByte asyncRt input = some e' ∧ e'.Valid := by
  obtain ⟨left, right, hshows⟩ := h.exists_shows
  unfold Editor.onByte
  dsimp only
  split_ifs with hesc henter hback htab hchar
  · exact ⟨_, rfl, h.escState .sawEsc⟩
  · exact h.onEnter input.execute fun hfull => hroom ⟨henter, hfull⟩
  · exact hshows.onBackspace.valid
  · exact h.handleTabCompletion asyncRt input.entries
  · exact h.onPrintable input.byte
  · exact ⟨e, rfl, h⟩

/-- A byte keeps the bounds, unless it enters a line that fills the buffer. -/
theorem Valid.step (h : e.Valid) (asyncRt : Bool) (hroom : ¬ e.EntersFull input) :
    ∃ e', e.step asyncRt input = some e' ∧ e'.Valid := by
  have hnormal := h.escState .normal
  unfold Editor.step
  cases hesc : e.escState with
  | sawBracket => exact hnormal.onBracket _
  | saw3 => exact hnormal.onSaw3 _
  | sawEsc => exact ⟨_, rfl, h.escState _⟩
  | normal => exact h.onByte asyncRt input fun hfull => hroom ⟨hesc, hfull⟩

theorem Valid.step_full (h : e.Valid) (asyncRt : Bool) (hfull : e.EntersFull input) :
    e.step asyncRt input = none := by
  obtain ⟨hesc, henter, hend⟩ := hfull
  have hkey : input.byte ≠ 0x1B := by
    rintro hkey
    rw [hkey] at henter
    exact absurd henter (by decide)
  rw [Editor.step, hesc]
  dsimp only [Editor.onByte]
  rw [if_neg hkey, if_pos henter, h.onEnter_full input.execute hend]

theorem valid_start : start.Valid :=
  ⟨List.length_replicate, List.length_replicate, Nat.zero_le _, le_rfl, Nat.zero_le _⟩

/-- For every sequence of bytes, whatever the commands do and the directories contain, the cursor
stays within the line and the line within the buffer; and no access is out of range exactly if no
line is entered that fills the buffer. -/
theorem editor_in_bounds_iff (asyncRt : Bool) (inputs : List Input) :
    Always (step asyncRt) (fun e => e.cursorPos ≤ e.cursorEnd ∧ e.cursorEnd ≤ inputMax) start
      inputs ∧
    ((∃ e, run (step asyncRt) start inputs = some e) ↔
      ∀ before input after, inputs = before ++ input :: after →
        ∀ e, run (step asyncRt) start before = some e → ¬ e.EntersFull input) := by
  have hstep : ∀ e input e', Valid e → step asyncRt e input = some e' → Valid e' := by
    intro e input e' h hs
    by_cases hfull : e.EntersFull input
    · rw [h.step_full asyncRt hfull] at hs
      cases hs
    · obtain ⟨e₁, he₁, hvalid⟩ := h.step asyncRt hfull
      exact Option.some.inj (he₁.symm.trans hs) ▸ hvalid
  refine ⟨(always_of_step hstep valid_start).imp fun e h => ⟨h.pos_le, h.end_le⟩, ?_, ?_⟩
  · rintro ⟨e, hrun⟩ before input after rfl e₁ hbefore hfull
    have hvalid := run_preserves hstep valid_start hbefore
    rw [run_append, hbefore, Option.bind_some, run_cons, hvalid.step_full asyncRt hfull] at hrun
    cases hrun
  · intro hnever
    induction inputs using List.reverseRecOn with
    | nil => exact ⟨start, rfl⟩
    | append_singleton before input ih =>
      obtain ⟨e, hbefore⟩ := ih fun b i a heq => hnever b i (a ++ [input]) (by rw [heq]; simp)
      have hvalid := run_preserves hstep valid_start hbefore
      obtain ⟨e', he', -⟩ := hvalid.step asyncRt (hnever before input [] rfl e hbefore)
      refine ⟨e', ?_⟩
      rw [run_append, hbefore, Option.bind_some, run_cons, he']
      rfl

/-! ### A line of 128 characters -/

theorem run_replicate {n : ℕ} (hn : n ≤ inputMax) :
    ∃ e, run (step false) start (typed (List.replicate n 0x61)) = some e ∧
      e.Shows (List.replicate n 0x61) [] ∧ e.escState = .normal := by
  induction n with
  | zero => exact ⟨start, rfl, matches_start.shown, rfl⟩
  | succ n ih =>
    obtain ⟨e, hrun, hshows, hesc⟩ := ih (by omega)
    obtain ⟨e', he', hshows', -, hesc', -⟩ := hshows.onPrintable (by simp; omega) 0x61
    have hstep : ∀ input : Input, input.byte = 0x61 → e.step false input = some e' := by
      intro input hbyte
      rw [Editor.step, hesc, ← he']
      simp [Editor.onByte, hbyte]
    refine ⟨e', ?_, ?_, hesc'.trans hesc⟩
    · rw [typed] at hrun
      rw [List.replicate_succ', typed, List.map_append, run_append, hrun, Option.bind_some,
        List.map_singleton, run_cons, hstep _ rfl]
      rfl
    · rwa [List.replicate_succ']

/-- 128 characters and enter: the editor writes behind its buffer. -/
theorem full_line_overruns :
    run (step false) start (typed (List.replicate inputMax 0x61 ++ [0x0D])) = none := by
  obtain ⟨e, hrun, hshows, hesc⟩ := run_replicate le_rfl
  have hend : e.cursorEnd = inputMax := by
    rw [hshows.last, List.length_replicate]
    rfl
  rw [typed] at hrun
  rw [typed, List.map_append, run_append, hrun, Option.bind_some, List.map_singleton, run_cons,
    hshows.valid.step_full false ⟨hesc, .inl rfl, hend⟩]
  rfl

end Editor

end OpenIon.Shell
