import OpenIon.Fs.Ramfs
import OpenIon.Lib.Buffer
import OpenIon.Lib.Run
import OpenIon.Lib.Utf8
import OpenIon.Shell.Path

/-! # The line editor of the shell

`shell_main` of `shell.rs` as a function of the next byte, with the completion of commands and file
names. Every access to `input_buf` and to the remembered command is checked, and the editor fails
when one of them is out of range. What is printed is left out, but the buffer is read for it.
-/
namespace OpenIon.Shell
open Lib Fs

def inputMax : ℕ := 128

inductive EscState where
  | normal
  | sawEsc
  | sawBracket
  | saw3
  deriving DecidableEq

structure ShellState where
  cwd : List UInt8
  lastCmd : List UInt8
  lastCmdLen : ℕ

def ShellState.new : ShellState := ⟨[slash], List.replicate inputMax 0, 0⟩

def ShellState.rememberCmd (state : ShellState) (cmd : List UInt8) : Option ShellState := do
  let len := min cmd.length state.lastCmd.length
  let lastCmd ← Buffer.putAll state.lastCmd 0 (cmd.take len)
  some { state with lastCmd := lastCmd, lastCmdLen := len }

/-- An entry that a listing reports, with the text of its name. -/
structure ListedEntry where
  name : List UInt8
  isDir : Bool
  name_le : name.length ≤ nameMax

/-- A byte that is read, with what the world around the editor does at this time: the working
directory after a command, and what the directories contain. -/
structure Input where
  byte : UInt8
  execute : List UInt8 → List UInt8 → List UInt8
  entries : List UInt8 → List ListedEntry

/-- The variables of `shell_main`, and the commands that were executed. -/
structure Editor where
  state : ShellState
  inputBuf : List UInt8
  cursorPos : ℕ
  cursorEnd : ℕ
  escState : EscState
  executed : List (List UInt8)

def Editor.start : Editor := ⟨.new, List.replicate inputMax 0, 0, 0, .normal, []⟩

namespace Editor

/-- `redraw_input` reads the whole line, and once more up to the cursor. -/
def redrawInput (e : Editor) : Option Editor := do
  let _ ← Buffer.readAll e.inputBuf e.cursorEnd
  if e.cursorPos < e.cursorEnd then
    let _ ← Buffer.readAll e.inputBuf e.cursorPos
    some e
  else some e

/-! ### Completion -/

/-- The commands that are completed; `async` is there with its feature only. -/
def commands (asyncRt : Bool) : List (List UInt8) :=
  (["help", "version", "ver", "clear", "uptime", "ls", "cd", "cat", "mkdir", "touch", "echo", "vm",
    "mount", "mem", "top", "cpuinfo", "smp", "tasks", "ps", "drivers", "term", "gpio", "irq"] ++
    if asyncRt then ["async"] else []).map ascii

def completeCommand (asyncRt : Bool) (e : Editor) : Option Editor := do
  let input := Utf8.textOrEmpty (← Buffer.slice e.inputBuf 0 e.cursorEnd)
  match (commands asyncRt).filter (input.isPrefixOf ·) with
  | [] => some e
  | [cmd] =>
    let len := min cmd.length 127
    -- `copy_from_slice` takes slices of one length only
    if len = cmd.length then
      let inputBuf ← Buffer.putAll e.inputBuf 0 cmd
      some { e with inputBuf := inputBuf, cursorPos := len, cursorEnd := len }
    else none
  | _ =>
    let _ ← Buffer.readAll e.inputBuf e.cursorEnd
    some e

/-- The directory, the beginning of the name, and where the name begins. -/
def splitCompletionPath (path : List UInt8) : List UInt8 × List UInt8 × ℕ :=
  match splitLast path with
  | some (before, name) => (if before = [] then [slash] else before, name, before.length + 1)
  | none => ([], path, 0)

/-- The only entry that matches is written over the name. -/
def insertName (e : Editor) (replacePos : ℕ) (entry : ListedEntry) : Option Editor := do
  let foundLen := min entry.name.length 63
  -- `copy_from_slice` again, and the subtraction of `available`
  if foundLen = entry.name.length ∧ replacePos ≤ 128 then
    let totalLen := foundLen + if entry.isDir then 1 else 0
    let copyLen := min totalLen (128 - replacePos)
    if 0 < copyLen then
      let inputBuf ← Buffer.putAll e.inputBuf replacePos (entry.name.take copyLen)
      let inputBuf ←
        if entry.isDir ∧ foundLen < copyLen then Buffer.put inputBuf (replacePos + foundLen) slash
        else some inputBuf
      some { e with inputBuf := inputBuf, cursorPos := replacePos + copyLen,
                    cursorEnd := replacePos + copyLen }
    else some e
  else none

def completeFilename (entries : List UInt8 → List ListedEntry) (e : Editor)
    (prefixStart prefixLen : ℕ) : Option Editor := do
  let searchPrefix :=
    Utf8.textOrEmpty (← Buffer.slice e.inputBuf prefixStart (prefixStart + prefixLen))
  let (dirPart, namePrefix, replaceStart) := splitCompletionPath searchPrefix
  match normalizePath e.state.cwd dirPart with
  | none => some e
  | some dir =>
    match (entries dir).filter (fun entry => namePrefix.isPrefixOf entry.name) with
    | [] => some e
    | [entry] => e.insertName (prefixStart + replaceStart) entry
    | _ =>
      let _ ← Buffer.readAll e.inputBuf e.cursorEnd
      some e

def argStart (buf : List UInt8) (cursorPos : ℕ) : Option (Option ℕ) :=
  (List.range cursorPos).foldlM (fun start i => do
    let b ← buf[i]?
    some (if b = 0x20 then some (i + 1) else start)) none

def handleTabCompletion (asyncRt : Bool) (entries : List UInt8 → List ListedEntry) (e : Editor) :
    Option Editor := do
  if e.cursorEnd = 0 then some e
  else
    match ← argStart e.inputBuf e.cursorPos with
    | some start =>
      if start ≤ e.cursorPos then
        let e ← e.completeFilename entries start (e.cursorPos - start)
        e.redrawInput
      else e.redrawInput
    | none =>
      let e ← e.completeCommand asyncRt
      e.redrawInput

/-! ### The bytes -/

def onBracket (e : Editor) (c : UInt8) : Option Editor :=
  if c = 0x41 then do -- up
    let lastLen := e.state.lastCmdLen
    if 0 < lastLen ∧ lastLen < e.inputBuf.length then
      let inputBuf ← Buffer.putAll e.inputBuf 0 (← Buffer.readAll e.state.lastCmd lastLen)
      redrawInput { e with inputBuf := inputBuf, cursorPos := lastLen, cursorEnd := lastLen }
    else some e
  else if c = 0x43 then -- right
    if e.cursorPos < e.cursorEnd then redrawInput { e with cursorPos := e.cursorPos + 1 }
    else some e
  else if c = 0x44 then -- left
    if 0 < e.cursorPos then redrawInput { e with cursorPos := e.cursorPos - 1 } else some e
  else if c = 0x48 then redrawInput { e with cursorPos := 0 } -- home
  else if c = 0x46 then redrawInput { e with cursorPos := e.cursorEnd } -- end
  else if c = 0x33 then some { e with escState := .saw3 }
  else some e

/-- The byte after `ESC [ 3`. The bytes behind the cursor move onto it. -/
def onSaw3 (e : Editor) (c : UInt8) : Option Editor :=
  if c = 0x7E ∧ e.cursorPos < e.cursorEnd then do
    let inputBuf ← Buffer.shiftDown e.inputBuf (e.cursorPos + 1) e.cursorEnd
    redrawInput { e with inputBuf := inputBuf, cursorEnd := e.cursorEnd - 1 }
  else some e

def onEnter (execute : List UInt8 → List UInt8 → List UInt8) (e : Editor) : Option Editor :=
  if 0 < e.cursorEnd then do
    let inputBuf ← Buffer.put e.inputBuf e.cursorEnd 0
    let cmd := Utf8.textOrEmpty (← Buffer.slice inputBuf 0 e.cursorEnd)
    let state ← e.state.rememberCmd cmd
    some { e with
      state := { state with cwd := execute state.cwd (Utf8.trim cmd) }
      inputBuf := inputBuf
      cursorPos := 0
      cursorEnd := 0
      executed := e.executed ++ [Utf8.trim cmd] }
  else some { e with cursorPos := 0, cursorEnd := 0 }

def onBackspace (e : Editor) : Option Editor :=
  if 0 < e.cursorPos then do
    let inputBuf ← Buffer.shiftDown e.inputBuf e.cursorPos e.cursorEnd
    redrawInput { e with
      inputBuf := inputBuf, cursorPos := e.cursorPos - 1, cursorEnd := e.cursorEnd - 1 }
  else some e

def onPrintable (e : Editor) (c : UInt8) : Option Editor :=
  if e.cursorEnd < e.inputBuf.length then do
    let inputBuf ← Buffer.shiftUp e.inputBuf e.cursorPos e.cursorEnd
    let inputBuf ← Buffer.put inputBuf e.cursorPos c
    redrawInput { e with
      inputBuf := inputBuf, cursorPos := e.cursorPos + 1, cursorEnd := e.cursorEnd + 1 }
  else some e

/-- A byte outside of an escape sequence. -/
def onByte (asyncRt : Bool) (e : Editor) (input : Input) : Option Editor :=
  let c := input.byte
  if c = 0x1B then some { e with escState := .sawEsc }
  else if c = 0x0D ∨ c = 0x0A then e.onEnter input.execute
  else if c = 8 ∨ c = 127 then e.onBackspace
  else if c = 9 then e.handleTabCompletion asyncRt input.entries
  else if 0x20 ≤ c ∧ c < 0x7F then e.onPrintable c
  else some e

/-- One turn of the loop of `shell_main`. -/
def step (asyncRt : Bool) (e : Editor) (input : Input) : Option Editor :=
  match e.escState with
  | .sawBracket => onBracket { e with escState := .normal } input.byte
  | .saw3 => onSaw3 { e with escState := .normal } input.byte
  | .sawEsc =>
    some { e with escState := if input.byte = 0x5B then .sawBracket else .normal }
  | .normal => e.onByte asyncRt input

end Editor

end OpenIon.Shell
