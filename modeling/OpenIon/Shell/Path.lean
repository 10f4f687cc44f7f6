import OpenIon.Fs.Path

/-! # Paths in the shell

`normalize_path` of `shell.rs`: relative paths start at the working directory, empty
components and `.` are dropped, `..` goes up. A path has at most 256 bytes.
-/
namespace OpenIon.Shell
open Lib Fs

def pathMax : ℕ := 256

/-- The loop of `pop_component` on the reversed path: the first byte always stays. -/
def chop : List UInt8 → List UInt8
  | x :: y :: rest => if x ≠ slash then chop (y :: rest) else x :: y :: rest
  | path => path

def popComponent (buf : List UInt8) : List UInt8 :=
  match chop buf.reverse with
  | _ :: y :: rest => (y :: rest).reverse
  | path => path.reverse

def pushComponent (buf component : List UInt8) : Option (List UInt8) :=
  if component = [] ∨ component = ascii "." then some buf
  else if component = ascii ".." then some (popComponent buf)
  else
    let sep := if 1 < buf.length then [slash] else []
    if pathMax < buf.length + sep.length + component.length then none
    else some (buf ++ sep ++ component)

def normalizePath (cwd path : List UInt8) : Option (List UInt8) := do
  let input := if path = [] then cwd else path
  let out ← if input.head? = some slash then some [slash]
    else (cwd.splitOn slash).foldlM pushComponent [slash]
  (input.splitOn slash).foldlM pushComponent out

end OpenIon.Shell
