import Jack.Files.Basic

/-! # Compiled classes

The text that a class was compiled to, with what it was compiled from. A compiled
class can be saved as a file and loaded again; only its code is saved.
-/

namespace Jack

/-- A compiled class. -/
structure CompiledClass where
  /-- The source text, which is empty for a class that was loaded. -/
  source : String
  className : String
  /-- The instructions, each on a line of its own. -/
  code : String
  filename : Option String
  deriving Repr, DecidableEq

namespace CompiledClass

/-- The suffix of saved classes. -/
def suffix : String := ".vm"

/-- The lines of the code. -/
def lines (c : CompiledClass) : List String :=
  Jack.lines c.code

/-- The number of instructions. -/
def size (c : CompiledClass) : Nat :=
  c.lines.length

/-- Where a class is saved: at a given path, or beside its source file. -/
def target (c : CompiledClass) (path : Option String) : Except Failure Path :=
  match path, c.filename with
  | some path, _ => .ok (.ofText path)
  | none, some filename => (Path.ofText filename).withSuffix suffix
  | none, none => .error .noOutputPath

/-- Save a class; returns the path it was saved at and the files after that. -/
def save (c : CompiledClass) (path : Option String) (fs : Files) :
    Except Failure (Path × Files) := do
  let target ← c.target path
  return (target, ← fs.write target.text c.code)

/-- The class that was saved at a path. -/
def load (path : String) (fs : Files) : Except Failure CompiledClass := do
  let path := Path.ofText path
  let code ← fs.readUnified path.text
  return { source := "", className := path.stem, code, filename := some path.text }

end CompiledClass

end Jack
