import Jack.Failure

/-! # Paths

A path is cut at its slashes; empty components and components that are a single dot
say nothing and are left out. The last component of a path is its name. A name has
a suffix from its last dot on, unless that dot is its first or its last character;
the rest of the name is its stem.
-/

namespace Jack

/-- A component of a path. -/
abbrev Component := List Char

/-- A path without the components that say nothing. -/
structure Path where
  /-- The slashes that the path starts with. -/
  root : List Char
  parts : List Component
  deriving Repr, DecidableEq

namespace Path

/-- The texts between the slashes of a text. -/
def cut : List Char → List Component
  | [] => [[]]
  | c :: rest =>
    if c == '/' then [] :: cut rest
    else
      match cut rest with
      | [] => [[c]]
      | part :: parts => (c :: part) :: parts

/-- Whether a component leads nowhere else. -/
def isStay (part : Component) : Bool :=
  part == [] || part == ['.']

/-- The slashes that a path is taken to start with. Exactly two have a meaning of their own. -/
def rootOf (text : List Char) : List Char :=
  match (text.takeWhile (· == '/')).length with
  | 0 => []
  | 2 => ['/', '/']
  | _ => ['/']

/-- The path that a text names. -/
def ofText (text : String) : Path :=
  ⟨rootOf text.toList, (cut text.toList).filter fun part => !isStay part⟩

/-- Components with slashes between them. -/
def join (parts : List Component) : List Char :=
  List.intercalate ['/'] parts

/-- The text of a path. The path without components is a single dot. -/
def text (p : Path) : String :=
  let text := p.root ++ join p.parts
  String.ofList (if text.isEmpty then ['.'] else text)

/-- The last component, if there is one. -/
def name? (p : Path) : Option Component :=
  p.parts.getLast?

/-- A name without its suffix. -/
def stemOf (name : Component) : Component :=
  let (after, before) := name.reverse.span (· != '.')
  match before with
  | '.' :: front => if after.isEmpty || front.isEmpty then name else front.reverse
  | _ => name

/-- The name of a path without its suffix. -/
def stem (p : Path) : String :=
  String.ofList (stemOf (p.name?.getD []))

/-- Replace the suffix of the name, or add one. A path without a name has none. -/
def withSuffix (p : Path) (suffix : String) : Except Failure Path :=
  match p.name? with
  | some name => .ok { p with parts := p.parts.dropLast ++ [stemOf name ++ suffix.toList] }
  | none => .error (.emptyName p.text)

end Path

end Jack
