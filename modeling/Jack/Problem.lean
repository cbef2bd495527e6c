import Jack.Position
import Jack.Text.Quoted

/-! # Problems

What can be wrong with a source. A problem is a cause; its wording is one function
on the causes. A diagnostic is a problem together with the place it is reported at.
-/

namespace Jack

/-- The largest integer constant, which is also the largest character of a string constant. -/
def maxConstant : Nat := 32767

/-- The stage of compilation that a problem belongs to. -/
inductive ProblemClass where
  /-- No stage in particular. -/
  | general
  /-- The text does not split into tokens. -/
  | lexical
  /-- The tokens do not form a class. -/
  | grammatical
  /-- The names of the class do not fit together. -/
  | semantic
  deriving Repr, DecidableEq

/-- What is wrong with a source. -/
inductive Problem where
  /-- A character that starts no token. -/
  | unexpectedCharacter (c : Char)
  /-- A block comment that the source ends in. -/
  | unterminatedComment
  /-- A string constant that its line, or the source, ends in. -/
  | unterminatedString
  /-- An integer constant above the largest one. -/
  | integerOutOfRange (digits : String)
  /-- A character of a string constant above the largest one. -/
  | characterOutOfRange (c : Char)
  /-- A token was asked for and the source has none left. -/
  | unexpectedEnd
  /-- A token other than the ones that can stand here. -/
  | expected (what actual : String)
  /-- A variable that no scope declares. -/
  | undefinedVariable (name : String)
  /-- A variable that its scope declares already. -/
  | redefinedVariable (name : String)
  /-- A problem stated in other words. -/
  | stated (stage : ProblemClass) (message : String)
  deriving Repr, DecidableEq

namespace Problem

/-- The stage that finds a problem. -/
def stage : Problem → ProblemClass
  | .unexpectedCharacter _ | .unterminatedComment | .unterminatedString
  | .integerOutOfRange _ | .characterOutOfRange _ | .unexpectedEnd => .lexical
  | .expected .. => .grammatical
  | .undefinedVariable _ | .redefinedVariable _ => .semantic
  | .stated stage _ => stage

/-- The range of constants, as messages give it. -/
def rangeText : String :=
  "(0.." ++ toString maxConstant ++ ")"

/-- The code of a character in upper-case hexadecimal, with at least four digits. -/
def codeText (c : Char) : String :=
  let digits := (Nat.toDigits 16 c.toNat).map Char.toUpper
  String.ofList ('U' :: '+' :: List.replicate (4 - digits.length) '0' ++ digits)

/-- The wording of a problem. -/
def message : Problem → String
  | .unexpectedCharacter c => "Unexpected character: " ++ quoted c.toString
  | .unterminatedComment => "Unterminated block comment"
  | .unterminatedString => "Unterminated string"
  | .integerOutOfRange digits => "Integer constant " ++ digits ++ " out of range " ++ rangeText
  | .characterOutOfRange c =>
    "Character " ++ codeText c ++ " in string constant out of range " ++ rangeText
  | .unexpectedEnd => "Unexpected end of input"
  | .expected what actual => "Expected " ++ what ++ ", got " ++ actual
  | .undefinedVariable name => "Undefined variable '" ++ name ++ "'"
  | .redefinedVariable name => "Variable '" ++ name ++ "' is already defined in this scope"
  | .stated _ message => message

end Problem

/-- A problem and where it is. A part of the place may be unknown. -/
structure Diagnostic where
  problem : Problem
  line : Option Int
  column : Option Int
  filename : Option String
  deriving Repr, DecidableEq

namespace Diagnostic

/-- A problem at a position of a source. -/
def atPosition (problem : Problem) (position : Position) (filename : Option String) : Diagnostic :=
  ⟨problem, some position.line, some position.column, filename⟩

/-- The parts of a place, in the order they are written. A source without a name has its line
introduced by a word, and a column counts only beside a line. -/
def placeParts (d : Diagnostic) : List String :=
  let name := d.filename.toList.filter fun name => !name.isEmpty
  match d.line with
  | none => name
  | some line =>
    let lineText := if name.isEmpty then "line " ++ toString line else toString line
    name ++ lineText :: (d.column.map toString).toList

/-- The full text of a diagnostic: its place, if any part is known, and its wording. -/
def text (d : Diagnostic) : String :=
  let parts := d.placeParts
  if parts.isEmpty then d.problem.message
  else ":".intercalate parts ++ ": " ++ d.problem.message

end Diagnostic

end Jack
