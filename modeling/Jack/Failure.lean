import Jack.Literal
import Jack.Problem

/-! # Failures

Why an operation has no result. A diagnosed failure blames the source; every other
one blames what the operation was asked to do.
-/

namespace Jack

/-- A failure before it is known which source it belongs to. -/
inductive Fault where
  /-- Something is wrong with the source at a position. -/
  | problem (problem : Problem) (position : Position)
  /-- A numeral was asked for where no digit stands. -/
  | emptyNumeral
  /-- A numeral has more digits than are ever converted. -/
  | numeralTooLong
  /-- A subroutine body was asked for before any subroutine began. -/
  | noSubroutine
  /-- A declaration was refused with no token to blame. -/
  | noToken
  deriving Repr, DecidableEq

/-- Why an operation has no result. -/
inductive Failure where
  /-- Something is wrong with a source. -/
  | diagnosed (diagnostic : Diagnostic)
  /-- A numeral was asked for where no digit stands. -/
  | emptyNumeral
  /-- A numeral has more digits than are ever converted. -/
  | numeralTooLong
  /-- A subroutine body was asked for before any subroutine began. -/
  | noSubroutine
  /-- A declaration was refused with no token to blame. -/
  | noToken
  /-- A source cannot be read by so many characters at a time. -/
  | chunkSize (size : Int)
  /-- The literal names no kind of variable. -/
  | notVariableKind (literal : Literal)
  /-- The literal names no segment. -/
  | notSegment (literal : Literal)
  /-- The literal names no command. -/
  | notCommand (literal : Literal)
  /-- The literal names no kind of token. -/
  | notTokenKind (literal : Literal)
  /-- Constants cannot be popped into. -/
  | popConstant
  /-- An operand of an instruction is below zero. -/
  | negativeOperand (value : Int)
  /-- A label has no text to start with. -/
  | emptyStem
  /-- There is neither a path to save at nor a file name to derive one from. -/
  | noOutputPath
  /-- A path without a last component cannot take a suffix. -/
  | emptyName (path : String)
  /-- Nothing is at the path. -/
  | fileNotFound
  /-- A directory is at the path. -/
  | isDirectory
  /-- A file is where the path needs a directory. -/
  | notDirectory
  /-- The bytes of the file are no text. -/
  | notText
  /-- A read from a stream fails. -/
  | unreadable (message : String)
  /-- There is no compiled class to work on. -/
  | noClass
  deriving Repr, DecidableEq

namespace Failure

/-- A fault in the source of the given name. -/
def ofFault (filename : Option String) : Fault → Failure
  | .problem problem position => .diagnosed (.atPosition problem position filename)
  | .emptyNumeral => .emptyNumeral
  | .numeralTooLong => .numeralTooLong
  | .noSubroutine => .noSubroutine
  | .noToken => .noToken

/-- The wording of a failure, for those that have one. -/
def message? : Failure → Option String
  | .diagnosed d => some d.text
  | .emptyNumeral => some "invalid literal for int() with base 10: ''"
  | .chunkSize size => some ("chunk_size must be positive, got " ++ toString size)
  | .notVariableKind literal => some ("Illegal variable kind: " ++ literal.shown)
  | .notSegment literal => some (literal.shown ++ " is not a valid Segment")
  | .notCommand literal => some (literal.shown ++ " is not a valid Command")
  | .notTokenKind literal => some (literal.shown ++ " is not a valid TokenType")
  | .popConstant => some "Cannot pop into the constant segment"
  | .negativeOperand value =>
    some ("VM operand must be non-negative, got " ++ toString value)
  | .emptyStem => some "prefix must be a non-empty string"
  | .noOutputPath => some "No output path given and the class has no filename"
  | .emptyName path => some ("PosixPath(" ++ quoted path ++ ") has an empty name")
  | .unreadable message => some message
  | .numeralTooLong | .noSubroutine | .noToken | .fileNotFound | .isDirectory
  | .notDirectory | .notText | .noClass => none

end Failure

end Jack
