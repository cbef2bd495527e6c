import Jack.Failure
import Jack.SymbolTable

/-! # Instructions

The instructions of the stack machine that classes are compiled to, and their
text. The type of labels is a parameter: the compiler jumps between labels that it
can tell apart by construction, and only the written form turns them into texts.
-/

namespace Jack

/-- A memory segment. -/
inductive Segment where
  | constant | argument | localVar | static | this | that | pointer | temp
  deriving Repr, DecidableEq

namespace Segment

/-- Every segment. -/
def all : List Segment :=
  [constant, argument, localVar, static, this, that, pointer, temp]

/-- The name of a segment. -/
def text : Segment → String
  | constant => "constant"
  | argument => "argument"
  | localVar => "local"
  | static => "static"
  | this => "this"
  | that => "that"
  | pointer => "pointer"
  | temp => "temp"

/-- The segment that a literal names. -/
def ofLiteral (literal : Literal) : Except Failure Segment :=
  match literal.member? all text with
  | some segment => .ok segment
  | none => .error (.notSegment literal)

end Segment

/-- The segment that variables of a kind live in. -/
def VariableKind.segment : VariableKind → Segment
  | .static => .static
  | .field => .this
  | .argument => .argument
  | .localVar => .localVar

/-- An arithmetic or logical command. -/
inductive Command where
  | add | sub | neg | eq | gt | lt | and | or | not
  deriving Repr, DecidableEq

namespace Command

/-- Every command. -/
def all : List Command :=
  [add, sub, neg, eq, gt, lt, and, or, not]

/-- The name of a command. -/
def text : Command → String
  | add => "add"
  | sub => "sub"
  | neg => "neg"
  | eq => "eq"
  | gt => "gt"
  | lt => "lt"
  | and => "and"
  | or => "or"
  | not => "not"

/-- The command that a literal names. -/
def ofLiteral (literal : Literal) : Except Failure Command :=
  match literal.member? all text with
  | some command => .ok command
  | none => .error (.notCommand literal)

end Command

/-- An instruction of the stack machine, with labels of type `L`. -/
inductive Instruction (L : Type) where
  /-- Put the word at an index of a segment on the stack. -/
  | push (segment : Segment) (index : Nat)
  /-- Move the top of the stack to an index of a segment. -/
  | pop (segment : Segment) (index : Nat)
  /-- Combine the top words of the stack. -/
  | arithmetic (command : Command)
  /-- A place to jump to. -/
  | label (name : L)
  /-- Go on at a label. -/
  | goto (name : L)
  /-- Go on at a label if the top of the stack is not zero. -/
  | ifGoto (name : L)
  /-- Call a function with the top `count` words as its arguments. -/
  | call (callee : String) (count : Nat)
  /-- The start of a function with `count` local variables. -/
  | function (name : String) (count : Nat)
  /-- Hand the top of the stack to the caller. -/
  | ret
  deriving Repr, DecidableEq

namespace Instruction

/-- Rename the labels of an instruction. -/
def mapLabel {L M : Type} (f : L → M) : Instruction L → Instruction M
  | .push segment index => .push segment index
  | .pop segment index => .pop segment index
  | .arithmetic command => .arithmetic command
  | .label name => .label (f name)
  | .goto name => .goto (f name)
  | .ifGoto name => .ifGoto (f name)
  | .call callee count => .call callee count
  | .function name count => .function name count
  | .ret => .ret

/-- The words of an instruction, separated by spaces. -/
def text : Instruction String → String
  | .push segment index => "push " ++ segment.text ++ " " ++ toString index
  | .pop segment index => "pop " ++ segment.text ++ " " ++ toString index
  | .arithmetic command => command.text
  | .label name => "label " ++ name
  | .goto name => "goto " ++ name
  | .ifGoto name => "if-goto " ++ name
  | .call callee count => "call " ++ callee ++ " " ++ toString count
  | .function name count => "function " ++ name ++ " " ++ toString count
  | .ret => "return"

/-- The text of a program: one instruction a line. -/
def program (code : List (Instruction String)) : String :=
  String.join (code.map fun instruction => instruction.text ++ "\n")

end Instruction

end Jack
