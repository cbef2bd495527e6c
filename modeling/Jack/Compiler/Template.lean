import Jack.Compiler.Scope
import Jack.Token.Basic

/-! # Code templates

The instructions that each construct of the language is compiled to, apart from the
code of its parts.

* An operator comes after the code of its operands. Multiplication and division are
  calls.
* `a[i]` is the word at the sum of the two values, reached through `that`.
* A string constant is a new string that its characters are appended to one by one.
* A branch or a loop jumps on the negation of its condition, which is zero for the word of
  all ones only.
-/

namespace Jack.Template

/-- Put a variable on the stack. -/
def pushVariable (entry : SymbolEntry) : Code :=
  .push entry.kind.segment entry.index

/-- Take a variable from the stack. -/
def popVariable (entry : SymbolEntry) : Code :=
  .pop entry.kind.segment entry.index

/-- Combine two values. -/
def binary : BinaryOp → Code
  | .add => .arithmetic .add
  | .subtract => .arithmetic .sub
  | .multiply => .call "Math.multiply" 2
  | .divide => .call "Math.divide" 2
  | .and => .arithmetic .and
  | .or => .arithmetic .or
  | .less => .arithmetic .lt
  | .greater => .arithmetic .gt
  | .equal => .arithmetic .eq

/-- Change one value. -/
def unary : UnaryOp → Code
  | .negate => .arithmetic .neg
  | .not => .arithmetic .not

/-- The value of a constant word. Truth is the word of all ones, which is one negated. -/
def constant (word : String) : List Code :=
  if word == Keyword.trueWord.text then [.push .constant 1, .arithmetic .neg]
  else if word == Keyword.thisWord.text then [.push .pointer 0]
  else [.push .constant 0]

/-- A new string with the given characters. -/
def string (content : String) : List Code :=
  .push .constant content.length :: .call "String.new" 1 ::
    content.toList.flatMap fun c => [.push .constant c.toNat, .call "String.appendChar" 2]

/-- Read the array element whose address parts are on the stack. -/
def readElement : List Code :=
  [.arithmetic .add, .pop .pointer 1, .push .that 0]

/-- Write the top of the stack to the array element whose address is below it. The address stays
on the stack until the value is known, since finding the value may move `that`. -/
def writeElement : List Code :=
  [.pop .temp 0, .pop .pointer 1, .push .temp 0, .pop .that 0]

/-- The header of a subroutine, with the number of its local variables. -/
def header (s : Scope) : Code :=
  .function s.qualifiedName (s.subroutineTable.count .localVar)

/-- What a subroutine does before its statements: a constructor makes an object with a word for
each field, and a method makes its first argument the current object. -/
def prologue (s : Scope) : SubroutineKind → List Code
  | .constructor =>
    [.push .constant (s.classTable.count .field), .call "Memory.alloc" 1, .pop .pointer 0]
  | .function => []
  | .method => [.push .argument 0, .pop .pointer 0]

end Jack.Template
