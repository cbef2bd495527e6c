import Jack.Machine.Instruction

/-! # Writing instructions by name

Instructions can also be written one call at a time, with segments and commands
named by literals and operands of any sign. A call that names no instruction is
refused and writes nothing. Numbers are written whatever their size; a host may refuse to
write one of more than `maxDigits` digits, as it refuses to read one, and that is left out.
-/

namespace Jack.Writer

/-- What can be written. -/
inductive Call where
  | push (segment : Literal) (index : Int)
  | pop (segment : Literal) (index : Int)
  | arithmetic (command : Literal)
  | label (name : String)
  | goto (name : String)
  | ifGoto (name : String)
  | call (callee : String) (count : Int)
  | function (name : String) (count : Int)
  | ret
  deriving Repr

/-- An operand of an instruction. -/
def operand (value : Int) : Except Failure Nat :=
  if value < 0 then .error (.negativeOperand value) else .ok value.toNat

/-- The instruction that a call writes. The segment is looked at before the operand. -/
def instruction : Call → Except Failure (Instruction String)
  | .push segment index => do return .push (← Segment.ofLiteral segment) (← operand index)
  | .pop segment index => do
    let segment ← Segment.ofLiteral segment
    if segment = .constant then throw .popConstant
    return .pop segment (← operand index)
  | .arithmetic command => do return .arithmetic (← Command.ofLiteral command)
  | .label name => .ok (.label name)
  | .goto name => .ok (.goto name)
  | .ifGoto name => .ok (.ifGoto name)
  | .call callee count => do return .call callee (← operand count)
  | .function name count => do return .function name (← operand count)
  | .ret => .ok .ret

/-- Carry out a call, with the instructions written before it, the last one first. -/
def perform (call : Call) (written : List (Instruction String)) :
    Except Failure Unit × List (Instruction String) :=
  match instruction call with
  | .ok i => (.ok (), i :: written)
  | .error failure => (.error failure, written)

/-- The text that has been written. -/
def text (written : List (Instruction String)) : String :=
  Instruction.program written.reverse

end Jack.Writer
