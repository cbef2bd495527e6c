import Jack.Proofs.Generation
import Jack.Proofs.StackMachine

/-! # Evaluating a tree

A big-step semantics of subroutines, which knows neither a stack nor jumps. Operands are
evaluated from the left to the right and there is no precedence. A condition holds if its
value has all bits set. Calls are answered by the platform, and so are multiplication,
division and the strings that constants make.
-/

namespace Jack

section Evaluation

variable {W : Type}

/-- What an operator makes of two values. -/
def Platform.combine (p : Platform W) (op : BinaryOp) (v w : Word) (s : Store W) :
    Word × Store W :=
  match op with
  | .add => (v + w, s)
  | .subtract => (v - w, s)
  | .multiply => p.call "Math.multiply" [v, w] s
  | .divide => p.call "Math.divide" [v, w] s
  | .and => (v &&& w, s)
  | .or => (v ||| w, s)
  | .less => (.ofBool (v.slt w), s)
  | .greater => (.ofBool (w.slt v), s)
  | .equal => (.ofBool (v == w), s)

/-- Put a character at the end of a string. -/
def Platform.append (p : Platform W) (state : Word × Store W) (c : Char) : Word × Store W :=
  p.call "String.appendChar" [state.1, BitVec.ofNat 16 c.toNat] state.2

/-- Make a string of characters. -/
def Platform.spell (p : Platform W) (content : String) (s : Store W) : Word × Store W :=
  content.toList.foldl p.append (p.call "String.new" [BitVec.ofNat 16 content.length] s)

def UnaryOp.apply : UnaryOp → Word → Word
  | .negate, v => -v
  | .not, v => ~~~v

namespace Tree

def Constant.value (s : Store W) : Constant → Word
  | .trueWord => BitVec.allOnes 16
  | .falseWord | .nullWord => 0
  | .thisWord => s.this

/-- The value of a variable, if the name stands for one. -/
def Frame.read? (f : Frame) (name : String) (s : Store W) : Option Word :=
  (f.resolve? name).map fun entry => s.read entry.kind entry.index

mutual

/-- The value of a term and the store behind it, if all names stand for variables. -/
def Term.eval (p : Platform W) (f : Frame) (t : Term) (s : Store W) : Option (Word × Store W) :=
  match t with
  | .integer _ value => some (BitVec.ofNat 16 value, s)
  | .string content => some (p.spell content s)
  | .constant word => some (word.value s, s)
  | .var name => (f.read? name s).map fun v => (v, s)
  | .element base index =>
    (f.read? base s).bind fun address =>
      (index.eval p f s).map fun (i, s) => (s.memory.heap (address + i), s)
  | .call call => call.eval p f s
  | .group inner => inner.eval p f s
  | .unary op operand => (operand.eval p f s).map fun (v, s) => (op.apply v, s)

def Expression.eval (p : Platform W) (f : Frame) (e : Expression) (s : Store W) :
    Option (Word × Store W) :=
  match e with
  | .of first rest => (first.eval p f s).bind fun (v, s) => rest.eval p f v s

/-- The value of operators and operands behind a value. -/
def Operations.eval (p : Platform W) (f : Frame) (rest : Operations) (v : Word) (s : Store W) :
    Option (Word × Store W) :=
  match rest with
  | .nil => some (v, s)
  | .cons op operand rest =>
    (operand.eval p f s).bind fun (w, s) =>
      rest.eval p f (p.combine op v w s).1 (p.combine op v w s).2

def Call.eval (p : Platform W) (f : Frame) (call : Call) (s : Store W) :
    Option (Word × Store W) :=
  match call with
  | .own name arguments =>
    (arguments.eval p f s).map fun (vs, s') =>
      p.call (f.className ++ "." ++ name) (s.this :: vs) s'
  | .qualified qualifier name arguments =>
    match f.resolve? qualifier with
    | some receiver =>
      (arguments.eval p f s).map fun (vs, s') =>
        p.call (receiver.type ++ "." ++ name) (s.read receiver.kind receiver.index :: vs) s'
    | none =>
      (arguments.eval p f s).map fun (vs, s') => p.call (qualifier ++ "." ++ name) vs s'

def Arguments.eval (p : Platform W) (f : Frame) (arguments : Arguments) (s : Store W) :
    Option (List Word × Store W) :=
  match arguments with
  | .nil => some ([], s)
  | .cons first rest =>
    (first.eval p f s).bind fun (v, s) => (rest.eval p f s).map fun (vs, s) => (v :: vs, s)

end

/-- How statements end. -/
inductive Outcome where
  /-- What stands behind them comes next. -/
  | next
  | returned (v : Word)
  deriving Repr, DecidableEq

/-- The value of a condition that holds. -/
def truth : Word :=
  BitVec.allOnes 16

mutual

/-- Whether a statement takes one store to another and ends in an outcome. -/
inductive Statement.Runs (p : Platform W) (f : Frame) :
    Statement → Store W → Outcome → Store W → Prop where
  | assign {target : String} {value : Expression} {entry : SymbolEntry} {s s' : Store W}
      {v : Word} (found : f.resolve? target = some entry) (h : value.eval p f s = some (v, s')) :
      Statement.Runs p f (.assign target value) s .next (s'.write v entry.kind entry.index)
  | store {base : String} {index value : Expression} {s s' s'' : Store W} {address i v : Word}
      (found : f.read? base s = some address) (h : index.eval p f s = some (i, s'))
      (h' : value.eval p f s' = some (v, s'')) :
      Statement.Runs p f (.store base index value) s .next (s''.setHeap (address + i) v)
  | branch_holds {condition : Expression} {body : Statements} {o : Outcome} {s s' s'' : Store W}
      (holds : condition.eval p f s = some (truth, s')) (h : Statements.Runs p f body s' o s'') :
      Statement.Runs p f (.branch condition body) s o s''
  | branch_fails {condition : Expression} {body : Statements} {s s' : Store W} {v : Word}
      (value : condition.eval p f s = some (v, s')) (fails : v ≠ truth) :
      Statement.Runs p f (.branch condition body) s .next s'
  | branchElse_holds {condition : Expression} {body other : Statements} {o : Outcome}
      {s s' s'' : Store W} (holds : condition.eval p f s = some (truth, s'))
      (h : Statements.Runs p f body s' o s'') :
      Statement.Runs p f (.branchElse condition body other) s o s''
  | branchElse_fails {condition : Expression} {body other : Statements} {o : Outcome}
      {s s' s'' : Store W} {v : Word} (value : condition.eval p f s = some (v, s'))
      (fails : v ≠ truth) (h : Statements.Runs p f other s' o s'') :
      Statement.Runs p f (.branchElse condition body other) s o s''
  | loop_again {condition : Expression} {body : Statements} {o : Outcome}
      {s s' s'' last : Store W} (holds : condition.eval p f s = some (truth, s'))
      (h : Statements.Runs p f body s' .next s'')
      (h' : Statement.Runs p f (.loop condition body) s'' o last) :
      Statement.Runs p f (.loop condition body) s o last
  | loop_returns {condition : Expression} {body : Statements} {s s' s'' : Store W} {v : Word}
      (holds : condition.eval p f s = some (truth, s'))
      (h : Statements.Runs p f body s' (.returned v) s'') :
      Statement.Runs p f (.loop condition body) s (.returned v) s''
  | loop_ends {condition : Expression} {body : Statements} {s s' : Store W} {v : Word}
      (value : condition.eval p f s = some (v, s')) (fails : v ≠ truth) :
      Statement.Runs p f (.loop condition body) s .next s'
  | perform {call : Call} {s s' : Store W} {v : Word} (h : call.eval p f s = some (v, s')) :
      Statement.Runs p f (.perform call) s .next s'
  | ret_nothing {s : Store W} : Statement.Runs p f (.ret none) s (.returned 0) s
  | ret {value : Expression} {s s' : Store W} {v : Word} (h : value.eval p f s = some (v, s')) :
      Statement.Runs p f (.ret (some value)) s (.returned v) s'

inductive Statements.Runs (p : Platform W) (f : Frame) :
    Statements → Store W → Outcome → Store W → Prop where
  | nil {s : Store W} : Statements.Runs p f .nil s .next s
  | next {first : Statement} {rest : Statements} {o : Outcome} {s s' s'' : Store W}
      (h : Statement.Runs p f first s .next s') (h' : Statements.Runs p f rest s' o s'') :
      Statements.Runs p f (.cons first rest) s o s''
  | returns {first : Statement} {rest : Statements} {s s' : Store W} {v : Word}
      (h : Statement.Runs p f first s (.returned v) s') :
      Statements.Runs p f (.cons first rest) s (.returned v) s'

end

/-- The store in front of the statements of a subroutine. A constructor makes the current object,
and a method is called on its first argument. -/
def Subroutine.start (p : Platform W) (c : Class) (sub : Subroutine) (s : Store W) : Store W :=
  let s := { s with locals := p.enter sub.localCount s.locals }
  match sub.kind with
  | .constructor =>
    let (object, s) := p.call "Memory.alloc" [BitVec.ofNat 16 c.fieldCount] s
    { s with this := object }
  | .function => s
  | .method => { s with this := s.arguments 0 }

/-- Whether a subroutine returns a value from a store and leaves another one. -/
def Subroutine.Returns (p : Platform W) (c : Class) (sub : Subroutine) (s : Store W) (v : Word)
    (s' : Store W) : Prop :=
  sub.body.Runs p (sub.frame c) (sub.start p c s) (.returned v) s'

end Tree

end Evaluation

end Jack
