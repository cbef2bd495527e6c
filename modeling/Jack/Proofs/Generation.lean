import Jack.Machine.Label
import Jack.Proofs.Trees
import Jack.SymbolTable

/-! # Code of a tree

A code generator over syntax trees. The code of each construct is built from the code of
its parts and from nothing that was read before it, except the numbers of branches and
loops: these count the constructs of their kind that start earlier in the class.
-/

namespace Jack

namespace SymbolTable

/-- Declare names in order. -/
def defineAll (t : SymbolTable) (names : List String) (type : String) (kind : VariableKind) :
    SymbolTable :=
  names.foldl (fun t name => t.define name type kind) t

theorem lookup?_defineAll (t : SymbolTable) (names : List String) (type name : String)
    (kind : VariableKind) :
    ((t.defineAll names type kind).lookup? name).isSome ↔
      name ∈ names ∨ (t.lookup? name).isSome := by
  unfold defineAll
  induction names generalizing t with
  | nil => simp
  | cons first names ih =>
      rw [List.foldl_cons, ih, lookup?_define]
      by_cases same : first = name
      · simp [same]
      · simp [same, Ne.symm same]

theorem count_defineAll (t : SymbolTable) (names : List String) (type : String)
    (kind other : VariableKind) :
    (t.defineAll names type kind).count other =
      t.count other + if kind = other then names.length else 0 := by
  unfold defineAll
  induction names generalizing t with
  | nil => simp
  | cons first names ih =>
      rw [List.foldl_cons, ih, count_define]
      split
      · rw [List.length_cons]
        omega
      · omega

section Foldl

variable {α : Type} {declare : SymbolTable → α → SymbolTable}

theorem lookup?_foldl {names : α → List String}
    (h : ∀ t a name, ((declare t a).lookup? name).isSome ↔
      name ∈ names a ∨ (t.lookup? name).isSome)
    (items : List α) (t : SymbolTable) (name : String) :
    ((items.foldl declare t).lookup? name).isSome ↔
      name ∈ items.flatMap names ∨ (t.lookup? name).isSome := by
  induction items generalizing t with
  | nil => simp
  | cons item items ih =>
      rw [List.foldl_cons, ih, h, List.flatMap_cons, List.mem_append, ← or_assoc,
        or_comm (a := name ∈ items.flatMap names)]

theorem count_foldl {names : α → List String} {kind : VariableKind}
    (h : ∀ t a, (declare t a).count kind = t.count kind + (names a).length) (items : List α)
    (t : SymbolTable) :
    (items.foldl declare t).count kind = t.count kind + (items.flatMap names).length := by
  induction items generalizing t with
  | nil => rfl
  | cons item items ih =>
      rw [List.foldl_cons, ih, h, List.flatMap_cons, List.length_append, Nat.add_assoc]

end Foldl

end SymbolTable

namespace Tree

/-- What the names in a subroutine stand for. -/
structure Frame where
  className : String
  classTable : SymbolTable
  subroutineTable : SymbolTable

namespace Frame

def resolve? (f : Frame) (name : String) : Option SymbolEntry :=
  (f.subroutineTable.lookup? name).or (f.classTable.lookup? name)

/-- Whether all names stand for variables. -/
def Resolves (f : Frame) (names : List String) : Prop :=
  ∀ name ∈ names, (f.resolve? name).isSome

def push (f : Frame) (name : String) : List Code :=
  match f.resolve? name with
  | some entry => [.push entry.kind.segment entry.index]
  | none => []

def pop (f : Frame) (name : String) : List Code :=
  match f.resolve? name with
  | some entry => [.pop entry.kind.segment entry.index]
  | none => []

end Frame

def Constant.code : Constant → List Code
  | .trueWord => [.push .constant 1, .arithmetic .neg]
  | .falseWord | .nullWord => [.push .constant 0]
  | .thisWord => [.push .pointer 0]

def unaryCode : UnaryOp → Code
  | .negate => .arithmetic .neg
  | .not => .arithmetic .not

def binaryCode : BinaryOp → Code
  | .add => .arithmetic .add
  | .subtract => .arithmetic .sub
  | .multiply => .call "Math.multiply" 2
  | .divide => .call "Math.divide" 2
  | .and => .arithmetic .and
  | .or => .arithmetic .or
  | .less => .arithmetic .lt
  | .greater => .arithmetic .gt
  | .equal => .arithmetic .eq

def stringCode (content : String) : List Code :=
  .push .constant content.length :: .call "String.new" 1 ::
    content.toList.flatMap fun c => [.push .constant c.toNat, .call "String.appendChar" 2]

mutual

def Term.code (f : Frame) : Term → List Code
  | .integer _ value => [.push .constant value]
  | .string content => stringCode content
  | .constant word => word.code
  | .var name => f.push name
  | .element base index =>
    f.push base ++ (index.code f ++ [.arithmetic .add, .pop .pointer 1, .push .that 0])
  | .call call => call.code f
  | .group inner => inner.code f
  | .unary op operand => operand.code f ++ [unaryCode op]

def Expression.code (f : Frame) : Expression → List Code
  | .of first rest => first.code f ++ rest.code f

def Operations.code (f : Frame) : Operations → List Code
  | .nil => []
  | .cons op operand rest => operand.code f ++ binaryCode op :: rest.code f

def Call.code (f : Frame) : Call → List Code
  | .own name arguments =>
    .push .pointer 0 ::
      (arguments.code f ++ [.call (f.className ++ "." ++ name) (arguments.count + 1)])
  | .qualified qualifier name arguments =>
    match f.resolve? qualifier with
    | some receiver =>
      .push receiver.kind.segment receiver.index ::
        (arguments.code f ++ [.call (receiver.type ++ "." ++ name) (arguments.count + 1)])
    | none => arguments.code f ++ [.call (qualifier ++ "." ++ name) arguments.count]

def Arguments.code (f : Frame) : Arguments → List Code
  | .nil => []
  | .cons first rest => first.code f ++ rest.code f

end

mutual

/-- The number of branches in a statement. -/
def Statement.branches : Statement → Nat
  | .assign _ _ | .store _ _ _ | .perform _ | .ret _ => 0
  | .branch _ body => 1 + body.branches
  | .branchElse _ body other => 1 + body.branches + other.branches
  | .loop _ body => body.branches

def Statements.branches : Statements → Nat
  | .nil => 0
  | .cons first rest => first.branches + rest.branches

end

mutual

/-- The number of loops in a statement. -/
def Statement.loops : Statement → Nat
  | .assign _ _ | .store _ _ _ | .perform _ | .ret _ => 0
  | .branch _ body => body.loops
  | .branchElse _ body other => body.loops + other.loops
  | .loop _ body => 1 + body.loops

def Statements.loops : Statements → Nat
  | .nil => 0
  | .cons first rest => first.loops + rest.loops

end

mutual

/-- The code of a statement with `b` branches and `l` loops before it. -/
def Statement.code (f : Frame) (b l : Nat) : Statement → List Code
  | .assign target value => value.code f ++ f.pop target
  | .store base index value =>
    f.push base ++ (index.code f ++ .arithmetic .add :: (value.code f ++
      [.pop .temp 0, .pop .pointer 1, .push .temp 0, .pop .that 0]))
  | .branch condition body =>
    condition.code f ++ .arithmetic .not :: .ifGoto (.branchNot b) :: (body.code f (b + 1) l ++
      [.goto (.branchEnd b), .label (.branchNot b), .label (.branchEnd b)])
  | .branchElse condition body other =>
    condition.code f ++ .arithmetic .not :: .ifGoto (.branchNot b) :: (body.code f (b + 1) l ++
      .goto (.branchEnd b) :: .label (.branchNot b) ::
        (other.code f (b + 1 + body.branches) (l + body.loops) ++ [.label (.branchEnd b)]))
  | .loop condition body =>
    .label (.loopStart l) :: (condition.code f ++
      .arithmetic .not :: .ifGoto (.loopEnd l) :: (body.code f b (l + 1) ++
        [.goto (.loopStart l), .label (.loopEnd l)]))
  | .perform call => call.code f ++ [.pop .temp 0]
  | .ret none => [.push .constant 0, .ret]
  | .ret (some value) => value.code f ++ [.ret]

def Statements.code (f : Frame) (b l : Nat) : Statements → List Code
  | .nil => []
  | .cons first rest => first.code f b l ++ rest.code f (b + first.branches) (l + first.loops)

end

/-! ### Tables -/

/-- The variables that an object has for itself. -/
def ClassVariables.fields (v : ClassVariables) : List String :=
  if v.keeping = .field then v.declaration.names else []

def ClassVariables.declareIn (t : SymbolTable) (v : ClassVariables) : SymbolTable :=
  t.defineAll v.declaration.names v.declaration.type.text v.keeping.kind

def Parameter.declareIn (t : SymbolTable) (p : Parameter) : SymbolTable :=
  t.define p.name p.type.text .argument

/-- Declare local variables. -/
def Declaration.declareIn (t : SymbolTable) (d : Declaration) : SymbolTable :=
  t.defineAll d.names d.type.text .localVar

namespace Class

/-- The variables of a class, in the order of their declarations. -/
def table (c : Class) : SymbolTable :=
  c.declarations.foldl ClassVariables.declareIn .empty

/-- The number of words in an object. -/
def fieldCount (c : Class) : Nat :=
  (c.declarations.flatMap ClassVariables.fields).length

end Class

namespace Subroutine

/-- What is declared before the parameters: a method has the object it is called on. -/
def receiver (className : String) (s : Subroutine) : SymbolTable :=
  match s.kind with
  | .method => SymbolTable.empty.define "this" className .argument
  | .constructor | .function => .empty

/-- The parameters and the local variables of a subroutine, in the order of their declarations. -/
def table (className : String) (s : Subroutine) : SymbolTable :=
  s.locals.foldl Declaration.declareIn
    (s.parameters.foldl Parameter.declareIn (s.receiver className))

def localCount (s : Subroutine) : Nat :=
  (s.locals.flatMap Declaration.names).length

def frame (c : Class) (s : Subroutine) : Frame :=
  ⟨c.name, c.table, s.table c.name⟩

def prologue (c : Class) (s : Subroutine) : List Code :=
  match s.kind with
  | .constructor => [.push .constant c.fieldCount, .call "Memory.alloc" 1, .pop .pointer 0]
  | .function => []
  | .method => [.push .argument 0, .pop .pointer 0]

/-- The code of a subroutine with `b` branches and `l` loops before it in its class. -/
def code (c : Class) (b l : Nat) (s : Subroutine) : List Code :=
  .function (c.name ++ "." ++ s.name) s.localCount ::
    (s.prologue c ++ s.body.code (s.frame c) b l)

end Subroutine

/-! ### The tables of a tree -/

theorem lookup?_class_table (c : Class) (name : String) :
    (c.table.lookup? name).isSome ↔ name ∈ c.names := by
  rw [Class.table, Class.names, SymbolTable.lookup?_foldl fun t v other =>
    t.lookup?_defineAll v.declaration.names v.declaration.type.text other v.keeping.kind]
  simp [SymbolTable.empty, SymbolTable.lookup?]

theorem lookup?_receiver (s : Subroutine) (className name : String) :
    ((s.receiver className).lookup? name).isSome ↔ s.kind = .method ∧ name = "this" := by
  unfold Subroutine.receiver
  cases s.kind with
  | method =>
      rw [SymbolTable.lookup?_define]
      by_cases same : name = "this"
      · simp [same]
      · simp [same, Ne.symm same, SymbolTable.empty, SymbolTable.lookup?]
  | constructor => simp [SymbolTable.empty, SymbolTable.lookup?]
  | function => simp [SymbolTable.empty, SymbolTable.lookup?]

theorem lookup?_parameters (ps : List Parameter) (t : SymbolTable) (name : String) :
    ((ps.foldl Parameter.declareIn t).lookup? name).isSome ↔
      name ∈ ps.map Parameter.name ∨ (t.lookup? name).isSome := by
  rw [List.map_eq_flatMap]
  exact SymbolTable.lookup?_foldl
    (fun t p other => t.lookup?_defineAll [p.name] p.type.text other .argument) ps t name

theorem lookup?_subroutine_table (s : Subroutine) (className name : String) :
    ((s.table className).lookup? name).isSome ↔
      name ∈ s.names ∨ s.kind = .method ∧ name = "this" := by
  rw [Subroutine.table, SymbolTable.lookup?_foldl fun t d other =>
    t.lookup?_defineAll d.names d.type.text other .localVar, lookup?_parameters,
    lookup?_receiver, Subroutine.names, List.mem_append, or_assoc, or_left_comm]

theorem count_class_table (c : Class) : c.table.count .field = c.fieldCount := by
  have fields (t : SymbolTable) (v : ClassVariables) :
      (ClassVariables.declareIn t v).count .field = t.count .field + v.fields.length := by
    rw [ClassVariables.declareIn, SymbolTable.count_defineAll, ClassVariables.fields]
    cases v.keeping <;> rfl
  rw [Class.table, SymbolTable.count_foldl fields]
  exact Nat.zero_add _

theorem count_subroutine_table (s : Subroutine) (className : String) :
    (s.table className).count .localVar = s.localCount := by
  have receiver : (s.receiver className).count .localVar = 0 := by
    unfold Subroutine.receiver
    cases s.kind <;> rfl
  have parameter (t : SymbolTable) (p : Parameter) :
      (Parameter.declareIn t p).count .localVar = t.count .localVar + ([] : List String).length :=
    t.count_define p.name p.type.text .argument .localVar
  have localVar (t : SymbolTable) (d : Declaration) :
      (Declaration.declareIn t d).count .localVar = t.count .localVar + d.names.length :=
    t.count_defineAll d.names d.type.text .localVar .localVar
  have none : s.parameters.flatMap (fun _ => ([] : List String)) = [] := by simp
  rw [Subroutine.table, SymbolTable.count_foldl localVar, SymbolTable.count_foldl parameter, none,
    receiver, Subroutine.localCount, List.length_nil, Nat.add_zero, Nat.zero_add]

namespace Class

def codeFrom (c : Class) (b l : Nat) : List Subroutine → List Code
  | [] => []
  | s :: rest => s.code c b l ++ c.codeFrom (b + s.body.branches) (l + s.body.loops) rest

/-- The code of a class. -/
def code (c : Class) : List Code :=
  c.codeFrom 0 0 c.subroutines

end Class

end Tree

end Jack
