import Jack.Machine.Label
import Jack.SymbolTable

/-! # Scopes

What the compiler of a class knows while it reads: the variables of the class and
of the current subroutine, the names of both, and the numbers that the next branch
and the next loop take for their labels.
-/

namespace Jack

/-- The kinds of subroutine. -/
inductive SubroutineKind where
  | constructor | function | method
  deriving Repr, DecidableEq

namespace SubroutineKind

/-- Every kind of subroutine. -/
def all : List SubroutineKind :=
  [constructor, function, method]

/-- The name of a kind. -/
def text : SubroutineKind → String
  | constructor => "constructor"
  | function => "function"
  | method => "method"

end SubroutineKind

/-- What the compiler knows at some place of a class. -/
structure Scope where
  /-- Whether a name may be declared only once in a table. -/
  strict : Bool
  className : String
  subroutineName : String
  subroutineKind : Option SubroutineKind
  classTable : SymbolTable
  subroutineTable : SymbolTable
  /-- The number of the next branch. -/
  branches : Nat
  /-- The number of the next loop. -/
  loops : Nat
  deriving Repr, DecidableEq

namespace Scope

/-- What is known before a class starts. -/
def initial (strict : Bool) : Scope :=
  { strict
    className := ""
    subroutineName := ""
    subroutineKind := none
    classTable := .empty
    subroutineTable := .empty
    branches := 0
    loops := 0 }

/-- The two tables of a scope. -/
inductive Level where
  | classLevel
  | subroutineLevel
  deriving Repr, DecidableEq

/-- The table that variables of a kind are declared in. -/
def levelOf : VariableKind → Level
  | .static | .field => .classLevel
  | .argument | .localVar => .subroutineLevel

/-- The table of a level. -/
def table (s : Scope) : Level → SymbolTable
  | .classLevel => s.classTable
  | .subroutineLevel => s.subroutineTable

/-- Replace the table of a level. -/
def setTable (s : Scope) (level : Level) (table : SymbolTable) : Scope :=
  match level with
  | .classLevel => { s with classTable := table }
  | .subroutineLevel => { s with subroutineTable := table }

@[simp] theorem setTable_setTable (s : Scope) (level : Level) (t u : SymbolTable) :
    (s.setTable level t).setTable level u = s.setTable level u := by
  cases level <;> rfl

@[simp] theorem table_setTable (s : Scope) (level : Level) (t : SymbolTable) :
    (s.setTable level t).table level = t := by
  cases level <;> rfl

@[simp] theorem strict_setTable (s : Scope) (level : Level) (t : SymbolTable) :
    (s.setTable level t).strict = s.strict := by
  cases level <;> rfl

theorem setTable_table (s : Scope) (level : Level) :
    s.setTable level (s.table level) = s := by
  cases level <;> rfl

theorem table_setTable_of_ne {level other : Level} (h : other ≠ level) (s : Scope)
    (t : SymbolTable) : (s.setTable level t).table other = s.table other := by
  cases level <;> cases other <;> first | rfl | exact absurd rfl h

/-- Whether a strict scope refuses to declare a name in a table. -/
def refuses (s : Scope) (level : Level) (name : String) : Bool :=
  s.strict && (s.table level).contains name

/-- Declare a variable in a table. -/
def define (s : Scope) (level : Level) (name type : String) (kind : VariableKind) : Scope :=
  s.setTable level ((s.table level).define name type kind)

/-- The variable that a name stands for: one of the subroutine before one of the class. -/
def resolve? (s : Scope) (name : String) : Option SymbolEntry :=
  (s.subroutineTable.lookup? name).or (s.classTable.lookup? name)

/-- Forget the variables of the subroutine before. -/
def leaveSubroutine (s : Scope) : Scope :=
  { s with subroutineTable := .empty }

/-- Enter a subroutine. The receiver of a method is its first argument. -/
def enterSubroutine (s : Scope) (name : String) (kind : SubroutineKind) : Scope :=
  let s := { s with subroutineName := name, subroutineKind := some kind }
  if kind = .method then s.define .subroutineLevel "this" s.className .argument else s

/-- The full name of the current subroutine. -/
def qualifiedName (s : Scope) : String :=
  s.className ++ "." ++ s.subroutineName

end Scope

end Jack
