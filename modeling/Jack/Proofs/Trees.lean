import Jack.Compiler.Scope
import Jack.Token.Basic

/-! # Syntax trees

The classes of the language as trees, each with the row of lexemes it is written as. A
tree holds what its row says and nothing else: names are neither resolved nor checked.
-/

namespace Jack.Tree

/-- The words that are constants. -/
inductive Constant where
  | trueWord | falseWord | nullWord | thisWord
  deriving Repr, DecidableEq

def Constant.keyword : Constant → Keyword
  | .trueWord => .trueWord
  | .falseWord => .falseWord
  | .nullWord => .nullWord
  | .thisWord => .thisWord

/-- A primitive type or a class. -/
inductive TypeName where
  | int | char | boolean
  | object (name : String)
  deriving Repr, DecidableEq

namespace TypeName

def lexeme : TypeName → Lexeme
  | .int => .keyword .intWord
  | .char => .keyword .charWord
  | .boolean => .keyword .booleanWord
  | .object name => .identifier name

def text : TypeName → String
  | .int => Keyword.intWord.text
  | .char => Keyword.charWord.text
  | .boolean => Keyword.booleanWord.text
  | .object name => name

end TypeName

/-! ### Expressions -/

mutual

inductive Term where
  | integer (digits : String) (value : Nat)
  | string (content : String)
  | constant (word : Constant)
  | var (name : String)
  | element (base : String) (index : Expression)
  | call (call : Call)
  | group (inner : Expression)
  | unary (op : UnaryOp) (operand : Term)

/-- A term and the operators with their second operands behind it. -/
inductive Expression where
  | of (first : Term) (rest : Operations)

inductive Operations where
  | nil
  | cons (op : BinaryOp) (operand : Term) (rest : Operations)

inductive Call where
  /-- A call on the current object. -/
  | own (name : String) (arguments : Arguments)
  /-- A call on a variable or in a class. -/
  | qualified (qualifier name : String) (arguments : Arguments)

inductive Arguments where
  | nil
  | cons (first : Expression) (rest : Arguments)

end

mutual

def Term.lexemes : Term → List Lexeme
  | .integer digits value => [.integer digits value]
  | .string content => [.string content]
  | .constant word => [.keyword word.keyword]
  | .var name => [.identifier name]
  | .element base index =>
    .identifier base :: .symbol .openBracket :: (index.lexemes ++ [.symbol .closeBracket])
  | .call call => call.lexemes
  | .group inner => .symbol .openParen :: (inner.lexemes ++ [.symbol .closeParen])
  | .unary op operand => .symbol op.symbol :: operand.lexemes

def Expression.lexemes : Expression → List Lexeme
  | .of first rest => first.lexemes ++ rest.lexemes

def Operations.lexemes : Operations → List Lexeme
  | .nil => []
  | .cons op operand rest => .symbol op.symbol :: (operand.lexemes ++ rest.lexemes)

def Call.lexemes : Call → List Lexeme
  | .own name arguments =>
    .identifier name :: .symbol .openParen :: (arguments.lexemes ++ [.symbol .closeParen])
  | .qualified qualifier name arguments =>
    .identifier qualifier :: .symbol .dot :: .identifier name :: .symbol .openParen ::
      (arguments.lexemes ++ [.symbol .closeParen])

def Arguments.lexemes : Arguments → List Lexeme
  | .nil => []
  | .cons first rest => first.lexemes ++ rest.moreLexemes

/-- The row of arguments behind another one. -/
def Arguments.moreLexemes : Arguments → List Lexeme
  | .nil => []
  | .cons first rest => .symbol .comma :: (first.lexemes ++ rest.moreLexemes)

end

mutual

/-- The names that a term needs declared: of variables and of array bases. -/
def Term.uses : Term → List String
  | .integer _ _ | .string _ | .constant _ => []
  | .var name => [name]
  | .element base index => base :: index.uses
  | .call call => call.uses
  | .group inner => inner.uses
  | .unary _ operand => operand.uses

def Expression.uses : Expression → List String
  | .of first rest => first.uses ++ rest.uses

def Operations.uses : Operations → List String
  | .nil => []
  | .cons _ operand rest => operand.uses ++ rest.uses

def Call.uses : Call → List String
  | .own _ arguments | .qualified _ _ arguments => arguments.uses

def Arguments.uses : Arguments → List String
  | .nil => []
  | .cons first rest => first.uses ++ rest.uses

end

def Arguments.count : Arguments → Nat
  | .nil => 0
  | .cons _ rest => rest.count + 1

/-! ### Statements -/

mutual

inductive Statement where
  | assign (target : String) (value : Expression)
  /-- An assignment to an array element. -/
  | store (base : String) (index value : Expression)
  | branch (condition : Expression) (body : Statements)
  | branchElse (condition : Expression) (body other : Statements)
  | loop (condition : Expression) (body : Statements)
  | perform (call : Call)
  | ret (value : Option Expression)

inductive Statements where
  | nil
  | cons (first : Statement) (rest : Statements)

end

mutual

def Statement.lexemes : Statement → List Lexeme
  | .assign target value =>
    .keyword .letWord :: .identifier target :: .symbol .equals ::
      (value.lexemes ++ [.symbol .semicolon])
  | .store base index value =>
    .keyword .letWord :: .identifier base :: .symbol .openBracket ::
      (index.lexemes ++ .symbol .closeBracket :: .symbol .equals ::
        (value.lexemes ++ [.symbol .semicolon]))
  | .branch condition body =>
    .keyword .ifWord :: .symbol .openParen ::
      (condition.lexemes ++ .symbol .closeParen :: .symbol .openBrace ::
        (body.lexemes ++ [.symbol .closeBrace]))
  | .branchElse condition body other =>
    .keyword .ifWord :: .symbol .openParen ::
      (condition.lexemes ++ .symbol .closeParen :: .symbol .openBrace ::
        (body.lexemes ++ .symbol .closeBrace :: .keyword .elseWord :: .symbol .openBrace ::
          (other.lexemes ++ [.symbol .closeBrace])))
  | .loop condition body =>
    .keyword .whileWord :: .symbol .openParen ::
      (condition.lexemes ++ .symbol .closeParen :: .symbol .openBrace ::
        (body.lexemes ++ [.symbol .closeBrace]))
  | .perform call => .keyword .doWord :: (call.lexemes ++ [.symbol .semicolon])
  | .ret none => [.keyword .returnWord, .symbol .semicolon]
  | .ret (some value) => .keyword .returnWord :: (value.lexemes ++ [.symbol .semicolon])

def Statements.lexemes : Statements → List Lexeme
  | .nil => []
  | .cons first rest => first.lexemes ++ rest.lexemes

end

mutual

/-- The names that a statement needs declared: of targets, of variables and of array bases. -/
def Statement.uses : Statement → List String
  | .assign target value => target :: value.uses
  | .store base index value => base :: (index.uses ++ value.uses)
  | .branch condition body | .loop condition body => condition.uses ++ body.uses
  | .branchElse condition body other => condition.uses ++ (body.uses ++ other.uses)
  | .perform call => call.uses
  | .ret none => []
  | .ret (some value) => value.uses

def Statements.uses : Statements → List String
  | .nil => []
  | .cons first rest => first.uses ++ rest.uses

end

/-! ### Classes -/

/-- Names that are declared with one type. -/
structure Declaration where
  type : TypeName
  first : String
  more : List String

namespace Declaration

def names (d : Declaration) : List String :=
  d.first :: d.more

/-- The names of a declaration behind its first one. -/
def moreLexemes (names : List String) : List Lexeme :=
  names.flatMap fun name => [.symbol .comma, .identifier name]

/-- The row of a declaration behind its word. -/
def tail (d : Declaration) : List Lexeme :=
  d.type.lexeme :: .identifier d.first :: (moreLexemes d.more ++ [.symbol .semicolon])

def lexemes (word : Keyword) (d : Declaration) : List Lexeme :=
  .keyword word :: d.tail

end Declaration

/-- Where a class variable is kept. -/
inductive Keeping where
  | static | field
  deriving Repr, DecidableEq

namespace Keeping

def keyword : Keeping → Keyword
  | .static => .staticWord
  | .field => .fieldWord

def kind : Keeping → VariableKind
  | .static => .static
  | .field => .field

end Keeping

structure ClassVariables where
  keeping : Keeping
  declaration : Declaration

namespace ClassVariables

def lexemes (v : ClassVariables) : List Lexeme :=
  v.declaration.lexemes v.keeping.keyword

end ClassVariables

structure Parameter where
  type : TypeName
  name : String

namespace Parameter

def lexemes (p : Parameter) : List Lexeme :=
  [p.type.lexeme, .identifier p.name]

/-- The parameters behind another one. -/
def moreLexemes (ps : List Parameter) : List Lexeme :=
  ps.flatMap fun p => .symbol .comma :: p.lexemes

def rowOf : List Parameter → List Lexeme
  | [] => []
  | first :: more => first.lexemes ++ moreLexemes more

end Parameter

/-- The word that a subroutine of a kind starts with. -/
def keywordOf : SubroutineKind → Keyword
  | .constructor => .constructorWord
  | .function => .functionWord
  | .method => .methodWord

structure Subroutine where
  kind : SubroutineKind
  /-- The type of its result, if it is declared with one. -/
  result : Option TypeName
  name : String
  parameters : List Parameter
  locals : List Declaration
  body : Statements

namespace Subroutine

def resultLexeme (s : Subroutine) : Lexeme :=
  match s.result with
  | none => .keyword .voidWord
  | some type => type.lexeme

/-- The row of the body of a subroutine. -/
def bodyLexemes (s : Subroutine) : List Lexeme :=
  .symbol .openBrace :: (s.locals.flatMap (Declaration.lexemes .varWord) ++
    (s.body.lexemes ++ [.symbol .closeBrace]))

/-- The row of a subroutine behind its result type. -/
def tail (s : Subroutine) : List Lexeme :=
  .identifier s.name :: .symbol .openParen ::
    (Parameter.rowOf s.parameters ++ .symbol .closeParen :: s.bodyLexemes)

def lexemes (s : Subroutine) : List Lexeme :=
  .keyword (keywordOf s.kind) :: s.resultLexeme :: s.tail

/-- The names of its parameters and its local variables. -/
def names (s : Subroutine) : List String :=
  s.parameters.map Parameter.name ++ s.locals.flatMap Declaration.names

/-- No name is declared twice, where a method has declared the object it is called on. -/
def Distinct (s : Subroutine) : Prop :=
  s.names.Nodup ∧ (s.kind = .method → "this" ∉ s.names)

instance (s : Subroutine) : Decidable s.Distinct :=
  inferInstanceAs (Decidable (_ ∧ _))

end Subroutine

structure Class where
  name : String
  declarations : List ClassVariables
  subroutines : List Subroutine

namespace Class

def lexemes (c : Class) : List Lexeme :=
  .keyword .classWord :: .identifier c.name :: .symbol .openBrace ::
    (c.declarations.flatMap ClassVariables.lexemes ++
      (c.subroutines.flatMap Subroutine.lexemes ++ [.symbol .closeBrace]))

/-- The names of its variables. -/
def names (c : Class) : List String :=
  c.declarations.flatMap fun v => v.declaration.names

/-- Every name that a subroutine needs declared is one of its own names or one of its class. -/
def WellScoped (c : Class) : Prop :=
  ∀ s ∈ c.subroutines, ∀ name ∈ s.body.uses, name ∈ s.names ∨ name ∈ c.names

/-- No name is declared twice in one table. -/
def Distinct (c : Class) : Prop :=
  c.names.Nodup ∧ ∀ s ∈ c.subroutines, s.Distinct

instance (c : Class) : Decidable c.Distinct :=
  inferInstanceAs (Decidable (_ ∧ _))

end Class

/-! ### Names in a row -/

section Names

variable {name : String}

mutual

theorem Term.mem_lexemes_of_uses (t : Term) (h : name ∈ t.uses) :
    .identifier name ∈ t.lexemes := by
  cases t with
  | integer digits value => cases h
  | string content => cases h
  | constant word => cases h
  | var other =>
      rw [List.mem_singleton.mp h]
      exact List.mem_singleton_self _
  | element base index =>
      rcases List.mem_cons.mp h with rfl | inside
      · exact List.mem_cons_self ..
      · have := index.mem_lexemes_of_uses inside
        simp [Term.lexemes, this]
  | call call => exact call.mem_lexemes_of_uses h
  | group inner =>
      have := inner.mem_lexemes_of_uses h
      simp [Term.lexemes, this]
  | unary op operand => exact List.mem_cons_of_mem _ (operand.mem_lexemes_of_uses h)
termination_by structural t

theorem Expression.mem_lexemes_of_uses (e : Expression) (h : name ∈ e.uses) :
    .identifier name ∈ e.lexemes := by
  cases e with
  | of first rest =>
      rcases List.mem_append.mp h with inside | inside
      · exact List.mem_append_left _ (first.mem_lexemes_of_uses inside)
      · exact List.mem_append_right _ (rest.mem_lexemes_of_uses inside)
termination_by structural e

theorem Operations.mem_lexemes_of_uses (rest : Operations) (h : name ∈ rest.uses) :
    .identifier name ∈ rest.lexemes := by
  cases rest with
  | nil => cases h
  | cons op operand rest =>
      refine List.mem_cons_of_mem _ ?_
      rcases List.mem_append.mp h with inside | inside
      · exact List.mem_append_left _ (operand.mem_lexemes_of_uses inside)
      · exact List.mem_append_right _ (rest.mem_lexemes_of_uses inside)
termination_by structural rest

theorem Call.mem_lexemes_of_uses (call : Call) (h : name ∈ call.uses) :
    .identifier name ∈ call.lexemes := by
  cases call with
  | own other arguments =>
      have := arguments.mem_lexemes_of_uses h
      simp [Call.lexemes, this]
  | qualified qualifier other arguments =>
      have := arguments.mem_lexemes_of_uses h
      simp [Call.lexemes, this]
termination_by structural call

theorem Arguments.mem_lexemes_of_uses (arguments : Arguments) (h : name ∈ arguments.uses) :
    .identifier name ∈ arguments.lexemes := by
  cases arguments with
  | nil => cases h
  | cons first rest =>
      rcases List.mem_append.mp h with inside | inside
      · exact List.mem_append_left _ (first.mem_lexemes_of_uses inside)
      · exact List.mem_append_right _ (rest.mem_moreLexemes_of_uses inside)
termination_by structural arguments

theorem Arguments.mem_moreLexemes_of_uses (arguments : Arguments) (h : name ∈ arguments.uses) :
    .identifier name ∈ arguments.moreLexemes := by
  cases arguments with
  | nil => cases h
  | cons first rest =>
      refine List.mem_cons_of_mem _ ?_
      rcases List.mem_append.mp h with inside | inside
      · exact List.mem_append_left _ (first.mem_lexemes_of_uses inside)
      · exact List.mem_append_right _ (rest.mem_moreLexemes_of_uses inside)
termination_by structural arguments

end

mutual

theorem Statement.mem_lexemes_of_uses (st : Statement) (h : name ∈ st.uses) :
    .identifier name ∈ st.lexemes := by
  cases st with
  | assign target value =>
      rcases List.mem_cons.mp h with rfl | inside
      · simp [Statement.lexemes]
      · simp [Statement.lexemes, value.mem_lexemes_of_uses inside]
  | store base index value =>
      rcases List.mem_cons.mp h with rfl | inside
      · simp [Statement.lexemes]
      · rcases List.mem_append.mp inside with inside | inside
        · simp [Statement.lexemes, index.mem_lexemes_of_uses inside]
        · simp [Statement.lexemes, value.mem_lexemes_of_uses inside]
  | branch condition body =>
      rcases List.mem_append.mp h with inside | inside
      · simp [Statement.lexemes, condition.mem_lexemes_of_uses inside]
      · simp [Statement.lexemes, body.mem_lexemes_of_uses inside]
  | branchElse condition body other =>
      rcases List.mem_append.mp h with inside | inside
      · simp [Statement.lexemes, condition.mem_lexemes_of_uses inside]
      · rcases List.mem_append.mp inside with inside | inside
        · simp [Statement.lexemes, body.mem_lexemes_of_uses inside]
        · simp [Statement.lexemes, other.mem_lexemes_of_uses inside]
  | loop condition body =>
      rcases List.mem_append.mp h with inside | inside
      · simp [Statement.lexemes, condition.mem_lexemes_of_uses inside]
      · simp [Statement.lexemes, body.mem_lexemes_of_uses inside]
  | perform call => simp [Statement.lexemes, call.mem_lexemes_of_uses h]
  | ret value =>
      cases value with
      | none => cases h
      | some value => simp [Statement.lexemes, value.mem_lexemes_of_uses h]
termination_by structural st

theorem Statements.mem_lexemes_of_uses (ss : Statements) (h : name ∈ ss.uses) :
    .identifier name ∈ ss.lexemes := by
  cases ss with
  | nil => cases h
  | cons first rest =>
      rcases List.mem_append.mp h with inside | inside
      · exact List.mem_append_left _ (first.mem_lexemes_of_uses inside)
      · exact List.mem_append_right _ (rest.mem_lexemes_of_uses inside)
termination_by structural ss

end

theorem Class.mem_lexemes_of_uses {c : Class} {sub : Subroutine} (hs : sub ∈ c.subroutines)
    (h : name ∈ sub.body.uses) : .identifier name ∈ c.lexemes := by
  have inside : .identifier name ∈ sub.lexemes := by
    simp [Subroutine.lexemes, Subroutine.tail, Subroutine.bodyLexemes,
      sub.body.mem_lexemes_of_uses h]
  have among := List.mem_flatMap.mpr ⟨sub, hs, inside⟩
  simp [Class.lexemes, among]

end Names

/-! ### Lexemes of a body -/

section Body

variable {P : Lexeme → Prop}

/-- What holds of every lexeme that an expression can have. -/
structure InTerms (P : Lexeme → Prop) : Prop where
  integer : ∀ digits value, P (.integer digits value)
  string : ∀ content, P (.string content)
  constant : ∀ word : Constant, P (.keyword word.keyword)
  identifier : ∀ name, P (.identifier name)
  symbol : ∀ mark, P (.symbol mark)

/-- What holds of every lexeme that statements can have. -/
structure InStatements (P : Lexeme → Prop) : Prop extends InTerms P where
  word : ∀ word ∈ [Keyword.letWord, .ifWord, .elseWord, .whileWord, .doWord, .returnWord],
    P (.keyword word)

mutual

theorem Term.forall_mem_lexemes (h : InTerms P) (t : Term) : ∀ l ∈ t.lexemes, P l := by
  cases t with
  | integer digits value => exact List.forall_mem_singleton.mpr (h.integer ..)
  | string content => exact List.forall_mem_singleton.mpr (h.string _)
  | constant word => exact List.forall_mem_singleton.mpr (h.constant _)
  | var name => exact List.forall_mem_singleton.mpr (h.identifier _)
  | element base index =>
      rw [Term.lexemes, List.forall_mem_cons, List.forall_mem_cons, List.forall_mem_append,
        List.forall_mem_singleton]
      exact ⟨h.identifier _, h.symbol _, index.forall_mem_lexemes h, h.symbol _⟩
  | call call => exact call.forall_mem_lexemes h
  | group inner =>
      rw [Term.lexemes, List.forall_mem_cons, List.forall_mem_append, List.forall_mem_singleton]
      exact ⟨h.symbol _, inner.forall_mem_lexemes h, h.symbol _⟩
  | unary op operand =>
      exact List.forall_mem_cons.mpr ⟨h.symbol _, operand.forall_mem_lexemes h⟩
termination_by structural t

theorem Expression.forall_mem_lexemes (h : InTerms P) (e : Expression) :
    ∀ l ∈ e.lexemes, P l := by
  cases e with
  | of first rest =>
      exact List.forall_mem_append.mpr ⟨first.forall_mem_lexemes h, rest.forall_mem_lexemes h⟩
termination_by structural e

theorem Operations.forall_mem_lexemes (h : InTerms P) (rest : Operations) :
    ∀ l ∈ rest.lexemes, P l := by
  cases rest with
  | nil => exact List.forall_mem_nil _
  | cons op operand rest =>
      exact List.forall_mem_cons.mpr ⟨h.symbol _, List.forall_mem_append.mpr
        ⟨operand.forall_mem_lexemes h, rest.forall_mem_lexemes h⟩⟩
termination_by structural rest

theorem Call.forall_mem_lexemes (h : InTerms P) (call : Call) : ∀ l ∈ call.lexemes, P l := by
  cases call with
  | own name arguments =>
      rw [Call.lexemes, List.forall_mem_cons, List.forall_mem_cons, List.forall_mem_append,
        List.forall_mem_singleton]
      exact ⟨h.identifier _, h.symbol _, arguments.forall_mem_lexemes h, h.symbol _⟩
  | qualified qualifier name arguments =>
      rw [Call.lexemes, List.forall_mem_cons, List.forall_mem_cons, List.forall_mem_cons,
        List.forall_mem_cons, List.forall_mem_append, List.forall_mem_singleton]
      exact ⟨h.identifier _, h.symbol _, h.identifier _, h.symbol _,
        arguments.forall_mem_lexemes h, h.symbol _⟩
termination_by structural call

theorem Arguments.forall_mem_lexemes (h : InTerms P) (arguments : Arguments) :
    ∀ l ∈ arguments.lexemes, P l := by
  cases arguments with
  | nil => exact List.forall_mem_nil _
  | cons first rest =>
      exact List.forall_mem_append.mpr ⟨first.forall_mem_lexemes h, rest.forall_mem_moreLexemes h⟩
termination_by structural arguments

theorem Arguments.forall_mem_moreLexemes (h : InTerms P) (arguments : Arguments) :
    ∀ l ∈ arguments.moreLexemes, P l := by
  cases arguments with
  | nil => exact List.forall_mem_nil _
  | cons first rest =>
      exact List.forall_mem_cons.mpr ⟨h.symbol _, List.forall_mem_append.mpr
        ⟨first.forall_mem_lexemes h, rest.forall_mem_moreLexemes h⟩⟩
termination_by structural arguments

end

mutual

theorem Statement.forall_mem_lexemes (h : InStatements P) (st : Statement) :
    ∀ l ∈ st.lexemes, P l := by
  have terms := h.toInTerms
  cases st with
  | assign target value =>
      simp only [Statement.lexemes, List.forall_mem_cons, List.forall_mem_append]
      exact ⟨h.word _ (by simp), h.identifier _, h.symbol _, value.forall_mem_lexemes terms,
        h.symbol _, List.forall_mem_nil _⟩
  | store base index value =>
      simp only [Statement.lexemes, List.forall_mem_cons, List.forall_mem_append]
      exact ⟨h.word _ (by simp), h.identifier _, h.symbol _, index.forall_mem_lexemes terms,
        h.symbol _, h.symbol _, value.forall_mem_lexemes terms, h.symbol _, List.forall_mem_nil _⟩
  | branch condition body | loop condition body =>
      simp only [Statement.lexemes, List.forall_mem_cons, List.forall_mem_append]
      exact ⟨h.word _ (by simp), h.symbol _, condition.forall_mem_lexemes terms, h.symbol _,
        h.symbol _, body.forall_mem_lexemes h, h.symbol _, List.forall_mem_nil _⟩
  | branchElse condition body other =>
      simp only [Statement.lexemes, List.forall_mem_cons, List.forall_mem_append]
      exact ⟨h.word _ (by simp), h.symbol _, condition.forall_mem_lexemes terms, h.symbol _,
        h.symbol _, body.forall_mem_lexemes h, h.symbol _, h.word _ (by simp), h.symbol _,
        other.forall_mem_lexemes h, h.symbol _, List.forall_mem_nil _⟩
  | perform call =>
      simp only [Statement.lexemes, List.forall_mem_cons, List.forall_mem_append]
      exact ⟨h.word _ (by simp), call.forall_mem_lexemes terms, h.symbol _, List.forall_mem_nil _⟩
  | ret value =>
      cases value with
      | none =>
          simp only [Statement.lexemes, List.forall_mem_cons]
          exact ⟨h.word _ (by simp), h.symbol _, List.forall_mem_nil _⟩
      | some value =>
          simp only [Statement.lexemes, List.forall_mem_cons, List.forall_mem_append]
          exact ⟨h.word _ (by simp), value.forall_mem_lexemes terms, h.symbol _,
            List.forall_mem_nil _⟩
termination_by structural st

theorem Statements.forall_mem_lexemes (h : InStatements P) (ss : Statements) :
    ∀ l ∈ ss.lexemes, P l := by
  cases ss with
  | nil => exact List.forall_mem_nil _
  | cons first rest =>
      exact List.forall_mem_append.mpr ⟨first.forall_mem_lexemes h, rest.forall_mem_lexemes h⟩
termination_by structural ss

end

end Body

end Jack.Tree

namespace Jack.Lexeme

/-- The names in a row of lexemes. -/
def names (row : List Lexeme) : List String :=
  row.filterMap fun
    | .identifier name => some name
    | _ => none

theorem mem_names {row : List Lexeme} {name : String} :
    name ∈ names row ↔ .identifier name ∈ row := by
  rw [names, List.mem_filterMap]
  constructor
  · rintro ⟨l, inside, named⟩
    cases l <;> cases named
    exact inside
  · exact fun inside => ⟨_, inside, rfl⟩

end Jack.Lexeme
