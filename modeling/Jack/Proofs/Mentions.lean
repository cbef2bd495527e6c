import Jack.Proofs.Roles
import Jack.Proofs.Trees

/-! # The identifiers of a tree

Every identifier in the row of a subroutine is mentioned there in some role. A renaming of variables
changes those that can stand for variables and leaves types and subroutines alone; where it would
not change their names either, it does to the row what it does to the tree.
-/

namespace Jack

/-- Whether an identifier in a role is declared as a variable, or may stand for one. -/
def Role.isVariable : Role → Bool
  | .declares _ | .target | .base | .variable | .qualifier => true
  | .className | .subroutine | .type | .called => false

namespace Lexeme

/-- Another name in an identifier. -/
def rename (r : String → String) : Lexeme → Lexeme
  | .identifier name => .identifier (r name)
  | l => l

section Rename

variable {r : String → String}

@[simp] theorem rename_keyword (word : Keyword) : rename r (.keyword word) = .keyword word := rfl

@[simp] theorem rename_symbol (mark : Symbol) : rename r (.symbol mark) = .symbol mark := rfl

@[simp] theorem rename_identifier (name : String) :
    rename r (.identifier name) = .identifier (r name) := rfl

end Rename

section Names

variable {row more : List Lexeme}

@[simp] theorem names_nil : names [] = [] := rfl

@[simp] theorem names_keyword (word : Keyword) : names (.keyword word :: row) = names row :=
  rfl

@[simp] theorem names_symbol (mark : Symbol) : names (.symbol mark :: row) = names row := rfl

@[simp] theorem names_identifier (name : String) :
    names (.identifier name :: row) = name :: names row := rfl

@[simp] theorem names_append : names (row ++ more) = names row ++ names more :=
  List.filterMap_append

theorem names_cons (l : Lexeme) (row : List Lexeme) :
    names (l :: row) = names [l] ++ names row := by
  rw [← names_append, List.singleton_append]

theorem names_flatMap {α : Type} (items : List α) (rows : α → List Lexeme) :
    names (items.flatMap rows) = items.flatMap fun i => names (rows i) :=
  List.filterMap_flatMap

end Names

end Lexeme

namespace Tree

/-- An identifier and what it is used for. -/
structure Mention where
  role : Role
  name : String
  deriving Repr, DecidableEq

/-! ### The identifiers of each part -/

mutual

def Term.mentions : Term → List Mention
  | .integer _ _ | .string _ | .constant _ => []
  | .var name => [⟨.variable, name⟩]
  | .element base index => ⟨.base, base⟩ :: index.mentions
  | .call call => call.mentions
  | .group inner => inner.mentions
  | .unary _ operand => operand.mentions

def Expression.mentions : Expression → List Mention
  | .of first rest => first.mentions ++ rest.mentions

def Operations.mentions : Operations → List Mention
  | .nil => []
  | .cons _ operand rest => operand.mentions ++ rest.mentions

def Call.mentions : Call → List Mention
  | .own name arguments => ⟨.called, name⟩ :: arguments.mentions
  | .qualified qualifier name arguments =>
    ⟨.qualifier, qualifier⟩ :: ⟨.called, name⟩ :: arguments.mentions

def Arguments.mentions : Arguments → List Mention
  | .nil => []
  | .cons first rest => first.mentions ++ rest.mentions

end

mutual

def Statement.mentions : Statement → List Mention
  | .assign target value => ⟨.target, target⟩ :: value.mentions
  | .store base index value => ⟨.target, base⟩ :: (index.mentions ++ value.mentions)
  | .branch condition body | .loop condition body => condition.mentions ++ body.mentions
  | .branchElse condition body other => condition.mentions ++ (body.mentions ++ other.mentions)
  | .perform call => call.mentions
  | .ret none => []
  | .ret (some value) => value.mentions

def Statements.mentions : Statements → List Mention
  | .nil => []
  | .cons first rest => first.mentions ++ rest.mentions

end

def TypeName.mentions : TypeName → List Mention
  | .int | .char | .boolean => []
  | .object name => [⟨.type, name⟩]

/-- The identifiers of a declaration of local variables. -/
def Declaration.mentions (d : Declaration) : List Mention :=
  d.type.mentions ++ d.names.map (⟨.declares .localVar, ·⟩)

def Parameter.mentions (p : Parameter) : List Mention :=
  p.type.mentions ++ [⟨.declares .argument, p.name⟩]

namespace Subroutine

def resultMentions (s : Subroutine) : List Mention :=
  match s.result with
  | none => []
  | some type => type.mentions

def mentions (s : Subroutine) : List Mention :=
  s.resultMentions ++ ⟨.subroutine, s.name⟩ :: (s.parameters.flatMap Parameter.mentions ++
    (s.locals.flatMap Declaration.mentions ++ s.body.mentions))

end Subroutine

/-! ### Renaming variables -/

section Rename

variable (r : String → String)

mutual

def Term.rename : Term → Term
  | .integer digits value => .integer digits value
  | .string content => .string content
  | .constant word => .constant word
  | .var name => .var (r name)
  | .element base index => .element (r base) index.rename
  | .call call => .call call.rename
  | .group inner => .group inner.rename
  | .unary op operand => .unary op operand.rename

def Expression.rename : Expression → Expression
  | .of first rest => .of first.rename rest.rename

def Operations.rename : Operations → Operations
  | .nil => .nil
  | .cons op operand rest => .cons op operand.rename rest.rename

/-- A call with another name for what the subroutine belongs to. -/
def Call.rename : Call → Call
  | .own name arguments => .own name arguments.rename
  | .qualified qualifier name arguments => .qualified (r qualifier) name arguments.rename

def Arguments.rename : Arguments → Arguments
  | .nil => .nil
  | .cons first rest => .cons first.rename rest.rename

end

mutual

def Statement.rename : Statement → Statement
  | .assign target value => .assign (r target) (value.rename r)
  | .store base index value => .store (r base) (index.rename r) (value.rename r)
  | .branch condition body => .branch (condition.rename r) body.rename
  | .branchElse condition body other => .branchElse (condition.rename r) body.rename other.rename
  | .loop condition body => .loop (condition.rename r) body.rename
  | .perform call => .perform (call.rename r)
  | .ret value => .ret (value.map (Expression.rename r))

def Statements.rename : Statements → Statements
  | .nil => .nil
  | .cons first rest => .cons first.rename rest.rename

end

def Declaration.rename (d : Declaration) : Declaration :=
  { d with first := r d.first, more := d.more.map r }

def Parameter.rename (p : Parameter) : Parameter :=
  { p with name := r p.name }

/-- A subroutine with other names for its variables. -/
def Subroutine.rename (s : Subroutine) : Subroutine :=
  { s with
    parameters := s.parameters.map (Parameter.rename r)
    locals := s.locals.map (Declaration.rename r)
    body := s.body.rename r }

/-- A renaming leaves alone whatever is mentioned and cannot stand for a variable. -/
def Spares (mentions : List Mention) : Prop :=
  ∀ m ∈ mentions, m.role.isVariable = false → r m.name = m.name

end Rename

section Spares

variable {r : String → String}

@[simp] theorem spares_nil : Spares r [] :=
  List.forall_mem_nil _

@[simp] theorem spares_cons {m : Mention} {more : List Mention} :
    Spares r (m :: more) ↔ (m.role.isVariable = false → r m.name = m.name) ∧ Spares r more :=
  List.forall_mem_cons

@[simp] theorem spares_append {first more : List Mention} :
    Spares r (first ++ more) ↔ Spares r first ∧ Spares r more :=
  List.forall_mem_append

theorem spares_flatMap {α : Type} {items : List α} {mentions : α → List Mention} :
    Spares r (items.flatMap mentions) ↔ ∀ i ∈ items, Spares r (mentions i) :=
  List.forall_mem_flatMap

mutual

theorem Term.lexemes_rename (t : Term) (h : Spares r t.mentions) :
    (t.rename r).lexemes = t.lexemes.map (Lexeme.rename r) := by
  cases t with
  | integer digits value => rfl
  | string content => rfl
  | constant word => rfl
  | var name => rfl
  | element base index =>
      simp only [Term.mentions, spares_cons] at h
      simp [Term.rename, Term.lexemes, index.lexemes_rename h.2]
  | call call => exact call.lexemes_rename h
  | group inner => simp [Term.rename, Term.lexemes, inner.lexemes_rename h]
  | unary op operand => simp [Term.rename, Term.lexemes, operand.lexemes_rename h]
termination_by structural t

theorem Expression.lexemes_rename (e : Expression) (h : Spares r e.mentions) :
    (e.rename r).lexemes = e.lexemes.map (Lexeme.rename r) := by
  cases e with
  | of first rest =>
      rw [Expression.mentions, spares_append] at h
      simp [Expression.rename, Expression.lexemes, first.lexemes_rename h.1,
        rest.lexemes_rename h.2]
termination_by structural e

theorem Operations.lexemes_rename (rest : Operations) (h : Spares r rest.mentions) :
    (rest.rename r).lexemes = rest.lexemes.map (Lexeme.rename r) := by
  cases rest with
  | nil => rfl
  | cons op operand rest =>
      rw [Operations.mentions, spares_append] at h
      simp [Operations.rename, Operations.lexemes, operand.lexemes_rename h.1,
        rest.lexemes_rename h.2]
termination_by structural rest

theorem Call.lexemes_rename (call : Call) (h : Spares r call.mentions) :
    (call.rename r).lexemes = call.lexemes.map (Lexeme.rename r) := by
  cases call with
  | own name arguments =>
      simp only [Call.mentions, spares_cons] at h
      simp [Call.rename, Call.lexemes, h.1 rfl, arguments.lexemes_rename h.2]
  | qualified qualifier name arguments =>
      simp only [Call.mentions, spares_cons] at h
      simp [Call.rename, Call.lexemes, h.2.1 rfl, arguments.lexemes_rename h.2.2]
termination_by structural call

theorem Arguments.lexemes_rename (arguments : Arguments) (h : Spares r arguments.mentions) :
    (arguments.rename r).lexemes = arguments.lexemes.map (Lexeme.rename r) := by
  cases arguments with
  | nil => rfl
  | cons first rest =>
      rw [Arguments.mentions, spares_append] at h
      simp [Arguments.rename, Arguments.lexemes, first.lexemes_rename h.1,
        rest.moreLexemes_rename h.2]
termination_by structural arguments

theorem Arguments.moreLexemes_rename (arguments : Arguments) (h : Spares r arguments.mentions) :
    (arguments.rename r).moreLexemes = arguments.moreLexemes.map (Lexeme.rename r) := by
  cases arguments with
  | nil => rfl
  | cons first rest =>
      rw [Arguments.mentions, spares_append] at h
      simp [Arguments.rename, Arguments.moreLexemes, first.lexemes_rename h.1,
        rest.moreLexemes_rename h.2]
termination_by structural arguments

end

mutual

theorem Statement.lexemes_rename (st : Statement) (h : Spares r st.mentions) :
    (st.rename r).lexemes = st.lexemes.map (Lexeme.rename r) := by
  cases st with
  | assign target value =>
      simp only [Statement.mentions, spares_cons] at h
      simp [Statement.rename, Statement.lexemes, value.lexemes_rename h.2]
  | store base index value =>
      simp only [Statement.mentions, spares_cons, spares_append] at h
      simp [Statement.rename, Statement.lexemes, index.lexemes_rename h.2.1,
        value.lexemes_rename h.2.2]
  | branch condition body =>
      rw [Statement.mentions, spares_append] at h
      simp [Statement.rename, Statement.lexemes, condition.lexemes_rename h.1,
        body.lexemes_rename h.2]
  | branchElse condition body other =>
      rw [Statement.mentions, spares_append, spares_append] at h
      simp [Statement.rename, Statement.lexemes, condition.lexemes_rename h.1,
        body.lexemes_rename h.2.1, other.lexemes_rename h.2.2]
  | loop condition body =>
      rw [Statement.mentions, spares_append] at h
      simp [Statement.rename, Statement.lexemes, condition.lexemes_rename h.1,
        body.lexemes_rename h.2]
  | perform call => simp [Statement.rename, Statement.lexemes, call.lexemes_rename h]
  | ret value =>
      cases value with
      | none => rfl
      | some value => simp [Statement.rename, Statement.lexemes, value.lexemes_rename h]
termination_by structural st

theorem Statements.lexemes_rename (ss : Statements) (h : Spares r ss.mentions) :
    (ss.rename r).lexemes = ss.lexemes.map (Lexeme.rename r) := by
  cases ss with
  | nil => rfl
  | cons first rest =>
      rw [Statements.mentions, spares_append] at h
      simp [Statements.rename, Statements.lexemes, first.lexemes_rename h.1,
        rest.lexemes_rename h.2]
termination_by structural ss

end

theorem TypeName.rename_lexeme (type : TypeName) (h : Spares r type.mentions) :
    type.lexeme.rename r = type.lexeme := by
  cases type with
  | int | char | boolean => rfl
  | object name =>
      simp only [TypeName.mentions, spares_cons] at h
      rw [TypeName.lexeme, Lexeme.rename_identifier, h.1 rfl]

theorem Declaration.lexemes_rename (word : Keyword) (d : Declaration)
    (h : Spares r d.mentions) :
    (d.rename r).lexemes word = (d.lexemes word).map (Lexeme.rename r) := by
  rw [Declaration.mentions, spares_append] at h
  simp [Declaration.rename, Declaration.lexemes, Declaration.tail, Declaration.moreLexemes,
    d.type.rename_lexeme h.1, List.flatMap_map, List.map_flatMap]

theorem Parameter.lexemes_rename (p : Parameter) (h : Spares r p.mentions) :
    (p.rename r).lexemes = p.lexemes.map (Lexeme.rename r) := by
  rw [Parameter.mentions, spares_append] at h
  simp [Parameter.rename, Parameter.lexemes, p.type.rename_lexeme h.1]

theorem Parameter.rowOf_rename (ps : List Parameter)
    (h : ∀ p ∈ ps, Spares r p.mentions) :
    Parameter.rowOf (ps.map (Parameter.rename r)) =
      (Parameter.rowOf ps).map (Lexeme.rename r) := by
  have more (ps : List Parameter) (h : ∀ p ∈ ps, Spares r p.mentions) :
      moreLexemes (ps.map (Parameter.rename r)) = (moreLexemes ps).map (Lexeme.rename r) := by
    rw [moreLexemes, moreLexemes, List.flatMap_map, List.map_flatMap]
    refine List.flatMap_congr fun p inside => ?_
    rw [p.lexemes_rename (h p inside), List.map_cons, Lexeme.rename_symbol]
  cases ps with
  | nil => rfl
  | cons first ps =>
      rw [List.forall_mem_cons] at h
      rw [List.map_cons, rowOf, rowOf, first.lexemes_rename h.1, more ps h.2, List.map_append]

/-- A renaming that spares types and subroutines does to the row of a subroutine what it does to its
tree. -/
theorem Subroutine.lexemes_rename (s : Subroutine) (h : Spares r s.mentions) :
    (s.rename r).lexemes = s.lexemes.map (Lexeme.rename r) := by
  simp only [mentions, spares_append, spares_cons, spares_flatMap] at h
  obtain ⟨result, name, parameters, locals, body⟩ := h
  have result : s.resultLexeme.rename r = s.resultLexeme := by
    unfold resultMentions at result
    unfold resultLexeme
    cases declared : s.result with
    | none => rfl
    | some type =>
        rw [declared] at result
        exact type.rename_lexeme result
  have locals : (s.locals.map (Declaration.rename r)).flatMap (Declaration.lexemes .varWord) =
      (s.locals.flatMap (Declaration.lexemes .varWord)).map (Lexeme.rename r) := by
    rw [List.flatMap_map, List.map_flatMap]
    exact List.flatMap_congr fun d inside => d.lexemes_rename .varWord (locals d inside)
  simp only [rename, lexemes, tail, bodyLexemes, resultLexeme, locals,
    Parameter.rowOf_rename _ parameters, s.body.lexemes_rename body] at result ⊢
  simp [name rfl, result]

end Spares

/-! ### All identifiers are mentioned -/

mutual

theorem Term.names_mentions (t : Term) :
    t.mentions.map Mention.name = Lexeme.names t.lexemes := by
  cases t with
  | integer digits value => rfl
  | string content => rfl
  | constant word => rfl
  | var name => rfl
  | element base index => simp [Term.mentions, Term.lexemes, index.names_mentions]
  | call call => exact call.names_mentions
  | group inner => simp [Term.mentions, Term.lexemes, inner.names_mentions]
  | unary op operand => simp [Term.mentions, Term.lexemes, operand.names_mentions]
termination_by structural t

theorem Expression.names_mentions (e : Expression) :
    e.mentions.map Mention.name = Lexeme.names e.lexemes := by
  cases e with
  | of first rest =>
      simp [Expression.mentions, Expression.lexemes, first.names_mentions, rest.names_mentions]
termination_by structural e

theorem Operations.names_mentions (rest : Operations) :
    rest.mentions.map Mention.name = Lexeme.names rest.lexemes := by
  cases rest with
  | nil => rfl
  | cons op operand rest =>
      simp [Operations.mentions, Operations.lexemes, operand.names_mentions, rest.names_mentions]
termination_by structural rest

theorem Call.names_mentions (call : Call) :
    call.mentions.map Mention.name = Lexeme.names call.lexemes := by
  cases call with
  | own name arguments => simp [Call.mentions, Call.lexemes, arguments.names_mentions]
  | qualified qualifier name arguments =>
      simp [Call.mentions, Call.lexemes, arguments.names_mentions]
termination_by structural call

theorem Arguments.names_mentions (arguments : Arguments) :
    arguments.mentions.map Mention.name = Lexeme.names arguments.lexemes := by
  cases arguments with
  | nil => rfl
  | cons first rest =>
      simp [Arguments.mentions, Arguments.lexemes, first.names_mentions,
        rest.names_mentions_more]
termination_by structural arguments

theorem Arguments.names_mentions_more (arguments : Arguments) :
    arguments.mentions.map Mention.name = Lexeme.names arguments.moreLexemes := by
  cases arguments with
  | nil => rfl
  | cons first rest =>
      simp [Arguments.mentions, Arguments.moreLexemes, first.names_mentions,
        rest.names_mentions_more]
termination_by structural arguments

end

mutual

theorem Statement.names_mentions (st : Statement) :
    st.mentions.map Mention.name = Lexeme.names st.lexemes := by
  cases st with
  | assign target value => simp [Statement.mentions, Statement.lexemes, value.names_mentions]
  | store base index value =>
      simp [Statement.mentions, Statement.lexemes, index.names_mentions, value.names_mentions]
  | branch condition body =>
      simp [Statement.mentions, Statement.lexemes, condition.names_mentions, body.names_mentions]
  | branchElse condition body other =>
      simp [Statement.mentions, Statement.lexemes, condition.names_mentions, body.names_mentions,
        other.names_mentions]
  | loop condition body =>
      simp [Statement.mentions, Statement.lexemes, condition.names_mentions, body.names_mentions]
  | perform call => simp [Statement.mentions, Statement.lexemes, call.names_mentions]
  | ret value =>
      cases value with
      | none => rfl
      | some value => simp [Statement.mentions, Statement.lexemes, value.names_mentions]
termination_by structural st

theorem Statements.names_mentions (ss : Statements) :
    ss.mentions.map Mention.name = Lexeme.names ss.lexemes := by
  cases ss with
  | nil => rfl
  | cons first rest =>
      simp [Statements.mentions, Statements.lexemes, first.names_mentions, rest.names_mentions]
termination_by structural ss

end

theorem TypeName.names_mentions (type : TypeName) :
    type.mentions.map Mention.name = Lexeme.names [type.lexeme] := by
  cases type <;> rfl

theorem Declaration.names_mentions (word : Keyword) (d : Declaration) :
    d.mentions.map Mention.name = Lexeme.names (d.lexemes word) := by
  have more : Lexeme.names (moreLexemes d.more) = d.more := by
    rw [moreLexemes, Lexeme.names_flatMap]
    exact List.flatMap_singleton' d.more
  rw [Declaration.lexemes, Declaration.tail, Lexeme.names_keyword,
    Lexeme.names_cons d.type.lexeme, Declaration.mentions, List.map_append,
    d.type.names_mentions, List.map_map]
  simp [names, more, Function.comp_def]

theorem Parameter.names_mentions (p : Parameter) :
    p.mentions.map Mention.name = Lexeme.names p.lexemes := by
  rw [Parameter.lexemes, Lexeme.names_cons p.type.lexeme, Parameter.mentions, List.map_append,
    p.type.names_mentions]
  rfl

theorem Parameter.names_mentions_row (ps : List Parameter) :
    (ps.flatMap Parameter.mentions).map Mention.name = Lexeme.names (Parameter.rowOf ps) := by
  have more (ps : List Parameter) :
      (ps.flatMap Parameter.mentions).map Mention.name = Lexeme.names (moreLexemes ps) := by
    rw [moreLexemes, Lexeme.names_flatMap, List.map_flatMap]
    exact List.flatMap_congr fun p _ => p.names_mentions
  cases ps with
  | nil => rfl
  | cons first ps =>
      rw [List.flatMap_cons, List.map_append, first.names_mentions, more, rowOf,
        Lexeme.names_append]

/-- The mentions of a subroutine are the identifiers of its row, one for one and in order. -/
theorem Subroutine.names_mentions (s : Subroutine) :
    s.mentions.map Mention.name = Lexeme.names s.lexemes := by
  have result : s.resultMentions.map Mention.name = Lexeme.names [s.resultLexeme] := by
    unfold resultMentions resultLexeme
    cases s.result with
    | none => rfl
    | some type => exact type.names_mentions
  have locals : (s.locals.flatMap Declaration.mentions).map Mention.name =
      Lexeme.names (s.locals.flatMap (Declaration.lexemes .varWord)) := by
    rw [Lexeme.names_flatMap, List.map_flatMap]
    exact List.flatMap_congr fun d _ => d.names_mentions .varWord
  rw [lexemes, tail, bodyLexemes, Lexeme.names_keyword, Lexeme.names_cons s.resultLexeme,
    mentions, List.map_append, List.map_cons, List.map_append, List.map_append, result, locals,
    Parameter.names_mentions_row, s.body.names_mentions]
  simp

end Tree

end Jack
