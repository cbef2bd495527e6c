import Jack.Proofs.Recognizing

/-! # The grammar

The productions of the language as data, what they derive, and that the rows derived from
the start symbol are those of the syntax trees. No row belongs to two trees. Together
with what goals read this says which sources compile.
-/

namespace Jack

/-- The names of the productions. -/
inductive Category where
  | classDec | classVarDec | typeName | subroutineDec | parameterList | subroutineBody | varDec
  | statements | statement
  | letStatement | ifStatement | whileStatement | doStatement | returnStatement
  | expression | term | subroutineCall | expressionList | keywordConstant | op | unaryOp
  deriving Repr, DecidableEq

/-- A right side of a production. -/
inductive Pattern where
  | empty
  | word (word : Keyword)
  | mark (mark : Symbol)
  | identifier
  | integerConstant
  | stringConstant
  | category (c : Category)
  | seq (first second : Pattern)
  | either (first second : Pattern)
  | many (p : Pattern)
  deriving Repr, DecidableEq

namespace Pattern

/-- The first and all the others, one after the other. -/
def all (first : Pattern) : List Pattern → Pattern
  | [] => first
  | p :: ps => .seq first (all p ps)

/-- The first or one of the others. -/
def any (first : Pattern) : List Pattern → Pattern
  | [] => first
  | p :: ps => .either first (any p ps)

def optional (p : Pattern) : Pattern :=
  .either .empty p

end Pattern

open Pattern in
/-- The right side of each production. -/
def Category.production : Category → Pattern
  | .classDec =>
    all (.word .classWord) [.identifier, .mark .openBrace, .many (.category .classVarDec),
      .many (.category .subroutineDec), .mark .closeBrace]
  | .classVarDec =>
    all (any (.word .staticWord) [.word .fieldWord]) [.category .typeName, .identifier,
      .many (all (.mark .comma) [.identifier]), .mark .semicolon]
  | .typeName => any (.word .intWord) [.word .charWord, .word .booleanWord, .identifier]
  | .subroutineDec =>
    all (any (.word .constructorWord) [.word .functionWord, .word .methodWord])
      [any (.word .voidWord) [.category .typeName], .identifier, .mark .openParen,
        .category .parameterList, .mark .closeParen, .category .subroutineBody]
  | .parameterList =>
    optional (all (.category .typeName) [.identifier,
      .many (all (.mark .comma) [.category .typeName, .identifier])])
  | .subroutineBody =>
    all (.mark .openBrace) [.many (.category .varDec), .category .statements, .mark .closeBrace]
  | .varDec =>
    all (.word .varWord) [.category .typeName, .identifier,
      .many (all (.mark .comma) [.identifier]), .mark .semicolon]
  | .statements => .many (.category .statement)
  | .statement =>
    any (.category .letStatement) [.category .ifStatement, .category .whileStatement,
      .category .doStatement, .category .returnStatement]
  | .letStatement =>
    all (.word .letWord) [.identifier,
      optional (all (.mark .openBracket) [.category .expression, .mark .closeBracket]),
      .mark .equals, .category .expression, .mark .semicolon]
  | .ifStatement =>
    all (.word .ifWord) [.mark .openParen, .category .expression, .mark .closeParen,
      .mark .openBrace, .category .statements, .mark .closeBrace,
      optional (all (.word .elseWord) [.mark .openBrace, .category .statements,
        .mark .closeBrace])]
  | .whileStatement =>
    all (.word .whileWord) [.mark .openParen, .category .expression, .mark .closeParen,
      .mark .openBrace, .category .statements, .mark .closeBrace]
  | .doStatement => all (.word .doWord) [.category .subroutineCall, .mark .semicolon]
  | .returnStatement =>
    all (.word .returnWord) [optional (.category .expression), .mark .semicolon]
  | .expression =>
    all (.category .term) [.many (all (.category .op) [.category .term])]
  | .term =>
    any .integerConstant [.stringConstant, .category .keywordConstant, .identifier,
      all .identifier [.mark .openBracket, .category .expression, .mark .closeBracket],
      .category .subroutineCall,
      all (.mark .openParen) [.category .expression, .mark .closeParen],
      all (.category .unaryOp) [.category .term]]
  | .subroutineCall =>
    any (all .identifier [.mark .openParen, .category .expressionList, .mark .closeParen])
      [all .identifier [.mark .dot, .identifier, .mark .openParen, .category .expressionList,
        .mark .closeParen]]
  | .expressionList =>
    optional (all (.category .expression) [.many (all (.mark .comma) [.category .expression])])
  | .keywordConstant =>
    any (.word .trueWord) [.word .falseWord, .word .nullWord, .word .thisWord]
  | .op =>
    any (.mark .plus) [.mark .minus, .mark .star, .mark .slash, .mark .ampersand, .mark .bar,
      .mark .less, .mark .greater, .mark .equals]
  | .unaryOp => any (.mark .minus) [.mark .tilde]

/-- Whether a row of lexemes is derived from a pattern. -/
inductive Derives : Pattern → List Lexeme → Prop where
  | empty : Derives .empty []
  | word (word : Keyword) : Derives (.word word) [.keyword word]
  | mark (mark : Symbol) : Derives (.mark mark) [.symbol mark]
  | identifier (name : String) : Derives .identifier [.identifier name]
  | integer (digits : String) (value : Nat) : Derives .integerConstant [.integer digits value]
  | string (content : String) : Derives .stringConstant [.string content]
  | category {c : Category} {row : List Lexeme} (h : Derives c.production row) :
      Derives (.category c) row
  | seq {p q : Pattern} {row more : List Lexeme} (first : Derives p row)
      (second : Derives q more) : Derives (.seq p q) (row ++ more)
  | left {p q : Pattern} {row : List Lexeme} (h : Derives p row) : Derives (.either p q) row
  | right {p q : Pattern} {row : List Lexeme} (h : Derives q row) : Derives (.either p q) row
  | none {p : Pattern} : Derives (.many p) []
  | more {p : Pattern} {row rest : List Lexeme} (first : Derives p row)
      (later : Derives (.many p) rest) : Derives (.many p) (row ++ rest)

open Jack.Tree

/-! ### From derivations to trees -/

/-- The rows of the trees of a category. -/
def Category.Spells (row : List Lexeme) : Category → Prop
  | .classDec => ∃ c : Tree.Class, row = c.lexemes
  | .classVarDec => ∃ v : ClassVariables, row = v.lexemes
  | .typeName => ∃ type : TypeName, row = [type.lexeme]
  | .subroutineDec => ∃ sub : Subroutine, row = sub.lexemes
  | .parameterList => ∃ ps : List Parameter, row = Parameter.rowOf ps
  | .subroutineBody =>
    ∃ (locals : List Declaration) (body : Statements), row = .symbol .openBrace ::
      (locals.flatMap (Declaration.lexemes .varWord) ++ (body.lexemes ++ [.symbol .closeBrace]))
  | .varDec => ∃ d : Declaration, row = d.lexemes .varWord
  | .statements => ∃ ss : Statements, row = ss.lexemes
  | .statement | .letStatement | .ifStatement | .whileStatement | .doStatement
  | .returnStatement => ∃ st : Statement, row = st.lexemes
  | .expression => ∃ e : Expression, row = e.lexemes
  | .term => ∃ t : Term, row = t.lexemes
  | .subroutineCall => ∃ call : Tree.Call, row = call.lexemes
  | .expressionList => ∃ arguments : Arguments, row = arguments.lexemes
  | .keywordConstant => ∃ word : Constant, row = [.keyword word.keyword]
  | .op => ∃ op : BinaryOp, row = [.symbol op.symbol]
  | .unaryOp => ∃ op : UnaryOp, row = [.symbol op.symbol]

/-- The rows of a pattern, given those of the categories in it. -/
def Pattern.Spells (row : List Lexeme) : Pattern → Prop
  | .empty => row = []
  | .word k => row = [.keyword k]
  | .mark m => row = [.symbol m]
  | .identifier => ∃ name, row = [.identifier name]
  | .integerConstant => ∃ digits value, row = [.integer digits value]
  | .stringConstant => ∃ content, row = [.string content]
  | .category c => c.Spells row
  | .seq p q => ∃ first second, row = first ++ second ∧ p.Spells first ∧ q.Spells second
  | .either p q => p.Spells row ∨ q.Spells row
  | .many p => ∃ rows : List (List Lexeme), row = rows.flatten ∧ ∀ r ∈ rows, p.Spells r

/-- A row of things that are written alike is a row of things. -/
theorem exists_of_many {α : Type} {f : α → List Lexeme} {rows : List (List Lexeme)}
    (h : ∀ row ∈ rows, ∃ a, row = f a) : ∃ as : List α, rows.flatten = as.flatMap f := by
  induction rows with
  | nil => exact ⟨[], rfl⟩
  | cons row rows ih =>
      obtain ⟨a, rfl⟩ := h row (List.mem_cons_self ..)
      obtain ⟨as, rest⟩ := ih fun other inside => h other (List.mem_cons_of_mem _ inside)
      exact ⟨a :: as, by rw [List.flatten_cons, rest, List.flatMap_cons]⟩

theorem exists_names_of_many {rows : List (List Lexeme)}
    (h : ∀ row ∈ rows, ∃ first second, row = first ++ second ∧ first = [.symbol .comma] ∧
      ∃ name, second = [.identifier name]) :
    ∃ names, rows.flatten = Declaration.moreLexemes names := by
  refine exists_of_many fun row inside => ?_
  obtain ⟨_, _, rfl, rfl, name, rfl⟩ := h row inside
  exact ⟨name, rfl⟩

theorem exists_statements_of_many {rows : List (List Lexeme)}
    (h : ∀ row ∈ rows, ∃ st : Statement, row = st.lexemes) :
    ∃ ss : Statements, rows.flatten = ss.lexemes := by
  induction rows with
  | nil => exact ⟨.nil, rfl⟩
  | cons row rows ih =>
      obtain ⟨st, rfl⟩ := h row (List.mem_cons_self ..)
      obtain ⟨ss, rest⟩ := ih fun other inside => h other (List.mem_cons_of_mem _ inside)
      exact ⟨.cons st ss, by rw [List.flatten_cons, rest, Statements.lexemes]⟩

theorem exists_operations_of_many {rows : List (List Lexeme)}
    (h : ∀ row ∈ rows, ∃ first second, row = first ++ second ∧
      (∃ op : BinaryOp, first = [.symbol op.symbol]) ∧ ∃ t : Term, second = t.lexemes) :
    ∃ rest : Operations, rows.flatten = rest.lexemes := by
  induction rows with
  | nil => exact ⟨.nil, rfl⟩
  | cons row rows ih =>
      obtain ⟨_, _, rfl, ⟨op, rfl⟩, t, rfl⟩ := h row (List.mem_cons_self ..)
      obtain ⟨more, rest⟩ := ih fun other inside => h other (List.mem_cons_of_mem _ inside)
      exact ⟨.cons op t more, by rw [List.flatten_cons, rest]; rfl⟩

theorem exists_arguments_of_many {rows : List (List Lexeme)}
    (h : ∀ row ∈ rows, ∃ first second, row = first ++ second ∧ first = [.symbol .comma] ∧
      ∃ e : Expression, second = e.lexemes) :
    ∃ arguments : Arguments, rows.flatten = arguments.moreLexemes := by
  induction rows with
  | nil => exact ⟨.nil, rfl⟩
  | cons row rows ih =>
      obtain ⟨_, _, rfl, rfl, e, rfl⟩ := h row (List.mem_cons_self ..)
      obtain ⟨more, rest⟩ := ih fun other inside => h other (List.mem_cons_of_mem _ inside)
      exact ⟨.cons e more, by rw [List.flatten_cons, rest]; rfl⟩

/-- What the right side of a production spells, its category spells. -/
theorem Category.spells_of_production {c : Category} {row : List Lexeme}
    (h : c.production.Spells row) : c.Spells row := by
  cases c with
  | classDec =>
      obtain ⟨_, _, rfl, rfl, _, _, rfl, ⟨name, rfl⟩, _, _, rfl, rfl, _, _, rfl, ⟨rows, rfl, vars⟩,
        _, _, rfl, ⟨rows', rfl, subs⟩, rfl⟩ := h
      obtain ⟨vs, vars⟩ := exists_of_many vars
      obtain ⟨subs, all⟩ := exists_of_many subs
      exact ⟨⟨name, vs, subs⟩, by rw [vars, all]; rfl⟩
  | classVarDec =>
      obtain ⟨_, _, rfl, first, _, _, rfl, ⟨type, rfl⟩, _, _, rfl, ⟨name, rfl⟩,
        _, _, rfl, ⟨rows, rfl, names⟩, rfl⟩ := h
      obtain ⟨names, more⟩ := exists_names_of_many names
      rcases first with rfl | rfl
      · exact ⟨⟨.static, type, name, names⟩, by rw [more]; rfl⟩
      · exact ⟨⟨.field, type, name, names⟩, by rw [more]; rfl⟩
  | typeName =>
      rcases h with rfl | rfl | rfl | ⟨name, rfl⟩
      · exact ⟨.int, rfl⟩
      · exact ⟨.char, rfl⟩
      · exact ⟨.boolean, rfl⟩
      · exact ⟨.object name, rfl⟩
  | subroutineDec =>
      obtain ⟨word, _, rfl, first, _, _, rfl, result, _, _, rfl, ⟨name, rfl⟩, _, _, rfl, rfl,
        _, _, rfl, ⟨ps, rfl⟩, _, _, rfl, rfl, ds, body, rfl⟩ := h
      have start : ∃ kind, word = [Lexeme.keyword (keywordOf kind)] := by
        rcases first with rfl | rfl | rfl
        · exact ⟨.constructor, rfl⟩
        · exact ⟨.function, rfl⟩
        · exact ⟨.method, rfl⟩
      obtain ⟨kind, rfl⟩ := start
      rcases result with rfl | ⟨type, rfl⟩
      · exact ⟨⟨kind, none, name, ps, ds, body⟩, rfl⟩
      · exact ⟨⟨kind, some type, name, ps, ds, body⟩, rfl⟩
  | parameterList =>
      rcases h with rfl | ⟨_, _, rfl, ⟨type, rfl⟩, _, _, rfl, ⟨name, rfl⟩, rows, rfl, more⟩
      · exact ⟨[], rfl⟩
      · obtain ⟨ps, more⟩ : ∃ ps : List Parameter, rows.flatten = Parameter.moreLexemes ps := by
          refine exists_of_many fun row inside => ?_
          obtain ⟨_, _, rfl, rfl, _, _, rfl, ⟨type, rfl⟩, name, rfl⟩ := more row inside
          exact ⟨⟨type, name⟩, rfl⟩
        exact ⟨⟨type, name⟩ :: ps, by rw [more]; rfl⟩
  | subroutineBody =>
      obtain ⟨_, _, rfl, rfl, _, _, rfl, ⟨rows, rfl, vars⟩, _, _, rfl, ⟨body, rfl⟩, rfl⟩ := h
      obtain ⟨ds, vars⟩ := exists_of_many vars
      exact ⟨ds, body, by rw [vars]; rfl⟩
  | varDec =>
      obtain ⟨_, _, rfl, rfl, _, _, rfl, ⟨type, rfl⟩, _, _, rfl, ⟨name, rfl⟩,
        _, _, rfl, ⟨rows, rfl, names⟩, rfl⟩ := h
      obtain ⟨names, more⟩ := exists_names_of_many names
      exact ⟨⟨type, name, names⟩, by rw [more]; rfl⟩
  | statements =>
      obtain ⟨rows, rfl, each⟩ := h
      exact exists_statements_of_many each
  | statement =>
      rcases h with st | st | st | st | st
      all_goals exact st
  | letStatement =>
      obtain ⟨_, _, rfl, rfl, _, _, rfl, ⟨name, rfl⟩, _, _, rfl, index, _, _, rfl, rfl,
        _, _, rfl, ⟨value, rfl⟩, rfl⟩ := h
      rcases index with rfl | ⟨_, _, rfl, rfl, _, _, rfl, ⟨index, rfl⟩, rfl⟩
      · exact ⟨.assign name value, rfl⟩
      · exact ⟨.store name index value, by simp [Statement.lexemes]⟩
  | ifStatement =>
      obtain ⟨_, _, rfl, rfl, _, _, rfl, rfl, _, _, rfl, ⟨condition, rfl⟩, _, _, rfl, rfl,
        _, _, rfl, rfl, _, _, rfl, ⟨body, rfl⟩, _, _, rfl, rfl, other⟩ := h
      rcases other with rfl | ⟨_, _, rfl, rfl, _, _, rfl, rfl, _, _, rfl, ⟨other, rfl⟩, rfl⟩
      · exact ⟨.branch condition body, rfl⟩
      · exact ⟨.branchElse condition body other, rfl⟩
  | whileStatement =>
      obtain ⟨_, _, rfl, rfl, _, _, rfl, rfl, _, _, rfl, ⟨condition, rfl⟩, _, _, rfl, rfl,
        _, _, rfl, rfl, _, _, rfl, ⟨body, rfl⟩, rfl⟩ := h
      exact ⟨.loop condition body, rfl⟩
  | doStatement =>
      obtain ⟨_, _, rfl, rfl, _, _, rfl, ⟨call, rfl⟩, rfl⟩ := h
      exact ⟨.perform call, rfl⟩
  | returnStatement =>
      obtain ⟨_, _, rfl, rfl, _, _, rfl, rfl | ⟨value, rfl⟩, rfl⟩ := h
      · exact ⟨.ret none, rfl⟩
      · exact ⟨.ret (some value), rfl⟩
  | expression =>
      obtain ⟨_, _, rfl, ⟨first, rfl⟩, rows, rfl, each⟩ := h
      obtain ⟨rest, more⟩ := exists_operations_of_many each
      exact ⟨.of first rest, by rw [more]; rfl⟩
  | term =>
      rcases h with ⟨digits, value, rfl⟩ | ⟨content, rfl⟩ | ⟨word, rfl⟩ | ⟨name, rfl⟩ |
        ⟨_, _, rfl, ⟨name, rfl⟩, _, _, rfl, rfl, _, _, rfl, ⟨index, rfl⟩, rfl⟩ | ⟨call, rfl⟩ |
        ⟨_, _, rfl, rfl, _, _, rfl, ⟨inner, rfl⟩, rfl⟩ | ⟨_, _, rfl, ⟨op, rfl⟩, operand, rfl⟩
      · exact ⟨.integer digits value, rfl⟩
      · exact ⟨.string content, rfl⟩
      · exact ⟨.constant word, rfl⟩
      · exact ⟨.var name, rfl⟩
      · exact ⟨.element name index, rfl⟩
      · exact ⟨.call call, rfl⟩
      · exact ⟨.group inner, rfl⟩
      · exact ⟨.unary op operand, rfl⟩
  | subroutineCall =>
      rcases h with ⟨_, _, rfl, ⟨name, rfl⟩, _, _, rfl, rfl, _, _, rfl, ⟨arguments, rfl⟩, rfl⟩ |
        ⟨_, _, rfl, ⟨qualifier, rfl⟩, _, _, rfl, rfl, _, _, rfl, ⟨name, rfl⟩, _, _, rfl, rfl,
          _, _, rfl, ⟨arguments, rfl⟩, rfl⟩
      · exact ⟨.own name arguments, rfl⟩
      · exact ⟨.qualified qualifier name arguments, rfl⟩
  | expressionList =>
      rcases h with rfl | ⟨_, _, rfl, ⟨first, rfl⟩, rows, rfl, each⟩
      · exact ⟨.nil, rfl⟩
      · obtain ⟨rest, more⟩ := exists_arguments_of_many each
        exact ⟨.cons first rest, by rw [more]; rfl⟩
  | keywordConstant =>
      rcases h with rfl | rfl | rfl | rfl
      · exact ⟨.trueWord, rfl⟩
      · exact ⟨.falseWord, rfl⟩
      · exact ⟨.nullWord, rfl⟩
      · exact ⟨.thisWord, rfl⟩
  | op =>
      rcases h with rfl | rfl | rfl | rfl | rfl | rfl | rfl | rfl | rfl
      · exact ⟨.add, rfl⟩
      · exact ⟨.subtract, rfl⟩
      · exact ⟨.multiply, rfl⟩
      · exact ⟨.divide, rfl⟩
      · exact ⟨.and, rfl⟩
      · exact ⟨.or, rfl⟩
      · exact ⟨.less, rfl⟩
      · exact ⟨.greater, rfl⟩
      · exact ⟨.equal, rfl⟩
  | unaryOp =>
      rcases h with rfl | rfl
      · exact ⟨.negate, rfl⟩
      · exact ⟨.not, rfl⟩

/-- What a pattern derives, it spells. -/
theorem Derives.spells {p : Pattern} {row : List Lexeme} (h : Derives p row) : p.Spells row := by
  induction h with
  | empty => rfl
  | word word => rfl
  | mark mark => rfl
  | identifier name => exact ⟨name, rfl⟩
  | integer digits value => exact ⟨digits, value, rfl⟩
  | string content => exact ⟨content, rfl⟩
  | category _ ih => exact Category.spells_of_production ih
  | seq _ _ ih ih' => exact ⟨_, _, rfl, ih, ih'⟩
  | left _ ih => exact .inl ih
  | right _ ih => exact .inr ih
  | none => exact ⟨[], rfl, fun _ inside => (List.not_mem_nil inside).elim⟩
  | more _ _ ih ih' =>
      obtain ⟨rows, rfl, each⟩ := ih'
      refine ⟨_ :: rows, rfl, ?_⟩
      intro row inside
      rcases List.mem_cons.mp inside with rfl | inside
      · exact ih
      · exact each row inside

/-! ### From trees to derivations -/

namespace Derives

theorem many_of_flatMap {α : Type} {f : α → List Lexeme} {p : Pattern} {as : List α}
    (h : ∀ a ∈ as, Derives p (f a)) : Derives (.many p) (as.flatMap f) := by
  induction as with
  | nil => exact .none
  | cons a as ih =>
      exact .more (h a (List.mem_cons_self ..))
        (ih fun b inside => h b (List.mem_cons_of_mem a inside))

theorem typeName (type : TypeName) : Derives (.category .typeName) [type.lexeme] := by
  apply category
  cases type with
  | int => exact .left (.word _)
  | char => exact .right (.left (.word _))
  | boolean => exact .right (.right (.left (.word _)))
  | object name => exact .right (.right (.right (.identifier name)))

theorem op (op : BinaryOp) : Derives (.category .op) [.symbol op.symbol] := by
  apply category
  cases op with
  | add => exact .left (.mark _)
  | subtract => exact .right (.left (.mark _))
  | multiply => exact .right (.right (.left (.mark _)))
  | divide => exact .right (.right (.right (.left (.mark _))))
  | and => exact .right (.right (.right (.right (.left (.mark _)))))
  | or => exact .right (.right (.right (.right (.right (.left (.mark _))))))
  | less => exact .right (.right (.right (.right (.right (.right (.left (.mark _)))))))
  | greater => exact .right (.right (.right (.right (.right (.right (.right (.left (.mark _))))))))
  | equal => exact .right (.right (.right (.right (.right (.right (.right (.right (.mark _))))))))

theorem unaryOp (op : UnaryOp) : Derives (.category .unaryOp) [.symbol op.symbol] := by
  apply category
  cases op with
  | negate => exact .left (.mark _)
  | not => exact .right (.mark _)

theorem constant (word : Constant) :
    Derives (.category .keywordConstant) [.keyword word.keyword] := by
  apply category
  cases word with
  | trueWord => exact .left (.word _)
  | falseWord => exact .right (.left (.word _))
  | nullWord => exact .right (.right (.left (.word _)))
  | thisWord => exact .right (.right (.right (.word _)))

mutual

theorem term (t : Term) : Derives (.category .term) t.lexemes := by
  apply category
  cases t with
  | integer digits value => exact .left (.integer digits value)
  | string content => exact .right (.left (.string content))
  | constant word => exact .right (.right (.left (constant word)))
  | var name => exact .right (.right (.right (.left (.identifier name))))
  | element base index =>
      exact .right (.right (.right (.right (.left
        (.seq (.identifier base) (.seq (.mark _) (.seq (expression index) (.mark _))))))))
  | call call => exact .right (.right (.right (.right (.right (.left (subroutineCall call))))))
  | group inner =>
      exact .right (.right (.right (.right (.right (.right (.left
        (.seq (.mark _) (.seq (expression inner) (.mark _)))))))))
  | unary op operand =>
      exact .right (.right (.right (.right (.right (.right (.right
        (.seq (unaryOp op) (term operand))))))))
termination_by structural t

theorem expression (e : Expression) : Derives (.category .expression) e.lexemes := by
  apply category
  cases e with
  | of first rest => exact .seq (term first) (operations rest)
termination_by structural e

theorem operations (rest : Operations) :
    Derives (.many (.seq (.category .op) (.category .term))) rest.lexemes := by
  cases rest with
  | nil => exact .none
  | cons o operand rest => exact .more (.seq (op o) (term operand)) (operations rest)
termination_by structural rest

theorem subroutineCall (call : Tree.Call) :
    Derives (.category .subroutineCall) call.lexemes := by
  apply category
  cases call with
  | own name arguments =>
      exact .left (.seq (.identifier name)
        (.seq (.mark _) (.seq (expressionList arguments) (.mark _))))
  | qualified qualifier name arguments =>
      exact .right (.seq (.identifier qualifier) (.seq (.mark _) (.seq (.identifier name)
        (.seq (.mark _) (.seq (expressionList arguments) (.mark _))))))
termination_by structural call

theorem expressionList (arguments : Arguments) :
    Derives (.category .expressionList) arguments.lexemes := by
  apply category
  cases arguments with
  | nil => exact .left .empty
  | cons first rest => exact .right (.seq (expression first) (moreExpressions rest))
termination_by structural arguments

theorem moreExpressions (arguments : Arguments) :
    Derives (.many (.seq (.mark .comma) (.category .expression))) arguments.moreLexemes := by
  cases arguments with
  | nil => exact .none
  | cons first rest =>
      exact .more (.seq (.mark _) (expression first)) (moreExpressions rest)
termination_by structural arguments

end

mutual

theorem statement (st : Statement) : Derives (.category .statement) st.lexemes := by
  apply category
  cases st with
  | assign target value =>
      exact .left (.category (.seq (.word _) (.seq (.identifier target) (.seq (.left .empty)
        (.seq (.mark _) (.seq (expression value) (.mark _)))))))
  | store base index value =>
      have whole : (Statement.store base index value).lexemes =
          .keyword .letWord :: .identifier base ::
            ((.symbol .openBracket :: (index.lexemes ++ [.symbol .closeBracket])) ++
              .symbol .equals :: (value.lexemes ++ [.symbol .semicolon])) := by
        simp [Statement.lexemes]
      rw [whole]
      exact .left (.category (.seq (.word _) (.seq (.identifier base)
        (.seq (.right (.seq (.mark _) (.seq (expression index) (.mark _))))
          (.seq (.mark _) (.seq (expression value) (.mark _)))))))
  | branch condition body =>
      exact .right (.left (.category (.seq (.word _) (.seq (.mark _) (.seq (expression condition)
        (.seq (.mark _) (.seq (.mark _) (.seq (statements body) (.seq (.mark _)
          (.left .empty))))))))))
  | branchElse condition body other =>
      exact .right (.left (.category (.seq (.word _) (.seq (.mark _) (.seq (expression condition)
        (.seq (.mark _) (.seq (.mark _) (.seq (statements body) (.seq (.mark _)
          (.right (.seq (.word _) (.seq (.mark _) (.seq (statements other)
            (.mark _))))))))))))))
  | loop condition body =>
      exact .right (.right (.left (.category (.seq (.word _) (.seq (.mark _)
        (.seq (expression condition) (.seq (.mark _) (.seq (.mark _) (.seq (statements body)
          (.mark _))))))))))
  | perform call =>
      exact .right (.right (.right (.left (.category (.seq (.word _)
        (.seq (subroutineCall call) (.mark _)))))))
  | ret value =>
      cases value with
      | none =>
          exact .right (.right (.right (.right (.category (.seq (.word _)
            (.seq (.left .empty) (.mark _)))))))
      | some value =>
          exact .right (.right (.right (.right (.category (.seq (.word _)
            (.seq (.right (expression value)) (.mark _)))))))
termination_by structural st

theorem statements (ss : Statements) : Derives (.category .statements) ss.lexemes := by
  apply category
  cases ss with
  | nil => exact .none
  | cons first rest =>
      cases statements rest with
      | category later => exact .more (statement first) later
termination_by structural ss

end

theorem names (names : List String) :
    Derives (.many (.seq (.mark .comma) .identifier)) (Declaration.moreLexemes names) :=
  many_of_flatMap fun name _ => .seq (.mark _) (.identifier name)

theorem classVarDec (v : ClassVariables) : Derives (.category .classVarDec) v.lexemes := by
  have rest := Derives.seq (typeName v.declaration.type) (.seq (.identifier v.declaration.first)
    (.seq (names v.declaration.more) (.mark .semicolon)))
  apply category
  obtain ⟨keeping, d⟩ := v
  cases keeping with
  | static => exact .seq (.left (.word _)) rest
  | field => exact .seq (.right (.word _)) rest

theorem varDec (d : Declaration) : Derives (.category .varDec) (d.lexemes .varWord) :=
  .category (.seq (.word _) (.seq (typeName d.type) (.seq (.identifier d.first)
    (.seq (names d.more) (.mark _)))))

theorem parameterList (ps : List Parameter) :
    Derives (.category .parameterList) (Parameter.rowOf ps) := by
  have more (ps : List Parameter) :
      Derives (.many (.seq (.mark .comma) (.seq (.category .typeName) .identifier)))
        (Parameter.moreLexemes ps) :=
    many_of_flatMap fun p _ => .seq (.mark _) (.seq (typeName p.type) (.identifier p.name))
  apply category
  cases ps with
  | nil => exact .left .empty
  | cons p ps =>
      have first := Derives.seq (typeName p.type) (.seq (.identifier p.name) (more ps))
      exact .right first

theorem subroutineBody (sub : Subroutine) :
    Derives (.category .subroutineBody) sub.bodyLexemes :=
  .category (.seq (.mark _) (.seq (many_of_flatMap fun d _ => varDec d)
    (.seq (statements sub.body) (.mark _))))

theorem subroutineDec (sub : Subroutine) : Derives (.category .subroutineDec) sub.lexemes := by
  have word : Derives (.any (.word .constructorWord) [.word .functionWord, .word .methodWord])
      [.keyword (keywordOf sub.kind)] := by
    cases sub.kind with
    | constructor => exact .left (.word _)
    | function => exact .right (.left (.word _))
    | method => exact .right (.right (.word _))
  have result : Derives (.any (.word .voidWord) [.category .typeName]) [sub.resultLexeme] := by
    unfold Subroutine.resultLexeme
    cases sub.result with
    | none => exact .left (.word _)
    | some type => exact .right (typeName type)
  exact .category (.seq word (.seq result (.seq (.identifier sub.name) (.seq (.mark _)
    (.seq (parameterList sub.parameters) (.seq (.mark _) (subroutineBody sub)))))))

theorem classDec (c : Tree.Class) : Derives (.category .classDec) c.lexemes :=
  .category (.seq (.word _) (.seq (.identifier c.name) (.seq (.mark _)
    (.seq (many_of_flatMap fun v _ => classVarDec v)
      (.seq (many_of_flatMap fun sub _ => subroutineDec sub) (.mark _))))))

/-- The rows derived from the start symbol are those of the classes. -/
theorem classDec_iff {row : List Lexeme} :
    Derives (.category .classDec) row ↔ ∃ c : Tree.Class, c.lexemes = row := by
  constructor
  · intro h
    obtain ⟨c, rfl⟩ := h.spells
    exact ⟨c, rfl⟩
  · rintro ⟨c, rfl⟩
    exact classDec c

end Derives

end Jack
