import Jack.Proofs.Compiling

/-! # What goals read

A goal that was reached has read the row of a tree of its own kind, whose names the scope
resolves. One lemma for each goal says so for the token it passes, given what the goals
read that it was passed for; a run is put together from these along the stack of goals.
-/

namespace Jack

open Jack.Tree

/-- Two scopes in the same class. -/
def Scope.SameClass (s s' : Scope) : Prop :=
  s'.className = s.className ∧ s'.classTable = s.classTable

/-- The scope behind declarations that change one of its tables. -/
def Scope.update (s : Scope) (level : Scope.Level) (f : SymbolTable → SymbolTable) : Scope :=
  s.setTable level (f (s.table level))

theorem Scope.update_update (s : Scope) (level : Scope.Level) (f g : SymbolTable → SymbolTable) :
    (s.update level f).update level g = s.update level fun t => g (f t) := by
  simp [update]

/-- A row of a statement whose names are declared, and the scope behind it. -/
def Scope.Executes (s : Scope) (row : List Lexeme) (s' : Scope) : Prop :=
  ∃ st : Statement, row = st.lexemes ∧ s.frame.Resolves st.uses ∧
    s' = s.counted st.branches st.loops

namespace Goal

/-- The rows that a goal can read in a scope, and the scope behind it. -/
def Reads (s : Scope) (row : List Lexeme) (s' : Scope) : Goal → Prop
  | .classDeclaration =>
    s = .initial false → ∃ c : Tree.Class, row = c.lexemes ∧
      (∀ sub ∈ c.subroutines, (sub.frame c).Resolves sub.body.uses) ∧ s'.className = c.name
  | .className => ∃ name, row = [.identifier name] ∧ s' = { s with className := name }
  | .enterClass name => row = [] ∧ s' = { s with className := name }
  | .classVariables =>
    ∃ vs : List ClassVariables, row = vs.flatMap ClassVariables.lexemes ∧
      s' = s.update .classLevel (vs.foldl ClassVariables.declareIn)
  | .classVariable =>
    ∃ v : ClassVariables, row = v.lexemes ∧ s' = s.update .classLevel (ClassVariables.declareIn · v)
  | .variableType kind =>
    ∃ d : Declaration, row = d.tail ∧
      s' = s.update (Scope.levelOf kind) (·.defineAll d.names d.type.text kind)
  | .variableName type kind =>
    ∃ name, row = [.identifier name] ∧ s' = s.update (Scope.levelOf kind) (·.define name type kind)
  | .moreVariables type kind =>
    ∃ names, row = Declaration.moreLexemes names ++ [.symbol .semicolon] ∧
      s' = s.update (Scope.levelOf kind) (·.defineAll names type kind)
  | .declare name _ type kind =>
    row = [] ∧ s' = s.update (Scope.levelOf kind) (·.define name type kind)
  | .subroutines =>
    ∃ subs : List Subroutine, row = subs.flatMap Subroutine.lexemes ∧
      (∀ sub ∈ subs, (s.within sub).frame.Resolves sub.body.uses) ∧ s.SameClass s'
  | .subroutine =>
    ∃ sub : Subroutine, row = sub.lexemes ∧ (s.within sub).frame.Resolves sub.body.uses ∧
      s.SameClass s'
  | .resultType kind =>
    s.subroutineTable = .empty → ∃ sub : Subroutine, row = sub.resultLexeme :: sub.tail ∧
      sub.kind = kind ∧ (s.within sub).frame.Resolves sub.body.uses ∧ s.SameClass s'
  | .subroutineName kind =>
    s.subroutineTable = .empty → ∃ sub : Subroutine, row = sub.tail ∧
      sub.kind = kind ∧ (s.within sub).frame.Resolves sub.body.uses ∧ s.SameClass s'
  | .enterSubroutine name kind => row = [] ∧ s' = s.enterSubroutine name kind
  | .parameterList =>
    ∃ ps, row = Parameter.rowOf ps ∧
      s' = s.update .subroutineLevel (ps.foldl Parameter.declareIn)
  | .parameterType =>
    ∃ p : Parameter, row = p.lexemes ∧ s' = s.update .subroutineLevel (Parameter.declareIn · p)
  | .moreParameters =>
    ∃ ps, row = Parameter.moreLexemes ps ∧
      s' = s.update .subroutineLevel (ps.foldl Parameter.declareIn)
  | .subroutineBody =>
    ∃ (ds : List Declaration) (body : Statements),
      row = .symbol .openBrace :: (ds.flatMap (Declaration.lexemes .varWord) ++
        (body.lexemes ++ [.symbol .closeBrace])) ∧
      (s.update .subroutineLevel (ds.foldl Declaration.declareIn)).frame.Resolves body.uses ∧
      s.SameClass s'
  | .localVariables =>
    ∃ ds : List Declaration, row = ds.flatMap (Declaration.lexemes .varWord) ∧
      s' = s.update .subroutineLevel (ds.foldl Declaration.declareIn)
  | .localVariable =>
    ∃ d : Declaration, row = d.lexemes .varWord ∧
      s' = s.update .subroutineLevel (Declaration.declareIn · d)
  | .openBody | .endOfInput | .emit _ => row = [] ∧ s' = s
  | .statements =>
    ∃ ss : Statements, row = ss.lexemes ∧ s.frame.Resolves ss.uses ∧
      s' = s.counted ss.branches ss.loops
  | .letStatement | .ifStatement | .whileStatement | .doStatement | .returnStatement =>
    s.Executes row s'
  | .letTarget => s.Executes (.keyword .letWord :: row) s'
  | .assignment name _ => s.Executes (.keyword .letWord :: .identifier name :: row) s'
  | .elseBranch _ =>
    row = [] ∧ s' = s ∨ ∃ ss : Statements,
      row = .keyword .elseWord :: .symbol .openBrace :: (ss.lexemes ++ [.symbol .closeBrace]) ∧
      s.frame.Resolves ss.uses ∧ s' = s.counted ss.branches ss.loops
  | .returnValue => s.Executes (.keyword .returnWord :: row) s'
  | .expression => ∃ e : Expression, row = e.lexemes ∧ s.frame.Resolves e.uses ∧ s' = s
  | .operators => ∃ rest : Operations, row = rest.lexemes ∧ s.frame.Resolves rest.uses ∧ s' = s
  | .term => ∃ t : Term, row = t.lexemes ∧ s.frame.Resolves t.uses ∧ s' = s
  | .afterName name _ =>
    ∃ t : Term, .identifier name :: row = t.lexemes ∧ s.frame.Resolves t.uses ∧ s' = s
  | .call => ∃ c : Call, row = c.lexemes ∧ s.frame.Resolves c.uses ∧ s' = s
  | .callTail name =>
    ∃ c : Call, .identifier name :: row = c.lexemes ∧ s.frame.Resolves c.uses ∧ s' = s
  | .methodName qualifier =>
    ∃ c : Call, .identifier qualifier :: .symbol .dot :: row = c.lexemes ∧
      s.frame.Resolves c.uses ∧ s' = s
  | .qualifiedCall _ _ =>
    ∃ as : Arguments, row = .symbol .openParen :: (as.lexemes ++ [.symbol .closeParen]) ∧
      s.frame.Resolves as.uses ∧ s' = s
  | .arguments _ _ =>
    ∃ as : Arguments, row = as.lexemes ++ [.symbol .closeParen] ∧
      s.frame.Resolves as.uses ∧ s' = s
  | .moreArguments _ _ =>
    ∃ as : Arguments, row = as.moreLexemes ++ [.symbol .closeParen] ∧
      s.frame.Resolves as.uses ∧ s' = s
  | .expressionList => ∃ as : Arguments, row = as.lexemes ∧ s.frame.Resolves as.uses ∧ s' = s
  | .moreExpressions _ =>
    ∃ as : Arguments, row = as.moreLexemes ∧ s.frame.Resolves as.uses ∧ s' = s
  | .symbol mark => row = [.symbol mark] ∧ s' = s

/-- What goals read one after the other. -/
def ReadsAll : List Goal → Scope → List Lexeme → Scope → Prop
  | [], s, row, s' => row = [] ∧ s' = s
  | goal :: goals, s, row, s' =>
    ∃ first rest middle, row = first ++ rest ∧ goal.Reads s first middle ∧
      ReadsAll goals middle rest s'

end Goal

/-- Whether what a goal brings about with a lexeme in front is what the goal can read. -/
def Effect.Explains (goal : Goal) (l : Lexeme) (s : Scope) (e : Effect) : Prop :=
  match e.next with
  | none => goal.Reads s [] e.scope
  | some next =>
    ∀ row last, Goal.ReadsAll next e.scope row last → goal.Reads s (l :: row) last

namespace Goal

section Reads

variable {goal : Goal} {goals : List Goal} {l : Lexeme} {row : List Lexeme}
  {s s' last : Scope} {e : Effect}

theorem readsAll_cons_iff : ReadsAll (goal :: goals) s row last ↔
    ∃ first rest middle, row = first ++ rest ∧ goal.Reads s first middle ∧
      ReadsAll goals middle rest last :=
  Iff.rfl

theorem readsAll_append_iff {later : List Goal} : ReadsAll (goals ++ later) s row last ↔
    ∃ first rest middle, row = first ++ rest ∧ ReadsAll goals s first middle ∧
      ReadsAll later middle rest last := by
  induction goals generalizing s row with
  | nil =>
      constructor
      · intro h
        exact ⟨[], row, s, rfl, ⟨rfl, rfl⟩, h⟩
      · rintro ⟨first, rest, middle, rfl, ⟨rfl, rfl⟩, h⟩
        exact h
  | cons goal goals ih =>
      rw [List.cons_append, readsAll_cons_iff]
      constructor
      · rintro ⟨first, rest, middle, rfl, head, tail⟩
        obtain ⟨first', rest', middle', rfl, found, more⟩ := ih.mp tail
        exact ⟨first ++ first', rest', middle', (List.append_assoc ..).symm,
          ⟨first, first', middle, rfl, head, found⟩, more⟩
      · rintro ⟨_, rest, middle, rfl, ⟨first, first', middle', rfl, head, found⟩, more⟩
        exact ⟨first, first' ++ rest, middle', List.append_assoc .., head,
          ih.mpr ⟨first', rest, middle, rfl, found, more⟩⟩

theorem reads_of_readsAll (h : ReadsAll [goal] s row last) : goal.Reads s row last := by
  obtain ⟨first, _, _, rfl, reads, rfl, rfl⟩ := h
  rwa [List.append_nil]

theorem reads_of_readsAll_pair {next : Goal} (h : ReadsAll [goal, next] s row last) :
    ∃ first rest middle, row = first ++ rest ∧ goal.Reads s first middle ∧
      next.Reads middle rest last := by
  obtain ⟨first, rest, middle, whole, reads, later⟩ := h
  exact ⟨first, rest, middle, whole, reads, reads_of_readsAll later⟩

theorem readsAll_symbol {mark : Symbol} (h : ReadsAll (.symbol mark :: goals) s row last) :
    ∃ rest, row = .symbol mark :: rest ∧ ReadsAll goals s rest last := by
  obtain ⟨_, rest, _, rfl, ⟨rfl, rfl⟩, reads⟩ := h
  exact ⟨rest, rfl, reads⟩

theorem readsAll_emit {code : List Code} (h : ReadsAll (.emit code :: goals) s row last) :
    ReadsAll goals s row last := by
  obtain ⟨_, rest, _, rfl, ⟨rfl, rfl⟩, reads⟩ := h
  exact reads

theorem readsAll_expression (h : ReadsAll (.expression :: goals) s row last) :
    ∃ (read : Expression) (rest : List Lexeme), row = read.lexemes ++ rest ∧
      s.frame.Resolves read.uses ∧ ReadsAll goals s rest last := by
  obtain ⟨_, rest, _, rfl, ⟨read, rfl, uses, rfl⟩, reads⟩ := h
  exact ⟨read, rest, rfl, uses, reads⟩

theorem readsAll_term (h : ReadsAll (.term :: goals) s row last) :
    ∃ (read : Term) (rest : List Lexeme), row = read.lexemes ++ rest ∧
      s.frame.Resolves read.uses ∧ ReadsAll goals s rest last := by
  obtain ⟨_, rest, _, rfl, ⟨read, rfl, uses, rfl⟩, reads⟩ := h
  exact ⟨read, rest, rfl, uses, reads⟩

theorem readsAll_statements (h : ReadsAll (.statements :: goals) s row last) :
    ∃ (read : Statements) (rest : List Lexeme), row = read.lexemes ++ rest ∧
      s.frame.Resolves read.uses ∧
      ReadsAll goals (s.counted read.branches read.loops) rest last := by
  obtain ⟨_, rest, _, rfl, ⟨read, rfl, uses, rfl⟩, reads⟩ := h
  exact ⟨read, rest, rfl, uses, reads⟩

/-- The goals of a condition. -/
theorem readsAll_condition
    (h : ReadsAll (.symbol .openParen :: .expression :: .symbol .closeParen :: goals) s row last) :
    ∃ (read : Expression) (rest : List Lexeme),
      row = .symbol .openParen :: (read.lexemes ++ .symbol .closeParen :: rest) ∧
        s.frame.Resolves read.uses ∧ ReadsAll goals s rest last := by
  obtain ⟨_, rfl, opened⟩ := readsAll_symbol h
  obtain ⟨read, _, rfl, uses, reads⟩ := readsAll_expression opened
  obtain ⟨rest, rfl, closed⟩ := readsAll_symbol reads
  exact ⟨read, rest, rfl, uses, closed⟩

/-- The goals of a block of statements. -/
theorem readsAll_block
    (h : ReadsAll (.symbol .openBrace :: .statements :: .symbol .closeBrace :: goals) s row last) :
    ∃ (read : Statements) (rest : List Lexeme),
      row = .symbol .openBrace :: (read.lexemes ++ .symbol .closeBrace :: rest) ∧
        s.frame.Resolves read.uses ∧
        ReadsAll goals (s.counted read.branches read.loops) rest last := by
  obtain ⟨_, rfl, opened⟩ := readsAll_symbol h
  obtain ⟨read, _, rfl, uses, reads⟩ := readsAll_statements opened
  obtain ⟨rest, rfl, closed⟩ := readsAll_symbol reads
  exact ⟨read, rest, rfl, uses, closed⟩

/-- A goal that does what another one does, with more goals after it, reads what both do. -/
theorem explains_of_andThen {first : Goal} (later : List Goal)
    (passes : ∀ e, first.effect? l s = some e → e.next.isSome)
    (sound : ∀ e, first.effect? l s = some e → e.Explains first l s)
    (join : ∀ row last, ReadsAll (first :: later.map unplaced) s (l :: row) last →
      goal.Reads s (l :: row) last)
    (h : ((first.react ⟨l, .start⟩ s).andThen later).effect? = some e) : e.Explains goal l s := by
  rw [Reaction.effect?_andThen] at h
  obtain ⟨⟨s', code, next⟩, found, rfl⟩ := Option.map_eq_some_iff.mp h
  cases next with
  | none => cases passes _ found
  | some next =>
      intro row last reads
      obtain ⟨front, rest, middle, rfl, mine, more⟩ := readsAll_append_iff.mp reads
      exact join _ _ ⟨l :: front, rest, middle, rfl, sound _ found front middle mine, more⟩

/-! ### Lexemes -/

theorem effect?_word {word : Keyword} {code : List Code} {next : List Goal}
    (h : (reactWord word ⟨l, .start⟩ s code next).effect? = some e) :
    l = .keyword word ∧ e = ⟨s, code, some (next.map unplaced)⟩ := by
  unfold reactWord at h
  split at h
  · next same => exact ⟨same, (Option.some.inj h).symm⟩
  · cases h

theorem isSome_next_word {word : Keyword} {code : List Code} {next : List Goal}
    (h : (reactWord word ⟨l, .start⟩ s code next).effect? = some e) : e.next.isSome := by
  obtain ⟨-, rfl⟩ := effect?_word h
  rfl

theorem effect?_symbol {mark : Symbol} {code : List Code} {next : List Goal}
    (h : (reactSymbol mark ⟨l, .start⟩ s code next).effect? = some e) :
    l = .symbol mark ∧ e = ⟨s, code, some (next.map unplaced)⟩ := by
  unfold reactSymbol at h
  split at h
  · next same => exact ⟨same, (Option.some.inj h).symm⟩
  · cases h

theorem effect?_name {next : String → List Goal}
    (h : (reactName ⟨l, .start⟩ s next).effect? = some e) :
    ∃ name, l = .identifier name ∧ e = ⟨s, [], some ((next name).map unplaced)⟩ := by
  unfold reactName at h
  split at h
  · next name same => exact ⟨name, same, (Option.some.inj h).symm⟩
  · cases h

theorem exists_of_typeName? {text : String} (h : l.typeName? = some text) :
    ∃ type : TypeName, l = type.lexeme ∧ text = type.text := by
  cases l with
  | keyword word =>
      cases word with
      | intWord => exact ⟨.int, rfl, (Option.some.inj h).symm⟩
      | charWord => exact ⟨.char, rfl, (Option.some.inj h).symm⟩
      | booleanWord => exact ⟨.boolean, rfl, (Option.some.inj h).symm⟩
      | _ => cases h
  | identifier name => exact ⟨.object name, rfl, (Option.some.inj h).symm⟩
  | _ => cases h

theorem effect?_type {next : String → List Goal}
    (h : (reactType ⟨l, .start⟩ s next).effect? = some e) :
    ∃ type : TypeName, l = type.lexeme ∧ e = ⟨s, [], some ((next type.text).map unplaced)⟩ := by
  unfold reactType at h
  split at h
  · next text found =>
    obtain ⟨type, rfl, rfl⟩ := exists_of_typeName? found
    exact ⟨type, rfl, (Option.some.inj h).symm⟩
  · cases h

theorem effect?_variable {name : String} {position : Position} {react : SymbolEntry → Reaction}
    (h : (withVariable name position s react).effect? = some e) :
    ∃ entry, s.resolve? name = some entry ∧ (react entry).effect? = some e := by
  unfold withVariable at h
  split at h
  · next entry found => exact ⟨entry, found, h⟩
  · cases h

/-! ### Expressions -/

theorem explains_symbol {mark : Symbol} (h : (Goal.symbol mark).effect? l s = some e) :
    e.Explains (.symbol mark) l s := by
  obtain ⟨rfl, rfl⟩ := effect?_symbol h
  rintro row last ⟨rfl, rfl⟩
  exact ⟨rfl, rfl⟩

theorem resolves_cons {f : Frame} {name : String} {names : List String} {entry : SymbolEntry}
    (found : f.resolve? name = some entry) (h : f.Resolves names) : f.Resolves (name :: names) := by
  intro other inside
  rcases List.mem_cons.mp inside with rfl | inside
  · exact Option.isSome_of_eq_some found
  · exact h other inside

theorem resolves_append {f : Frame} {names more : List String} (h : f.Resolves names)
    (h' : f.Resolves more) : f.Resolves (names ++ more) := by
  intro name inside
  rcases List.mem_append.mp inside with inside | inside
  · exact h name inside
  · exact h' name inside

theorem resolves_nil (f : Frame) : f.Resolves [] := by
  intro name inside
  cases inside

/-- A constant is a term on its own. -/
theorem explains_constant {t : Term} {code : List Code} (whole : [l] = t.lexemes)
    (free : t.uses = []) : (Effect.mk s [] (some [.emit code])).Explains .term l s := by
  intro row last reads
  obtain ⟨rfl, rfl⟩ := readsAll_emit reads
  refine ⟨t, whole, ?_, rfl⟩
  rw [free]
  exact resolves_nil _

theorem explains_term (h : Goal.term.effect? l s = some e) : e.Explains .term l s := by
  simp only [effect?, react, reactTerm] at h
  split at h
  · next digits value =>
    cases h
    exact explains_constant (t := .integer digits value) rfl rfl
  · next content =>
    cases h
    exact explains_constant (t := .string content) rfl rfl
  · next word =>
    split at h
    · next isConstant =>
      cases h
      cases word with
      | trueWord => exact explains_constant (t := .constant .trueWord) rfl rfl
      | falseWord => exact explains_constant (t := .constant .falseWord) rfl rfl
      | nullWord => exact explains_constant (t := .constant .nullWord) rfl rfl
      | thisWord => exact explains_constant (t := .constant .thisWord) rfl rfl
      | _ => cases isConstant
    · cases h
  · cases h
    intro row last reads
    obtain ⟨inner, _, rfl, uses, reads⟩ := readsAll_expression reads
    obtain ⟨rfl, rfl⟩ := reads_of_readsAll reads
    exact ⟨.group inner, rfl, uses, rfl⟩
  · next mark _ =>
    split at h
    · next op found =>
      cases h
      intro row last reads
      obtain ⟨operand, _, rfl, uses, reads⟩ := readsAll_term reads
      obtain ⟨rfl, rfl⟩ := readsAll_emit reads
      rw [UnaryOp.ofSymbol?_eq_some_iff.mp found]
      exact ⟨.unary op operand, by simp [Term.lexemes], uses, rfl⟩
    · cases h
  · next name =>
    cases h
    intro row last reads
    obtain ⟨t, whole, uses, same⟩ := reads_of_readsAll reads
    exact ⟨t, whole, uses, same⟩
  · cases h

/-- A term and what may follow it are an expression. -/
theorem reads_expression (h : ReadsAll [.term, .operators] s row last) :
    Goal.expression.Reads s row last := by
  obtain ⟨first, _, rfl, uses, h⟩ := readsAll_term h
  obtain ⟨rest, rfl, uses', rfl⟩ := reads_of_readsAll h
  exact ⟨.of first rest, by simp [Expression.lexemes], resolves_append uses uses', rfl⟩

theorem explains_expression (h : Goal.expression.effect? l s = some e) :
    e.Explains .expression l s :=
  explains_of_andThen [.operators] (fun _ => isSome_next_term) (fun _ => explains_term)
    (fun _ _ => reads_expression) h

theorem explains_operators (h : Goal.operators.effect? l s = some e) :
    e.Explains .operators l s := by
  have none : Goal.operators.Reads s [] s := ⟨.nil, rfl, resolves_nil _, rfl⟩
  simp only [effect?, react, reactOperators] at h
  split at h
  · next mark =>
    split at h
    · next op found =>
      cases h
      intro row last reads
      obtain ⟨operand, _, rfl, uses, reads⟩ := readsAll_term reads
      obtain ⟨rest, rfl, uses', rfl⟩ := reads_of_readsAll (readsAll_emit reads)
      rw [BinaryOp.ofSymbol?_eq_some_iff.mp found]
      exact ⟨.cons op operand rest, by simp [Operations.lexemes], resolves_append uses uses', rfl⟩
    · cases h
      exact none
  · cases h
    exact none

theorem explains_callTail {name : String} (h : (Goal.callTail name).effect? l s = some e) :
    e.Explains (.callTail name) l s := by
  simp only [effect?, react, reactCallTail] at h
  split at h
  · next same =>
    cases same
    cases h
    intro row last reads
    obtain ⟨call, whole, uses, same⟩ := reads_of_readsAll reads
    exact ⟨call, whole, uses, same⟩
  · obtain ⟨rfl, rfl⟩ := effect?_symbol h
    intro row last reads
    obtain ⟨arguments, rfl, uses, rfl⟩ := reads_of_readsAll reads
    exact ⟨.own name arguments, by simp [Call.lexemes], uses, rfl⟩

/-- A call that goes on behind a name is a term. -/
theorem explains_afterName_of_callTail {name : String} {position : Position}
    (h : e.Explains (.callTail name) l s) : e.Explains (.afterName name position) l s := by
  unfold Effect.Explains at h ⊢
  split at h
  · obtain ⟨call, whole, uses, same⟩ := h
    exact ⟨.call call, whole, uses, same⟩
  · intro row last reads
    obtain ⟨call, whole, uses, same⟩ := h row last reads
    exact ⟨.call call, whole, uses, same⟩

theorem explains_afterName {name : String} {position : Position}
    (h : (Goal.afterName name position).effect? l s = some e) :
    e.Explains (.afterName name position) l s := by
  simp only [effect?, react, reactAfterName] at h
  split at h
  · obtain ⟨entry, found, effect⟩ := effect?_variable h
    cases effect
    intro row last reads
    obtain ⟨index, _, rfl, uses, reads⟩ := readsAll_expression reads
    obtain ⟨_, rfl, closed⟩ := readsAll_symbol reads
    obtain ⟨rfl, rfl⟩ := readsAll_emit closed
    exact ⟨.element name index, by simp [Term.lexemes], resolves_cons found uses, rfl⟩
  · exact explains_afterName_of_callTail (explains_callTail h)
  · exact explains_afterName_of_callTail (explains_callTail h)
  · obtain ⟨entry, found, effect⟩ := effect?_variable h
    cases effect
    exact ⟨.var name, rfl, resolves_cons found (resolves_nil _), rfl⟩

theorem explains_qualifiedCall {qualifier method : String}
    (h : (Goal.qualifiedCall qualifier method).effect? l s = some e) :
    e.Explains (.qualifiedCall qualifier method) l s := by
  simp only [effect?, react, reactQualifiedCall] at h
  split at h
  · obtain ⟨rfl, rfl⟩ := effect?_symbol h
    intro row last reads
    obtain ⟨arguments, rfl, uses, rfl⟩ := reads_of_readsAll reads
    exact ⟨arguments, rfl, uses, rfl⟩
  · obtain ⟨rfl, rfl⟩ := effect?_symbol h
    intro row last reads
    obtain ⟨arguments, rfl, uses, rfl⟩ := reads_of_readsAll reads
    exact ⟨arguments, rfl, uses, rfl⟩

theorem explains_call (h : Goal.call.effect? l s = some e) : e.Explains .call l s := by
  obtain ⟨name, rfl, rfl⟩ := effect?_name h
  intro row last reads
  obtain ⟨call, whole, uses, same⟩ := reads_of_readsAll reads
  exact ⟨call, whole, uses, same⟩

theorem explains_methodName {qualifier : String}
    (h : (Goal.methodName qualifier).effect? l s = some e) :
    e.Explains (.methodName qualifier) l s := by
  obtain ⟨name, rfl, rfl⟩ := effect?_name h
  intro row last reads
  obtain ⟨arguments, rfl, uses, rfl⟩ := reads_of_readsAll reads
  exact ⟨.qualified qualifier name arguments, by simp [Call.lexemes], uses, rfl⟩

theorem explains_arguments {callee : String} {count : Nat}
    (h : (Goal.arguments callee count).effect? l s = some e) :
    e.Explains (.arguments callee count) l s := by
  simp only [effect?, react, reactArguments] at h
  split at h
  · next same =>
    cases same
    cases h
    intro row last reads
    obtain ⟨rfl, rfl⟩ := readsAll_emit reads
    exact ⟨.nil, rfl, resolves_nil _, rfl⟩
  · refine explains_of_andThen [.moreArguments callee (count + 1)]
      (fun _ => isSome_next_expression) (fun _ => explains_expression) ?_ h
    intro row last reads
    obtain ⟨first, _, whole, uses, reads⟩ := readsAll_expression reads
    obtain ⟨rest, rfl, uses', rfl⟩ := reads_of_readsAll reads
    exact ⟨.cons first rest, by simp [whole, Arguments.lexemes], resolves_append uses uses', rfl⟩

theorem explains_moreArguments {callee : String} {count : Nat}
    (h : (Goal.moreArguments callee count).effect? l s = some e) :
    e.Explains (.moreArguments callee count) l s := by
  simp only [effect?, react, reactMoreArguments] at h
  split at h
  · next same =>
    cases same
    cases h
    intro row last reads
    obtain ⟨first, _, rfl, uses, reads⟩ := readsAll_expression reads
    obtain ⟨rest, rfl, uses', rfl⟩ := reads_of_readsAll reads
    exact ⟨.cons first rest, by simp [Arguments.moreLexemes], resolves_append uses uses', rfl⟩
  · obtain ⟨rfl, rfl⟩ := effect?_symbol h
    intro row last reads
    obtain ⟨rfl, rfl⟩ := readsAll_emit reads
    exact ⟨.nil, rfl, resolves_nil _, rfl⟩

theorem explains_expressionList (h : Goal.expressionList.effect? l s = some e) :
    e.Explains .expressionList l s := by
  simp only [effect?, react] at h
  split at h
  · cases h
    exact ⟨.nil, rfl, resolves_nil _, rfl⟩
  · refine explains_of_andThen [.moreExpressions 1] (fun _ => isSome_next_expression)
      (fun _ => explains_expression) ?_ h
    intro row last reads
    obtain ⟨first, _, whole, uses, reads⟩ := readsAll_expression reads
    obtain ⟨rest, rfl, uses', rfl⟩ := reads_of_readsAll reads
    exact ⟨.cons first rest, by simp [whole, Arguments.lexemes], resolves_append uses uses', rfl⟩

theorem explains_moreExpressions {count : Nat}
    (h : (Goal.moreExpressions count).effect? l s = some e) :
    e.Explains (.moreExpressions count) l s := by
  simp only [effect?, react] at h
  split at h
  · next same =>
    cases same
    cases h
    intro row last reads
    obtain ⟨first, _, rfl, uses, reads⟩ := readsAll_expression reads
    obtain ⟨rest, rfl, uses', rfl⟩ := reads_of_readsAll reads
    exact ⟨.cons first rest, by simp [Arguments.moreLexemes], resolves_append uses uses', rfl⟩
  · cases h
    exact ⟨.nil, rfl, resolves_nil _, rfl⟩

/-! ### Statements -/

theorem explains_assignment {name : String} {position : Position}
    (h : (Goal.assignment name position).effect? l s = some e) :
    e.Explains (.assignment name position) l s := by
  simp only [effect?, react, reactAssignment] at h
  obtain ⟨entry, found, effect⟩ := effect?_variable h
  split at effect
  · next same =>
    cases same
    cases effect
    intro row last reads
    obtain ⟨index, _, rfl, uses, reads⟩ := readsAll_expression reads
    obtain ⟨_, rfl, closed⟩ := readsAll_symbol reads
    obtain ⟨_, rfl, assigned⟩ := readsAll_symbol (readsAll_emit closed)
    obtain ⟨value, _, rfl, uses', reads'⟩ := readsAll_expression assigned
    obtain ⟨_, rfl, ended⟩ := readsAll_symbol reads'
    obtain ⟨rfl, rfl⟩ := readsAll_emit ended
    exact ⟨.store name index value, by simp [Statement.lexemes],
      resolves_cons found (resolves_append uses uses'), rfl⟩
  · obtain ⟨rfl, rfl⟩ := effect?_symbol effect
    intro row last reads
    obtain ⟨value, _, rfl, uses, reads⟩ := readsAll_expression reads
    obtain ⟨_, rfl, ended⟩ := readsAll_symbol reads
    obtain ⟨rfl, rfl⟩ := readsAll_emit ended
    exact ⟨.assign name value, by simp [Statement.lexemes], resolves_cons found uses, rfl⟩

theorem explains_letTarget (h : Goal.letTarget.effect? l s = some e) :
    e.Explains .letTarget l s := by
  obtain ⟨name, rfl, rfl⟩ := effect?_name h
  intro row last reads
  obtain ⟨st, whole, uses, same⟩ := reads_of_readsAll reads
  exact ⟨st, whole, uses, same⟩

theorem explains_letStatement (h : Goal.letStatement.effect? l s = some e) :
    e.Explains .letStatement l s := by
  obtain ⟨rfl, rfl⟩ := effect?_word h
  intro row last reads
  obtain ⟨st, whole, uses, same⟩ := reads_of_readsAll reads
  exact ⟨st, whole, uses, same⟩

theorem explains_elseBranch {id : Nat} (h : (Goal.elseBranch id).effect? l s = some e) :
    e.Explains (.elseBranch id) l s := by
  simp only [effect?, react] at h
  split at h
  · next same =>
    cases same
    cases h
    intro row last reads
    obtain ⟨ss, _, rfl, uses, reads⟩ := readsAll_block reads
    obtain ⟨rfl, rfl⟩ := readsAll_emit reads
    exact .inr ⟨ss, rfl, uses, rfl⟩
  · cases h
    exact .inl ⟨rfl, rfl⟩

theorem explains_ifStatement (h : Goal.ifStatement.effect? l s = some e) :
    e.Explains .ifStatement l s := by
  obtain ⟨rfl, rfl⟩ := effect?_word h
  intro row last reads
  obtain ⟨condition, _, rfl, uses, tested⟩ := readsAll_condition reads
  obtain ⟨body, _, rfl, uses', entered⟩ := readsAll_block (readsAll_emit tested)
  rcases reads_of_readsAll (readsAll_emit entered) with ⟨rfl, rfl⟩ | ⟨other, rfl, uses'', rfl⟩
  · exact ⟨.branch condition body, by simp [Statement.lexemes], resolves_append uses uses',
      by simp [Scope.counted, Statement.branches, Statement.loops, Nat.add_assoc]⟩
  · exact ⟨.branchElse condition body other, by simp [Statement.lexemes],
      resolves_append uses (resolves_append uses' uses''),
      by simp [Scope.counted, Statement.branches, Statement.loops, Nat.add_assoc]⟩

theorem explains_whileStatement (h : Goal.whileStatement.effect? l s = some e) :
    e.Explains .whileStatement l s := by
  obtain ⟨rfl, rfl⟩ := effect?_word h
  intro row last reads
  obtain ⟨condition, _, rfl, uses, tested⟩ := readsAll_condition reads
  obtain ⟨body, _, rfl, uses', entered⟩ := readsAll_block (readsAll_emit tested)
  obtain ⟨rfl, rfl⟩ := readsAll_emit entered
  exact ⟨.loop condition body, by simp [Statement.lexemes], resolves_append uses uses',
    by simp [Scope.counted, Statement.branches, Statement.loops, Nat.add_assoc]⟩

theorem explains_doStatement (h : Goal.doStatement.effect? l s = some e) :
    e.Explains .doStatement l s := by
  obtain ⟨rfl, rfl⟩ := effect?_word h
  intro row last reads
  obtain ⟨_, _, _, rfl, ⟨call, rfl, uses, rfl⟩, called⟩ := reads
  obtain ⟨_, rfl, ended⟩ := readsAll_symbol called
  obtain ⟨rfl, rfl⟩ := readsAll_emit ended
  exact ⟨.perform call, by simp [Statement.lexemes], uses, rfl⟩

theorem explains_returnValue (h : Goal.returnValue.effect? l s = some e) :
    e.Explains .returnValue l s := by
  simp only [effect?, react] at h
  split at h
  · next same =>
    cases same
    cases h
    intro row last reads
    obtain ⟨rfl, rfl⟩ := readsAll_emit reads
    exact ⟨.ret none, rfl, resolves_nil _, rfl⟩
  · refine explains_of_andThen [.symbol .semicolon, .emit [.ret]]
      (fun _ => isSome_next_expression) (fun _ => explains_expression) ?_ h
    intro row last reads
    obtain ⟨value, _, whole, uses, reads⟩ := readsAll_expression reads
    obtain ⟨_, rfl, ended⟩ := readsAll_symbol reads
    obtain ⟨rfl, rfl⟩ := readsAll_emit ended
    exact ⟨.ret (some value), by simp [whole, Statement.lexemes], uses, rfl⟩

theorem explains_returnStatement (h : Goal.returnStatement.effect? l s = some e) :
    e.Explains .returnStatement l s := by
  obtain ⟨rfl, rfl⟩ := effect?_word h
  intro row last reads
  obtain ⟨st, whole, uses, same⟩ := reads_of_readsAll reads
  exact ⟨st, whole, uses, same⟩

/-- A statement and the ones behind it are statements. -/
theorem reads_statements {middle : Scope} {rest : List Lexeme} (first : s.Executes row middle)
    (later : Goal.statements.Reads middle rest last) :
    Goal.statements.Reads s (row ++ rest) last := by
  obtain ⟨st, rfl, uses, rfl⟩ := first
  obtain ⟨ss, rfl, uses', rfl⟩ := later
  exact ⟨.cons st ss, rfl, resolves_append uses uses', Scope.counted_counted ..⟩

/-- What a statement starts with tells which one it is. -/
theorem exists_of_reactStatement? {t : Token} {r : Reaction} (h : reactStatement? t s = some r) :
    ∃ goal : Goal, r = goal.react t s ∧
      (∀ row last, goal.Reads s row last → s.Executes row last) ∧
      (∀ e, goal.effect? t.lexeme s = some e → e.next.isSome ∧ e.Explains goal t.lexeme s) := by
  unfold reactStatement? at h
  split at h
  · cases h
    exact ⟨.letStatement, rfl, fun _ _ => id, fun e h =>
      ⟨isSome_next_word h, explains_letStatement h⟩⟩
  · cases h
    exact ⟨.ifStatement, rfl, fun _ _ => id, fun e h =>
      ⟨isSome_next_word h, explains_ifStatement h⟩⟩
  · cases h
    exact ⟨.whileStatement, rfl, fun _ _ => id, fun e h =>
      ⟨isSome_next_word h, explains_whileStatement h⟩⟩
  · cases h
    exact ⟨.doStatement, rfl, fun _ _ => id, fun e h =>
      ⟨isSome_next_word h, explains_doStatement h⟩⟩
  · cases h
    exact ⟨.returnStatement, rfl, fun _ _ => id, fun e h =>
      ⟨isSome_next_word h, explains_returnStatement h⟩⟩
  · cases h

theorem explains_statements (h : Goal.statements.effect? l s = some e) :
    e.Explains .statements l s := by
  simp only [effect?, react] at h
  split at h
  · next r found =>
    obtain ⟨first, rfl, executes, sound⟩ := exists_of_reactStatement? found
    refine explains_of_andThen [.statements] (fun e h => (sound e h).1) (fun e h => (sound e h).2)
      ?_ h
    intro row last reads
    obtain ⟨_, _, _, whole, mine, later⟩ := reads_of_readsAll_pair reads
    rw [whole]
    exact reads_statements (executes _ _ mine) later
  · cases h
    exact ⟨.nil, rfl, resolves_nil _, rfl⟩

/-! ### Declarations -/

theorem explains_declare {name type : String} {position : Position} {kind : VariableKind}
    (h : (Goal.declare name position type kind).effect? l s = some e) :
    e.Explains (.declare name position type kind) l s := by
  simp only [effect?, react, reactDeclare] at h
  split at h
  · cases h
  · cases h
    exact ⟨rfl, rfl⟩

theorem explains_variableName {type : String} {kind : VariableKind}
    (h : (Goal.variableName type kind).effect? l s = some e) :
    e.Explains (.variableName type kind) l s := by
  obtain ⟨name, rfl, rfl⟩ := effect?_name h
  intro row last reads
  obtain ⟨rfl, rfl⟩ := reads_of_readsAll reads
  exact ⟨name, rfl, rfl⟩

theorem explains_moreVariables {type : String} {kind : VariableKind}
    (h : (Goal.moreVariables type kind).effect? l s = some e) :
    e.Explains (.moreVariables type kind) l s := by
  simp only [effect?, react] at h
  split at h
  · next same =>
    cases same
    cases h
    intro row last reads
    obtain ⟨_, _, _, rfl, ⟨name, rfl, rfl⟩, ⟨names, rfl, rfl⟩⟩ := reads_of_readsAll_pair reads
    exact ⟨name :: names, by simp [Declaration.moreLexemes],
      Scope.update_update ..⟩
  · obtain ⟨rfl, rfl⟩ := effect?_symbol h
    rintro row last ⟨rfl, rfl⟩
    exact ⟨[], rfl, (Scope.setTable_table ..).symm⟩

theorem explains_variableType {kind : VariableKind}
    (h : (Goal.variableType kind).effect? l s = some e) :
    e.Explains (.variableType kind) l s := by
  obtain ⟨type, rfl, rfl⟩ := effect?_type h
  intro row last reads
  obtain ⟨_, _, _, rfl, ⟨name, rfl, rfl⟩, ⟨names, rfl, rfl⟩⟩ := reads_of_readsAll_pair reads
  exact ⟨⟨type, name, names⟩, by simp [Declaration.tail],
    Scope.update_update ..⟩

theorem exists_of_classVariableAfter? {next : List Goal}
    (h : classVariableAfter? ⟨l, .start⟩ = some next) :
    ∃ keeping : Keeping, l = .keyword keeping.keyword ∧ next = [.variableType keeping.kind] := by
  unfold classVariableAfter? at h
  split at h
  · next word same =>
    cases same
    cases word with
    | staticWord => exact ⟨.static, rfl, (Option.some.inj h).symm⟩
    | fieldWord => exact ⟨.field, rfl, (Option.some.inj h).symm⟩
    | _ => cases h
  · cases h

theorem levelOf_keeping (keeping : Keeping) : Scope.levelOf keeping.kind = .classLevel := by
  cases keeping <;> rfl

theorem explains_classVariable (h : Goal.classVariable.effect? l s = some e) :
    e.Explains .classVariable l s := by
  simp only [effect?, react] at h
  split at h
  · next found =>
    obtain ⟨keeping, rfl, rfl⟩ := exists_of_classVariableAfter? found
    cases h
    intro row last reads
    obtain ⟨d, rfl, rfl⟩ := reads_of_readsAll reads
    exact ⟨⟨keeping, d⟩, by simp [ClassVariables.lexemes, Declaration.lexemes],
      by rw [levelOf_keeping]; rfl⟩
  · cases h

theorem explains_classVariables (h : Goal.classVariables.effect? l s = some e) :
    e.Explains .classVariables l s := by
  simp only [effect?, react] at h
  split at h
  · next found =>
    obtain ⟨keeping, rfl, rfl⟩ := exists_of_classVariableAfter? found
    cases h
    intro row last reads
    obtain ⟨_, _, _, rfl, ⟨d, rfl, rfl⟩, ⟨vs, rfl, rfl⟩⟩ := reads_of_readsAll_pair reads
    exact ⟨⟨keeping, d⟩ :: vs, by simp [ClassVariables.lexemes, Declaration.lexemes],
      by rw [levelOf_keeping]; exact Scope.update_update ..⟩
  · cases h
    exact ⟨[], rfl, rfl⟩

theorem explains_localVariable (h : Goal.localVariable.effect? l s = some e) :
    e.Explains .localVariable l s := by
  obtain ⟨rfl, rfl⟩ := effect?_word h
  intro row last reads
  obtain ⟨d, rfl, rfl⟩ := reads_of_readsAll reads
  exact ⟨d, by simp [Declaration.lexemes], rfl⟩

theorem explains_localVariables (h : Goal.localVariables.effect? l s = some e) :
    e.Explains .localVariables l s := by
  simp only [effect?, react] at h
  split at h
  · next same =>
    cases same
    cases h
    intro row last reads
    obtain ⟨_, _, _, rfl, ⟨d, rfl, rfl⟩, ⟨ds, rfl, rfl⟩⟩ := reads_of_readsAll_pair reads
    exact ⟨d :: ds, by simp [Declaration.lexemes],
      Scope.update_update ..⟩
  · cases h
    exact ⟨[], rfl, rfl⟩

theorem explains_parameterType (h : Goal.parameterType.effect? l s = some e) :
    e.Explains .parameterType l s := by
  obtain ⟨type, rfl, rfl⟩ := effect?_type h
  intro row last reads
  obtain ⟨name, rfl, rfl⟩ := reads_of_readsAll reads
  exact ⟨⟨type, name⟩, rfl, rfl⟩

theorem explains_moreParameters (h : Goal.moreParameters.effect? l s = some e) :
    e.Explains .moreParameters l s := by
  simp only [effect?, react] at h
  split at h
  · next same =>
    cases same
    cases h
    intro row last reads
    obtain ⟨_, _, _, rfl, ⟨p, rfl, rfl⟩, ⟨ps, rfl, rfl⟩⟩ := reads_of_readsAll_pair reads
    exact ⟨p :: ps, by simp [Parameter.moreLexemes], Scope.update_update ..⟩
  · cases h
    exact ⟨[], rfl, rfl⟩

theorem explains_parameterList (h : Goal.parameterList.effect? l s = some e) :
    e.Explains .parameterList l s := by
  simp only [effect?, react] at h
  split at h
  · next text found =>
    obtain ⟨type, rfl, rfl⟩ := exists_of_typeName? found
    cases h
    intro row last reads
    obtain ⟨_, _, _, rfl, ⟨name, rfl, rfl⟩, ⟨ps, rfl, rfl⟩⟩ := reads_of_readsAll_pair reads
    exact ⟨⟨type, name⟩ :: ps, by simp [Parameter.rowOf, Parameter.lexemes],
      Scope.update_update ..⟩
  · cases h
    exact ⟨[], rfl, rfl⟩

/-! ### Subroutines and classes -/

theorem explains_openBody (h : Goal.openBody.effect? l s = some e) : e.Explains .openBody l s := by
  simp only [effect?, react, reactOpenBody] at h
  split at h
  · cases h
  · cases h
    exact ⟨rfl, rfl⟩

theorem explains_subroutineBody (h : Goal.subroutineBody.effect? l s = some e) :
    e.Explains .subroutineBody l s := by
  obtain ⟨rfl, rfl⟩ := effect?_symbol h
  intro row last reads
  obtain ⟨_, _, _, rfl, ⟨ds, rfl, rfl⟩, declared⟩ := reads
  obtain ⟨_, _, _, rfl, ⟨rfl, rfl⟩, opened⟩ := declared
  obtain ⟨body, _, rfl, uses, reads⟩ := readsAll_statements opened
  obtain ⟨rfl, rfl⟩ := reads_of_readsAll reads
  exact ⟨ds, body, by simp, uses, rfl, rfl⟩

theorem explains_subroutineName {kind : SubroutineKind}
    (h : (Goal.subroutineName kind).effect? l s = some e) :
    e.Explains (.subroutineName kind) l s := by
  obtain ⟨name, rfl, rfl⟩ := effect?_name h
  intro row last reads fresh
  obtain ⟨_, _, _, rfl, ⟨rfl, rfl⟩, named⟩ := reads
  obtain ⟨_, rfl, opened⟩ := readsAll_symbol named
  obtain ⟨_, _, _, rfl, ⟨ps, rfl, rfl⟩, declared⟩ := opened
  obtain ⟨_, rfl, closed⟩ := readsAll_symbol declared
  obtain ⟨ds, body, rfl, uses, same⟩ := reads_of_readsAll closed
  have entered : s.enterSubroutine name kind = s.entered ⟨kind, none, name, ps, ds, body⟩ := by
    rw [← enterSubroutine_eq, Scope.leaveSubroutine, ← fresh]
  rw [entered] at uses same
  exact ⟨⟨kind, none, name, ps, ds, body⟩, by simp [Subroutine.tail, Subroutine.bodyLexemes], rfl,
    uses, same⟩

theorem exists_of_resultTypeName? {text : String} (h : l.resultTypeName? = some text) :
    ∃ result : Option TypeName, l = match result with
      | none => .keyword .voidWord
      | some type => type.lexeme := by
  unfold Lexeme.resultTypeName? at h
  split at h
  · exact ⟨none, rfl⟩
  · obtain ⟨type, rfl, -⟩ := exists_of_typeName? h
    exact ⟨some type, rfl⟩

theorem explains_resultType {kind : SubroutineKind}
    (h : (Goal.resultType kind).effect? l s = some e) : e.Explains (.resultType kind) l s := by
  simp only [effect?, react] at h
  split at h
  · next found =>
    obtain ⟨result, rfl⟩ := exists_of_resultTypeName? found
    cases h
    intro row last reads fresh
    obtain ⟨sub, rfl, same, uses, kept⟩ := reads_of_readsAll reads fresh
    exact ⟨{ sub with result }, rfl, same, uses, kept⟩
  · cases h

theorem exists_of_subroutineAfter? {next : List Goal}
    (h : subroutineAfter? ⟨l, .start⟩ = some next) :
    ∃ kind : SubroutineKind, l = .keyword (keywordOf kind) ∧ next = [.resultType kind] := by
  unfold subroutineAfter? at h
  split at h
  · next word same =>
    cases same
    cases word with
    | constructorWord => exact ⟨.constructor, rfl, (Option.some.inj h).symm⟩
    | functionWord => exact ⟨.function, rfl, (Option.some.inj h).symm⟩
    | methodWord => exact ⟨.method, rfl, (Option.some.inj h).symm⟩
    | _ => cases h
  · cases h

theorem explains_subroutine (h : Goal.subroutine.effect? l s = some e) :
    e.Explains .subroutine l s := by
  simp only [effect?, react] at h
  split at h
  · next found =>
    obtain ⟨kind, rfl, rfl⟩ := exists_of_subroutineAfter? found
    cases h
    intro row last reads
    obtain ⟨sub, rfl, rfl, uses, kept⟩ := reads_of_readsAll reads rfl
    exact ⟨sub, rfl, uses, kept⟩
  · cases h

theorem explains_subroutines (h : Goal.subroutines.effect? l s = some e) :
    e.Explains .subroutines l s := by
  simp only [effect?, react] at h
  split at h
  · next found =>
    obtain ⟨kind, rfl, rfl⟩ := exists_of_subroutineAfter? found
    cases h
    intro row last reads
    obtain ⟨_, _, middle, rfl, first, later⟩ := reads_of_readsAll_pair reads
    obtain ⟨sub, rfl, rfl, uses, kept⟩ := first rfl
    obtain ⟨subs, rfl, more, kept'⟩ := later
    refine ⟨sub :: subs, rfl, ?_, kept'.1.trans kept.1, kept'.2.trans kept.2⟩
    intro other inside
    rcases List.mem_cons.mp inside with rfl | inside
    · exact uses
    · have same : (middle.within other).frame = (s.within other).frame := by
        rw [Scope.frame, Scope.frame, Frame.mk.injEq]
        exact ⟨kept.1, kept.2, congrArg other.table kept.1⟩
      exact same ▸ more other inside
  · cases h
    exact ⟨[], rfl, fun _ inside => (List.not_mem_nil inside).elim, rfl, rfl⟩

theorem explains_className (h : Goal.className.effect? l s = some e) :
    e.Explains .className l s := by
  obtain ⟨name, rfl, rfl⟩ := effect?_name h
  intro row last reads
  obtain ⟨rfl, rfl⟩ := reads_of_readsAll reads
  exact ⟨name, rfl, rfl⟩

theorem explains_endOfInput (h : Goal.endOfInput.effect? l s = some e) :
    e.Explains .endOfInput l s := by
  simp only [effect?, react] at h
  split at h
  · cases h
    exact ⟨rfl, rfl⟩
  · cases h

theorem explains_classDeclaration (h : Goal.classDeclaration.effect? l s = some e) :
    e.Explains .classDeclaration l s := by
  obtain ⟨rfl, rfl⟩ := effect?_word h
  intro row last reads initial
  obtain rfl := initial
  obtain ⟨_, _, _, rfl, ⟨name, rfl, rfl⟩, named⟩ := reads
  obtain ⟨_, rfl, opened⟩ := readsAll_symbol named
  obtain ⟨_, _, _, rfl, ⟨vs, rfl, rfl⟩, declared⟩ := opened
  obtain ⟨_, _, _, rfl, ⟨subs, rfl, uses, kept⟩, reads⟩ := declared
  obtain ⟨_, rfl, closed⟩ := readsAll_symbol reads
  obtain ⟨rfl, rfl⟩ := reads_of_readsAll closed
  exact ⟨⟨name, vs, subs⟩, by simp [Tree.Class.lexemes], uses, kept.1⟩

/-- What a goal brings about is explained by what it reads. -/
theorem explains_of_effect? (h : goal.effect? l s = some e) : e.Explains goal l s := by
  cases goal with
  | classDeclaration => exact explains_classDeclaration h
  | className => exact explains_className h
  | enterClass name => cases h; exact ⟨rfl, rfl⟩
  | classVariables => exact explains_classVariables h
  | classVariable => exact explains_classVariable h
  | variableType kind => exact explains_variableType h
  | variableName type kind => exact explains_variableName h
  | moreVariables type kind => exact explains_moreVariables h
  | declare name position type kind => exact explains_declare h
  | subroutines => exact explains_subroutines h
  | subroutine => exact explains_subroutine h
  | resultType kind => exact explains_resultType h
  | subroutineName kind => exact explains_subroutineName h
  | enterSubroutine name kind => cases h; exact ⟨rfl, rfl⟩
  | parameterList => exact explains_parameterList h
  | parameterType => exact explains_parameterType h
  | moreParameters => exact explains_moreParameters h
  | subroutineBody => exact explains_subroutineBody h
  | localVariables => exact explains_localVariables h
  | localVariable => exact explains_localVariable h
  | openBody => exact explains_openBody h
  | statements => exact explains_statements h
  | letStatement => exact explains_letStatement h
  | letTarget => exact explains_letTarget h
  | assignment name position => exact explains_assignment h
  | ifStatement => exact explains_ifStatement h
  | elseBranch id => exact explains_elseBranch h
  | whileStatement => exact explains_whileStatement h
  | doStatement => exact explains_doStatement h
  | returnStatement => exact explains_returnStatement h
  | returnValue => exact explains_returnValue h
  | expression => exact explains_expression h
  | operators => exact explains_operators h
  | term => exact explains_term h
  | afterName name position => exact explains_afterName h
  | call => exact explains_call h
  | callTail name => exact explains_callTail h
  | methodName qualifier => exact explains_methodName h
  | qualifiedCall qualifier method => exact explains_qualifiedCall h
  | arguments callee count => exact explains_arguments h
  | moreArguments callee count => exact explains_moreArguments h
  | expressionList => exact explains_expressionList h
  | moreExpressions count => exact explains_moreExpressions h
  | symbol mark => exact explains_symbol h
  | endOfInput => exact explains_endOfInput h
  | emit code => cases h; exact ⟨rfl, rfl⟩

/-- Goals that were reached have read the row in front of what is left. -/
theorem readsAll_of_drive {f : Finish} (h : drive goals s row = some f) :
    ∃ used, row = used ++ f.left ∧ ReadsAll goals s used f.scope := by
  fun_induction drive goals s row generalizing f with
  | case1 s row =>
      cases h
      exact ⟨[], rfl, rfl, rfl⟩
  | case2 s goal rest => cases h
  | case3 s goal rest l row none => cases h
  | case4 s goal rest l row s' code effect ih =>
      obtain ⟨g, driven, rfl⟩ := exists_of_writing h
      obtain ⟨used, whole, reads⟩ := ih driven
      exact ⟨used, whole, [], used, s', rfl, explains_of_effect? effect, reads⟩
  | case5 s goal rest l row s' code next effect ih =>
      obtain ⟨g, driven, rfl⟩ := exists_of_writing h
      obtain ⟨used, rfl, reads⟩ := ih driven
      obtain ⟨first, later, middle, rfl, mine, more⟩ := readsAll_append_iff.mp reads
      exact ⟨l :: (first ++ later), rfl, l :: first, later, middle, rfl,
        explains_of_effect? effect first middle mine, more⟩

end Reads

end Goal

/-! ### The class of a source -/

/-- Names that stand for variables are declared. The object that a method is called on has a name
that no lexeme of a source has. -/
theorem Tree.wellScoped_of_resolves {c : Tree.Class} (notThis : .identifier "this" ∉ c.lexemes)
    (h : ∀ sub ∈ c.subroutines, (sub.frame c).Resolves sub.body.uses) : c.WellScoped := by
  intro sub hs name used
  have found := h sub hs name used
  rw [Frame.resolve?, Option.isSome_or, Bool.or_eq_true] at found
  rcases found with own | shared
  · rcases (lookup?_subroutine_table sub c.name name).mp own with declared | ⟨-, rfl⟩
    · exact .inl declared
    · exact absurd (Tree.Class.mem_lexemes_of_uses hs used) notThis
  · exact .inr ((lookup?_class_table c name).mp shared)

/-- The tokens that the goal to read a class is driven along are those of a class, the code that is
written is its code, and it is known by its name. -/
theorem exists_tree_of_drive {tokens : List Token} {strict : Bool} {code : List Code} {s : Scope}
    (h : drive [.classDeclaration] (.initial strict) (rowOfTokens tokens) =
      some ⟨code, s, [.endOfInput]⟩) :
    ∃ c : Tree.Class, tokens.map Token.lexeme = c.lexemes ∧
      (∀ sub ∈ c.subroutines, (sub.frame c).Resolves sub.body.uses) ∧
      s.className = c.name ∧ code = c.code := by
  have driven : drive [.classDeclaration] (.initial false) (rowOfTokens tokens) = _ := drive_lax h
  obtain ⟨used, whole, _, _, _, rfl, reads, rfl, same⟩ := Goal.readsAll_of_drive driven
  obtain ⟨c, rfl, resolves, named⟩ := reads rfl
  have spelled : tokens.map Token.lexeme = c.lexemes :=
    List.append_cancel_right (whole.trans (by rw [List.append_nil]))
  obtain ⟨s', driven'⟩ := drive_class c resolves
  rw [rowOfTokens, spelled] at driven
  refine ⟨c, spelled, resolves, ?_, ?_⟩
  · rw [← named, ← same]
    rfl
  · exact congrArg Finish.code (Option.some.inj (driven.symm.trans driven'))

/-- A source compiles to the code of a class that it is written as. -/
theorem exists_tree_of_compileSource {source : Source} {chunkSize : Int}
    {filename : Option String} {strict : Bool} {code : List Code} (positive : 0 < chunkSize)
    (h : compileSource source filename strict chunkSize = .ok code) :
    ∃ (tokens : List Token) (c : Tree.Class),
      Lexer.tokensOf source chunkSize filename = .ok tokens ∧
        tokens.map Token.lexeme = c.lexemes ∧ c.WellScoped ∧ code = c.code := by
  obtain ⟨tokens, s, read, driven⟩ := drive_of_compileSource positive h
  obtain ⟨c, spelled, resolves, -, rfl⟩ := exists_tree_of_drive driven
  refine ⟨tokens, c, read, spelled, Tree.wellScoped_of_resolves ?_ resolves, rfl⟩
  intro inside
  rw [← spelled] at inside
  have proper := Lexer.proper_of_tokensOf positive read _ inside
  exact proper.2 .thisWord rfl

end Jack
