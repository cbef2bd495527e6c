import Jack.Proofs.Grammar
import Jack.Proofs.Reactions
import Jack.Proofs.Shapes
import Jack.Proofs.Steps

/-! # Prefixes of classes

A row that the shapes of goals let pass can be completed to a class: the goals that are left read
some row each. A row of a class is let pass. So a token at which the shapes fail is the first one
that no class goes on with, and it is the token that a syntax error is reported at.
-/

namespace Jack

open Jack.Tree

/-! ### Completing a row -/

/-- A scope that goals cannot fail in for what is known: nothing is refused, some subroutine is
entered, and the names are declared in the class. -/
structure Scope.Knows (names : List String) (s : Scope) : Prop where
  lax : s.strict = false
  inside : s.subroutineKind.isSome
  declared : ∀ name ∈ names, (s.classTable.lookup? name).isSome

namespace Scope.Knows

variable {names : List String} {s s' : Scope}

theorem resolves (h : s.Knows names) {name : String} (known : name ∈ names) :
    (s.resolve? name).isSome := by
  simp [resolve?, h.declared name known]

theorem define (h : s.Knows names) (level : Scope.Level) (name type : String)
    (kind : VariableKind) : (s.define level name type kind).Knows names := by
  cases level with
  | classLevel =>
      refine ⟨h.lax, h.inside, fun other known => ?_⟩
      have kept := h.declared other known
      simp only [Scope.define, setTable, table, SymbolTable.lookup?_define]
      split
      · rfl
      · exact kept
  | subroutineLevel => exact ⟨h.lax, h.inside, h.declared⟩

theorem turns (h : s.Knows names) (turns : s.Turns s') : s'.Knows names := by
  have inside := turns.isSome_subroutineKind h.inside
  cases turns with
  | same => exact h
  | renames | leaves | counts => exact ⟨h.lax, inside, h.declared⟩
  | declares level name type kind => exact h.define level name type kind
  | enters name kind => cases kind <;> exact ⟨h.lax, inside, h.declared⟩

end Scope.Knows

namespace Goal

/-- The name that a goal can blame is one of some names. -/
def Named (names : List String) (goal : Goal) : Prop :=
  ∀ named ∈ goal.name?, named.1 ∈ names

variable {names : List String} {goal : Goal} {goals rest : List Goal} {s : Scope} {l : Lexeme}

theorem resolved_of_knows (knows : s.Knows names) (named : goal.Named names) :
    goal.Resolved s := by
  cases goal
  case assignment name position | afterName name position =>
    exact knows.resolves (named (name, position) rfl)
  all_goals trivial

/-- Where the names are known, a goal fails for nothing but the lexeme. -/
theorem outcome_of_knows (knows : s.Knows names) (named : goal.Named names) :
    (goal.react ⟨l, .start⟩ s).outcome = goal.shape.outcome l := by
  obtain same | ⟨fault, failed, other⟩ := outcome_react goal ⟨l, .start⟩ s
  · exact same
  · exfalso
    cases (sound_react goal ⟨l, .start⟩ s).blames fault failed with
    | expected known what => exact other _ _ _ rfl
    | undefined _ unknown => exact unknown (resolved_of_knows knows named)
    | redefined refused => simp [Scope.refuses, knows.lax] at refused
    | outside none =>
        have inside := knows.inside
        rw [none] at inside
        cases inside

theorem Named.unplaced (h : goal.Named names) : goal.unplaced.Named names := by
  cases goal
  case declare name position type kind | assignment name position | afterName name position =>
    rintro _ ⟨⟩
    exact h (name, position) rfl
  all_goals exact h

/-- The goals that take the place of another one blame no other name than the one in front. -/
theorem Follow.named {t : Token} {next : List Goal} (h : goal.Follow t next)
    (known : ∀ name, t.lexeme = .identifier name → name ∈ names) : ∀ g ∈ next, g.Named names := by
  cases next with
  | nil => exact List.forall_mem_nil _
  | cons first others =>
      refine List.forall_mem_cons.mpr ⟨fun named blamed => ?_, fun g inside named blamed => ?_⟩
      · exact known _ (h.first first rfl named blamed).1
      · rw [h.others g inside] at blamed
        cases blamed

/-- When the shapes of goals let a lexeme pass, goals are left whose rows go on from it. -/
theorem reads_of_pass (knows : s.Knows names) (named : ∀ g ∈ goals, g.Named names)
    (known : ∀ name, l = .identifier name → name ∈ names) (more : l ≠ .endOfInput)
    {left : List Goal} (h : pass l (goals.map shape) = some left) :
    ∃ goals' s', goals'.map shape = left ∧ s'.Knows names ∧ (∀ g ∈ goals', g.Named names) ∧
      ∀ row last, ReadsAll goals' s' row last → ReadsAll goals s (l :: row) last := by
  induction goals generalizing s with
  | nil =>
      rw [List.map_nil, pass, if_neg more] at h
      cases h
  | cons goal goals ih =>
      rw [List.forall_mem_cons] at named
      let r := goal.react ⟨l, .start⟩ s
      have turned : r.scope.Knows names := knows.turns (turns_react goal ⟨l, .start⟩ s)
      have same := outcome_of_knows (l := l) knows named.1
      rw [List.map_cons, pass, ← same] at h
      cases moved : (goal.react ⟨l, .start⟩ s).move with
      | fail fault =>
          rw [Reaction.outcome, moved] at h
          cases h
      | pop =>
          have effect : goal.effect? l s = some ⟨r.scope, r.code, none⟩ := by
            rw [effect?, Reaction.effect?, moved]
          rw [Reaction.outcome, moved] at h
          obtain ⟨goals', s', shapes, knows', named', reads⟩ := ih turned named.2 h
          refine ⟨goals', s', shapes, knows', named', fun row last later => ?_⟩
          exact ⟨[], l :: row, _, rfl, explains_of_effect? effect, reads row last later⟩
      | shift next =>
          have effect : goal.effect? l s = some ⟨r.scope, r.code, some (next.map unplaced)⟩ := by
            rw [effect?, Reaction.effect?, moved]
          have follow := (sound_react goal ⟨l, .start⟩ s).follow next moved
          rw [Reaction.outcome, moved] at h
          cases h
          refine ⟨next.map unplaced ++ goals, _, ?_, turned, ?_, fun row last later => ?_⟩
          · simp
          · refine List.forall_mem_append.mpr ⟨?_, named.2⟩
            exact List.forall_mem_map.mpr fun g inside => (follow.named known g inside).unplaced
          · obtain ⟨first, rest, middle, rfl, mine, others⟩ := readsAll_append_iff.mp later
            exact ⟨l :: first, rest, middle, rfl, explains_of_effect? effect first middle mine,
              others⟩

theorem reads_of_passAll {row : List Lexeme} (knows : s.Knows names)
    (named : ∀ g ∈ goals, g.Named names) (known : ∀ name, .identifier name ∈ row → name ∈ names)
    (more : .endOfInput ∉ row) {left : List Goal}
    (h : passAll (goals.map shape) row = some left) :
    ∃ goals' s', s'.Knows names ∧ (∀ g ∈ goals', g.Named names) ∧
      ∀ row' last, ReadsAll goals' s' row' last → ReadsAll goals s (row ++ row') last := by
  induction row generalizing goals s with
  | nil => exact ⟨goals, s, knows, named, fun _ _ reads => reads⟩
  | cons l row ih =>
      rw [List.mem_cons, not_or] at more
      obtain ⟨next, passed, rest⟩ := Option.bind_eq_some_iff.mp h
      obtain ⟨goals', s', rfl, knows', named', reads⟩ :=
        reads_of_pass knows named (fun name same => known name (by simp [same])) (Ne.symm more.1)
          passed
      obtain ⟨goals'', s'', knows'', named'', reads'⟩ :=
        ih knows' named' (fun name inside => known name (List.mem_cons_of_mem _ inside)) more.2 rest
      exact ⟨goals'', s'', knows'', named'', fun row' last later =>
        reads _ last (reads' row' last later)⟩

/-! ### A row for each goal -/

section Rows

variable {x : String}

/-- A value without names. -/
def nullValue : Expression :=
  .of (.constant .nullWord) .nil

/-- The declaration of one variable. -/
def oneVariable (x : String) : Declaration :=
  ⟨.int, x, []⟩

/-- A subroutine that does nothing. -/
def emptySubroutine (kind : SubroutineKind) (x : String) : Subroutine :=
  ⟨kind, none, x, [], [], .nil⟩

theorem proper_nullValue : ∀ l ∈ nullValue.lexemes, l.Proper := by
  simp [nullValue, Expression.lexemes, Term.lexemes, Operations.lexemes, Lexeme.Proper]

theorem proper_oneVariable (name : (Lexeme.identifier x).Proper) :
    ∀ l ∈ (oneVariable x).tail, l.Proper := by
  simpa [oneVariable, Declaration.tail, Declaration.moreLexemes, TypeName.lexeme, Lexeme.Proper]
    using name

theorem proper_emptySubroutine (kind : SubroutineKind) (name : (Lexeme.identifier x).Proper) :
    ∀ l ∈ (emptySubroutine kind x).tail, l.Proper := by
  simpa [emptySubroutine, Subroutine.tail, Subroutine.bodyLexemes, Parameter.rowOf,
    Statements.lexemes, Lexeme.Proper] using name

/-- A statement that declared names are used in. -/
theorem executes_of_knows (knows : s.Knows names) (st : Statement)
    (known : ∀ name ∈ st.uses, name ∈ names) :
    ∃ s', s.Executes st.lexemes s' ∧ s'.Knows names :=
  ⟨s.counted st.branches st.loops,
    ⟨st, rfl, fun name used => knows.resolves (known name used), rfl⟩, knows.turns (.counts _ _)⟩

theorem uses_assign (name : String) : (Statement.assign name nullValue).uses = [name] := rfl

/-- What is left of a statement behind what is in front of it. -/
theorem reads_statement (knows : s.Knows names) (st : Statement)
    (uses : ∀ name ∈ st.uses, name ∈ names) (front : List Lexeme) {row : List Lexeme}
    (whole : front ++ row = st.lexemes) (proper : ∀ l ∈ row, l.Proper) :
    ∃ s', s.Executes (front ++ row) s' ∧ s'.Knows names ∧ ∀ l ∈ row, l.Proper := by
  obtain ⟨s', runs, knows'⟩ := executes_of_knows knows st uses
  exact ⟨s', whole ▸ runs, knows', proper⟩

/-- Every goal can read some row where it fails for nothing that is known. -/
theorem exists_reads (knows : s.Knows names) (named : goal.Named names) (known : x ∈ names)
    (word : (Lexeme.identifier x).Proper) :
    ∃ row s', goal.Reads s row s' ∧ s'.Knows names ∧ ∀ l ∈ row, l.Proper := by
  have nothing : s.frame.Resolves [] := resolves_nil _
  have proper := proper_nullValue
  cases goal with
  | classDeclaration =>
      exact ⟨Tree.Class.lexemes ⟨x, [], []⟩, { s with className := x },
        fun _ => ⟨⟨x, [], []⟩, rfl, by simp, rfl⟩, knows.turns (.renames x),
        by simpa [Tree.Class.lexemes, Lexeme.Proper] using word⟩
  | className =>
      exact ⟨[.identifier x], _, ⟨x, rfl, rfl⟩, knows.turns (.renames x), by simpa using word⟩
  | enterClass name => exact ⟨[], _, ⟨rfl, rfl⟩, knows.turns (.renames name), by simp⟩
  | classVariables => exact ⟨[], s, ⟨[], rfl, (s.setTable_table .classLevel).symm⟩, knows, by simp⟩
  | classVariable =>
      exact ⟨_, _, ⟨⟨.static, oneVariable x⟩, rfl, rfl⟩, knows.define .classLevel x _ .static,
        List.forall_mem_cons.mpr ⟨trivial, proper_oneVariable word⟩⟩
  | variableType kind =>
      exact ⟨_, _, ⟨oneVariable x, rfl, rfl⟩, knows.define _ x _ kind, proper_oneVariable word⟩
  | variableName type kind =>
      exact ⟨[.identifier x], _, ⟨x, rfl, rfl⟩, knows.define _ x type kind, by simpa using word⟩
  | moreVariables type kind =>
      exact ⟨_, s, ⟨[], rfl, (s.setTable_table _).symm⟩, knows,
        by simp [Declaration.moreLexemes, Lexeme.Proper]⟩
  | declare name position type kind =>
      exact ⟨[], _, ⟨rfl, rfl⟩, knows.define _ name type kind, by simp⟩
  | subroutines => exact ⟨[], s, ⟨[], rfl, by simp, rfl, rfl⟩, knows, by simp⟩
  | subroutine =>
      exact ⟨_, s, ⟨emptySubroutine .function x, rfl, resolves_nil _, rfl, rfl⟩, knows,
        List.forall_mem_cons.mpr ⟨trivial, List.forall_mem_cons.mpr ⟨trivial,
          proper_emptySubroutine _ word⟩⟩⟩
  | resultType kind =>
      exact ⟨_, s, fun _ => ⟨emptySubroutine kind x, rfl, rfl, resolves_nil _, rfl, rfl⟩, knows,
        List.forall_mem_cons.mpr ⟨trivial, proper_emptySubroutine kind word⟩⟩
  | subroutineName kind =>
      exact ⟨_, s, fun _ => ⟨emptySubroutine kind x, rfl, rfl, resolves_nil _, rfl, rfl⟩, knows,
        proper_emptySubroutine kind word⟩
  | enterSubroutine name kind =>
      exact ⟨[], _, ⟨rfl, rfl⟩, knows.turns (.enters name kind), by simp⟩
  | parameterList | moreParameters | localVariables =>
      exact ⟨[], s, ⟨[], rfl, (s.setTable_table .subroutineLevel).symm⟩, knows, by simp⟩
  | parameterType =>
      exact ⟨_, _, ⟨⟨.int, x⟩, rfl, rfl⟩, knows.define .subroutineLevel x _ .argument,
        List.forall_mem_cons.mpr ⟨trivial, by simpa using word⟩⟩
  | subroutineBody =>
      exact ⟨_, s, ⟨[], .nil, rfl, resolves_nil _, rfl, rfl⟩, knows,
        by simp [Statements.lexemes, Lexeme.Proper]⟩
  | localVariable =>
      exact ⟨_, _, ⟨oneVariable x, rfl, rfl⟩, knows.define .subroutineLevel x _ .localVar,
        List.forall_mem_cons.mpr ⟨trivial, proper_oneVariable word⟩⟩
  | openBody | endOfInput | emit => exact ⟨[], s, ⟨rfl, rfl⟩, knows, by simp⟩
  | statements => exact ⟨[], s, ⟨.nil, rfl, nothing, rfl⟩, knows, by simp⟩
  | letStatement =>
      exact ⟨[.keyword .letWord, .identifier x, .symbol .equals, .keyword .nullWord,
          .symbol .semicolon],
        reads_statement knows (.assign x nullValue) (by simpa [uses_assign] using known) [] rfl
          (by simpa [Lexeme.Proper] using word)⟩
  | letTarget =>
      exact ⟨[.identifier x, .symbol .equals, .keyword .nullWord, .symbol .semicolon],
        reads_statement knows (.assign x nullValue) (by simpa [uses_assign] using known)
          [.keyword .letWord] rfl (by simpa [Lexeme.Proper] using word)⟩
  | assignment name position =>
      have declared : name ∈ names := named (name, position) rfl
      exact ⟨[.symbol .equals, .keyword .nullWord, .symbol .semicolon],
        reads_statement knows (.assign name nullValue) (by simpa [uses_assign] using declared)
          [.keyword .letWord, .identifier name] rfl (by simp [Lexeme.Proper])⟩
  | ifStatement =>
      exact ⟨[.keyword .ifWord, .symbol .openParen, .keyword .nullWord, .symbol .closeParen,
          .symbol .openBrace, .symbol .closeBrace],
        reads_statement knows (.branch nullValue .nil) (List.forall_mem_nil _) [] rfl
          (by simp [Lexeme.Proper])⟩
  | whileStatement =>
      exact ⟨[.keyword .whileWord, .symbol .openParen, .keyword .nullWord, .symbol .closeParen,
          .symbol .openBrace, .symbol .closeBrace],
        reads_statement knows (.loop nullValue .nil) (List.forall_mem_nil _) [] rfl
          (by simp [Lexeme.Proper])⟩
  | doStatement =>
      exact ⟨[.keyword .doWord, .identifier x, .symbol .openParen, .symbol .closeParen,
          .symbol .semicolon],
        reads_statement knows (.perform (.own x .nil)) (List.forall_mem_nil _) [] rfl
          (by simpa [Lexeme.Proper] using word)⟩
  | returnStatement =>
      exact ⟨[.keyword .returnWord, .symbol .semicolon],
        reads_statement knows (.ret none) (List.forall_mem_nil _) [] rfl (by simp [Lexeme.Proper])⟩
  | returnValue =>
      exact ⟨[.symbol .semicolon],
        reads_statement knows (.ret none) (List.forall_mem_nil _) [.keyword .returnWord] rfl
          (by simp [Lexeme.Proper])⟩
  | elseBranch id => exact ⟨[], s, .inl ⟨rfl, rfl⟩, knows, by simp⟩
  | expression => exact ⟨_, s, ⟨nullValue, rfl, nothing, rfl⟩, knows, proper_nullValue⟩
  | operators => exact ⟨[], s, ⟨.nil, rfl, nothing, rfl⟩, knows, by simp⟩
  | term =>
      exact ⟨_, s, ⟨.constant .nullWord, rfl, nothing, rfl⟩, knows,
        by simp [Term.lexemes, Lexeme.Proper]⟩
  | afterName name position =>
      have declared := knows.resolves (named (name, position) rfl)
      exact ⟨[], s, ⟨.var name, rfl, List.forall_mem_singleton.mpr declared, rfl⟩, knows, by simp⟩
  | call =>
      exact ⟨_, s, ⟨.own x .nil, rfl, nothing, rfl⟩, knows,
        by simpa [Tree.Call.lexemes, Arguments.lexemes, Lexeme.Proper] using word⟩
  | callTail name =>
      exact ⟨[.symbol .openParen, .symbol .closeParen], s, ⟨.own name .nil, rfl, nothing, rfl⟩,
        knows, by simp [Lexeme.Proper]⟩
  | methodName qualifier =>
      exact ⟨[.identifier x, .symbol .openParen, .symbol .closeParen], s,
        ⟨.qualified qualifier x .nil, rfl, nothing, rfl⟩, knows,
        by simpa [Lexeme.Proper] using word⟩
  | qualifiedCall qualifier method =>
      exact ⟨[.symbol .openParen, .symbol .closeParen], s, ⟨.nil, rfl, nothing, rfl⟩, knows,
        by simp [Lexeme.Proper]⟩
  | arguments callee count | moreArguments callee count =>
      exact ⟨[.symbol .closeParen], s, ⟨.nil, rfl, nothing, rfl⟩, knows, by simp [Lexeme.Proper]⟩
  | expressionList | moreExpressions =>
      exact ⟨[], s, ⟨.nil, rfl, nothing, rfl⟩, knows, by simp⟩
  | symbol mark =>
      exact ⟨[.symbol mark], s, ⟨rfl, rfl⟩, knows, by simp [Lexeme.Proper]⟩

/-- So can several goals, one after the other. -/
theorem exists_readsAll (knows : s.Knows names) (named : ∀ g ∈ goals, g.Named names)
    (known : x ∈ names) (word : (Lexeme.identifier x).Proper) :
    ∃ row last, ReadsAll goals s row last ∧ ∀ l ∈ row, l.Proper := by
  induction goals generalizing s with
  | nil => exact ⟨[], s, ⟨rfl, rfl⟩, List.forall_mem_nil _⟩
  | cons goal goals ih =>
      rw [List.forall_mem_cons] at named
      obtain ⟨row, middle, reads, knows', proper⟩ := exists_reads knows named.1 known word
      obtain ⟨rest, last, later, proper'⟩ := ih knows' named.2
      exact ⟨row ++ rest, last, ⟨row, rest, middle, rfl, reads, later⟩,
        List.forall_mem_append.mpr ⟨proper, proper'⟩⟩

end Rows

/-! ### Rows that no class starts with -/

/-- The goals of a class behind its first word. -/
def members : List Goal :=
  [.className, .symbol .openBrace, .classVariables, .subroutines, .symbol .closeBrace, .endOfInput]

theorem exists_class_of_readsAll {row : List Lexeme} {last : Scope}
    (h : ReadsAll members s row last) :
    ∃ c : Tree.Class, c.lexemes = .keyword .classWord :: row := by
  obtain ⟨_, _, _, rfl, ⟨name, rfl, -⟩, named⟩ := h
  obtain ⟨_, rfl, opened⟩ := readsAll_symbol named
  obtain ⟨_, _, _, rfl, ⟨vs, rfl, -⟩, declared⟩ := opened
  obtain ⟨_, _, _, rfl, ⟨subs, rfl, -, -⟩, reads⟩ := declared
  obtain ⟨_, rfl, closed⟩ := readsAll_symbol reads
  obtain ⟨rfl, -⟩ := reads_of_readsAll closed
  exact ⟨⟨name, vs, subs⟩, by simp [Tree.Class.lexemes]⟩

theorem passAll_classDeclaration {row : List Lexeme} {left : List Goal}
    (h : passAll [.classDeclaration] (l :: row) = some left) :
    l = .keyword .classWord ∧ passAll (members.map shape) row = some left := by
  by_cases word : l = .keyword .classWord
  · subst word
    exact ⟨rfl, h⟩
  · have outcome : Goal.classDeclaration.outcome l = none := by
      simp [Goal.outcome, react, reactWord, word, Reaction.unexpected, Reaction.fail,
        Reaction.outcome]
    rw [passAll_of_none outcome] at h
    cases h

end Goal

/-- A scope in a function of a class that declares some names. -/
def Scope.knowing (names : List String) : Scope :=
  { Scope.initial false with
    subroutineKind := some .function
    classTable := SymbolTable.empty.defineAll names TypeName.int.text .static }

theorem Scope.knows_knowing (names : List String) : (knowing names).Knows names :=
  ⟨rfl, rfl, fun _ known => (SymbolTable.lookup?_defineAll ..).mpr (.inl known)⟩

/-- A row that the shapes let pass is the beginning of a class. -/
theorem exists_class_of_passAll {row : List Lexeme} {left : List Goal}
    (h : Goal.passAll [.classDeclaration] row = some left) (proper : ∀ l ∈ row, l.Proper) :
    ∃ completion, (∀ l ∈ completion, l.Proper) ∧
      ∃ c : Tree.Class, c.lexemes = row ++ completion := by
  have word : (Lexeme.identifier "x").Proper :=
    ⟨by decide, fun word => by cases word <;> decide⟩
  cases row with
  | nil =>
      exact ⟨Tree.Class.lexemes ⟨"x", [], []⟩,
        by simpa [Tree.Class.lexemes, Lexeme.Proper] using word, ⟨"x", [], []⟩, rfl⟩
  | cons l row =>
      obtain ⟨rfl, passed⟩ := Goal.passAll_classDeclaration h
      have later : ∀ l ∈ row, l.Proper := fun l inside => proper l (List.mem_cons_of_mem _ inside)
      let names := "x" :: Lexeme.names row
      obtain ⟨goals, s, knows, named, reads⟩ := Goal.reads_of_passAll (Scope.knows_knowing names)
        (by simp [Goal.members, Goal.Named, Goal.name?])
        (fun name inside => List.mem_cons_of_mem _ (Lexeme.mem_names.mpr inside))
        (fun ended => later _ ended) passed
      obtain ⟨completion, last, completes, proper'⟩ :=
        Goal.exists_readsAll knows named (List.mem_cons_self ..) word
      exact ⟨completion, proper', Goal.exists_class_of_readsAll (reads completion last completes)⟩

/-- A row that the shapes do not let pass starts no class with the end of its source. -/
theorem not_prefix_of_passAll {row : List Lexeme} (h : Goal.passAll [.classDeclaration] row = none)
    (c : Tree.Class) : ¬ row <+: c.lexemes ++ [.endOfInput] := by
  rintro ⟨later, whole⟩
  have passed := Goal.passAll_class c
  rw [← whole, Goal.passAll_append, h] at passed
  cases passed

end Jack
