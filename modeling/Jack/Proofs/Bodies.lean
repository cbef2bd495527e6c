import Jack.Proofs.Numbering
import Jack.Proofs.Reactions
import Jack.Proofs.Steps

/-! # What statements leave alone

A goal that can come up in a statement declares nothing and enters nothing, and neither does any
goal that takes its place. So whatever becomes of a statement or an expression, and from wherever it
is read, the variables and the names of the scope stay; the numbers of branches and loops never get
lower, and behind one that was read they count the words that were passed.
-/

namespace Jack

namespace Goal

/-- Whether a goal can come up in a statement. -/
@[simp]
def inStatement : Goal → Bool
  | .statements | .letStatement | .letTarget | .assignment _ _ | .ifStatement | .elseBranch _
  | .whileStatement | .doStatement | .returnStatement | .returnValue | .expression | .operators
  | .term | .afterName _ _ | .call | .callTail _ | .methodName _ | .qualifiedCall _ _
  | .arguments _ _ | .moreArguments _ _ | .expressionList | .moreExpressions _ | .symbol _
  | .emit _ => true
  | _ => false

end Goal

/-- Two scopes differ in nothing but the numbers of the next branch and the next loop, which are not
lower in the second one. -/
structure Scope.Grows (s s' : Scope) : Prop where
  same : ∃ branches loops, s' = { s with branches, loops }
  branches : s.branches ≤ s'.branches
  loops : s.loops ≤ s'.loops

namespace Scope.Grows

variable {s s' s'' : Scope}

theorem refl (s : Scope) : s.Grows s :=
  ⟨⟨s.branches, s.loops, rfl⟩, Nat.le_refl _, Nat.le_refl _⟩

theorem trans (h : s.Grows s') (h' : s'.Grows s'') : s.Grows s'' := by
  obtain ⟨b, l, rfl⟩ := h.same
  obtain ⟨b', l', rfl⟩ := h'.same
  exact ⟨⟨b', l', rfl⟩, h.branches.trans h'.branches, h.loops.trans h'.loops⟩

end Scope.Grows

/-- A reaction that fails for no reason takes a number for each word of a branch or a loop that it
passes, and for nothing else; what takes its place can come up in a statement. -/
structure Reaction.Tallies (t : Token) (s : Scope) (r : Reaction) : Prop where
  pop : r.move = .pop → r.scope.branches = s.branches ∧ r.scope.loops = s.loops
  shift : ∀ next, r.move = .shift next → (∀ g ∈ next, g.inStatement) ∧
    r.scope.branches = s.branches + [t.lexeme].count (.keyword .ifWord) ∧
    r.scope.loops = s.loops + [t.lexeme].count (.keyword .whileWord)

namespace Goal

open Reaction

variable {goal : Goal} {t : Token} {s s' : Scope} {r : Reaction} {code : List Code}
  {next later : List Goal}

theorem tallies_pop : (pop s code).Tallies t s :=
  ⟨fun _ => ⟨rfl, rfl⟩, fun _ moved => by cases moved⟩

theorem tallies_fail {fault : Fault} : (fail s' code fault).Tallies t s :=
  ⟨fun moved => (by cases moved), fun _ moved => by cases moved⟩

theorem tallies_shift (noBranch : t.lexeme ≠ .keyword .ifWord)
    (noLoop : t.lexeme ≠ .keyword .whileWord) (h : ∀ g ∈ next, g.inStatement) :
    (shift s code next).Tallies t s := by
  refine ⟨fun moved => (by cases moved), fun _ moved => ?_⟩
  cases moved
  simp [shift, noBranch, noLoop]
  exact h

theorem tallies_shift_symbol {mark : Symbol} (found : t.lexeme = .symbol mark)
    (h : ∀ g ∈ next, g.inStatement) : (shift s code next).Tallies t s :=
  tallies_shift (by simp [found]) (by simp [found]) h

theorem tallies_andThen (first : r.Tallies t s) (h : ∀ g ∈ later, g.inStatement) :
    (r.andThen later).Tallies t s := by
  unfold andThen
  split
  · next next moved =>
    refine ⟨fun stays => (by cases stays), fun _ shifted => ?_⟩
    cases shifted
    obtain ⟨inside, counted⟩ := first.shift next moved
    exact ⟨List.forall_mem_append.mpr ⟨inside, h⟩, counted⟩
  · exact first

theorem tallies_if : (reactIf t s).Tallies t s := by
  unfold reactIf reactWord
  dsimp only
  split
  · next word =>
    refine ⟨fun moved => (by cases moved), fun _ moved => ?_⟩
    cases moved
    simp [shift, word]
  · exact tallies_fail

theorem tallies_while : (reactWhile t s).Tallies t s := by
  unfold reactWhile reactWord
  dsimp only
  split
  · next word =>
    refine ⟨fun moved => (by cases moved), fun _ moved => ?_⟩
    cases moved
    simp [shift, word]
  · exact tallies_fail

/-- The words of the other statements take no number. -/
theorem tallies_word {word : Keyword} (noBranch : word ≠ .ifWord) (noLoop : word ≠ .whileWord)
    (h : ∀ g ∈ next, g.inStatement) : (reactWord word t s code next).Tallies t s := by
  unfold reactWord
  split
  · next found => exact tallies_shift (by simp [found, noBranch]) (by simp [found, noLoop]) h
  · exact tallies_fail

theorem tallies_symbol {mark : Symbol} (h : ∀ g ∈ next, g.inStatement) :
    (reactSymbol mark t s code next).Tallies t s := by
  unfold reactSymbol
  split
  · next found => exact tallies_shift_symbol found h
  · exact tallies_fail

theorem tallies_name {next : String → List Goal} (h : ∀ name, ∀ g ∈ next name, g.inStatement) :
    (reactName t s next).Tallies t s := by
  unfold reactName
  split
  · next found => exact tallies_shift (by simp [found]) (by simp [found]) (h _)
  · exact tallies_fail

theorem tallies_statement (h : reactStatement? t s = some r) : r.Tallies t s := by
  unfold reactStatement? at h
  split at h
  · cases h
    exact tallies_word (by decide) (by decide) (by simp)
  · cases h
    exact tallies_if
  · cases h
    exact tallies_while
  · cases h
    exact tallies_word (by decide) (by decide) (by simp)
  · cases h
    exact tallies_word (by decide) (by decide) (by simp)
  · cases h

theorem tallies_variable {name : String} {position : Position} {react : SymbolEntry → Reaction}
    (h : ∀ entry, (react entry).Tallies t s) :
    (withVariable name position s react).Tallies t s := by
  unfold withVariable
  split
  · exact h _
  · exact tallies_fail

theorem tallies_term : (reactTerm t s).Tallies t s := by
  unfold reactTerm
  split
  · next found => exact tallies_shift (by simp [found]) (by simp [found]) (by simp)
  · next found => exact tallies_shift (by simp [found]) (by simp [found]) (by simp)
  · next word found =>
    split
    · next constant =>
      refine tallies_shift ?_ ?_ (by simp)
      all_goals
        rw [found]
        rintro ⟨⟩
        cases constant
    · exact tallies_fail
  · next found => exact tallies_shift_symbol found (by simp)
  · next mark _ found =>
    split
    · exact tallies_shift_symbol found (by simp)
    · exact tallies_fail
  · next found => exact tallies_shift (by simp [found]) (by simp [found]) (by simp)
  · exact tallies_fail

theorem tallies_expression : (reactExpression t s).Tallies t s :=
  tallies_andThen tallies_term (by simp)

theorem tallies_operators : (reactOperators t s).Tallies t s := by
  unfold reactOperators
  split
  · next found =>
    split
    · exact tallies_shift_symbol found (by simp)
    · exact tallies_pop
  · exact tallies_pop

theorem tallies_callTail (name : String) : (reactCallTail name t s).Tallies t s := by
  unfold reactCallTail
  split
  · next found => exact tallies_shift_symbol found (by simp)
  · exact tallies_symbol (by simp)

theorem tallies_qualifiedCall (qualifier method : String) :
    (reactQualifiedCall qualifier method t s).Tallies t s := by
  unfold reactQualifiedCall
  split <;> exact tallies_symbol (by simp)

theorem tallies_afterName (name : String) (position : Position) :
    (reactAfterName name position t s).Tallies t s := by
  unfold reactAfterName
  split
  · next found =>
    exact tallies_variable fun _ =>
      tallies_shift_symbol found (by simp)
  · exact tallies_callTail name
  · exact tallies_callTail name
  · exact tallies_variable fun _ => tallies_pop

theorem tallies_assignment (name : String) (position : Position) :
    (reactAssignment name position t s).Tallies t s := by
  refine tallies_variable fun _ => ?_
  split
  · next found => exact tallies_shift_symbol found (by simp)
  · exact tallies_symbol (by simp)

theorem tallies_arguments (callee : String) (count : Nat) :
    (reactArguments callee count t s).Tallies t s := by
  unfold reactArguments
  split
  · next found => exact tallies_shift_symbol found (by simp)
  · exact tallies_andThen tallies_expression (by simp)

theorem tallies_moreArguments (callee : String) (count : Nat) :
    (reactMoreArguments callee count t s).Tallies t s := by
  unfold reactMoreArguments
  split
  · next found => exact tallies_shift_symbol found (by simp)
  · exact tallies_symbol (by simp)

/-- In a statement, numbers are taken for the words that are passed. -/
theorem tallies_react (inside : goal.inStatement) (t : Token) (s : Scope) :
    (goal.react t s).Tallies t s := by
  cases goal with
  | letStatement | doStatement | returnStatement =>
      exact tallies_word (by decide) (by decide) (by simp)
  | ifStatement => exact tallies_if
  | whileStatement => exact tallies_while
  | letTarget | call | methodName => exact tallies_name (by simp)
  | assignment name position => exact tallies_assignment name position
  | expression => exact tallies_expression
  | operators => exact tallies_operators
  | term => exact tallies_term
  | afterName name position => exact tallies_afterName name position
  | callTail name => exact tallies_callTail name
  | qualifiedCall qualifier method => exact tallies_qualifiedCall qualifier method
  | arguments callee count => exact tallies_arguments callee count
  | moreArguments callee count => exact tallies_moreArguments callee count
  | symbol mark => exact tallies_symbol (by simp)
  | emit code => exact tallies_pop
  | statements =>
      rw [react]
      split
      · next r found => exact tallies_andThen (tallies_statement found) (by simp)
      · exact tallies_pop
  | elseBranch id =>
      rw [react]
      split
      · next found =>
        exact tallies_shift (by simp [found]) (by simp [found]) (by simp)
      · exact tallies_pop
  | returnValue =>
      rw [react]
      split
      · next found =>
        exact tallies_shift_symbol found (by simp)
      · exact tallies_andThen tallies_expression (by simp)
  | expressionList =>
      rw [react]
      split
      · exact ⟨fun _ => ⟨rfl, rfl⟩, fun _ moved => by cases moved⟩
      · exact tallies_andThen tallies_expression (by simp)
  | moreExpressions count =>
      rw [react]
      split
      · next found =>
        exact tallies_shift_symbol found (by simp)
      · exact ⟨fun _ => ⟨rfl, rfl⟩, fun _ moved => by cases moved⟩
  | _ => cases inside

/-- In a statement, nothing is declared and nothing is entered. -/
theorem grows_react (inside : goal.inStatement) (t : Token) (s : Scope) :
    s.Grows (goal.react t s).scope := by
  have closed : goal.notes = false := by
    cases goal <;> first | rfl | cases inside
  have drawn := draws_react goal t s
  exact ⟨counts_react closed t s, drawn.branches, drawn.loops⟩

end Goal

namespace Engine

/-- An engine has come from another one by passing tokens in a statement: the scope has grown, what
was written is still there, and the numbers taken are those of the words for branches and loops
among the tokens. -/
structure Advances (e e' : Engine) (passed : List Token) : Prop where
  cursor : e.cursor.Passes passed e'.cursor
  scope : e.scope.Grows e'.scope
  code : e.code <+: e'.code
  branches : e'.scope.branches =
    e.scope.branches + (passed.map Token.lexeme).count (.keyword .ifWord)
  loops : e'.scope.loops =
    e.scope.loops + (passed.map Token.lexeme).count (.keyword .whileWord)

namespace Advances

variable {goal : Goal} {e e' : Engine} {passed : List Token}

theorem refl (e : Engine) : e.Advances e [] :=
  ⟨.nothing _, .refl _, List.prefix_rfl, rfl, rfl⟩

theorem pop (inside : goal.inStatement) (moved : (e.reaction goal).move = .pop)
    (h : (e.absorb (e.reaction goal)).Advances e' passed) : e.Advances e' passed := by
  obtain ⟨branches, loops⟩ :=
    (Goal.tallies_react inside e.cursor.current e.scope).pop moved
  refine ⟨h.cursor, (Goal.grows_react inside _ _).trans h.scope, ?_, ?_, ?_⟩
  · exact (List.prefix_append _ _).trans (code_absorb e _ ▸ h.code)
  · rw [h.branches]
    exact congrArg (· + _) branches
  · rw [h.loops]
    exact congrArg (· + _) loops

theorem shift {next : List Goal} (inside : goal.inStatement)
    (moved : (e.reaction goal).move = .shift next)
    (step : (e.absorb (e.reaction goal)).advance.1 = .ok ())
    (h : (e.absorb (e.reaction goal)).advance.2.Advances e' passed) :
    e.Advances e' (e.cursor.current :: passed) := by
  obtain ⟨-, branches, loops⟩ :=
    (Goal.tallies_react inside e.cursor.current e.scope).shift next moved
  have more := Goal.isEnd_of_react_shift moved
  have written : (e.absorb (e.reaction goal)).advance.2.code = e.code ++ (e.reaction goal).code :=
    code_absorb e _
  have counted (l : Lexeme) : ((e.cursor.current :: passed).map Token.lexeme).count l =
      [e.cursor.current.lexeme].count l + (passed.map Token.lexeme).count l := by
    rw [List.map_cons, ← List.singleton_append, List.count_append]
  refine ⟨.token more step h.cursor, (Goal.grows_react inside _ _).trans h.scope, ?_, ?_, ?_⟩
  · exact (List.prefix_append _ _).trans (written ▸ h.code)
  · rw [h.branches, counted, ← Nat.add_assoc]
    exact congrArg (· + _) branches
  · rw [h.loops, counted, ← Nat.add_assoc]
    exact congrArg (· + _) loops

end Advances

/-- Steps from goals of a statement only lead to goals of a statement. -/
theorem exists_advances_of_steps {x y : List Goal × Engine} (steps : Steps x y)
    (inside : ∀ g ∈ x.1, g.inStatement) :
    (∀ g ∈ y.1, g.inStatement) ∧ ∃ passed, x.2.Advances y.2 passed := by
  induction steps using Relation.ReflTransGen.head_induction_on with
  | refl => exact ⟨inside, [], .refl _⟩
  | head step _ ih =>
      cases step with
      | pop moved =>
          rw [List.forall_mem_cons] at inside
          obtain ⟨inside', passed, advances⟩ := ih inside.2
          exact ⟨inside', passed, advances.pop inside.1 moved⟩
      | @shift goal rest next e moved passed =>
          rw [List.forall_mem_cons] at inside
          have next := ((Goal.tallies_react inside.1 _ _).shift next moved).1
          obtain ⟨inside', row, advances⟩ := ih (List.forall_mem_append.mpr ⟨next, inside.2⟩)
          exact ⟨inside', _, advances.shift inside.1 moved passed⟩

/-- Whatever becomes of goals of a statement, the scope only grows and what was written stays. -/
theorem grows_of_run {goals : List Goal} {e e' : Engine} {outcome : Except Failure Unit}
    (inside : ∀ g ∈ goals, g.inStatement) (ran : e.run goals = (outcome, e')) :
    e.scope.Grows e'.scope ∧ e.code <+: e'.code := by
  cases outcome with
  | ok =>
      obtain ⟨-, passed, advances⟩ := exists_advances_of_steps (steps_of_run ran) inside
      exact ⟨advances.scope, advances.code⟩
  | error failure =>
      obtain ⟨goal, rest, last, steps, -, written, scope, -⟩ := fails_of_run ran
      obtain ⟨inside', passed, advances⟩ := exists_advances_of_steps steps inside
      have last := Goal.grows_react (inside' goal (List.mem_cons_self ..)) last.cursor.current
        last.scope
      rw [written, scope]
      exact ⟨advances.scope.trans last, advances.code.trans (List.prefix_append _ _)⟩

theorem run_of_perform {goal : Goal} {e e' : Engine} {answer : Except Failure Answer}
    (asked : e.perform (.reach goal) = (answer, e')) :
    ∃ outcome, e.run [goal] = (outcome, e') ∧ answer = outcome.map fun _ => reached goal e' := by
  rcases ran : e.run [goal] with ⟨outcome, last⟩
  simp only [perform, ran] at asked
  cases asked
  exact ⟨outcome, rfl, rfl⟩

end Engine

/-- Reading a statement or an expression leaves the variables and the names of the scope alone, from
whatever state it is asked for and whether it succeeds or fails. What was written stays in front of
what it writes, and no number of a label is taken back; behind one that was read, the numbers that
were taken are those of the words for branches and loops among the tokens that were passed. -/
theorem statements_leave_scopes_alone (goal : Goal) (inside : goal.inStatement) (e e' : Engine)
    (answer : Except Failure Engine.Answer) (asked : e.perform (.reach goal) = (answer, e')) :
    e'.scope.classTable = e.scope.classTable ∧
    e'.scope.subroutineTable = e.scope.subroutineTable ∧
    e'.scope.className = e.scope.className ∧
    e'.scope.subroutineName = e.scope.subroutineName ∧
    e'.scope.subroutineKind = e.scope.subroutineKind ∧
    e.code <+: e'.code ∧
    e.scope.branches ≤ e'.scope.branches ∧ e.scope.loops ≤ e'.scope.loops ∧
    ∀ found, answer = .ok found → ∃ passed, e.cursor.Passes passed e'.cursor ∧
      e'.scope.branches =
        e.scope.branches + (passed.map Token.lexeme).count (.keyword .ifWord) ∧
      e'.scope.loops =
        e.scope.loops + (passed.map Token.lexeme).count (.keyword .whileWord) := by
  have single : ∀ g ∈ [goal], g.inStatement := List.forall_mem_singleton.mpr inside
  obtain ⟨outcome, ran, same⟩ := Engine.run_of_perform asked
  obtain ⟨⟨⟨branches, loops, kept⟩, more, more'⟩, written⟩ := Engine.grows_of_run single ran
  refine ⟨by rw [kept], by rw [kept], by rw [kept], by rw [kept], by rw [kept], written, more,
    more', ?_⟩
  rintro found rfl
  cases outcome with
  | error failure => cases same
  | ok =>
      obtain ⟨-, passed, advances⟩ :=
        Engine.exists_advances_of_steps (Engine.steps_of_run ran) single
      exact ⟨passed, advances.cursor, advances.branches, advances.loops⟩

/-- A loop with two branches in it is read; then a loop is asked for where none stands, which takes
a number and sets a label for nothing. -/
theorem statements_leave_scopes_alone_at_loop :
    let stream := TokenStream.readFrom none []
      (.ofSource 8 (.text "while(x)\x7bif(1)\x7b\x7delse\x7bif(2)\x7b\x7d\x7d\x7d\x7d"))
    let scope := (Scope.initial false).define .subroutineLevel "x" "int" .localVar
    let e : Engine :=
      { Engine.atStart stream ⟨.keyword .whileWord, .start⟩ false none with scope }
    let read := e.perform (.reach .statements)
    let failed := read.2.perform (.reach .whileStatement)
    Goal.statements.inStatement = true ∧ Goal.whileStatement.inStatement = true ∧
      read.2.scope.subroutineTable = scope.subroutineTable ∧
      read.2.scope.branches = 2 ∧ read.2.scope.loops = 1 ∧
      (∃ passed, e.cursor.Passes passed read.2.cursor ∧
        (passed.map Token.lexeme).count (.keyword .ifWord) = 2 ∧
        (passed.map Token.lexeme).count (.keyword .whileWord) = 1) ∧
      failed.1.toOption.isNone ∧ failed.2.scope.subroutineTable = scope.subroutineTable ∧
      read.2.code <+: failed.2.code ∧ failed.2.scope.loops = 2 := by
  intro stream scope e read failed
  have counted : read.2.scope.branches = 2 ∧ read.2.scope.loops = 1 := by decide +kernel
  have ended : failed.1.toOption.isNone ∧ failed.2.scope.loops = 2 := by decide +kernel
  obtain ⟨-, table, -, -, -, -, -, -, behind⟩ :=
    statements_leave_scopes_alone .statements rfl e read.2 read.1 rfl
  obtain ⟨-, table', -, -, -, written, -⟩ :=
    statements_leave_scopes_alone .whileStatement rfl read.2 failed.2 failed.1 rfl
  have found : read.1.toOption.isSome := by decide +kernel
  refine ⟨rfl, rfl, table, counted.1, counted.2, ?_, ended.1, table'.trans table, written, ended.2⟩
  cases answered : read.1 with
  | error failure => rw [answered] at found; cases found
  | ok answer =>
      obtain ⟨passed, passes, branches, loops⟩ := behind answer answered
      have none : e.scope.branches = 0 ∧ e.scope.loops = 0 := by decide
      refine ⟨passed, passes, ?_, ?_⟩ <;> omega

end Jack
