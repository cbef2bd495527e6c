import Jack.Compiler.Session
import Jack.Proofs.Driving
import Jack.Proofs.Layout

/-! # Numbers of labels

A branch or a loop takes its number before anything of it is read, and sets all labels with this
number. Goals hold the labels that are still to be set, so a label is at every time either set,
held by one goal, or has a number that was not taken yet. This stays so when a goal fails, since
a number that was taken is never given back: an engine sets no label twice, whatever it is asked
to reach and in which order.
-/

namespace Jack

/-- The labels that a goal has still to set. -/
def Goal.reserved : Goal → List Label
  | .emit code => Code.labels code
  | .elseBranch id => [.branchEnd id]
  | _ => []

/-- The goals that a move puts in place. -/
def Move.pending : Move → List Goal
  | .shift next => next
  | .pop | .fail _ => []

namespace Reaction

/-- The labels that a reaction sets and those that are still to be set behind it. -/
def labels (r : Reaction) : List Label :=
  Code.labels r.code ++ r.move.pending.flatMap Goal.reserved

/-- A reaction sets or leaves the reserved labels, and no others but with numbers that it takes. -/
structure Draws (s : Scope) (reserved : List Label) (r : Reaction) : Prop where
  branches : s.branches ≤ r.scope.branches
  loops : s.loops ≤ r.scope.loops
  labels : ∃ fresh, r.labels = reserved ++ fresh ∧ fresh.Nodup ∧
    ∀ name ∈ fresh, name.Between s.branches r.scope.branches s.loops r.scope.loops

/-- A reaction takes no number and sets no label. -/
structure Quiet (s : Scope) (r : Reaction) : Prop where
  branches : r.scope.branches = s.branches
  loops : r.scope.loops = s.loops
  labels : r.labels = []

variable {s : Scope} {r : Reaction} {reserved : List Label} {later : List Goal}

theorem Draws.of_labels (branches : r.scope.branches = s.branches)
    (loops : r.scope.loops = s.loops) (labels : r.labels = reserved) : r.Draws s reserved :=
  ⟨branches.ge, loops.ge, [], by simp [labels], List.nodup_nil, by simp⟩

theorem Quiet.draws (h : r.Quiet s) : r.Draws s [] :=
  .of_labels h.branches h.loops h.labels

theorem labels_andThen (h : later.flatMap Goal.reserved = []) :
    (r.andThen later).labels = r.labels := by
  unfold andThen labels
  split
  · next next moved => simp [moved, Move.pending, h]
  · rfl

theorem Quiet.andThen (h : r.Quiet s) (later : List Goal)
    (none : later.flatMap Goal.reserved = []) : (r.andThen later).Quiet s := by
  refine ⟨?_, ?_, ?_⟩
  · rw [scope_andThen, h.branches]
  · rw [scope_andThen, h.loops]
  · rw [labels_andThen none, h.labels]

theorem Draws.andThen (h : r.Draws s reserved) (later : List Goal)
    (none : later.flatMap Goal.reserved = []) : (r.andThen later).Draws s reserved := by
  refine ⟨?_, ?_, ?_⟩
  · rw [scope_andThen]
    exact h.branches
  · rw [scope_andThen]
    exact h.loops
  · rw [scope_andThen, labels_andThen none]
    exact h.labels

end Reaction

/-! ### Reactions -/

namespace Goal

open Reaction

section Templates

theorem reserved_string (content : String) : (emit (Template.string content)).reserved = [] :=
  labels_of_emits (f := ⟨"", .empty, .empty⟩) (emits_string content)

theorem reserved_constant (word : String) : (emit (Template.constant word)).reserved = [] := by
  unfold Template.constant
  split
  · rfl
  · split <;> rfl

theorem reserved_unary (op : UnaryOp) : (emit [Template.unary op]).reserved = [] := by
  cases op <;> rfl

theorem reserved_binary (op : BinaryOp) : (emit [Template.binary op]).reserved = [] := by
  cases op <;> rfl

theorem labels_prologue (s : Scope) (kind : SubroutineKind) :
    Code.labels (Template.header s :: Template.prologue s kind) = [] := by
  cases kind <;> rfl

end Templates

variable {t : Token} {s : Scope} {code : List Code} {next : List Goal}

theorem quiet_shift (written : Code.labels code = []) (none : next.flatMap reserved = []) :
    (shift s code next).Quiet s :=
  ⟨rfl, rfl, by simp [shift, Reaction.labels, Move.pending, written, none]⟩

theorem quiet_word {word : Keyword} (written : Code.labels code = [])
    (none : next.flatMap reserved = []) : (reactWord word t s code next).Quiet s := by
  unfold reactWord
  split
  · exact quiet_shift written none
  · exact ⟨rfl, rfl, by simp [unexpected, fail, Reaction.labels, Move.pending, written]⟩

theorem quiet_symbol {mark : Symbol} (written : Code.labels code = [])
    (none : next.flatMap reserved = []) : (reactSymbol mark t s code next).Quiet s := by
  unfold reactSymbol
  split
  · exact quiet_shift written none
  · exact ⟨rfl, rfl, by simp [unexpected, fail, Reaction.labels, Move.pending, written]⟩

theorem quiet_name {next : String → List Goal} (none : ∀ name, (next name).flatMap reserved = []) :
    (reactName t s next).Quiet s := by
  unfold reactName
  split
  · exact quiet_shift rfl (none _)
  · exact ⟨rfl, rfl, rfl⟩

theorem quiet_type {next : String → List Goal} (none : ∀ type, (next type).flatMap reserved = []) :
    (reactType t s next).Quiet s := by
  unfold reactType
  split
  · exact quiet_shift rfl (none _)
  · exact ⟨rfl, rfl, rfl⟩

theorem quiet_variable {name : String} {position : Position} {react : SymbolEntry → Reaction}
    (quiet : ∀ entry, (react entry).Quiet s) : (withVariable name position s react).Quiet s := by
  unfold withVariable
  split
  · exact quiet _
  · exact ⟨rfl, rfl, rfl⟩

theorem reserved_classVariableAfter? (h : classVariableAfter? t = some next) :
    next.flatMap reserved = [] := by
  unfold classVariableAfter? at h
  split at h
  · obtain ⟨kind, -, rfl⟩ := Option.map_eq_some_iff.mp h
    rfl
  · cases h

theorem reserved_subroutineAfter? (h : subroutineAfter? t = some next) :
    next.flatMap reserved = [] := by
  unfold subroutineAfter? at h
  split at h
  · obtain ⟨kind, -, rfl⟩ := Option.map_eq_some_iff.mp h
    rfl
  · cases h

theorem quiet_term : (reactTerm t s).Quiet s := by
  unfold reactTerm
  split
  · exact quiet_shift rfl rfl
  · exact quiet_shift rfl ((List.append_nil _).trans (reserved_string _))
  · split
    · exact quiet_shift rfl ((List.append_nil _).trans (reserved_constant _))
    · exact ⟨rfl, rfl, rfl⟩
  · exact quiet_shift rfl rfl
  · split
    · next op _ => exact quiet_shift rfl ((List.append_nil _).trans (reserved_unary op))
    · exact ⟨rfl, rfl, rfl⟩
  · exact quiet_shift rfl rfl
  · exact ⟨rfl, rfl, rfl⟩

theorem quiet_expression : (reactExpression t s).Quiet s :=
  quiet_term.andThen [.operators] rfl

theorem quiet_operators : (reactOperators t s).Quiet s := by
  unfold reactOperators
  split
  · split
    · next op _ => exact quiet_shift rfl ((List.append_nil _).trans (reserved_binary op))
    · exact ⟨rfl, rfl, rfl⟩
  · exact ⟨rfl, rfl, rfl⟩

theorem quiet_callTail (name : String) : (reactCallTail name t s).Quiet s := by
  unfold reactCallTail
  split
  · exact quiet_shift rfl rfl
  · exact quiet_symbol rfl rfl

theorem quiet_qualifiedCall (qualifier method : String) :
    (reactQualifiedCall qualifier method t s).Quiet s := by
  unfold reactQualifiedCall
  split
  · exact quiet_symbol rfl rfl
  · exact quiet_symbol rfl rfl

theorem quiet_afterName (name : String) (position : Position) :
    (reactAfterName name position t s).Quiet s := by
  unfold reactAfterName
  split
  · exact quiet_variable fun entry => quiet_shift rfl rfl
  · exact quiet_callTail name
  · exact quiet_callTail name
  · exact quiet_variable fun entry => ⟨rfl, rfl, rfl⟩

theorem quiet_assignment (name : String) (position : Position) :
    (reactAssignment name position t s).Quiet s := by
  refine quiet_variable fun entry => ?_
  split
  · exact quiet_shift rfl rfl
  · exact quiet_symbol rfl rfl

theorem quiet_arguments (callee : String) (count : Nat) :
    (reactArguments callee count t s).Quiet s := by
  unfold reactArguments
  split
  · exact quiet_shift rfl rfl
  · exact quiet_expression.andThen _ rfl

theorem quiet_moreArguments (callee : String) (count : Nat) :
    (reactMoreArguments callee count t s).Quiet s := by
  unfold reactMoreArguments
  split
  · exact quiet_shift rfl rfl
  · exact quiet_symbol rfl rfl

theorem quiet_declare (name : String) (position : Position) (type : String)
    (kind : VariableKind) : (reactDeclare name position type kind s).Quiet s := by
  unfold reactDeclare
  dsimp only
  split
  · exact ⟨rfl, rfl, rfl⟩
  · cases kind <;> exact ⟨rfl, rfl, rfl⟩

theorem quiet_openBody : (reactOpenBody s).Quiet s := by
  unfold reactOpenBody
  dsimp only
  split
  · exact ⟨rfl, rfl, rfl⟩
  · next kind _ => exact ⟨rfl, rfl, (List.append_nil _).trans (labels_prologue s kind)⟩

/-- A branch draws its two labels, also if its word is missing. -/
theorem draws_if : (reactIf t s).Draws s [] := by
  unfold reactIf reactWord
  dsimp only
  split
  · refine ⟨Nat.le_succ _, Nat.le_refl _, [.branchNot s.branches, .branchEnd s.branches], rfl,
      ?_, ?_⟩
    · simp
    · simp [Label.Between, shift]
  · exact ⟨Nat.le_succ _, Nat.le_refl _, [], rfl, List.nodup_nil, by simp⟩

/-- A loop draws its two labels, and sets the first one also if its word is missing. -/
theorem draws_while : (reactWhile t s).Draws s [] := by
  unfold reactWhile reactWord
  dsimp only
  split
  · refine ⟨Nat.le_refl _, Nat.le_succ _, [.loopStart s.loops, .loopEnd s.loops], rfl, ?_, ?_⟩
    · simp
    · simp [Label.Between, shift]
  · refine ⟨Nat.le_refl _, Nat.le_succ _, [.loopStart s.loops], rfl, ?_, ?_⟩
    · simp
    · simp [Label.Between, unexpected, fail]

theorem draws_statement {r : Reaction} (h : reactStatement? t s = some r) : r.Draws s [] := by
  unfold reactStatement? at h
  split at h
  · cases h
    exact (quiet_word rfl rfl).draws
  · cases h
    exact draws_if
  · cases h
    exact draws_while
  · cases h
    exact (quiet_word rfl rfl).draws
  · cases h
    exact (quiet_word rfl rfl).draws
  · cases h

/-- What a goal does sets its reserved labels and no others but with numbers that it takes. -/
theorem draws_react (goal : Goal) (t : Token) (s : Scope) :
    (goal.react t s).Draws s goal.reserved := by
  cases goal with
  | classDeclaration | localVariable | letStatement | doStatement | returnStatement =>
      exact (quiet_word rfl rfl).draws
  | className | variableName | subroutineName | letTarget | call | methodName =>
      exact (quiet_name fun _ => rfl).draws
  | variableType | parameterType => exact (quiet_type fun _ => rfl).draws
  | subroutineBody | symbol => exact (quiet_symbol rfl rfl).draws
  | ifStatement => exact draws_if
  | whileStatement => exact draws_while
  | declare name position type kind => exact (quiet_declare name position type kind).draws
  | openBody => exact quiet_openBody.draws
  | assignment name position => exact (quiet_assignment name position).draws
  | expression => exact quiet_expression.draws
  | operators => exact quiet_operators.draws
  | term => exact quiet_term.draws
  | afterName name position => exact (quiet_afterName name position).draws
  | callTail name => exact (quiet_callTail name).draws
  | qualifiedCall qualifier method => exact (quiet_qualifiedCall qualifier method).draws
  | arguments callee count => exact (quiet_arguments callee count).draws
  | moreArguments callee count => exact (quiet_moreArguments callee count).draws
  | emit code => exact .of_labels rfl rfl (List.append_nil _)
  | enterClass name => exact .of_labels rfl rfl rfl
  | enterSubroutine name kind =>
      rw [react, Scope.enterSubroutine]
      dsimp only
      split <;> exact .of_labels rfl rfl rfl
  | classVariables =>
      rw [react]
      split
      · next next found =>
        refine (quiet_shift rfl ?_).draws
        rw [List.flatMap_append, reserved_classVariableAfter? found]
        rfl
      · exact .of_labels rfl rfl rfl
  | classVariable =>
      rw [react]
      split
      · next next found => exact (quiet_shift rfl (reserved_classVariableAfter? found)).draws
      · exact .of_labels rfl rfl rfl
  | subroutines =>
      rw [react]
      split
      · next next found =>
        refine .of_labels rfl rfl ?_
        rw [Reaction.labels, shift, Move.pending, List.flatMap_append,
          reserved_subroutineAfter? found]
        rfl
      · exact .of_labels rfl rfl rfl
  | subroutine =>
      rw [react]
      split
      · next next found => exact .of_labels rfl rfl (reserved_subroutineAfter? found)
      · exact .of_labels rfl rfl rfl
  | elseBranch id =>
      rw [react]
      split <;> exact .of_labels rfl rfl rfl
  | statements =>
      rw [react]
      split
      · next r found => exact (draws_statement found).andThen [.statements] rfl
      · exact .of_labels rfl rfl rfl
  | moreVariables =>
      rw [react]
      split
      · exact .of_labels rfl rfl rfl
      · exact (quiet_symbol rfl rfl).draws
  | returnValue | expressionList =>
      rw [react]
      split
      · exact .of_labels rfl rfl rfl
      · exact (quiet_expression.andThen _ rfl).draws
  | resultType | parameterList | moreParameters | localVariables | moreExpressions | endOfInput =>
      rw [react]
      split <;> exact .of_labels rfl rfl rfl

end Goal

/-! ### Engines -/

namespace Engine

/-- The labels that an engine has set and those that its goals have still to set are different from
each other, and their numbers are taken. -/
structure Fresh (e : Engine) (goals : List Goal) : Prop where
  once : (Code.labels e.code ++ goals.flatMap Goal.reserved).Nodup
  taken : ∀ name ∈ Code.labels e.code ++ goals.flatMap Goal.reserved,
    name.Between 0 e.scope.branches 0 e.scope.loops

namespace Fresh

variable {e e' : Engine} {goal : Goal} {goals rest : List Goal}

theorem of_same (h : e.Fresh goals) (written : e'.written = e.written)
    (branches : e'.scope.branches = e.scope.branches) (loops : e'.scope.loops = e.scope.loops) :
    e'.Fresh goals := by
  have same : e'.code = e.code := congrArg List.reverse written
  refine ⟨?_, ?_⟩
  · rw [same]
    exact h.once
  · rw [same, branches, loops]
    exact h.taken

/-- Goals can be given up. -/
theorem stop (h : e.Fresh goals) : e.Fresh [] := by
  have fewer : (Code.labels e.code ++ [].flatMap Goal.reserved).Sublist
      (Code.labels e.code ++ goals.flatMap Goal.reserved) :=
    (List.Sublist.refl _).append (List.nil_sublist _)
  exact ⟨h.once.sublist fewer, fun name inside => h.taken name (fewer.subset inside)⟩

/-- What a goal does leaves no label for twice. -/
theorem absorb (h : e.Fresh (goal :: rest)) :
    (e.absorb (e.reaction goal)).Fresh ((e.reaction goal).move.pending ++ rest) := by
  have drawn : (e.reaction goal).Draws e.scope goal.reserved :=
    Goal.draws_react goal e.cursor.current e.scope
  obtain ⟨fresh, labels, once, between⟩ := drawn.labels
  rw [Reaction.labels] at labels
  have all : (Code.labels (e.absorb (e.reaction goal)).code ++
      ((e.reaction goal).move.pending ++ rest).flatMap Goal.reserved).Perm
      (Code.labels e.code ++ (goal :: rest).flatMap Goal.reserved ++ fresh) := by
    refine List.perm_iff_count.mpr fun name => ?_
    have counted := congrArg (List.count name) labels
    simp only [code_absorb, Code.labels_append, List.flatMap_append, List.flatMap_cons,
      List.count_append] at counted ⊢
    omega
  have taken (name : Label) (inside : name ∈ Code.labels e.code ++
      (goal :: rest).flatMap Goal.reserved ++ fresh) :
      name.Between 0 (e.reaction goal).scope.branches 0 (e.reaction goal).scope.loops := by
    rcases List.mem_append.mp inside with before | drawn'
    · exact (h.taken name before).mono (Nat.le_refl _) drawn.branches (Nat.le_refl _) drawn.loops
    · exact (between name drawn').mono (Nat.zero_le _) (Nat.le_refl _) (Nat.zero_le _)
        (Nat.le_refl _)
  refine ⟨all.nodup_iff.mpr ?_, fun name inside => taken name (all.subset inside)⟩
  exact nodup_append_of_between h.once once h.taken between

/-- An engine that runs sets no label twice, whether it reaches its goals or not. -/
theorem run (h : e.Fresh goals) : (e.run goals).2.Fresh [] := by
  fun_induction Engine.run goals e with
  | case1 e => exact h
  | case2 e goal rest moved ih =>
      have next := h.absorb
      rw [moved] at next
      exact ih next
  | case3 e goal rest next moved passed ih =>
      have behind := h.absorb
      rw [moved] at behind
      exact ih (behind.of_same rfl rfl rfl)
  | case4 e goal rest next moved failure failed =>
      have behind : (e.absorb (e.reaction goal)).advance.2.Fresh
          ((e.reaction goal).move.pending ++ rest) := h.absorb.of_same rfl rfl rfl
      exact behind.stop
  | case5 e goal rest fault moved => exact h.absorb.stop

end Fresh

end Engine

/-! ### Sessions -/

/-- What a session can ask an engine to read or to write: a rule of the grammar, a constant. -/
inductive Goal.Production : Goal → Prop
  | classDeclaration : Production .classDeclaration
  | classVariable : Production .classVariable
  | subroutine : Production .subroutine
  | parameterList : Production .parameterList
  | subroutineBody : Production .subroutineBody
  | localVariable : Production .localVariable
  | statements : Production .statements
  | letStatement : Production .letStatement
  | ifStatement : Production .ifStatement
  | whileStatement : Production .whileStatement
  | doStatement : Production .doStatement
  | returnStatement : Production .returnStatement
  | expression : Production .expression
  | term : Production .term
  | string (content : String) : Production (.emit (Template.string content))
  | constant (word : String) : Production (.emit (Template.constant word))
  | call : Production .call
  /-- A call whose first name was read before. -/
  | callTail (name : String) : Production (.callTail name)
  | expressionList : Production .expressionList

theorem Goal.Production.reserved {goal : Goal} (h : goal.Production) : goal.reserved = [] := by
  cases h with
  | string content => exact reserved_string content
  | constant word => exact reserved_constant word
  | _ => rfl

namespace Engine

/-- Carry out calls one after the other, each on what the one before left. -/
def performAll (calls : List Call) (e : Engine) : Engine :=
  calls.foldl (fun e call => (perform call e).2) e

namespace Fresh

variable {e : Engine}

theorem require (h : e.Fresh []) (fits : Bool) (what : String) :
    (e.require fits what).2.Fresh [] := by
  unfold Engine.require
  split
  · exact h.of_same rfl rfl rfl
  · exact h

theorem define (h : e.Fresh []) (level : Scope.Level) (name type : String) (kind : Literal) :
    (e.define level name type kind).2.Fresh [] := by
  unfold Engine.define
  split
  · split <;> exact h
  · split
    · cases level <;> exact h.of_same rfl rfl rfl
    · exact h

theorem perform (h : e.Fresh []) {call : Call}
    (allowed : ∀ goal, call = .reach goal → goal.Production) :
    (perform call e).2.Fresh [] := by
  cases call with
  | reach goal =>
      have ready : e.Fresh [goal] := by
        have none := (allowed goal rfl).reserved
        exact ⟨by simpa [none] using h.once, by simpa [none] using h.taken⟩
      exact ready.run
  | advance => exact h.of_same rfl rfl rfl
  | keyword | symbol | identifier | type => exact h.require _ _
  | isKeyword | isSymbol | unexpected | resolve | qualifiedName => exact h
  | define level name type kind => exact h.define level name type kind
  | beginSubroutine | setClass => exact h.of_same rfl rfl rfl
  | reset level => cases level <;> exact h.of_same rfl rfl rfl

theorem performAll (h : e.Fresh []) {calls : List Call}
    (allowed : ∀ goal, .reach goal ∈ calls → goal.Production) : (e.performAll calls).Fresh [] := by
  induction calls generalizing e with
  | nil => exact h
  | cons call calls ih =>
      refine ih (h.perform fun goal asked => ?_) fun goal inside => ?_
      · exact allowed goal (asked ▸ List.mem_cons_self ..)
      · exact allowed goal (List.mem_cons_of_mem _ inside)

end Fresh

theorem fresh_ofLexer {lexer : Lexer} {strict : Bool} {filename : Option String} {e : Engine}
    {events : List Event} (h : ofLexer lexer strict filename = (.ok e, events)) : e.Fresh [] := by
  have started := congrArg Prod.fst h
  simp only [ofLexer, ofStream] at started
  generalize (TokenStream.ofLexer lexer).next.1.outcome = first at started
  cases first with
  | error failure => cases started
  | ok token =>
      cases started
      exact ⟨List.nodup_nil, by simp [code]⟩

end Engine

end Jack
