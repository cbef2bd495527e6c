import Jack.Proofs.Roles
import Jack.Proofs.Strictness
import Mathlib.Data.List.Chain

/-! # Where semantic errors are reported

A goal that blames a name was put in place by the identifier that it blames, and what stands in
front of that identifier tells its role. So an engine that goes on has found all identifiers before
it legal, and one that blames a name has come to the first that is not.
-/

namespace Jack

namespace Goal

/-- Whether an identifier behind a lexeme has no other role than one that stands alone. -/
def StartsTerm (last : Option Lexeme) : Prop :=
  ∀ next, Role.between last next = Role.between none next

/-- What a goal counts on in front of it: a goal that passes a name, the lexeme that gives the name
its role; a goal that can blame a name, the name itself. -/
@[simp]
def Stands (before : List Token) : Goal → Prop
  | .letTarget => (before.map Token.lexeme).getLast? = some (.keyword .letWord)
  | .call => (before.map Token.lexeme).getLast? = some (.keyword .doWord)
  | .methodName _ => (before.map Token.lexeme).getLast? = some (.symbol .dot)
  | .term | .expression | .returnValue | .arguments _ _ | .expressionList =>
    StartsTerm (before.map Token.lexeme).getLast?
  | .declare name position _ _ => ∃ front, before = front ++ [⟨.identifier name, position⟩]
  | .assignment name position =>
    ∃ front, before = front ++ [⟨.identifier name, position⟩] ∧
      (declared (front.map Token.lexeme)).reading = .nothing ∧
      (front.map Token.lexeme).getLast? = some (.keyword .letWord)
  | .afterName name position =>
    ∃ front, before = front ++ [⟨.identifier name, position⟩] ∧
      (declared (front.map Token.lexeme)).reading = .nothing ∧
      StartsTerm (front.map Token.lexeme).getLast?
  | _ => True

/-- Whether a goal counts on nothing in front of it. -/
@[simp]
def free : Goal → Bool
  | .letTarget | .call | .methodName _ | .term | .expression | .returnValue | .arguments _ _
  | .expressionList | .declare _ _ _ _ | .assignment _ _ | .afterName _ _ => false
  | _ => true

/-- Whether a goal can come up behind another one without a look at what that passes: an expression
can behind a symbol. -/
def Meets (first second : Goal) : Prop :=
  second.free = false → second = .expression ∧ ∃ mark, mark ≠ .dot ∧ first = .symbol mark

/-- Whether a reaction leaves goals that can come up one behind the other, the first of them where
it stands. -/
def Leaves (before : List Token) (t : Token) (r : Reaction) : Prop :=
  ∀ next, r.move = .shift next →
    next.IsChain Meets ∧ ∀ g ∈ next.head?, g.Stands (before ++ [t])

variable {goal : Goal} {before : List Token} {t : Token} {s s' : Scope} {code : List Code}
  {next later : List Goal} {r : Reaction} {second : Reading} {g : Goal}

theorem stands_of_free (h : goal.free) : goal.Stands before := by
  cases goal <;> trivial

theorem startsTerm_symbol {mark : Symbol} (h : mark ≠ .dot) : StartsTerm (some (.symbol mark)) := by
  intro next
  cases mark <;> first | rfl | exact absurd rfl h

theorem getLast?_concat (before : List Token) (t : Token) :
    ((before ++ [t]).map Token.lexeme).getLast? = some t.lexeme := by
  simp

theorem leaves_of_ne (h : ∀ next, r.move ≠ .shift next) : Leaves before t r :=
  fun next moved => absurd moved (h next)

theorem leaves_shift (chain : next.IsChain Meets)
    (stands : ∀ g ∈ next.head?, g.Stands (before ++ [t])) :
    Leaves before t (.shift s code next) := by
  rintro next' ⟨⟩
  exact ⟨chain, stands⟩

theorem leaves_free (h : ∀ g ∈ next, g.free) : Leaves before t (.shift s code next) := by
  refine leaves_shift ?_ fun g inside => stands_of_free (h g (List.mem_of_mem_head? inside))
  refine List.Pairwise.isChain (List.pairwise_of_forall_mem_list fun g _ g' inside => ?_)
  intro notFree
  rw [h g' inside] at notFree
  cases notFree

theorem leaves_andThen (h : Leaves before t r) (free : ∀ g ∈ later, g.free) :
    Leaves before t (r.andThen later) := by
  intro next moved
  unfold Reaction.andThen at moved
  split at moved
  · next first found =>
    cases moved
    obtain ⟨chain, stands⟩ := h first found
    have behind : Leaves before t (.shift r.scope r.code later) := leaves_free free
    obtain ⟨chain', stands'⟩ := behind later rfl
    refine ⟨List.isChain_append.mpr ⟨chain, chain', fun g _ g' inside notFree => ?_⟩, ?_⟩
    · rw [free g' (List.mem_of_mem_head? inside)] at notFree
      cases notFree
    · cases first with
      | nil => exact stands'
      | cons g first => exact stands
  · next stays => exact absurd moved (stays next)

theorem leaves_term (stands : StartsTerm (before.map Token.lexeme).getLast?)
    (reads : (declared (before.map Token.lexeme)).reading = .nothing) :
    Leaves before t (reactTerm t s) := by
  unfold reactTerm
  split
  · exact leaves_free (by simp)
  · exact leaves_free (by simp)
  · split
    · exact leaves_free (by simp)
    · exact leaves_of_ne (by simp [Reaction.unexpected, Reaction.fail])
  · next found =>
    refine leaves_shift (by simp [Meets]) ?_
    rintro g ⟨⟩
    rw [Stands, getLast?_concat, found]
    exact startsTerm_symbol (by decide)
  · next mark _ found =>
    split
    · next op unary =>
      refine leaves_shift (by simp [Meets]) ?_
      rintro g ⟨⟩
      rw [Stands, getLast?_concat, found]
      refine startsTerm_symbol ?_
      rintro rfl
      cases unary
    · exact leaves_of_ne (by simp [Reaction.unexpected, Reaction.fail])
  · next name found =>
    refine leaves_shift (by simp) ?_
    rintro g ⟨⟩
    obtain ⟨lexeme, position⟩ := t
    cases found
    exact ⟨before, rfl, reads, stands⟩
  · exact leaves_of_ne (by simp [Reaction.unexpected, Reaction.fail])

theorem leaves_expression (stands : StartsTerm (before.map Token.lexeme).getLast?)
    (reads : (declared (before.map Token.lexeme)).reading = .nothing) :
    Leaves before t (reactExpression t s) :=
  leaves_andThen (leaves_term stands reads) (by simp)

theorem leaves_word {word : Keyword} (chain : next.IsChain Meets)
    (stands : t.lexeme = .keyword word → ∀ g ∈ next.head?, g.Stands (before ++ [t])) :
    Leaves before t (reactWord word t s code next) := by
  unfold reactWord
  split
  · next found => exact leaves_shift chain (stands found)
  · exact leaves_of_ne (by simp [Reaction.unexpected, Reaction.fail])

theorem leaves_symbol {mark : Symbol} (chain : next.IsChain Meets)
    (stands : t.lexeme = .symbol mark → ∀ g ∈ next.head?, g.Stands (before ++ [t])) :
    Leaves before t (reactSymbol mark t s code next) := by
  unfold reactSymbol
  split
  · next found => exact leaves_shift chain (stands found)
  · exact leaves_of_ne (by simp [Reaction.unexpected, Reaction.fail])

theorem leaves_name {next : String → List Goal} (chain : ∀ name, (next name).IsChain Meets)
    (stands : ∀ name, t.lexeme = .identifier name →
      ∀ g ∈ (next name).head?, g.Stands (before ++ [t])) :
    Leaves before t (reactName t s next) := by
  unfold reactName
  split
  · next found => exact leaves_shift (chain _) (stands _ found)
  · exact leaves_of_ne (by simp [Reaction.unexpected, Reaction.fail])

theorem leaves_type {next : String → List Goal} (h : ∀ type, ∀ g ∈ next type, g.free) :
    Leaves before t (reactType t s next) := by
  unfold reactType
  split
  · exact leaves_free (h _)
  · exact leaves_of_ne (by simp [Reaction.unexpected, Reaction.fail])

theorem leaves_single (goal : Goal) (single : goal ∈ [letStatement, ifStatement, whileStatement,
    doStatement, returnStatement]) : Leaves before t (goal.react t s) := by
  simp only [List.mem_cons, List.not_mem_nil, or_false] at single
  obtain rfl | rfl | rfl | rfl | rfl := single
  all_goals
    refine leaves_word (by simp [Meets]) fun found => ?_
    rintro g ⟨⟩
    first
      | trivial
      | (rw [Stands, getLast?_concat, found]; done)
      | (rw [Stands, getLast?_concat, found]; exact fun _ => rfl)

theorem leaves_statement (h : reactStatement? t s = some r) : Leaves before t r := by
  unfold reactStatement? at h
  split at h
  · cases h; exact leaves_single letStatement (by simp)
  · cases h; exact leaves_single ifStatement (by simp)
  · cases h; exact leaves_single whileStatement (by simp)
  · cases h; exact leaves_single doStatement (by simp)
  · cases h; exact leaves_single returnStatement (by simp)
  · cases h

theorem Takes.eq_nothing {reading : Reading} (h : goal.Takes reading second)
    (notFree : goal.free = false) : reading = .nothing := by
  cases h with
  | rests => rfl
  | _ => cases notFree

theorem startsTerm_concat {mark : Symbol} (before : List Token) (found : t.lexeme = .symbol mark)
    (other : mark ≠ .dot) : StartsTerm ((before ++ [t]).map Token.lexeme).getLast? := by
  rw [getLast?_concat, found]
  exact startsTerm_symbol other

theorem leaves_callTail (name : String) : Leaves before t (reactCallTail name t s) := by
  unfold reactCallTail
  split
  · next dot =>
    refine leaves_shift (by simp) ?_
    rintro g ⟨⟩
    rw [Stands, getLast?_concat, dot]
  · refine leaves_symbol (by simp) fun found => ?_
    rintro g ⟨⟩
    exact startsTerm_concat before found (by decide)

theorem leaves_afterName (name : String) (position : Position) :
    Leaves before t (reactAfterName name position t s) := by
  unfold reactAfterName withVariable
  split
  · next found =>
    split
    · refine leaves_shift (by simp [Meets]) ?_
      rintro g ⟨⟩
      exact startsTerm_concat before found (by decide)
    · exact leaves_of_ne (by simp [Reaction.fail])
  · exact leaves_callTail name
  · exact leaves_callTail name
  · split
    · exact leaves_of_ne (by simp [Reaction.pop])
    · exact leaves_of_ne (by simp [Reaction.fail])

theorem leaves_assignment (name : String) (position : Position) :
    Leaves before t (reactAssignment name position t s) := by
  unfold reactAssignment withVariable
  split
  · split
    · next found =>
      refine leaves_shift (by simp [Meets]) ?_
      rintro g ⟨⟩
      exact startsTerm_concat before found (by decide)
    · refine leaves_symbol (by simp [Meets]) fun found => ?_
      rintro g ⟨⟩
      exact startsTerm_concat before found (by decide)
  · exact leaves_of_ne (by simp [Reaction.fail])

theorem leaves_qualifiedCall (qualifier method : String) :
    Leaves before t (reactQualifiedCall qualifier method t s) := by
  unfold reactQualifiedCall
  split
  all_goals
    refine leaves_symbol (by simp) fun found => ?_
    rintro g ⟨⟩
    exact startsTerm_concat before found (by decide)

theorem leaves_arguments (callee : String) (count : Nat)
    (expression : Leaves before t (reactExpression t s)) :
    Leaves before t (reactArguments callee count t s) := by
  unfold reactArguments
  split
  · exact leaves_free (by simp)
  · exact leaves_andThen expression (by simp)

theorem leaves_moreArguments (callee : String) (count : Nat) :
    Leaves before t (reactMoreArguments callee count t s) := by
  unfold reactMoreArguments
  split
  · next found =>
    refine leaves_shift (by simp [Meets]) ?_
    rintro g ⟨⟩
    exact startsTerm_concat before found (by decide)
  · refine leaves_symbol (by simp) fun _ => ?_
    rintro g ⟨⟩
    trivial

theorem leaves_operators : Leaves before t (reactOperators t s) := by
  unfold reactOperators
  split
  · next mark found =>
    split
    · next op binary =>
      refine leaves_shift (by simp [Meets]) ?_
      rintro g ⟨⟩
      exact startsTerm_concat before found (by rintro rfl; cases binary)
    · exact leaves_of_ne (by simp [Reaction.pop])
  · exact leaves_of_ne (by simp [Reaction.pop])

/-- What takes the place of a goal that stands where it counts on stands there as well. -/
theorem leaves_react (takes : goal.Takes (declared (before.map Token.lexeme)).reading second)
    (stands : goal.Stands before) : Leaves before t (goal.react t s) := by
  have nothing := takes.eq_nothing
  have expression (stands : StartsTerm (before.map Token.lexeme).getLast?)
      (notFree : goal.free = false) : Leaves before t (reactExpression t s) :=
    leaves_expression stands (nothing notFree)
  cases goal
  case statements =>
    rw [react]
    split
    · next found => exact leaves_andThen (leaves_statement found) (by simp)
    · exact leaves_of_ne (by simp [Reaction.pop])
  case letStatement | ifStatement | whileStatement | doStatement | returnStatement =>
    exact leaves_single _ (by simp)
  case term => exact leaves_term stands (nothing rfl)
  case expression => exact expression stands rfl
  case returnValue | expressionList =>
    rw [react]
    split
    · first | exact leaves_free (by simp) | exact leaves_of_ne (by simp)
    · exact leaves_andThen (expression stands rfl) (by simp)
  case arguments callee count => exact leaves_arguments callee count (expression stands rfl)
  case variableName type kind =>
    refine leaves_name (by simp) fun name found => ?_
    rintro g ⟨⟩
    obtain ⟨lexeme, position⟩ := t
    cases found
    exact ⟨before, rfl⟩
  case letTarget =>
    refine leaves_name (by simp) fun name found => ?_
    rintro g ⟨⟩
    obtain ⟨lexeme, position⟩ := t
    cases found
    exact ⟨before, rfl, nothing rfl, stands⟩
  case callTail name => exact leaves_callTail name
  case afterName name position => exact leaves_afterName name position
  case assignment name position => exact leaves_assignment name position
  case qualifiedCall qualifier method => exact leaves_qualifiedCall qualifier method
  case moreArguments callee count => exact leaves_moreArguments callee count
  case operators => exact leaves_operators
  case moreExpressions count =>
    rw [react]
    split
    · next found =>
      refine leaves_shift (by simp [Meets]) ?_
      rintro g ⟨⟩
      exact startsTerm_concat before found (by decide)
    · exact leaves_of_ne (by simp)
  case classDeclaration | subroutineBody | localVariable =>
    first
      | refine leaves_word (by simp [Meets]) fun _ => ?_
      | refine leaves_symbol (by simp [Meets]) fun _ => ?_
    rintro g ⟨⟩
    trivial
  case className | subroutineName | call | methodName =>
    refine leaves_name (by simp [Meets]) fun _ _ => ?_
    rintro g ⟨⟩
    trivial
  case variableType | parameterType => exact leaves_type (by simp)
  case classVariables | classVariable =>
    rw [react]
    split
    · next found =>
      obtain ⟨word, kind, -, rfl, -⟩ := of_classVariableAfter? found
      exact leaves_free (by simp)
    · exact leaves_of_ne (by simp [Reaction.pop, Reaction.unexpected, Reaction.fail])
  case subroutines | subroutine =>
    simp only [react]
    split
    · next found =>
      obtain ⟨word, kind, -, rfl, -⟩ := of_subroutineAfter? found
      exact leaves_free (by simp)
    · exact leaves_of_ne (by simp [Reaction.pop, Reaction.unexpected, Reaction.fail])
  case symbol => exact leaves_symbol (by simp) (by simp)
  all_goals
    simp only [react, reactDeclare, reactOpenBody, reactSymbol]
    repeat' split
  all_goals first
    | exact leaves_free (by simp)
    | exact leaves_of_ne (by simp [Reaction.pop, Reaction.unexpected, Reaction.fail])

/-! ### Identifiers that are passed -/

theorem symbol_of_shift {mark : Symbol} (moved : ((symbol mark).react t s).move = .shift next) :
    next = [] ∧ t.lexeme = .symbol mark := by
  rw [react, reactSymbol] at moved
  split at moved
  · next found =>
    cases moved
    exact ⟨rfl, found⟩
  · cases moved

/-- Behind what takes no place, a goal that was next comes up where it stands. -/
theorem Meets.stands (h : goal.Meets g) (moved : (goal.react t s).move = .shift []) :
    g.Stands (before ++ [t]) := by
  cases isFree : g.free with
  | true => exact stands_of_free isFree
  | false =>
      obtain ⟨rfl, mark, other, rfl⟩ := h isFree
      exact startsTerm_concat before (symbol_of_shift moved).2 other

/-- An identifier that is passed where nothing is declared, and that no goal has to look behind,
names what is called, or what that belongs to. -/
theorem between_of_shift {name : String} (rests : goal.rests) (stands : goal.Stands before)
    (moved : (goal.react t s).move = .shift next) (unnamed : ∀ g ∈ next.head?, g.name? = none)
    (found : t.lexeme = .identifier name) (l : Lexeme) :
    Role.between (before.map Token.lexeme).getLast? l = .called ∨
      Role.between (before.map Token.lexeme).getLast? l = .qualifier := by
  have named {name : String} {position : Position} {later : List Goal}
      (same : Move.shift (.afterName name position :: later) = .shift next) : False := by
    cases same
    cases unnamed _ rfl
  cases goal
  case call =>
    rw [stands, Role.between]
    split
    · exact .inr rfl
    · exact .inl rfl
  case methodName =>
    rw [stands]
    exact .inl rfl
  case letTarget =>
    rw [react, reactName, found] at moved
    cases moved
    cases unnamed _ rfl
  case term | expression | returnValue | arguments | expressionList =>
    simp only [react, reactArguments, reactExpression, reactTerm, found, reduceCtorEq, if_false]
      at moved
    exact (named moved).elim
  all_goals first
    | exact Bool.noConfusion rests
    | (simp only [react, reactWord, reactSymbol, classVariableAfter?, subroutineAfter?,
        reactOpenBody, reactLet, reactIf, reactWhile, reactDo, reactReturn, reactStatement?,
        reactOperators, reactCallTail, reactQualifiedCall, reactAfterName, reactAssignment,
        reactMoreArguments, withVariable, found, reduceCtorEq, if_false] at moved
       repeat' split at moved
       all_goals cases moved)

/-- An identifier that is passed is legal, unless the next goal has to look behind it. -/
theorem Takes.legal {strict : Bool} {name : String}
    (h : goal.Takes (declared (before.map Token.lexeme)).reading second)
    (stands : goal.Stands before) (moved : (goal.react t s).move = .shift next)
    (unnamed : ∀ g ∈ next.head?, g.name? = none) (found : t.lexeme = .identifier name)
    (l : Lexeme) : Legal strict (before.map Token.lexeme) name l := by
  generalize reads : (declared (before.map Token.lexeme)).reading = reading at h
  cases h with
  | rests h =>
      have role : Role.of (before.map Token.lexeme) l =
          Role.between (before.map Token.lexeme).getLast? l := by
        rw [Role.of, reads]
      obtain called | qualifier := between_of_shift h stands moved unnamed found l
      · exact legal_of_free (by rw [role, called]; rfl) (by rw [role, called]; simp)
      · exact legal_of_free (by rw [role, qualifier]; rfl) (by rw [role, qualifier]; simp)
  | variableName | parameterName =>
      rw [react, reactName, found] at moved
      cases moved
      cases unnamed _ rfl
  | moreVariables =>
      simp only [react, reactSymbol, found, reduceCtorEq, if_false] at moved
      cases moved
  | className | variableType | resultType | subroutineName | openParen | parameterList
  | parameterType | moreParameters | closeParen =>
      -- What is being declared gives the role, whatever stands around the identifier.
      exact legal_of_free (by simp [Role.of, reads, Role.uses]) (by simp [Role.of, reads])

/-! ### Identifiers that are looked back at -/

/-- A goal that fails for a name was given it. -/
theorem Blames.exists_name {problem : Problem} {position : Position}
    (h : Blames t s goal (.problem problem position)) (stage : problem.stage = .semantic) :
    ∃ name, goal.name? = some (name, position) := by
  cases h with
  | expected => cases stage
  | undefined named => exact ⟨_, named⟩
  | redefined => exact ⟨_, rfl⟩

section Looks

variable {name : String} {position : Position} {problem : Problem}

theorem fails_withVariable_iff {f : SymbolEntry → Reaction}
    (other : ∀ entry, (f entry).move = .fail (.problem problem position) →
      problem.stage ≠ .semantic) :
    problem.stage = .semantic ∧
        (withVariable name position s f).move = .fail (.problem problem position) ↔
      ¬ (s.resolve? name).isSome ∧ problem = .undefinedVariable name := by
  unfold withVariable
  cases s.resolve? name with
  | none =>
      constructor
      · rintro ⟨-, ⟨⟩⟩
        exact ⟨Bool.false_ne_true, rfl⟩
      · rintro ⟨-, rfl⟩
        exact ⟨rfl, rfl⟩
  | some entry => exact iff_of_false (fun h => other entry h.2 h.1) fun unknown => unknown.1 rfl

theorem fails_declare_iff {type : String} {kind : VariableKind} :
    problem.stage = .semantic ∧
        ((declare name position type kind).react t s).move = .fail (.problem problem position) ↔
      s.refuses (Scope.levelOf kind) name ∧ problem = .redefinedVariable name := by
  rw [react, reactDeclare]
  split
  · next refused =>
    constructor
    · rintro ⟨-, ⟨⟩⟩
      exact ⟨refused, rfl⟩
    · rintro ⟨-, rfl⟩
      exact ⟨rfl, rfl⟩
  · next accepted =>
    exact iff_of_false (fun fails => by cases fails.2) fun refused => accepted refused.1

/-- The target of an assignment is looked up in any case. -/
theorem fails_assignment_iff :
    problem.stage = .semantic ∧
        ((assignment name position).react t s).move = .fail (.problem problem position) ↔
      ¬ (s.resolve? name).isSome ∧ problem = .undefinedVariable name := by
  rw [react, reactAssignment]
  refine fails_withVariable_iff fun entry moved => ?_
  unfold reactSymbol at moved
  repeat' split at moved
  all_goals cases moved
  simp [Problem.stage]

/-- A name in a term is looked up unless it names what is called, or what that belongs to. -/
theorem fails_afterName_iff :
    problem.stage = .semantic ∧
        ((afterName name position).react t s).move = .fail (.problem problem position) ↔
      (Role.between none t.lexeme).uses ∧ ¬ (s.resolve? name).isSome ∧
        problem = .undefinedVariable name := by
  rw [react, reactAfterName]
  split
  · next found =>
    rw [found]
    exact (fails_withVariable_iff fun _ moved => by cases moved).trans (and_iff_right rfl).symm
  · next found =>
    rw [found, reactCallTail, found, if_neg (by decide), reactSymbol, if_pos found]
    exact iff_of_false (fun fails => by cases fails.2) fun looks => by cases looks.1
  · next found =>
    rw [found, reactCallTail, if_pos found]
    exact iff_of_false (fun fails => by cases fails.2) fun looks => by cases looks.1
  · next bracket paren dot =>
    have role : Role.between none t.lexeme = .variable := by simp only [Role.between]
    rw [role]
    exact (fails_withVariable_iff fun _ moved => by cases moved).trans (and_iff_right rfl).symm

end Looks

end Goal

namespace Accounts

open Goal

variable {s : Scope} {goal : Goal} {rest next : List Goal} {before : List Token} {t : Token}
  {name type : String} {position : Position} {kind : VariableKind}

/-- An identifier that a goal is about to declare is a declaration, and is legal unless the scope
refuses it. -/
theorem declares {front : List Lexeme}
    (h : Accounts s (.declare name position type kind :: rest) (front ++ [.identifier name]))
    (l : Lexeme) :
    Role.of front l = .declares kind ∧ (s.refuses (Scope.levelOf kind) name ↔
      s.strict ∧ name ∈ (declared front).names (Scope.levelOf kind)) := by
  generalize same : front ++ [.identifier name] = row at h
  cases h with
  | settled takes =>
      generalize (declared row).reading = reading at takes
      cases takes with
      | cons takes => cases takes.waits
  | @waiting _ _ row name' settles takes keeps =>
      obtain ⟨rfl, last⟩ := List.append_inj' same rfl
      cases last
      refine ⟨?_, ?_⟩
      · rw [Role.of]
        generalize (declared front).reading = reading at settles
        cases settles <;> rfl
      · rw [Scope.refuses, Bool.and_eq_true, keeps.contains_iff]

/-- A name that a goal looks up behind where nothing is declared stands for a variable if it is
declared before. -/
theorem isSome_resolve?_iff {front : List Lexeme}
    (h : Accounts s (goal :: rest) (front ++ [.identifier name])) (settled : goal.waits = false)
    (reads : (declared front).reading = .nothing) :
    (s.resolve? name).isSome ↔ ∃ level, name ∈ (declared front).names level := by
  have keeps := h.keeps
  rw [settledRow, List.head?_cons, Option.any_some, settled] at keeps
  rw [keeps.isSome_resolve?_iff]
  simp only [names_concat reads, Bool.false_eq_true, if_false]

/-- A goal that was given an identifier fails for what is wrong with it, and for nothing else but
the token in front. -/
theorem illegal_iff (h : Accounts s (goal :: rest) (before.map Token.lexeme))
    (stands : goal.Stands before) (named : goal.name? = some (name, position)) :
    ∃ front, before = front ++ [⟨.identifier name, position⟩] ∧
      ∀ problem, Illegal s.strict (front.map Token.lexeme) name t.lexeme problem ↔
        problem.stage = .semantic ∧ (goal.react t s).move = .fail (.problem problem position) := by
  cases goal
  case declare =>
    cases named
    obtain ⟨front, rfl⟩ := stands
    rw [List.map_append, List.map_singleton] at h
    obtain ⟨role, refuses⟩ := h.declares t.lexeme
    refine ⟨front, rfl, fun problem => ?_⟩
    rw [illegal_iff_of_declares role, fails_declare_iff, refuses, and_assoc]
  case assignment =>
    cases named
    obtain ⟨front, rfl, reads, last⟩ := stands
    rw [List.map_append, List.map_singleton] at h
    have role : Role.of (front.map Token.lexeme) t.lexeme = .target := by
      rw [Role.of, reads, last]
      rfl
    refine ⟨front, rfl, fun problem => ?_⟩
    rw [illegal_iff_of_not_declares (by rw [role]; simp), role,
      ← h.isSome_resolve?_iff rfl reads, fails_assignment_iff]
    exact and_iff_right rfl
  case afterName =>
    cases named
    obtain ⟨front, rfl, reads, starts⟩ := stands
    rw [List.map_append, List.map_singleton] at h
    have role : Role.of (front.map Token.lexeme) t.lexeme = Role.between none t.lexeme := by
      rw [Role.of, reads]
      exact starts _
    refine ⟨front, rfl, fun problem => ?_⟩
    rw [illegal_iff_of_not_declares (by rw [role]; exact Role.between_ne_declares _ _), role,
      ← h.isSome_resolve?_iff rfl reads, fails_afterName_iff]
  all_goals cases named

end Accounts

namespace Engine

/-- An engine that has passed some tokens of a source, and has found all identifiers among them that
it need not look behind any more legal. If no goal looks back at the last one, that is legal in
front of the current token as well. -/
structure Blameless (filename : Option String) (start : Reader) (strict : Bool)
    (before : List Token) (goals : List Goal) (e : Engine) : Prop where
  named : e.filename = filename
  strictly : e.scope.strict = strict
  passed : e.cursor.Passed filename start before
  accounts : Accounts e.scope goals (before.map Token.lexeme)
  stands : ∀ g ∈ goals.head?, g.Stands before
  orderly : goals.IsChain Goal.Meets
  lawful : Lawful strict (before.map Token.lexeme)
  last : (∀ g ∈ goals.head?, g.name? = none) →
    Lawful strict (before.map Token.lexeme ++ [e.cursor.current.lexeme])

variable {filename : Option String} {start : Reader} {strict : Bool} {before : List Token}
  {goal : Goal} {rest next : List Goal} {e : Engine}

/-- A goal that does not fail finds the identifier legal that it looks back at. -/
theorem Blameless.lawful_concat (h : e.Blameless filename start strict before (goal :: rest))
    (goes : ∀ fault, (e.reaction goal).move ≠ .fail fault) :
    Lawful strict (before.map Token.lexeme ++ [e.cursor.current.lexeme]) := by
  cases named : goal.name? with
  | none =>
      refine h.last ?_
      rintro g ⟨⟩
      exact named
  | some named' =>
      obtain ⟨front, rfl, illegal⟩ :=
        h.accounts.illegal_iff (h.stands _ rfl) (t := e.cursor.current) named
      rw [h.strictly] at illegal
      have lawful := h.lawful
      rw [List.map_append, List.map_singleton] at lawful ⊢
      refine lawful_concat_iff.mpr ⟨lawful, ?_⟩
      rintro name ⟨⟩
      exact legal_iff.mpr fun problem wrong => goes _ ((illegal problem).mp wrong).2

theorem Blameless.pop (h : e.Blameless filename start strict before (goal :: rest))
    (moved : (e.reaction goal).move = .pop) :
    (e.absorb (e.reaction goal)).Blameless filename start strict before rest where
  named := h.named
  strictly := (Goal.turns_react goal _ _).strict.trans h.strictly
  passed := h.passed
  accounts := h.accounts.pop moved
  stands g inside := by
    -- No symbol is done without a token passed, so that what comes next is free.
    refine Goal.stands_of_free ?_
    by_contra notFree
    obtain ⟨-, mark, -, rfl⟩ :=
      h.orderly.rel_head? inside (Bool.eq_false_of_not_eq_true notFree)
    rw [reaction, Goal.react, Goal.reactSymbol] at moved
    split at moved <;> cases moved
  orderly := h.orderly.tail
  lawful := h.lawful
  last _ := h.lawful_concat (by simp [moved])

theorem Blameless.shift (h : e.Blameless filename start strict before (goal :: rest))
    (moved : (e.reaction goal).move = .shift next)
    (passed : (e.absorb (e.reaction goal)).advance.1 = .ok ()) :
    (e.absorb (e.reaction goal)).advance.2.Blameless filename start strict
      (before ++ [e.cursor.current]) (next ++ rest) := by
  obtain ⟨second, takes, -⟩ := h.accounts.takes_of_shift moved
  obtain ⟨chain, stands⟩ := Goal.leaves_react takes (h.stands _ rfl) next moved
  obtain ⟨meets, later⟩ := List.isChain_cons.mp h.orderly
  have lawful := h.lawful_concat (by simp [moved])
  refine ⟨h.named, (Goal.turns_react goal _ _).strict.trans h.strictly,
    h.passed.advance (Goal.isEnd_of_react_shift moved) passed, ?_, ?_, ?_, ?_, ?_⟩
  · rw [List.map_append]
    exact h.accounts.shift moved
  · cases next with
    | nil => exact fun g inside => (meets g inside).stands moved
    | cons => exact stands
  · refine List.isChain_append.mpr ⟨chain, later, fun g inside g' inside' notFree => ?_⟩
    obtain ⟨-, mark, -, rfl⟩ := meets g' inside' notFree
    obtain ⟨rfl, -⟩ := Goal.symbol_of_shift moved
    cases inside
  · rw [List.map_append]
    exact lawful
  · intro unnamed
    rw [List.map_append, List.map_singleton]
    refine lawful_concat_iff.mpr ⟨lawful, fun name found => ?_⟩
    refine takes.legal (h.stands _ rfl) moved (fun g inside => unnamed g ?_) found _
    rw [List.head?_append, inside]
    rfl

theorem Blameless.steps {x y : List Goal × Engine}
    (h : x.2.Blameless filename start strict before x.1) (steps : Steps x y) :
    ∃ after, y.2.Blameless filename start strict after y.1 := by
  induction steps with
  | refl => exact ⟨before, h⟩
  | tail _ step ih =>
      obtain ⟨after, blameless⟩ := ih
      cases step with
      | pop moved => exact ⟨after, blameless.pop moved⟩
      | shift moved passed => exact ⟨_, blameless.shift moved passed⟩

theorem blameless_atStart {t : Token}
    (h : (atStart (.readFrom filename [] start) t strict filename).cursor.Passed filename start
      []) :
    (atStart (.readFrom filename [] start) t strict filename).Blameless filename start strict []
      [.classDeclaration] where
  named := rfl
  strictly := rfl
  passed := h
  accounts := .settled (.cons (.rests rfl) .nil)
    ⟨rfl, SymbolTable.holds_empty, SymbolTable.holds_empty⟩
  stands := by
    rintro g ⟨⟩
    trivial
  orderly := .singleton _
  lawful := lawful_of_length_le (Nat.zero_le _)
  last _ := lawful_of_length_le le_rfl

/-- A goal that blames a name was given an identifier that is not legal, the first such one. -/
theorem Fails.illegal {d : Diagnostic} (fails : e.Fails goal (.diagnosed d))
    (h : e.Blameless filename start strict before (goal :: rest))
    (stage : d.problem.stage = .semantic) :
    ∃ front name position, before = front ++ [⟨.identifier name, position⟩] ∧
      d = .atPosition d.problem position filename ∧
      Illegal strict (front.map Token.lexeme) name e.cursor.current.lexeme d.problem := by
  generalize same : Failure.diagnosed d = failure at fails
  cases fails with
  | @stuck fault moved =>
      rw [h.named] at same
      cases fault with
      | problem problem position =>
          cases same
          obtain ⟨name, named⟩ := ((Goal.sound_react goal _ _).blames _ moved).exists_name stage
          obtain ⟨front, rfl, illegal⟩ :=
            h.accounts.illegal_iff (h.stands _ rfl) (t := e.cursor.current) named
          rw [h.strictly] at illegal
          exact ⟨front, name, position, rfl, rfl, (illegal problem).mpr ⟨stage, moved⟩⟩
      | _ => cases same
  | unread moved failed =>
      obtain ⟨rest, fault, after, -, read, rfl⟩ :=
        h.passed.fault (Goal.isEnd_of_react_shift moved) failed
      cases ((Reader.rejects_of_nextToken read).stage_eq same).symm.trans stage

end Engine

/-! ### Compiling a source -/

section Compile

variable {source : Source} {chunkSize : Int} {filename : Option String} {strict : Bool}

theorem exists_illegal_of_compileSource {d : Diagnostic} (positive : 0 < chunkSize)
    (h : compileSource source filename strict chunkSize = .error (.diagnosed d))
    (stage : d.problem.stage = .semantic) :
    ∃ before name position next rest,
      (Reader.ofSource chunkSize.toNat source).Finds
        (before ++ [⟨.identifier name, position⟩, next]) rest ∧
      d = .atPosition d.problem position filename ∧
      Illegal strict (before.map Token.lexeme) name next.lexeme d.problem ∧
      Lawful strict (before.map Token.lexeme ++ [.identifier name]) := by
  obtain ⟨fault, after, read, same⟩ | ⟨t, goal, rest, last, passed, steps, fails⟩ :=
    Engine.fails_of_compileSource positive h
  · cases ((Reader.rejects_of_nextToken read).stage_eq same).symm.trans stage
  · obtain ⟨before, blameless⟩ := (Engine.blameless_atStart passed).steps steps
    obtain ⟨front, name, position, rfl, same, illegal⟩ := fails.illegal blameless stage
    obtain ⟨left, finds, -⟩ := blameless.passed
    have lawful := blameless.lawful
    rw [List.map_append, List.map_singleton] at lawful
    rw [List.append_assoc] at finds
    exact ⟨front, name, position, _, left, finds, same, illegal, lawful⟩

theorem lawful_of_compileSource {code : List Code} (positive : 0 < chunkSize)
    (h : compileSource source filename strict chunkSize = .ok code) :
    ∃ before last rest, (Reader.ofSource chunkSize.toNat source).Finds (before ++ [last]) rest ∧
      last.isEnd ∧ Lawful strict ((before ++ [last]).map Token.lexeme) := by
  rw [compileSource_of_pos positive] at h
  dsimp only at h
  split at h
  · cases h
  · next t found =>
    split at h
    · next e reached =>
      obtain ⟨ended, -⟩ := Engine.drive_of_atStart found reached
      obtain ⟨before, blameless⟩ := (Engine.blameless_atStart (Engine.passed_atStart found)).steps
        (Engine.steps_of_run reached)
      obtain ⟨left, finds, -⟩ := blameless.passed
      refine ⟨before, e.cursor.current, left, finds, ended, ?_⟩
      rw [List.map_append]
      exact blameless.last (by simp)
    · cases h

end Compile

/-- A semantic error is reported at an identifier of the source that may not stand there: at a
variable that is used and not declared before, or, if the compiler is strict, at one that its table
has already. Its message quotes this identifier, and all identifiers in front of it may stand where
they do. In a source that compiles all identifiers may. -/
theorem semantic_errors_point_at_the_first_culprit (source : Source) (filename : Option String)
    (strict : Bool) (chunkSize : Int) :
    (∀ d : Diagnostic, compileText source filename strict chunkSize = .error (.diagnosed d) →
      d.problem.stage = .semantic →
      ∃ before name position next rest,
        (Reader.ofSource chunkSize.toNat source).Finds
          (before ++ [⟨.identifier name, position⟩, next]) rest ∧
        d = .atPosition d.problem position filename ∧
        (∃ lead trail, d.problem.message = lead ++ ticked name ++ trail) ∧
        Illegal strict (before.map Token.lexeme) name next.lexeme d.problem ∧
        Lawful strict (before.map Token.lexeme ++ [.identifier name])) ∧
    ∀ text, compileText source filename strict chunkSize = .ok text →
      ∃ before last rest, (Reader.ofSource chunkSize.toNat source).Finds (before ++ [last]) rest ∧
        last.isEnd ∧ Lawful strict ((before ++ [last]).map Token.lexeme) := by
  by_cases positive : 0 < chunkSize
  · refine ⟨fun d h stage => ?_, fun text h => ?_⟩
    · obtain ⟨before, name, position, next, rest, finds, same, illegal, lawful⟩ :=
        exists_illegal_of_compileSource positive (compileText_eq_error_iff.mp h) stage
      exact ⟨before, name, position, next, rest, finds, same, illegal.exists_message, illegal,
        lawful⟩
    · obtain ⟨code, compiled, -⟩ := compileText_eq_ok_iff.mp h
      exact lawful_of_compileSource positive compiled
  · have failed : compileText source filename strict chunkSize = .error (.chunkSize chunkSize) :=
      compileText_eq_error_iff.mpr (compileSource_of_not_pos positive)
    rw [failed]
    refine ⟨fun d h => ?_, fun text h => ?_⟩
    all_goals cases h

/-- Behind a type, a qualifier and calls that nothing declares. -/
theorem semantic_errors_point_at_the_first_culprit_behind_calls :
    let source : Source :=
      .text "class A\x7bfield B x;method int f()\x7bdo g.h();let x[i()]=z;\x7d\x7d"
    let d : Diagnostic := .atPosition (.undefinedVariable "z") ⟨1, 54⟩ none
    compileText source none true 8 = .error (.diagnosed d) ∧ d.problem.stage = .semantic ∧
      ∃ before next rest,
        (Reader.ofSource 8 source).Finds (before ++ [⟨.identifier "z", ⟨1, 54⟩⟩, next]) rest ∧
          Illegal true (before.map Token.lexeme) "z" next.lexeme d.problem ∧
          Lawful true (before.map Token.lexeme ++ [.identifier "z"]) := by
  intro source d
  have failed : compileText source none true 8 = .error (.diagnosed d) := by decide +kernel
  obtain ⟨before, name, position, next, rest, finds, same, -, illegal, lawful⟩ :=
    (semantic_errors_point_at_the_first_culprit source none true 8).1 d failed rfl
  obtain ⟨-, rfl⟩ := Diagnostic.atPosition_inj same
  change Illegal true _ name _ (.undefinedVariable "z") at illegal
  cases illegal with
  | undefined uses unknown =>
      exact ⟨failed, rfl, before, next, rest, finds, .undefined uses unknown, lawful⟩

end Jack
