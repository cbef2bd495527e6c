import Jack.Proofs.Declarations
import Jack.Proofs.Reactions
import Jack.Proofs.Steps

/-! # What names stand for

The tables of an engine hold what is declared by the lexemes that it has passed, wherever it is and
whether it is strict or not. Each goal starts where a certain part of a declaration comes next, and
is done where another does; so the goals that are left say what is being declared, and a goal that
acts on a name does to the tables what the name declares.
-/

namespace Jack

namespace Goal

/-- Whether a goal starts and ends where nothing is being declared. -/
def rests : Goal → Bool
  | .className | .enterClass _ | .classVariable | .variableType _ | .variableName _ _
  | .moreVariables _ _ | .declare _ _ _ _ | .subroutine | .resultType _ | .subroutineName _
  | .enterSubroutine _ _ | .parameterList | .parameterType | .moreParameters | .localVariable =>
    false
  | _ => true

/-- Whether a goal passes the words that open declarations. -/
def opens : Goal → Bool
  | .classDeclaration | .classVariables | .subroutines | .localVariables => true
  | _ => false

/-- Whether a goal has to act on the name that was passed last. -/
def waits : Goal → Bool
  | .enterClass _ | .declare _ _ _ _ | .enterSubroutine _ _ => true
  | _ => false

/-- What is read in front of a goal, and what behind all that is read for it. -/
inductive Takes : Goal → Reading → Reading → Prop where
  | rests {goal : Goal} (h : goal.rests) : Takes goal .nothing .nothing
  | className : Takes .className .className .nothing
  | variableType (kind : VariableKind) : Takes (.variableType kind) (.type kind) .nothing
  | variableName (type : String) (kind : VariableKind) :
      Takes (.variableName type kind) (.name type kind) (.more type kind)
  | moreVariables (type : String) (kind : VariableKind) :
      Takes (.moreVariables type kind) (.more type kind) .nothing
  | resultType (kind : SubroutineKind) : Takes (.resultType kind) (.result kind) .nothing
  | subroutineName (kind : SubroutineKind) :
      Takes (.subroutineName kind) (.subroutine kind) .nothing
  | openParen : Takes (.symbol .openParen) .parameters .parameters
  | parameterList : Takes .parameterList .parameters .parameters
  | parameterType : Takes .parameterType .parameters .parameters
  | parameterName (type : String) :
      Takes (.variableName type .argument) (.parameter type) .parameters
  | moreParameters : Takes .moreParameters .parameters .parameters
  | closeParen : Takes (.symbol .closeParen) .parameters .nothing

/-- What is read in front of goals, and what behind all that is read for them. -/
inductive TakeAll : List Goal → Reading → Reading → Prop where
  | nil {reading : Reading} : TakeAll [] reading reading
  | cons {goal : Goal} {rest : List Goal} {first second last : Reading}
      (takes : goal.Takes first second) (later : TakeAll rest second last) :
      TakeAll (goal :: rest) first last

/-- A goal acts on a name that was read where a name comes. -/
inductive Settles : Goal → Reading → String → Prop where
  | enterClass (name : String) : Settles (.enterClass name) .className name
  | declare (name : String) (position : Position) (type : String) (kind : VariableKind) :
      Settles (.declare name position type kind) (.name type kind) name
  | declareParameter (name : String) (position : Position) (type : String) :
      Settles (.declare name position type .argument) (.parameter type) name
  | enterSubroutine (name : String) (kind : SubroutineKind) :
      Settles (.enterSubroutine name kind) (.subroutine kind) name

variable {goal : Goal} {t : Token} {s : Scope} {next : List Goal}

theorem TakeAll.append {goals rest : List Goal} {first second last : Reading}
    (h : TakeAll goals first second) (h' : TakeAll rest second last) :
    TakeAll (goals ++ rest) first last := by
  induction h with
  | nil => exact h'
  | cons takes later ih => exact .cons takes (ih h')

theorem takeAll_of_rests (h : ∀ g ∈ next, g.rests) : TakeAll next .nothing .nothing := by
  induction next with
  | nil => exact .nil
  | cons g next ih =>
      rw [List.forall_mem_cons] at h
      exact .cons (.rests h.1) (ih h.2)

/-- A reaction passes no word that opens a declaration, and leaves goals that do not start where
something is being declared. -/
def Idle (t : Token) (r : Reaction) : Prop :=
  ∀ next, r.move = .shift next → (∀ g ∈ next, g.rests) ∧ Reading.nothing.next t.lexeme = .nothing

section Idle

variable {r : Reaction} {code : List Code} {later : List Goal}

theorem idle_of_ne (h : ∀ next, r.move ≠ .shift next) : Idle t r :=
  fun next moved => absurd moved (h next)

theorem idle_shift (quiet : Reading.nothing.next t.lexeme = .nothing) (h : ∀ g ∈ next, g.rests) :
    Idle t (.shift s code next) := by
  rintro next' ⟨⟩
  exact ⟨h, quiet⟩

theorem idle_word {word : Keyword} (quiet : Reading.opened word = .nothing)
    (h : ∀ g ∈ next, g.rests) : Idle t (reactWord word t s code next) := by
  unfold reactWord
  split
  · next found => exact idle_shift (by rw [found]; exact quiet) h
  · exact idle_of_ne (by simp [Reaction.unexpected, Reaction.fail])

theorem idle_andThen (h : Idle t r) (h' : ∀ g ∈ later, g.rests) : Idle t (r.andThen later) := by
  intro next moved
  unfold Reaction.andThen at moved
  split at moved
  · next first found =>
    cases moved
    obtain ⟨rests, quiet⟩ := h first found
    exact ⟨List.forall_mem_append.mpr ⟨rests, h'⟩, quiet⟩
  · next stays => exact absurd moved (stays next)

theorem idle_term (t : Token) (s : Scope) : Idle t (reactTerm t s) := by
  cases lexeme : t.lexeme with
  | keyword word =>
      simp only [reactTerm, lexeme]
      split
      · next constant =>
        refine idle_shift ?_ (by simp [rests])
        rw [lexeme]
        cases word <;> first | rfl | cases constant
      · exact idle_of_ne (by simp [Reaction.unexpected, Reaction.fail])
  | _ =>
      simp only [reactTerm, lexeme]
      repeat' split
      all_goals first
        | exact idle_shift (by rw [lexeme]; rfl) (by simp [rests])
        | exact idle_of_ne (by simp [Reaction.unexpected, Reaction.fail])

theorem idle_expression (t : Token) (s : Scope) : Idle t (reactExpression t s) :=
  idle_andThen (idle_term t s) (by simp [rests])

theorem idle_statement {r : Reaction} (h : reactStatement? t s = some r) : Idle t r := by
  unfold reactStatement? at h
  split at h
  case h_6 => cases h
  all_goals
    cases h
    exact idle_word rfl (by simp [rests])

end Idle

theorem idle_react (rests : goal.rests) (closed : goal.opens = false) (t : Token) (s : Scope) :
    Idle t (goal.react t s) := by
  cases goal
  case statements =>
    rw [react]
    split
    · next found => exact idle_andThen (idle_statement found) (by simp [Goal.rests])
    · exact idle_of_ne (by simp [Reaction.pop])
  case letStatement | ifStatement | whileStatement | doStatement | returnStatement =>
    exact idle_word rfl (by simp [Goal.rests])
  case expression => exact idle_expression t s
  case term => exact idle_term t s
  all_goals first
    | exact Bool.noConfusion rests
    | exact Bool.noConfusion closed
    | simp only [react, reactSymbol, reactName, reactOpenBody, reactOperators, reactCallTail,
        reactQualifiedCall, reactAfterName, reactAssignment, reactArguments, reactMoreArguments,
        withVariable]
  all_goals repeat' split
  all_goals first
    | (refine idle_of_ne ?_; simp [Reaction.unexpected, Reaction.fail, Reaction.pop]; done)
    | (refine idle_shift ?_ ?_ <;> simp [*, Reading.next, Reading.opened, Goal.rests])
    | (refine idle_andThen (idle_expression t s) ?_; simp [Goal.rests])

/-- A goal that declares nothing any more ends where it starts. -/
theorem Takes.eq_of_pop {first second : Reading} (h : goal.Takes first second)
    (moved : (goal.react t s).move = .pop) : first = second := by
  cases h with
  | rests | openParen | parameterList | parameterType | moreParameters => rfl
  | className | variableName | subroutineName | parameterName =>
      simp only [react, reactName] at moved
      split at moved <;> cases moved
  | variableType =>
      simp only [react, reactType] at moved
      split at moved <;> cases moved
  | resultType =>
      simp only [react] at moved
      split at moved <;> cases moved
  | moreVariables | closeParen =>
      simp only [react, reactSymbol] at moved
      repeat' split at moved
      all_goals cases moved

theorem Takes.waits {first second : Reading} (h : goal.Takes first second) :
    goal.waits = false := by
  cases h with
  | rests h => cases goal <;> first | rfl | cases h
  | _ => rfl

theorem Takes.eq_of_opens {first second : Reading} (h : goal.Takes first second)
    (opens : goal.opens) : first = .nothing ∧ second = .nothing := by
  cases h with
  | rests => exact ⟨rfl, rfl⟩
  | _ => exact Bool.noConfusion opens

theorem Takes.notes_eq_false {first second : Reading} (h : goal.Takes first second)
    (closed : goal.opens = false) : goal.notes = false := by
  cases h with
  | rests h => cases goal <;> first | rfl | exact Bool.noConfusion h | exact Bool.noConfusion closed
  | _ => rfl

theorem Settles.waits {reading : Reading} {name : String} (h : goal.Settles reading name) :
    goal.waits = true := by
  cases h <;> rfl

end Goal

open Goal

namespace Scope.Keeps

variable {s : Scope} {d : Declared} {goal : Goal} {t : Token}

/-- A goal that acts on a name declares what the name declares. -/
theorem settle {name : String} (h : s.Keeps d) (settles : goal.Settles d.reading name)
    (moved : (goal.react t s).move = .pop) :
    (goal.react t s).scope.Keeps (d.read (.identifier name)) := by
  rw [Declared.read_identifier]
  refine with_reading ?_ _
  generalize reads : d.reading = reading at settles
  have declares {type : String} {position : Position} {kind : VariableKind}
      (moved : ((Goal.declare name position type kind).react t s).move = .pop) :
      ((Goal.declare name position type kind).react t s).scope.Keeps (d.add name type kind) := by
    by_cases refused : s.refuses (levelOf kind) name = true
    · rw [react_of_refused refused] at moved
      cases moved
    · rw [react, reactDeclare, if_neg refused]
      cases kind
      case static | field => exact ⟨h.className, h.shared.define name type _, h.own⟩
      case argument | localVar => exact ⟨h.className, h.shared, h.own.define name type _⟩
  cases settles with
  | enterClass =>
      simp only [Declared.named, reads]
      exact ⟨rfl, h.shared, h.own⟩
  | declare name position type kind =>
      simp only [Declared.named, reads]
      exact declares moved
  | declareParameter name position type =>
      simp only [Declared.named, reads]
      exact declares moved
  | enterSubroutine name kind =>
      cases kind
      case method =>
        simp only [Declared.named, reads]
        refine ⟨h.className, h.shared, ?_⟩
        rw [← h.className]
        exact h.own.define "this" s.className .argument
      all_goals
        simp only [Declared.named, reads]
        exact ⟨h.className, h.shared, h.own⟩

theorem of_counts (h : s.Keeps d) (notes : goal.notes = false) :
    (goal.react t s).scope.Keeps d := by
  obtain ⟨branches, loops, same⟩ := counts_react notes t s
  rw [same]
  exact h.counts branches loops

theorem of_pop (h : s.Keeps d) (settled : goal.waits = false)
    (moved : (goal.react t s).move = .pop) : (goal.react t s).scope.Keeps d := by
  cases notes : goal.notes with
  | false => exact h.of_counts notes
  | true =>
      cases goal
      case subroutines | subroutine =>
        simp only [react] at moved ⊢
        split at moved
        · cases moved
        · first | exact h | cases moved
      all_goals first | exact Bool.noConfusion settled | exact Bool.noConfusion notes

theorem of_fail {fault : Fault} (h : s.Keeps d) (other : goal ≠ .subroutine)
    (moved : (goal.react t s).move = .fail fault) : (goal.react t s).scope.Keeps d := by
  cases notes : goal.notes with
  | false => exact h.of_counts notes
  | true =>
      cases goal
      case enterClass | enterSubroutine => cases moved
      case declare =>
        simp only [react, reactDeclare] at moved ⊢
        split at moved
        · next refused =>
          rw [if_pos refused]
          exact h
        · cases moved
      case subroutines =>
        simp only [react] at moved
        split at moved <;> cases moved
      case subroutine => exact absurd rfl other
      all_goals exact Bool.noConfusion notes

end Scope.Keeps

/-- A scope and goals account for lexemes that were passed: the goals follow on them, and the scope
holds what they declare. If the first goal has to act on a name that was passed last, the scope
holds what was declared before it. -/
inductive Accounts (s : Scope) : List Goal → List Lexeme → Prop where
  | settled {goals : List Goal} {row : List Lexeme}
      (takes : TakeAll goals (declared row).reading .nothing) (keeps : s.Keeps (declared row)) :
      Accounts s goals row
  | waiting {goal : Goal} {rest : List Goal} {row : List Lexeme} {name : String}
      (settles : goal.Settles (declared row).reading name)
      (takes : TakeAll rest ((declared row).reading.next (.identifier name)) .nothing)
      (keeps : s.Keeps (declared row)) : Accounts s (goal :: rest) (row ++ [.identifier name])

/-- The lexemes that were passed and acted on when goals are reached. -/
def settledRow (goals : List Goal) (row : List Lexeme) : List Lexeme :=
  if goals.head?.any waits then row.dropLast else row

namespace Accounts

variable {s : Scope} {goal : Goal} {rest next : List Goal} {row : List Lexeme} {t : Token}

theorem keeps {goals : List Goal} (h : Accounts s goals row) :
    s.Keeps (declared (settledRow goals row)) := by
  cases h with
  | settled takes keeps =>
      generalize (declared row).reading = reading at takes
      cases takes with
      | nil => exact keeps
      | cons takes later =>
          rw [settledRow, List.head?_cons, Option.any_some, takes.waits]
          exact keeps
  | waiting settles takes keeps =>
      rw [settledRow, List.head?_cons, Option.any_some, settles.waits, if_pos rfl,
        List.dropLast_concat]
      exact keeps

theorem pop (h : Accounts s (goal :: rest) row) (moved : (goal.react t s).move = .pop) :
    Accounts (goal.react t s).scope rest row := by
  cases h with
  | settled takes keeps =>
      cases takes with
      | cons takes later =>
          obtain rfl := takes.eq_of_pop moved
          exact .settled later (keeps.of_pop takes.waits moved)
  | waiting settles takes keeps =>
      have keeps := keeps.settle settles moved
      rw [← declared_concat] at keeps
      exact .settled (by rw [declared_concat]; exact takes) keeps

section Passed

variable {reading : Reading} {goals : List Goal} {l : Lexeme}
  (reads : (declared row).reading = reading)

include reads

/-- A lexeme is passed that declares nothing. -/
theorem of_quiet (takes : TakeAll goals (reading.next l) .nothing) (keeps : s.Keeps (declared row))
    (plain : reading = .nothing → reading.next l = .nothing)
    (unnamed : reading.isName = false) : Accounts s goals (row ++ [l]) := by
  subst reads
  refine .settled (by rw [declared_concat]; exact takes) ?_
  have notName : ¬ (declared row).reading.isName = true := Bool.eq_false_iff.mp unnamed
  rw [declared_concat, Declared.read_of_ne _ plain (absurd · notName)]
  exact keeps.with_reading _

/-- A name is passed that a goal has to act on. -/
theorem of_name {name : String} (named : l = .identifier name) (settles : goal.Settles reading name)
    (takes : TakeAll rest (reading.next l) .nothing) (keeps : s.Keeps (declared row)) :
    Accounts s (goal :: rest) (row ++ [l]) := by
  subst reads named
  exact .waiting settles takes keeps

end Passed

/-- A word is passed that opens a declaration. -/
theorem of_word {goals : List Goal} {word : Keyword}
    (reads : (declared row).reading = .nothing)
    (takes : TakeAll goals (Reading.opened word) .nothing)
    (keeps : s.Keeps ((declared row).opened (.opened word))) :
    Accounts s goals (row ++ [.keyword word]) := by
  have read := declared_concat row (.keyword word)
  rw [Declared.read_keyword _ reads] at read
  exact .settled (by rw [read]; exact takes) (by rw [read]; exact keeps.with_reading _)

end Accounts

section Shift

variable {s : Scope} {goal : Goal} {rest next : List Goal} {row : List Lexeme} {t : Token}
  {second : Reading}

theorem of_classVariableAfter? (found : classVariableAfter? t = some next) :
    ∃ word kind, t.lexeme = .keyword word ∧ next = [.variableType kind] ∧
      Reading.opened word = .type kind := by
  unfold classVariableAfter? at found
  split at found
  · next word lexeme =>
    obtain ⟨kind, named, rfl⟩ := Option.map_eq_some_iff.mp found
    refine ⟨word, kind, lexeme, rfl, ?_⟩
    cases word <;> cases named <;> rfl
  · cases found

theorem of_subroutineAfter? (found : subroutineAfter? t = some next) :
    ∃ word kind, t.lexeme = .keyword word ∧ next = [.resultType kind] ∧
      Reading.opened word = .result kind := by
  unfold subroutineAfter? at found
  split at found
  · next word lexeme =>
    obtain ⟨kind, named, rfl⟩ := Option.map_eq_some_iff.mp found
    refine ⟨word, kind, lexeme, rfl, ?_⟩
    cases word <;> cases named <;> rfl
  · cases found

/-- The words that open declarations are passed. -/
theorem accounts_of_opens (opens : goal.opens) (reads : (declared row).reading = .nothing)
    (keeps : s.Keeps (declared row)) (moved : (goal.react t s).move = .shift next)
    (later : TakeAll rest .nothing .nothing) :
    Accounts (goal.react t s).scope (next ++ rest) (row ++ [t.lexeme]) := by
  cases goal
  case classDeclaration =>
    simp only [react, reactWord] at moved ⊢
    split at moved
    · next found =>
      cases moved
      rw [found, if_pos rfl]
      refine .of_word reads (.append (.cons .className ?_) later) ⟨keeps.1, keeps.2, keeps.3⟩
      exact takeAll_of_rests (by simp [rests])
    · cases moved
  case localVariables =>
    simp only [react] at moved ⊢
    split at moved
    · next found =>
      cases moved
      rw [found, if_pos rfl]
      exact .of_word reads (.cons (.variableType .localVar) (.cons (.rests rfl) later)) keeps
    · cases moved
  case classVariables =>
    simp only [react] at moved ⊢
    split at moved
    · next found =>
      cases moved
      obtain ⟨word, kind, lexeme, rfl, opened⟩ := of_classVariableAfter? found
      rw [lexeme]
      refine .of_word reads ?_ (by rw [opened]; exact keeps)
      rw [opened]
      exact .cons (.variableType kind) (.cons (.rests rfl) later)
    · cases moved
  case subroutines =>
    simp only [react] at moved ⊢
    split at moved
    · next found =>
      cases moved
      obtain ⟨word, kind, lexeme, rfl, opened⟩ := of_subroutineAfter? found
      rw [lexeme]
      refine .of_word reads ?_ ?_
      · rw [opened]
        exact .cons (.resultType kind) (.cons (.rests rfl) later)
      · rw [opened]
        exact ⟨keeps.className, keeps.shared, SymbolTable.holds_empty⟩
    · cases moved
  all_goals exact Bool.noConfusion opens

/-- Any other goal that passes a lexeme declares nothing by that. -/
theorem accounts_of_takes {s' : Scope} (takes : goal.Takes (declared row).reading second)
    (closed : goal.opens = false) (kept : s'.Keeps (declared row))
    (moved : (goal.react t s).move = .shift next) (later : TakeAll rest second .nothing) :
    Accounts s' (next ++ rest) (row ++ [t.lexeme]) := by
  generalize reads : (declared row).reading = first at takes
  cases takes with
  | rests h =>
      obtain ⟨rests, quiet⟩ := idle_react h closed t s next moved
      have takes : TakeAll (next ++ rest) (Reading.nothing.next t.lexeme) .nothing := by
        rw [quiet]
        exact (takeAll_of_rests rests).append later
      exact .of_quiet reads takes kept (fun _ => quiet) rfl
  | className =>
      simp only [react, reactName] at moved
      split at moved
      · next name found =>
        cases moved
        exact .of_name reads found (.enterClass name) later kept
      · cases moved
  | variableType kind =>
      simp only [react, reactType] at moved
      split at moved
      · next type found =>
        cases moved
        refine .of_quiet reads ?_ kept Reading.noConfusion rfl
        rw [Reading.next, found]
        exact .cons (.variableName type kind) (.cons (.moreVariables type kind) later)
      · cases moved
  | variableName type kind =>
      simp only [react, reactName] at moved
      split at moved
      · next name found =>
        cases moved
        exact .of_name reads found (.declare name t.position type kind) later kept
      · cases moved
  | moreVariables type kind =>
      simp only [react, reactSymbol] at moved
      split at moved
      · next comma =>
        cases moved
        refine .of_quiet reads ?_ kept Reading.noConfusion rfl
        rw [Reading.next, if_pos comma]
        exact .cons (.variableName type kind) (.cons (.moreVariables type kind) later)
      · next other =>
        split at moved
        · cases moved
          refine .of_quiet reads ?_ kept Reading.noConfusion rfl
          rw [Reading.next, if_neg other]
          exact later
        · cases moved
  | resultType kind =>
      simp only [react] at moved
      split at moved
      · cases moved
        exact .of_quiet reads (.cons (.subroutineName kind) later) kept Reading.noConfusion rfl
      · cases moved
  | subroutineName kind =>
      simp only [react, reactName] at moved
      split at moved
      · next name found =>
        cases moved
        refine .of_name reads found (.enterSubroutine name kind) ?_ kept
        exact .cons .openParen (.cons .parameterList (.cons .closeParen (.cons (.rests rfl) later)))
      · cases moved
  | parameterList =>
      simp only [react] at moved
      split at moved
      · next type found =>
        cases moved
        refine .of_quiet reads ?_ kept Reading.noConfusion rfl
        rw [Reading.next_of_typeName? found]
        exact .cons (.parameterName type) (.cons .moreParameters later)
      · cases moved
  | parameterType =>
      simp only [react, reactType] at moved
      split at moved
      · next type found =>
        cases moved
        refine .of_quiet reads ?_ kept Reading.noConfusion rfl
        rw [Reading.next_of_typeName? found]
        exact .cons (.parameterName type) later
      · cases moved
  | parameterName type =>
      simp only [react, reactName] at moved
      split at moved
      · next name found =>
        cases moved
        exact .of_name reads found (.declareParameter name t.position type) later kept
      · cases moved
  | moreParameters =>
      simp only [react] at moved
      split at moved
      · next comma =>
        cases moved
        refine .of_quiet reads ?_ kept Reading.noConfusion rfl
        rw [comma]
        exact .cons .parameterType (.cons .moreParameters later)
      · cases moved
  | openParen | closeParen =>
      simp only [react, reactSymbol] at moved
      split at moved
      · next found =>
        cases moved
        refine .of_quiet reads ?_ kept Reading.noConfusion rfl
        rw [found]
        exact later
      · cases moved

end Shift

namespace Accounts

variable {s : Scope} {goal : Goal} {rest next : List Goal} {row : List Lexeme} {t : Token}

/-- A goal that passes a token has acted on everything before. -/
theorem takes_of_shift (h : Accounts s (goal :: rest) row)
    (moved : (goal.react t s).move = .shift next) :
    ∃ second, goal.Takes (declared row).reading second ∧ TakeAll rest second .nothing ∧
      s.Keeps (declared row) := by
  cases h with
  | settled takes keeps =>
      cases takes with
      | cons takes later => exact ⟨_, takes, later, keeps⟩
  | waiting settles =>
      generalize (declared _).reading = reading at settles
      cases settles with
      | enterClass | enterSubroutine => cases moved
      | declare | declareParameter =>
          simp only [react, reactDeclare] at moved
          split at moved <;> cases moved

theorem shift (h : Accounts s (goal :: rest) row) (moved : (goal.react t s).move = .shift next) :
    Accounts (goal.react t s).scope (next ++ rest) (row ++ [t.lexeme]) := by
  obtain ⟨second, takes, later, keeps⟩ := h.takes_of_shift moved
  cases opens : goal.opens with
  | true =>
      obtain ⟨reads, rfl⟩ := takes.eq_of_opens opens
      exact accounts_of_opens opens reads keeps moved later
  | false =>
      have notes := takes.notes_eq_false opens
      exact accounts_of_takes takes opens (keeps.of_counts notes) moved later

theorem fail {fault : Fault} (h : Accounts s (goal :: rest) row)
    (moved : (goal.react t s).move = .fail fault) :
    (goal.react t s).scope.Keeps (declared (settledRow (goal :: rest) row)) := by
  refine h.keeps.of_fail ?_ moved
  rintro rfl
  cases h with
  | settled takes =>
      generalize (declared row).reading = reading at takes
      cases takes with
      | cons takes =>
          cases takes with
          | rests h => cases h
  | waiting settles => cases settles

end Accounts

namespace Engine

variable {filename : Option String} {start : Reader} {x y : List Goal × Engine}

/-- An engine has passed tokens of a source, and its scope and its goals account for them. -/
def Declares (filename : Option String) (start : Reader) (x : List Goal × Engine) : Prop :=
  ∃ before, x.2.cursor.Passed filename start before ∧
    Accounts x.2.scope x.1 (before.map Token.lexeme)

theorem Declares.step (h : Declares filename start x) (step : Step x y) :
    Declares filename start y := by
  obtain ⟨before, passed, accounts⟩ := h
  cases step with
  | pop moved => exact ⟨before, passed, accounts.pop moved⟩
  | @shift goal rest next e moved advanced =>
      refine ⟨before ++ [e.cursor.current], ?_, ?_⟩
      · exact passed.advance (Goal.isEnd_of_react_shift moved) advanced
      · rw [List.map_append]
        exact accounts.shift moved

theorem Declares.steps (h : Declares filename start x) (steps : Steps x y) :
    Declares filename start y := by
  induction steps with
  | refl => exact h
  | tail _ step ih => exact ih.step step

theorem accounts_initial (strict : Bool) : Accounts (.initial strict) [.classDeclaration] [] :=
  .settled (.cons (.rests rfl) .nil) ⟨rfl, SymbolTable.holds_empty, SymbolTable.holds_empty⟩

theorem declares_atStart {t : Token} {strict : Bool}
    (found : (TokenStream.readFrom filename [] start).next.1.outcome = .ok t) :
    Declares filename start
      ([.classDeclaration], atStart (.readFrom filename [] start) t strict filename) :=
  ⟨[], passed_atStart found, accounts_initial strict⟩

/-- The engine that is in front of a source. -/
theorem exists_atStart {source : Source} {chunkSize : Int} {strict : Bool} {lexer : Lexer}
    {first : Engine} {events : List Event}
    (made : Lexer.ofSource source chunkSize filename = .ok lexer)
    (started : ofLexer lexer strict none = (.ok first, events)) :
    ∃ t, (TokenStream.readFrom filename [] lexer.reader).next.1.outcome = .ok t ∧
      first = atStart (.readFrom filename [] lexer.reader) t strict filename := by
  unfold Lexer.ofSource at made
  split at made
  · cases made
  · cases made
    simp only [ofLexer, ofStream, TokenStream.ofLexer, Option.map_none, Option.toList_none,
      Option.none_or] at started
    generalize (TokenStream.readFrom filename [] (.ofSource chunkSize.toNat source)) = stream at *
    cases found : stream.next.1.outcome with
    | error failure =>
        rw [found] at started
        cases started
    | ok t =>
        rw [found] at started
        cases started
        exact ⟨t, rfl, rfl⟩

end Engine

/-- Wherever an engine is in a source, strict or not, its scope resolves names as they are declared
by the lexemes that it has passed, but for a name that it has still to act on. A run that fails
leaves such a scope behind as well: of the lexemes up to where it is stuck, or up to the one behind
which there is no other. -/
theorem names_stand_for_declarations (source : Source) (chunkSize : Int)
    (filename : Option String) (strict : Bool) (lexer : Lexer) (first : Engine)
    (events : List Event) (made : Lexer.ofSource source chunkSize filename = .ok lexer)
    (started : Engine.ofLexer lexer strict none = (.ok first, events)) :
    (∀ goals e, Engine.Steps ([.classDeclaration], first) (goals, e) →
      ∃ before, e.cursor.Passed filename lexer.reader before ∧
        e.scope.Faithful (declared (settledRow goals (before.map Token.lexeme)))) ∧
    ∀ failure last, first.run [.classDeclaration] = (.error failure, last) →
      ∃ goal rest e before, Engine.Steps ([.classDeclaration], first) (goal :: rest, e) ∧
        e.cursor.Passed filename lexer.reader before ∧
        ((∃ fault, (e.reaction goal).move = .fail fault ∧
            last.scope.Faithful
              (declared (settledRow (goal :: rest) (before.map Token.lexeme)))) ∨
          ∃ next, (e.reaction goal).move = .shift next ∧
            last.scope.Faithful (declared (settledRow (next ++ rest)
              ((before ++ [e.cursor.current]).map Token.lexeme)))) := by
  obtain ⟨t, found, rfl⟩ := Engine.exists_atStart made started
  have declares : Engine.Declares filename lexer.reader
      ([.classDeclaration], .atStart (.readFrom filename [] lexer.reader) t strict filename) :=
    Engine.declares_atStart found
  have faithful {s : Scope} {row : List Lexeme} (h : s.Keeps (declared row)) :
      s.Faithful (declared row) := h.faithful (declared_regular row)
  refine ⟨fun goals e steps => ?_, fun failure last ran => ?_⟩
  · obtain ⟨before, passed, accounts⟩ := declares.steps steps
    exact ⟨before, passed, faithful accounts.keeps⟩
  · obtain ⟨goal, rest, e, steps, fails, -, scope, -⟩ := Engine.fails_of_run ran
    obtain ⟨before, passed, accounts⟩ := declares.steps steps
    refine ⟨goal, rest, e, before, steps, passed, ?_⟩
    rw [scope]
    cases fails with
    | stuck moved => exact .inl ⟨_, moved, faithful (accounts.fail moved)⟩
    | unread moved failed =>
        refine .inr ⟨_, moved, ?_⟩
        rw [List.map_append]
        exact faithful (accounts.shift moved).keeps

/-- Behind a method whose parameter hides a variable of the class. -/
theorem names_stand_for_declarations_at_method :
    let source : Source :=
      .text "class A\x7bstatic int x,y;method int f(int x)\x7breturn x;\x7d\x7d"
    let lexer : Lexer := ⟨.ofSource 3 source, none, none⟩
    ∃ first events e, Lexer.ofSource source 3 none = .ok lexer ∧
      Engine.ofLexer lexer false none = (.ok first, events) ∧
      first.run [.classDeclaration] = (.ok (), e) ∧
      e.scope.resolve? "x" = some ⟨"x", "int", .argument, 1⟩ ∧
      e.scope.resolve? "y" = some ⟨"y", "int", .static, 1⟩ ∧
      ∃ before, e.cursor.Passed none lexer.reader before ∧
        e.scope.Faithful (declared (before.map Token.lexeme)) := by
  intro source lexer
  have made : Lexer.ofSource source 3 none = .ok lexer := rfl
  have computed : (Engine.ofLexer lexer false none).1.toOption.map (fun first =>
      let reached := first.run [.classDeclaration]
      (reached.1, reached.2.scope.resolve? "x", reached.2.scope.resolve? "y")) =
        some (.ok (), some ⟨"x", "int", .argument, 1⟩, some ⟨"y", "int", .static, 1⟩) := by
    decide +kernel
  cases started : Engine.ofLexer lexer false none with
  | mk outcome events =>
      rw [started] at computed
      cases outcome with
      | error => cases computed
      | ok first =>
          cases ran : first.run [.classDeclaration] with
          | mk reached e =>
              simp only [Except.toOption, Option.map_some, ran, Option.some.injEq,
                Prod.mk.injEq] at computed
              obtain ⟨rfl, ofX, ofY⟩ := computed
              have steps := Engine.steps_of_run ran
              have resolved := names_stand_for_declarations source 3 none false lexer first events
                made started
              exact ⟨first, events, e, made, rfl, ran, ofX, ofY, resolved.1 [] e steps⟩

end Jack
