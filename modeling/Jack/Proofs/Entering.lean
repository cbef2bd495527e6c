import Jack.Proofs.Headings
import Jack.Proofs.Layout
import Jack.Proofs.Resolution

/-! # What is entered

An engine enters its class when it knows the name, and a subroutine when it writes the header, which
is behind the local variables. So of the headings that its lexemes introduce it may owe one, and the
goals that are left show which. A header is written for each subroutine that is entered, and for
nothing else.
-/

namespace Jack

/-- A class or a subroutine that was entered, and how many local variables it has. -/
structure Entered where
  heading : Heading
  locals : Nat
  deriving Repr, DecidableEq

/-- The header that is written for what was entered. There is none for a class. -/
def Entered.header? (e : Entered) : Option Code :=
  match e.heading with
  | .ofClass _ => none
  | .ofSubroutine _ name => some (.function name e.locals)

/-- What is entered with an event. -/
def Event.entered? : Event → Option Entered
  | .classEntered name => some ⟨.ofClass name, 0⟩
  | .subroutineEntered kind name locals => some ⟨.ofSubroutine kind name, locals⟩
  | .delivered _ | .listRead _ => none

/-- What a scope calls its class and its subroutine. -/
def Scope.names (s : Scope) : String × String × Option SubroutineKind :=
  (s.className, s.subroutineName, s.subroutineKind)

@[simp] theorem Scope.names_enterSubroutine (s : Scope) (name : String) (kind : SubroutineKind) :
    (s.enterSubroutine name kind).names = (s.className, name, some kind) := by
  cases kind <;> rfl

theorem Scope.qualifiedName_congr {s s' : Scope} (same : s'.names = s.names) :
    s'.qualifiedName = s.qualifiedName ∧ s'.subroutineKind = s.subroutineKind := by
  simp only [Scope.names, Prod.mk.injEq] at same
  obtain ⟨ofClass, ofSubroutine, kind⟩ := same
  exact ⟨by rw [Scope.qualifiedName, ofClass, ofSubroutine, Scope.qualifiedName], kind⟩

/-- What a reaction enters. -/
def Reaction.entered (r : Reaction) : List Entered :=
  r.events.filterMap Event.entered?

namespace Goal

/-- Whether a goal reads a name that introduces something. -/
def introduces : Goal → Bool
  | .className | .subroutineName _ => true
  | _ => false

/-- Whether a goal enters nothing and holds no header. -/
@[simp]
def Silent : Goal → Prop
  | .enterClass _ | .enterSubroutine _ _ | .subroutineBody | .openBody => False
  | .emit code => ∀ i ∈ code, i.isHeader = false
  | _ => True

/-- Whether a goal can come up between the name of a subroutine and its statements. -/
@[simp]
def inHead : Goal → Bool
  | .symbol _ | .parameterList | .parameterType | .moreParameters | .variableType _
  | .variableName _ _ | .moreVariables _ _ | .declare _ _ _ _ | .localVariables => true
  | _ => false

end Goal

/-- A reaction enters nothing, writes no header and leaves goals that do neither. -/
structure Reaction.Calm (r : Reaction) : Prop where
  entered : r.entered = []
  written : ∀ i ∈ r.code, i.isHeader = false
  next : ∀ next, r.move = .shift next → ∀ g ∈ next, g.Silent

namespace Goal

open Reaction

variable {goal : Goal} {t : Token} {s : Scope} {r : Reaction} {code : List Code}
  {next later : List Goal}

theorem isHeader_string (content : String) : ∀ i ∈ Template.string content, i.isHeader = false := by
  intro i inside
  simp only [Template.string, List.mem_cons, List.mem_flatMap, List.not_mem_nil, or_false]
    at inside
  obtain rfl | rfl | ⟨c, -, rfl | rfl⟩ := inside
  all_goals rfl

theorem isHeader_constant (word : String) : ∀ i ∈ Template.constant word, i.isHeader = false := by
  unfold Template.constant
  repeat' split
  all_goals simp [Code.isHeader]

theorem isHeader_unary (op : UnaryOp) : (Template.unary op).isHeader = false := by
  cases op <;> rfl

theorem isHeader_binary (op : BinaryOp) : (Template.binary op).isHeader = false := by
  cases op <;> rfl

theorem isHeader_prologue (s : Scope) (kind : SubroutineKind) :
    ∀ i ∈ Template.prologue s kind, i.isHeader = false := by
  cases kind <;> simp [Template.prologue, Code.isHeader]

theorem calm_pop (written : ∀ i ∈ code, i.isHeader = false) : (pop s code).Calm :=
  ⟨rfl, written, fun _ moved => by cases moved⟩

theorem calm_fail {fault : Fault} (written : ∀ i ∈ code, i.isHeader = false) :
    (fail s code fault).Calm :=
  ⟨rfl, written, fun _ moved => by cases moved⟩

theorem calm_shift (written : ∀ i ∈ code, i.isHeader = false) (h : ∀ g ∈ next, g.Silent) :
    (shift s code next).Calm := by
  refine ⟨rfl, written, fun _ moved => ?_⟩
  cases moved
  exact h

theorem calm_andThen (first : r.Calm) (h : ∀ g ∈ later, g.Silent) : (r.andThen later).Calm := by
  unfold andThen
  split
  · next next moved =>
    refine ⟨first.entered, first.written, fun _ shifted => ?_⟩
    cases shifted
    exact List.forall_mem_append.mpr ⟨first.next next moved, h⟩
  · exact first

theorem calm_word {word : Keyword} (written : ∀ i ∈ code, i.isHeader = false)
    (h : ∀ g ∈ next, g.Silent) : (reactWord word t s code next).Calm := by
  unfold reactWord
  split
  · exact calm_shift written h
  · exact calm_fail written

theorem calm_symbol {mark : Symbol} (written : ∀ i ∈ code, i.isHeader = false)
    (h : ∀ g ∈ next, g.Silent) : (reactSymbol mark t s code next).Calm := by
  unfold reactSymbol
  split
  · exact calm_shift written h
  · exact calm_fail written

theorem calm_name {next : String → List Goal} (h : ∀ name, ∀ g ∈ next name, g.Silent) :
    (reactName t s next).Calm := by
  unfold reactName
  split
  · exact calm_shift (List.forall_mem_nil _) (h _)
  · exact calm_fail (List.forall_mem_nil _)

theorem calm_type {next : String → List Goal} (h : ∀ type, ∀ g ∈ next type, g.Silent) :
    (reactType t s next).Calm := by
  unfold reactType
  split
  · exact calm_shift (List.forall_mem_nil _) (h _)
  · exact calm_fail (List.forall_mem_nil _)

theorem calm_variable {name : String} {position : Position} {react : SymbolEntry → Reaction}
    (h : ∀ entry, (react entry).Calm) : (withVariable name position s react).Calm := by
  unfold withVariable
  split
  · exact h _
  · exact calm_fail (List.forall_mem_nil _)

theorem calm_term : (reactTerm t s).Calm := by
  unfold reactTerm
  split
  · exact calm_shift (by simp) (by simp [Code.isHeader])
  · exact calm_shift (by simp) (by simpa using isHeader_string _)
  · split
    · exact calm_shift (by simp) (by simpa using isHeader_constant _)
    · exact calm_fail (by simp)
  · exact calm_shift (by simp) (by simp)
  · split
    · exact calm_shift (by simp) (by simp [isHeader_unary])
    · exact calm_fail (by simp)
  · exact calm_shift (by simp) (by simp)
  · exact calm_fail (by simp)

theorem calm_expression (h : ∀ g ∈ later, g.Silent) : ((reactExpression t s).andThen later).Calm :=
  calm_andThen (calm_andThen calm_term (by simp)) h

theorem calm_operators : (reactOperators t s).Calm := by
  unfold reactOperators
  split
  · split
    · exact calm_shift (by simp) (by simp [isHeader_binary])
    · exact calm_pop (by simp)
  · exact calm_pop (by simp)

theorem calm_callTail (name : String) : (reactCallTail name t s).Calm := by
  unfold reactCallTail
  split
  · exact calm_shift (by simp) (by simp)
  · exact calm_symbol (by simp [Code.isHeader]) (by simp)

theorem calm_qualifiedCall (qualifier method : String) :
    (reactQualifiedCall qualifier method t s).Calm := by
  unfold reactQualifiedCall
  split
  · exact calm_symbol (by simp [Template.pushVariable, Code.isHeader]) (by simp)
  · exact calm_symbol (by simp) (by simp)

theorem calm_afterName (name : String) (position : Position) :
    (reactAfterName name position t s).Calm := by
  unfold reactAfterName
  split
  · exact calm_variable fun entry => calm_shift (by simp [Template.pushVariable, Code.isHeader])
      (by simp [Template.readElement, Code.isHeader])
  · exact calm_callTail name
  · exact calm_callTail name
  · exact calm_variable fun entry => calm_pop (by simp [Template.pushVariable, Code.isHeader])

theorem calm_assignment (name : String) (position : Position) :
    (reactAssignment name position t s).Calm := by
  refine calm_variable fun entry => ?_
  split
  · exact calm_shift (by simp [Template.pushVariable, Code.isHeader])
      (by simp [Template.writeElement, Code.isHeader])
  · exact calm_symbol (by simp) (by simp [Template.popVariable, Code.isHeader])

theorem calm_arguments (callee : String) (count : Nat) :
    (reactArguments callee count t s).Calm := by
  unfold reactArguments
  split
  · exact calm_shift (by simp) (by simp [Code.isHeader])
  · exact calm_expression (by simp)

theorem calm_moreArguments (callee : String) (count : Nat) :
    (reactMoreArguments callee count t s).Calm := by
  unfold reactMoreArguments
  split
  · exact calm_shift (by simp) (by simp)
  · exact calm_symbol (by simp) (by simp [Code.isHeader])

theorem calm_declare (name type : String) (position : Position) (kind : VariableKind) :
    (reactDeclare name position type kind s).Calm := by
  unfold reactDeclare
  dsimp only
  split
  · exact calm_fail (by simp)
  · exact calm_pop (by simp)

theorem calm_statement (h : reactStatement? t s = some r) : r.Calm := by
  unfold reactStatement? at h
  split at h
  case h_6 => cases h
  all_goals
    cases h
    exact calm_word (by simp [Code.isHeader]) (by simp [Code.isHeader])

theorem silent_classVariableAfter? (h : classVariableAfter? t = some next) :
    ∀ g ∈ next, g.Silent := by
  obtain ⟨word, kind, -, rfl, -⟩ := of_classVariableAfter? h
  simp

theorem silent_subroutineAfter? (h : subroutineAfter? t = some next) : ∀ g ∈ next, g.Silent := by
  obtain ⟨word, kind, -, rfl, -⟩ := of_subroutineAfter? h
  simp

/-- What enters nothing goes on so, but for a name that introduces something. -/
theorem calm_react (silent : goal.Silent) (other : goal.introduces = false) (t : Token)
    (s : Scope) : (goal.react t s).Calm := by
  cases goal with
  | enterClass | enterSubroutine | subroutineBody | openBody => exact silent.elim
  | className | subroutineName => cases other
  | classDeclaration | localVariable | letStatement | ifStatement | whileStatement | doStatement
  | returnStatement => exact calm_word (by simp [Code.isHeader]) (by simp [Code.isHeader])
  | variableName | letTarget | call | methodName => exact calm_name (by simp)
  | variableType | parameterType => exact calm_type (by simp)
  | symbol => exact calm_symbol (by simp) (by simp)
  | declare name position type kind => exact calm_declare name type position kind
  | assignment name position => exact calm_assignment name position
  | expression => exact calm_andThen calm_term (by simp)
  | operators => exact calm_operators
  | term => exact calm_term
  | afterName name position => exact calm_afterName name position
  | callTail name => exact calm_callTail name
  | qualifiedCall qualifier method => exact calm_qualifiedCall qualifier method
  | arguments callee count => exact calm_arguments callee count
  | moreArguments callee count => exact calm_moreArguments callee count
  | emit code => exact calm_pop silent
  | classVariables =>
      rw [react]
      split
      · next next found =>
        refine calm_shift (by simp) (List.forall_mem_append.mpr ⟨?_, by simp⟩)
        exact silent_classVariableAfter? found
      · exact calm_pop (by simp)
  | classVariable =>
      rw [react]
      split
      · next next found => exact calm_shift (by simp) (silent_classVariableAfter? found)
      · exact calm_fail (by simp)
  | subroutines =>
      rw [react]
      split
      · next next found =>
        refine calm_shift (by simp) (List.forall_mem_append.mpr ⟨?_, by simp⟩)
        exact silent_subroutineAfter? found
      · exact calm_pop (by simp)
  | subroutine =>
      rw [react]
      split
      · next next found => exact calm_shift (by simp) (silent_subroutineAfter? found)
      · exact calm_fail (by simp)
  | resultType kind =>
      rw [react]
      split
      · exact calm_shift (by simp) (by simp)
      · exact calm_fail (by simp)
  | parameterList | moreParameters | localVariables =>
      rw [react]
      split
      · exact calm_shift (by simp) (by simp)
      · exact calm_pop (by simp)
  | moreVariables type kind =>
      rw [react]
      split
      · exact calm_shift (by simp) (by simp)
      · exact calm_symbol (by simp) (by simp)
  | statements =>
      rw [react]
      split
      · next r found => exact calm_andThen (calm_statement found) (by simp)
      · exact calm_pop (by simp)
  | elseBranch id =>
      rw [react]
      split
      · exact calm_shift (by simp) (by simp [Code.isHeader])
      · exact calm_pop (by simp [Code.isHeader])
  | returnValue =>
      rw [react]
      split
      · exact calm_shift (by simp [Code.isHeader]) (by simp [Code.isHeader])
      · exact calm_expression (by simp [Code.isHeader])
  | expressionList =>
      rw [react]
      split
      · exact ⟨rfl, by simp, fun _ moved => by cases moved⟩
      · exact calm_expression (by simp)
  | moreExpressions count =>
      rw [react]
      split
      · exact calm_shift (by simp) (by simp)
      · exact ⟨rfl, by simp, fun _ moved => by cases moved⟩
  | endOfInput =>
      rw [react]
      split
      · exact calm_pop (by simp)
      · exact calm_fail (by simp)

/-- What enters nothing writes no header. -/
theorem silent_react (silent : goal.Silent) (t : Token) (s : Scope) :
    (goal.react t s).entered = [] ∧ ∀ i ∈ (goal.react t s).code, i.isHeader = false := by
  cases other : goal.introduces with
  | false => exact ⟨(calm_react silent other t s).entered, (calm_react silent other t s).written⟩
  | true =>
      cases goal
      case className | subroutineName =>
        rw [react, reactName]
        split <;> exact ⟨rfl, List.forall_mem_nil _⟩
      all_goals cases other

/-- The head of a subroutine goes on with its head, in the same subroutine. -/
theorem inHead_of_shift (inside : goal.inHead) (moved : (goal.react t s).move = .shift next) :
    ∀ g ∈ next, g.inHead := by
  cases goal
  case symbol | parameterList | parameterType | moreParameters | variableType | variableName
      | moreVariables | localVariables =>
    simp only [react, reactSymbol, reactName, reactType] at moved
    repeat' split at moved
    all_goals
      cases moved
      try simp
  case declare =>
    simp only [react, reactDeclare] at moved
    split at moved <;> cases moved
  all_goals cases inside

theorem silent_of_inHead (inside : goal.inHead) : goal.Silent ∧ goal.introduces = false := by
  cases goal <;> first | exact ⟨trivial, rfl⟩ | cases inside

theorem names_of_inHead (inside : goal.inHead) (t : Token) (s : Scope) :
    (goal.react t s).scope.names = s.names := by
  cases notes : goal.notes with
  | false =>
      obtain ⟨branches, loops, same⟩ := counts_react notes t s
      rw [same]
      rfl
  | true =>
      cases goal
      case declare name position type kind =>
        rw [react, reactDeclare]
        split
        · rfl
        · cases kind <;> rfl
      all_goals first | exact Bool.noConfusion inside | exact Bool.noConfusion notes

/-- The header of a subroutine is written when the subroutine is entered. -/
theorem react_openBody {kind : SubroutineKind} (known : s.subroutineKind = some kind) (t : Token) :
    Goal.openBody.react t s =
      ⟨s, Template.header s :: Template.prologue s kind,
        [.subroutineEntered kind s.qualifiedName (s.subroutineTable.count .localVar)], .pop⟩ := by
  rw [react, reactOpenBody, known]

/-- Where a goal does not read a name that introduces something, none comes. -/
theorem Takes.introduces_eq {first second : Reading} (takes : goal.Takes first second)
    (other : goal.introduces = false) : first.introduces = false := by
  cases takes with
  | className | subroutineName => cases other
  | _ => rfl

/-! ### What is owed -/

/-- What goals have still to enter of the headings that were introduced. -/
inductive Owes : Scope → List Goal → List Heading → Prop where
  | nothing {s : Scope} {goals : List Goal} (silent : ∀ g ∈ goals, g.Silent) : Owes s goals []
  /-- The name of the class was passed. -/
  | ofClass {s : Scope} (name : String) {rest : List Goal} (silent : ∀ g ∈ rest, g.Silent) :
      Owes s (.enterClass name :: rest) [.ofClass name]
  /-- The name of a subroutine was passed, and the scope goes by the one before. -/
  | ofSubroutine {s : Scope} (name : String) (kind : SubroutineKind) {rest : List Goal}
      {owed : List Heading} (later : Owes (s.enterSubroutine name kind) rest owed) :
      Owes s (.enterSubroutine name kind :: rest) owed
  | head {s : Scope} {goal : Goal} {rest : List Goal} {owed : List Heading}
      (inHead : goal.inHead) (later : Owes s rest owed) : Owes s (goal :: rest) owed
  | body {s : Scope} {kind : SubroutineKind} {rest : List Goal}
      (known : s.subroutineKind = some kind) (silent : ∀ g ∈ rest, g.Silent) :
      Owes s (.subroutineBody :: rest) [.ofSubroutine kind s.qualifiedName]
  | header {s : Scope} {kind : SubroutineKind} {rest : List Goal}
      (known : s.subroutineKind = some kind) (silent : ∀ g ∈ rest, g.Silent) :
      Owes s (.openBody :: rest) [.ofSubroutine kind s.qualifiedName]

namespace Owes

variable {rest : List Goal} {owed : List Heading} {row : List Lexeme}

/-- What is owed goes by the names of the scope alone. -/
theorem of_names {s' : Scope} {goals : List Goal} (h : Owes s goals owed)
    (same : s'.names = s.names) : Owes s' goals owed := by
  induction h generalizing s' with
  | nothing silent => exact .nothing silent
  | ofClass name silent => exact .ofClass name silent
  | ofSubroutine name kind _ ih =>
      refine .ofSubroutine name kind (ih ?_)
      rw [Scope.names_enterSubroutine, Scope.names_enterSubroutine, (Prod.mk.inj same).1]
  | head inHead _ ih => exact .head inHead (ih same)
  | body known silent =>
      obtain ⟨named, kind⟩ := Scope.qualifiedName_congr same
      rw [← named]
      exact .body (kind.trans known) silent
  | header known silent =>
      obtain ⟨named, kind⟩ := Scope.qualifiedName_congr same
      rw [← named]
      exact .header (kind.trans known) silent

theorem of_inHead {head : List Goal} (inHead : ∀ g ∈ head, g.inHead) (h : Owes s rest owed) :
    Owes s (head ++ rest) owed := by
  induction head with
  | nil => exact h
  | cons g head ih =>
      rw [List.forall_mem_cons] at inHead
      exact .head inHead.1 (ih inHead.2)

theorem eq_nil (h : Owes s [] owed) : owed = [] := by
  cases h
  rfl

/-- What is owed is entered, or owed by the goals that are left. -/
theorem pop (h : Owes s (goal :: rest) owed) (moved : (goal.react t s).move = .pop) :
    ∃ later, owed = (goal.react t s).entered.map Entered.heading ++ later ∧
      Owes (goal.react t s).scope rest later := by
  cases h with
  | nothing silent =>
      rw [List.forall_mem_cons] at silent
      exact ⟨[], by rw [(silent_react silent.1 t s).1]; rfl, .nothing silent.2⟩
  | ofClass name silent => exact ⟨[], rfl, .nothing silent⟩
  | ofSubroutine name kind later => exact ⟨owed, rfl, later⟩
  | head inHead later =>
      refine ⟨owed, ?_, later.of_names (names_of_inHead inHead t s)⟩
      rw [(silent_react (silent_of_inHead inHead).1 t s).1]
      rfl
  | body =>
      rw [react, reactSymbol] at moved
      split at moved <;> cases moved
  | header known silent =>
      rw [react_openBody known]
      exact ⟨[], rfl, .nothing silent⟩

/-- A name that introduces something is owed when it was passed. -/
theorem of_introduces {first second : Reading} {d : Declared} (silent : ∀ g ∈ rest, g.Silent)
    (reads : d.reading = first) (takes : goal.Takes first second) (keeps : s.Keeps d)
    (named : goal.introduces = true) (moved : (goal.react t s).move = .shift next) :
    (goal.react t s).entered = [] ∧
      Owes (goal.react t s).scope (next ++ rest) (d.heading? t.lexeme).toList := by
  cases takes with
  | className =>
      simp only [react, reactName] at moved ⊢
      split at moved
      · next name found =>
        cases moved
        simp only [found, Declared.heading?, reads]
        exact ⟨rfl, .ofClass name silent⟩
      · cases moved
  | subroutineName kind =>
      simp only [react, reactName] at moved ⊢
      split at moved
      · next name found =>
        cases moved
        simp only [found, Declared.heading?, reads, ← keeps.className]
        have body : Owes (s.enterSubroutine name kind) (.subroutineBody :: rest)
            [.ofSubroutine kind (s.className ++ "." ++ name)] := by
          cases kind <;> exact .body rfl silent
        exact ⟨rfl, .ofSubroutine name kind (.head rfl (.head rfl (.head rfl body)))⟩
      · cases moved
  | rests rests =>
      cases goal <;> first | exact Bool.noConfusion rests | exact Bool.noConfusion named
  | _ => cases named

/-- What is introduced by the lexeme that a goal passes is owed from then on. -/
theorem shift (h : Owes s (goal :: rest) owed) (accounts : Accounts s (goal :: rest) row)
    (moved : (goal.react t s).move = .shift next) :
    (goal.react t s).entered = [] ∧ Owes (goal.react t s).scope (next ++ rest)
      (owed ++ ((declared row).heading? t.lexeme).toList) := by
  obtain ⟨second, takes, -, keeps⟩ := accounts.takes_of_shift moved
  have quiet (other : goal.introduces = false) : (declared row).heading? t.lexeme = none :=
    Declared.heading?_eq_none (takes.introduces_eq other) t.lexeme
  cases h with
  | nothing silent =>
      rw [List.forall_mem_cons] at silent
      cases other : goal.introduces with
      | false =>
          have calm := calm_react silent.1 other t s
          rw [quiet other]
          refine ⟨calm.entered, .nothing ?_⟩
          exact List.forall_mem_append.mpr ⟨calm.next next moved, silent.2⟩
      | true =>
          exact of_introduces silent.2 rfl takes keeps other moved
  | ofClass | ofSubroutine => cases moved
  | head inHead later =>
      -- What is owed for the subroutine stays so until its header is written.
      obtain ⟨silent, other⟩ := silent_of_inHead inHead
      rw [quiet other, Option.toList_none, List.append_nil]
      refine ⟨(silent_react silent t s).1, ?_⟩
      exact (later.of_names (names_of_inHead inHead t s)).of_inHead (inHead_of_shift inHead moved)
  | body known silent =>
      rw [quiet rfl]
      simp only [react, reactSymbol] at moved ⊢
      split at moved
      · next found =>
        cases moved
        rw [if_pos found]
        exact ⟨rfl, .head rfl (.header known (by simpa using silent))⟩
      · cases moved
  | header known =>
      rw [react_openBody known] at moved
      cases moved

theorem fail {fault : Fault} (h : Owes s (goal :: rest) owed)
    (moved : (goal.react t s).move = .fail fault) : (goal.react t s).entered = [] := by
  cases h with
  | nothing silent => exact (silent_react (List.forall_mem_cons.mp silent).1 t s).1
  | ofClass | ofSubroutine => cases moved
  | head inHead => exact (silent_react (silent_of_inHead inHead).1 t s).1
  | body =>
      rw [react, reactSymbol]
      split <;> rfl
  | header known =>
      rw [react_openBody known] at moved
      cases moved

/-- Headers are written for the subroutines that are entered. -/
theorem headers (h : Owes s (goal :: rest) owed) :
    (goal.react t s).code.filter Code.isHeader =
      (goal.react t s).entered.filterMap Entered.header? := by
  have none (silent : goal.Silent) : (goal.react t s).code.filter Code.isHeader =
      (goal.react t s).entered.filterMap Entered.header? := by
    obtain ⟨entered, written⟩ := silent_react silent t s
    rw [entered]
    exact List.filter_eq_nil_iff.mpr fun i inside => by simp [written i inside]
  cases h with
  | nothing silent => exact none (List.forall_mem_cons.mp silent).1
  | ofClass | ofSubroutine => rfl
  | head inHead => exact none (silent_of_inHead inHead).1
  | body =>
      rw [react, reactSymbol]
      split <;> rfl
  | @header _ kind _ known =>
      have prologue : (Template.prologue s kind).filter Code.isHeader = [] :=
        List.filter_eq_nil_iff.mpr fun i inside => by simp [isHeader_prologue s kind i inside]
      rw [react_openBody known, List.filter_cons_of_pos rfl, prologue]
      rfl

end Owes

end Goal

/-! ### Runs -/

namespace Engine

/-- What an engine has entered, in order. -/
def entered (e : Engine) : List Entered :=
  e.events.reverse.filterMap Event.entered?

/-- An engine has passed tokens, has entered what they introduce but for what its goals owe, and has
written the headers of what it entered. -/
structure Enters (filename : Option String) (start : Reader) (before : List Token)
    (x : List Goal × Engine) : Prop where
  passed : x.2.cursor.Passed filename start before
  accounts : Accounts x.2.scope x.1 (before.map Token.lexeme)
  owes : ∃ owed, headings (before.map Token.lexeme) = x.2.entered.map Entered.heading ++ owed ∧
    Goal.Owes x.2.scope x.1 owed
  headers : x.2.code.filter Code.isHeader = x.2.entered.filterMap Entered.header?

variable {filename : Option String} {start : Reader} {before : List Token}
  {x y : List Goal × Engine} {e : Engine}

theorem entered_absorb (e : Engine) (goal : Goal) :
    (e.absorb (e.reaction goal)).entered = e.entered ++ (e.reaction goal).entered := by
  simp [entered, absorb, Reaction.entered]

theorem entered_deliver (e : Engine) (deliveries : List Delivery) :
    (e.deliver deliveries).entered = e.entered := by
  simp [entered, deliver, Event.entered?]

theorem entered_advance (e : Engine) : e.advance.2.entered = e.entered :=
  entered_deliver { e with cursor := e.cursor.advance.2.2 } e.cursor.advance.2.1

theorem headers_absorb {goal : Goal} {rest : List Goal} {owed : List Heading}
    (headers : e.code.filter Code.isHeader = e.entered.filterMap Entered.header?)
    (owes : Goal.Owes e.scope (goal :: rest) owed) :
    (e.absorb (e.reaction goal)).code.filter Code.isHeader =
      (e.absorb (e.reaction goal)).entered.filterMap Entered.header? := by
  rw [code_absorb, entered_absorb, List.filter_append, List.filterMap_append, headers]
  exact congrArg _ owes.headers

theorem Enters.step (h : Enters filename start before x) (step : Step x y) :
    ∃ later, Enters filename start later y := by
  obtain ⟨passed, accounts, ⟨owed, introduced, owes⟩, headers⟩ := h
  cases step with
  | @pop goal rest e moved =>
      obtain ⟨later, rfl, owes'⟩ := owes.pop moved
      refine ⟨before, passed, accounts.pop moved, ⟨later, ?_, owes'⟩, headers_absorb headers owes⟩
      rw [introduced, entered_absorb, List.map_append, List.append_assoc]
      rfl
  | @shift goal rest next e moved advanced =>
      obtain ⟨none, owes'⟩ := owes.shift accounts moved
      refine ⟨before ++ [e.cursor.current],
        passed.advance (Goal.isEnd_of_react_shift moved) advanced, ?_, ⟨_, ?_, owes'⟩, ?_⟩
      · rw [List.map_append]
        exact accounts.shift moved
      · have same : (e.absorb (e.reaction goal)).advance.2.entered = e.entered := by
          rw [entered_advance, entered_absorb, reaction, none, List.append_nil]
        rw [same, List.map_append, List.map_singleton, headings_concat, introduced,
          List.append_assoc]
      · rw [entered_advance]
        exact headers_absorb headers owes

theorem Enters.steps (h : Enters filename start before x) (steps : Steps x y) :
    ∃ later, Enters filename start later y := by
  induction steps with
  | refl => exact ⟨before, h⟩
  | tail _ step ih =>
      obtain ⟨later, h⟩ := ih
      exact h.step step

theorem enters_atStart {t : Token} {strict : Bool}
    (found : (TokenStream.readFrom filename [] start).next.1.outcome = .ok t) :
    Enters filename start []
      ([.classDeclaration], atStart (.readFrom filename [] start) t strict filename) := by
  have none : (atStart (.readFrom filename [] start) t strict filename).entered = [] := by
    simp [entered, atStart, Event.entered?]
  refine ⟨passed_atStart found, accounts_initial strict, ⟨[], ?_, .nothing (by simp)⟩, ?_⟩
  all_goals
    rw [none]
    rfl

/-- A run that ends has entered what its tokens introduce. -/
theorem entered_of_run {t : Token} {strict : Bool} {e : Engine}
    (found : (TokenStream.readFrom filename [] start).next.1.outcome = .ok t)
    (ran : (atStart (.readFrom filename [] start) t strict filename).run [.classDeclaration] =
      (.ok (), e)) :
    ∃ before, e.cursor.Passed filename start before ∧
      e.entered.map Entered.heading = headings (before.map Token.lexeme) ∧
      e.code.filter Code.isHeader = e.entered.filterMap Entered.header? := by
  obtain ⟨before, passed, -, ⟨owed, introduced, owes⟩, headers⟩ :=
    (enters_atStart found).steps (steps_of_run ran)
  obtain rfl := owes.eq_nil
  rw [List.append_nil] at introduced
  exact ⟨before, passed, introduced.symm, headers⟩

/-- Before a goal that is not done nothing else is entered than what the tokens before introduce. -/
theorem entered_of_stops {t : Token} {strict : Bool} {events : List Event}
    (found : (TokenStream.readFrom filename [] start).next.1.outcome = .ok t)
    (stops : Stops ([.classDeclaration], atStart (.readFrom filename [] start) t strict filename)
      events) :
    ∃ before last, Cursor.Passed filename start before last ∧
      (events.reverse.filterMap Event.entered?).map Entered.heading <+:
        headings (before.map Token.lexeme) := by
  obtain @⟨goal, rest, last, chunks, steps, stays⟩ := stops
  obtain ⟨before, passed, accounts, ⟨owed, introduced, owes⟩, -⟩ :=
    (enters_atStart found).steps steps
  have none : (last.reaction goal).entered = [] := by
    cases moved : (last.reaction goal).move with
    | pop => exact absurd moved stays
    | shift next => exact (owes.shift accounts moved).1
    | fail fault => exact owes.fail moved
  refine ⟨before, last.cursor, passed, ?_⟩
  rw [← entered, entered_deliver, entered_absorb, none, List.append_nil, introduced]
  exact List.prefix_append _ _

end Engine

end Jack
