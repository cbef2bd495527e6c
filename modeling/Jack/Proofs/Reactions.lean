import Jack.Proofs.Driving

/-! # What reactions can do

What a goal does with the token in front, said once for all goals: which failure it can have and
what is to blame for it, which goals can take its place, what becomes of the scope, and what kind
of instruction is written. A goal that fails blames the token in front or the name that it was
given, which was the token before.
-/

namespace Jack

/-- Whether an instruction does not store into the constants. -/
def Code.Writable : Code → Prop
  | .pop segment _ => segment ≠ .constant
  | _ => True

namespace Goal

/-- The name that a goal can blame, and its place. -/
def name? : Goal → Option (String × Position)
  | .declare name position _ _ | .assignment name position | .afterName name position =>
    some (name, position)
  | _ => none

/-- Whether a goal can only be reached inside a subroutine. -/
def inside : Goal → Bool
  | .subroutineBody | .openBody => true
  | _ => false

/-- Whether a goal enters a subroutine. -/
def enters : Goal → Bool
  | .enterSubroutine _ _ => true
  | _ => false

/-- Whether a goal changes what is known of names. -/
def notes : Goal → Bool
  | .enterClass _ | .declare _ _ _ _ | .subroutines | .subroutine | .enterSubroutine _ _ => true
  | _ => false

/-- The instructions that a goal holds. -/
def held : Goal → List Code
  | .emit code => code
  | _ => []

/-- Whether the variable is declared that a goal reads on behind. -/
def Resolved (s : Scope) : Goal → Prop
  | .assignment name _ | .afterName name _ => (s.resolve? name).isSome
  | _ => True

/-- What a goal can fail for. -/
inductive Blames (t : Token) (s : Scope) : Goal → Fault → Prop where
  /-- The token in front cannot stand there. -/
  | expected {goal : Goal} (known : goal.Resolved s) (what : String) :
      Blames t s goal (.problem (.expected what t.described) t.position)
  | undefined {goal : Goal} {name : String} {position : Position}
      (named : goal.name? = some (name, position)) (unknown : ¬ goal.Resolved s) :
      Blames t s goal (.problem (.undefinedVariable name) position)
  | redefined {name type : String} {position : Position} {kind : VariableKind}
      (refused : s.refuses (Scope.levelOf kind) name) :
      Blames t s (.declare name position type kind) (.problem (.redefinedVariable name) position)
  | outside (none : s.subroutineKind = none) : Blames t s .openBody .noSubroutine

/-- Goals can be reached one after the other, from inside a subroutine or else from where goals
among them enter one first. -/
def Ready (entered : Prop) : List Goal → Prop
  | [] => True
  | goal :: rest => (goal.inside → entered) ∧ Ready (entered ∨ goal.enters) rest

/-- A goal that blames no name, can be reached anywhere and holds what can be written. -/
@[simp]
def Plain : Goal → Prop
  | .declare _ _ _ _ | .assignment _ _ | .afterName _ _ | .subroutineBody | .openBody => False
  | .emit code => ∀ i ∈ code, i.Writable
  | _ => True

/-- Goals take the place of one in front of a token. -/
structure Follow (t : Token) (goal : Goal) (next : List Goal) : Prop where
  /-- Only the first of them can blame a name, which is then the token. -/
  first : ∀ g ∈ next.head?, ∀ named ∈ g.name?, t.lexeme = .identifier named.1 ∧ named.2 = t.position
  others : ∀ g ∈ next.tail, g.name? = none
  ready : ∀ entered : Prop, (goal.inside → entered) → Ready entered next
  held : ∀ g ∈ next, ∀ i ∈ g.held, i.Writable

end Goal

/-- A reaction of a goal to the token in front of it. -/
structure Reaction.Sound (goal : Goal) (t : Token) (s : Scope) (r : Reaction) : Prop where
  blames : ∀ fault, r.move = .fail fault → goal.Blames t s fault
  follow : ∀ next, r.move = .shift next → goal.Follow t next
  written : (∀ i ∈ goal.held, i.Writable) → ∀ i ∈ r.code, i.Writable

namespace Goal

open Reaction

variable {goal : Goal} {t : Token} {s s' : Scope} {code : List Code} {next : List Goal}

section Templates

theorem writable_push (entry : SymbolEntry) : (Template.pushVariable entry).Writable := trivial

theorem writable_popVariable (entry : SymbolEntry) : (Template.popVariable entry).Writable := by
  obtain ⟨name, type, kind, index⟩ := entry
  cases kind <;> simp [Template.popVariable, VariableKind.segment, Code.Writable]

theorem writable_string (content : String) : ∀ i ∈ Template.string content, i.Writable := by
  intro i inside
  simp only [Template.string, List.mem_cons, List.mem_flatMap, List.not_mem_nil, or_false]
    at inside
  obtain rfl | rfl | ⟨c, -, rfl | rfl⟩ := inside
  all_goals trivial

theorem writable_constant (word : String) : ∀ i ∈ Template.constant word, i.Writable := by
  unfold Template.constant
  repeat' split
  all_goals simp [Code.Writable]

theorem writable_unary (op : UnaryOp) : (Template.unary op).Writable := by
  cases op <;> trivial

theorem writable_binary (op : BinaryOp) : (Template.binary op).Writable := by
  cases op <;> trivial

theorem writable_prologue (s : Scope) (kind : SubroutineKind) :
    ∀ i ∈ Template.prologue s kind, i.Writable := by
  cases kind <;> simp [Template.prologue, Code.Writable]

end Templates

theorem name?_of_plain (h : goal.Plain) : goal.name? = none := by
  cases goal <;> first | rfl | exact h.elim

theorem inside_of_plain (h : goal.Plain) : goal.inside = false := by
  cases goal <;> first | rfl | exact h.elim

theorem held_of_plain (h : goal.Plain) : ∀ i ∈ goal.held, i.Writable := by
  cases goal <;> first | exact h | exact List.forall_mem_nil _

theorem ready_of_plain {entered : Prop} (h : ∀ g ∈ next, g.Plain) : Ready entered next := by
  induction next generalizing entered with
  | nil => trivial
  | cons g next ih =>
      rw [List.forall_mem_cons] at h
      refine ⟨fun inside => ?_, ih h.2⟩
      rw [inside_of_plain h.1] at inside
      cases inside

theorem Ready.mono {entered later : Prop} (h : entered → later) (ready : Ready entered next) :
    Ready later next := by
  induction next generalizing entered later with
  | nil => trivial
  | cons g next ih => exact ⟨fun inside => h (ready.1 inside), ih (Or.imp_left h) ready.2⟩

theorem Ready.append {entered : Prop} {later : List Goal} (ready : Ready entered next)
    (ready' : Ready entered later) : Ready entered (next ++ later) := by
  induction next generalizing entered with
  | nil => exact ready'
  | cons g next ih => exact ⟨ready.1, ih ready.2 (ready'.mono Or.inl)⟩

theorem follow_of_plain (h : ∀ g ∈ next, g.Plain) : goal.Follow t next where
  first g inside named place := by
    rw [name?_of_plain (h g (List.mem_of_mem_head? inside))] at place
    cases place
  others g inside := name?_of_plain (h g (List.mem_of_mem_tail inside))
  ready _ _ := ready_of_plain h
  held g inside := held_of_plain (h g inside)

theorem Follow.append {later : List Goal} (follow : goal.Follow t next)
    (h : ∀ g ∈ later, g.Plain) : goal.Follow t (next ++ later) := by
  obtain ⟨first, others, ready, held⟩ := follow
  cases next with
  | nil => exact follow_of_plain h
  | cons g next =>
      refine ⟨first, ?_, fun entered inside => (ready entered inside).append (ready_of_plain h), ?_⟩
      · exact List.forall_mem_append.mpr ⟨others, fun g inside => name?_of_plain (h g inside)⟩
      · exact List.forall_mem_append.mpr ⟨held, fun g inside => held_of_plain (h g inside)⟩

/-- A single goal that names a variable at the token. -/
theorem follow_of_name {g : Goal} {name : String} (word : t.lexeme = .identifier name)
    (named : g.name? = some (name, t.position)) (outside : g.inside = false) (held : g.held = []) :
    goal.Follow t [g] := by
  refine ⟨?_, by simp, fun entered _ => ⟨by simp [outside], trivial⟩, by simp [held]⟩
  rintro g ⟨⟩ other inside
  rw [named] at inside
  cases inside
  exact ⟨word, rfl⟩

theorem sound_of_pop {r : Reaction} (moved : r.move = .pop)
    (written : (∀ i ∈ goal.held, i.Writable) → ∀ i ∈ r.code, i.Writable) : r.Sound goal t s :=
  ⟨fun _ h => (by rw [moved] at h; cases h), fun _ h => (by rw [moved] at h; cases h), written⟩

theorem sound_pop (written : ∀ i ∈ code, i.Writable) : (pop s' code).Sound goal t s :=
  sound_of_pop rfl fun _ => written

theorem sound_shift (written : ∀ i ∈ code, i.Writable) (follow : goal.Follow t next) :
    (shift s' code next).Sound goal t s := by
  refine ⟨fun _ h => (by cases h), fun _ h => ?_, fun _ => written⟩
  cases h
  exact follow

theorem sound_unexpected {what : String} (written : ∀ i ∈ code, i.Writable)
    (known : goal.Resolved s) : (unexpected s' code t what).Sound goal t s := by
  refine ⟨fun _ h => ?_, fun _ h => (by cases h), fun _ => written⟩
  cases h
  exact .expected known what

theorem sound_andThen {r : Reaction} {later : List Goal} (sound : r.Sound goal t s)
    (h : ∀ g ∈ later, g.Plain) : (r.andThen later).Sound goal t s := by
  obtain ⟨blames, follow, written⟩ := sound
  unfold andThen
  split
  · next next moved =>
    refine ⟨fun _ failed => (by cases failed), fun _ shifted => ?_, written⟩
    cases shifted
    exact (follow next moved).append h
  · exact ⟨blames, follow, written⟩

theorem sound_word {word : Keyword} (known : goal.Resolved s) (written : ∀ i ∈ code, i.Writable)
    (follow : goal.Follow t next) : (reactWord word t s' code next).Sound goal t s := by
  unfold reactWord
  split
  · exact sound_shift written follow
  · exact sound_unexpected written known

theorem sound_symbol {mark : Symbol} (known : goal.Resolved s) (written : ∀ i ∈ code, i.Writable)
    (follow : goal.Follow t next) : (reactSymbol mark t s' code next).Sound goal t s := by
  unfold reactSymbol
  split
  · exact sound_shift written follow
  · exact sound_unexpected written known

theorem sound_name {next : String → List Goal} (known : goal.Resolved s)
    (follow : ∀ name, t.lexeme = .identifier name → goal.Follow t (next name)) :
    (reactName t s' next).Sound goal t s := by
  unfold reactName
  split
  · next word => exact sound_shift (by simp) (follow _ word)
  · exact sound_unexpected (by simp) known

theorem sound_type {next : String → List Goal} (known : goal.Resolved s)
    (follow : ∀ name, goal.Follow t (next name)) : (reactType t s' next).Sound goal t s := by
  unfold reactType
  split
  · exact sound_shift (by simp) (follow _)
  · exact sound_unexpected (by simp) known

theorem sound_variable {name : String} {position : Position} {react : SymbolEntry → Reaction}
    (named : goal.name? = some (name, position))
    (resolved : goal.Resolved s ↔ (s.resolve? name).isSome)
    (sound : ∀ entry, goal.Resolved s → (react entry).Sound goal t s) :
    (withVariable name position s react).Sound goal t s := by
  unfold withVariable
  split
  · next entry found => exact sound entry (resolved.mpr (by simp [found]))
  · next unknown =>
    refine ⟨fun _ h => ?_, fun _ h => (by cases h), by simp [fail]⟩
    cases h
    exact .undefined named (by simp [resolved, unknown])

theorem sound_term (known : goal.Resolved s) : (reactTerm t s').Sound goal t s := by
  unfold reactTerm
  split
  · exact sound_shift (by simp) (follow_of_plain (by simp [Code.Writable]))
  · exact sound_shift (by simp) (follow_of_plain (by simpa using writable_string _))
  · split
    · exact sound_shift (by simp) (follow_of_plain (by simpa using writable_constant _))
    · exact sound_unexpected (by simp) known
  · exact sound_shift (by simp) (follow_of_plain (by simp))
  · split
    · exact sound_shift (by simp) (follow_of_plain (by simp [writable_unary]))
    · exact sound_unexpected (by simp) known
  · next word => exact sound_shift (by simp) (follow_of_name word rfl rfl rfl)
  · exact sound_unexpected (by simp) known

theorem sound_expression (known : goal.Resolved s) : (reactExpression t s').Sound goal t s :=
  sound_andThen (sound_term known) (by simp)

theorem sound_operators : (reactOperators t s').Sound goal t s := by
  unfold reactOperators
  split
  · split
    · exact sound_shift (by simp) (follow_of_plain (by simp [writable_binary]))
    · exact sound_pop (by simp)
  · exact sound_pop (by simp)

theorem sound_callTail (name : String) (known : goal.Resolved s) :
    (reactCallTail name t s').Sound goal t s := by
  unfold reactCallTail
  split
  · exact sound_shift (by simp) (follow_of_plain (by simp))
  · exact sound_symbol known (by simp [Code.Writable]) (follow_of_plain (by simp))

theorem sound_qualifiedCall (qualifier method : String) (known : goal.Resolved s) :
    (reactQualifiedCall qualifier method t s').Sound goal t s := by
  unfold reactQualifiedCall
  split
  · exact sound_symbol known (by simp [writable_push]) (follow_of_plain (by simp))
  · exact sound_symbol known (by simp) (follow_of_plain (by simp))

theorem sound_afterName (name : String) (position : Position) :
    (reactAfterName name position t s).Sound (.afterName name position) t s := by
  unfold reactAfterName
  split
  · refine sound_variable rfl .rfl fun entry _ => ?_
    exact sound_shift (by simp [writable_push])
      (follow_of_plain (by simp [Template.readElement, Code.Writable]))
  · next opened =>
    rw [reactCallTail, if_neg (by simp [opened]), reactSymbol, if_pos opened]
    exact sound_shift (by simp [Code.Writable]) (follow_of_plain (by simp))
  · next dotted =>
    rw [reactCallTail, if_pos dotted]
    exact sound_shift (by simp) (follow_of_plain (by simp))
  · exact sound_variable rfl .rfl fun entry _ => sound_pop (by simp [writable_push])

theorem sound_assignment (name : String) (position : Position) :
    (reactAssignment name position t s).Sound (.assignment name position) t s := by
  refine sound_variable rfl .rfl fun entry known => ?_
  split
  · exact sound_shift (by simp [writable_push])
      (follow_of_plain (by simp [Template.writeElement, Code.Writable]))
  · exact sound_symbol known (by simp) (follow_of_plain (by simp [writable_popVariable]))

theorem sound_arguments (callee : String) (count : Nat) (known : goal.Resolved s) :
    (reactArguments callee count t s').Sound goal t s := by
  unfold reactArguments
  split
  · exact sound_shift (by simp) (follow_of_plain (by simp [Code.Writable]))
  · exact sound_andThen (sound_expression known) (by simp)

theorem sound_moreArguments (callee : String) (count : Nat) (known : goal.Resolved s) :
    (reactMoreArguments callee count t s').Sound goal t s := by
  unfold reactMoreArguments
  split
  · exact sound_shift (by simp) (follow_of_plain (by simp))
  · exact sound_symbol known (by simp) (follow_of_plain (by simp [Code.Writable]))

theorem sound_declare (name type : String) (position : Position) (kind : VariableKind) :
    (reactDeclare name position type kind s).Sound (.declare name position type kind) t s := by
  unfold reactDeclare
  dsimp only
  split
  · next refused =>
    refine ⟨fun _ h => ?_, fun _ h => (by cases h), by simp [fail]⟩
    cases h
    exact .redefined refused
  · exact sound_pop (by simp)

theorem sound_openBody : (reactOpenBody s).Sound .openBody t s := by
  unfold reactOpenBody
  dsimp only
  split
  · next none =>
    refine ⟨fun _ h => ?_, fun _ h => (by cases h), by simp [fail, Template.header, Code.Writable]⟩
    cases h
    exact .outside none
  · next kind _ =>
    exact sound_of_pop rfl fun _ => List.forall_mem_cons.mpr ⟨trivial, writable_prologue s kind⟩

theorem sound_statement {r : Reaction} (known : goal.Resolved s)
    (h : reactStatement? t s' = some r) : r.Sound goal t s := by
  unfold reactStatement? at h
  split at h
  case h_6 => cases h
  all_goals
    cases h
    exact sound_word known (by simp [Code.Writable]) (follow_of_plain (by simp [Code.Writable]))

theorem plain_classVariableAfter? (h : classVariableAfter? t = some next) :
    ∀ g ∈ next, g.Plain := by
  unfold classVariableAfter? at h
  split at h
  · obtain ⟨kind, -, rfl⟩ := Option.map_eq_some_iff.mp h
    simp
  · cases h

theorem plain_subroutineAfter? (h : subroutineAfter? t = some next) : ∀ g ∈ next, g.Plain := by
  unfold subroutineAfter? at h
  split at h
  · obtain ⟨kind, -, rfl⟩ := Option.map_eq_some_iff.mp h
    simp
  · cases h

/-- What goals do is sound. -/
theorem sound_react (goal : Goal) (t : Token) (s : Scope) : (goal.react t s).Sound goal t s := by
  cases goal with
  | classDeclaration | localVariable | letStatement | doStatement | returnStatement =>
      exact sound_word trivial (by simp) (follow_of_plain (by simp [Code.Writable]))
  | ifStatement | whileStatement =>
      exact sound_word trivial (by simp [Code.Writable]) (follow_of_plain (by simp [Code.Writable]))
  | className | call | methodName => exact sound_name trivial fun _ _ => follow_of_plain (by simp)
  | variableName | letTarget =>
      exact sound_name trivial fun _ word => follow_of_name word rfl rfl rfl
  | variableType | parameterType => exact sound_type trivial fun _ => follow_of_plain (by simp)
  | subroutineName =>
      refine sound_name trivial fun _ _ => ?_
      constructor <;> simp [name?, Ready, inside, enters, held]
  | symbol => exact sound_symbol trivial (by simp) (follow_of_plain (by simp))
  | subroutineBody =>
      refine sound_symbol trivial (by simp) ?_
      constructor <;> simp [name?, Ready, inside, enters, held]
  | declare name position type kind => exact sound_declare name type position kind
  | openBody => exact sound_openBody
  | assignment name position => exact sound_assignment name position
  | expression => exact sound_expression trivial
  | operators => exact sound_operators
  | term => exact sound_term trivial
  | afterName name position => exact sound_afterName name position
  | callTail name => exact sound_callTail name trivial
  | qualifiedCall qualifier method => exact sound_qualifiedCall qualifier method trivial
  | arguments callee count => exact sound_arguments callee count trivial
  | moreArguments callee count => exact sound_moreArguments callee count trivial
  | emit code => exact sound_of_pop rfl fun held => held
  | enterClass name => exact sound_of_pop rfl (by simp [react])
  | enterSubroutine name kind => exact sound_pop (by simp)
  | classVariables =>
      rw [react]
      split
      · next next found =>
        have plain := plain_classVariableAfter? found
        exact sound_shift (by simp) ((follow_of_plain plain).append (by simp))
      · exact sound_pop (by simp)
  | classVariable =>
      rw [react]
      split
      · next next found =>
        exact sound_shift (by simp) (follow_of_plain (plain_classVariableAfter? found))
      · exact sound_unexpected (by simp) trivial
  | subroutines =>
      rw [react]
      split
      · next next found =>
        have plain := plain_subroutineAfter? found
        exact sound_shift (by simp) ((follow_of_plain plain).append (by simp))
      · exact sound_pop (by simp)
  | subroutine =>
      rw [react]
      split
      · next next found =>
        exact sound_shift (by simp) (follow_of_plain (plain_subroutineAfter? found))
      · exact sound_unexpected (by simp) trivial
  | resultType kind =>
      rw [react]
      split
      · exact sound_shift (by simp) (follow_of_plain (by simp))
      · exact sound_unexpected (by simp) trivial
  | parameterList | moreParameters | localVariables =>
      rw [react]
      split
      · exact sound_shift (by simp) (follow_of_plain (by simp))
      · exact sound_pop (by simp)
  | moreVariables type kind =>
      rw [react]
      split
      · exact sound_shift (by simp) (follow_of_plain (by simp))
      · exact sound_symbol trivial (by simp) (follow_of_plain (by simp))
  | statements =>
      rw [react]
      split
      · next r found => exact sound_andThen (sound_statement trivial found) (by simp)
      · exact sound_pop (by simp)
  | elseBranch id =>
      rw [react]
      split
      · exact sound_shift (by simp) (follow_of_plain (by simp [Code.Writable]))
      · exact sound_pop (by simp [Code.Writable])
  | returnValue =>
      rw [react]
      split
      · exact sound_shift (by simp [Code.Writable]) (follow_of_plain (by simp [Code.Writable]))
      · exact sound_andThen (sound_expression trivial) (by simp [Code.Writable])
  | expressionList =>
      rw [react]
      split
      · exact sound_of_pop rfl (by simp)
      · exact sound_andThen (sound_expression trivial) (by simp)
  | moreExpressions count =>
      rw [react]
      split
      · exact sound_shift (by simp) (follow_of_plain (by simp))
      · exact sound_of_pop rfl (by simp)
  | endOfInput =>
      rw [react]
      split
      · exact sound_pop (by simp)
      · exact sound_unexpected (by simp) trivial

end Goal

/-! ### Scopes -/

/-- What a reaction can make of a scope. -/
inductive Scope.Turns (s : Scope) : Scope → Prop where
  | same : s.Turns s
  | renames (name : String) : s.Turns { s with className := name }
  | declares (level : Scope.Level) (name type : String) (kind : VariableKind) :
      s.Turns (s.define level name type kind)
  | leaves : s.Turns s.leaveSubroutine
  | enters (name : String) (kind : SubroutineKind) : s.Turns (s.enterSubroutine name kind)
  | counts (branches loops : Nat) : s.Turns { s with branches, loops }

theorem Scope.isSome_subroutineKind_enterSubroutine (s : Scope) (name : String)
    (kind : SubroutineKind) : (s.enterSubroutine name kind).subroutineKind.isSome := by
  cases kind <;> rfl

/-- Who is inside a subroutine stays inside of one. -/
theorem Scope.Turns.isSome_subroutineKind {s s' : Scope} (h : s.Turns s')
    (known : s.subroutineKind.isSome) : s'.subroutineKind.isSome := by
  cases h with
  | same | renames | leaves | counts => exact known
  | declares level => cases level <;> exact known
  | enters name kind => exact s.isSome_subroutineKind_enterSubroutine name kind

namespace Goal

theorem counts_reactStatement? {t : Token} {s : Scope} {r : Reaction}
    (h : reactStatement? t s = some r) :
    ∃ branches loops, r.scope = { s with branches, loops } := by
  unfold reactStatement? at h
  split at h
  case h_6 => cases h
  all_goals
    cases h
    simp only [reactLet, reactIf, reactWhile, reactDo, reactReturn, reactWord]
    split
    all_goals exact ⟨_, _, rfl⟩

/-- Most goals do no more to a scope than to count branches and loops. -/
theorem counts_react {goal : Goal} (h : goal.notes = false) (t : Token) (s : Scope) :
    ∃ branches loops, (goal.react t s).scope = { s with branches, loops } := by
  cases goal
  case enterClass | declare | subroutines | subroutine | enterSubroutine => cases h
  case ifStatement | whileStatement =>
    simp only [react, reactIf, reactWhile, reactWord]
    split
    all_goals exact ⟨_, _, rfl⟩
  case statements =>
    rw [react]
    split
    · next found =>
      rw [Reaction.scope_andThen]
      exact counts_reactStatement? found
    · exact ⟨_, _, rfl⟩
  all_goals
    simp only [react, reactWord, reactSymbol, reactName, reactType, reactOpenBody, reactLet,
      reactDo, reactReturn, reactExpression, reactOperators, reactTerm, reactCallTail,
      reactQualifiedCall, reactAfterName, reactAssignment, reactArguments, reactMoreArguments,
      withVariable, Reaction.scope_andThen]
    repeat' split
    all_goals exact ⟨_, _, rfl⟩

theorem turns_react (goal : Goal) (t : Token) (s : Scope) : s.Turns (goal.react t s).scope := by
  cases notes : goal.notes with
  | false =>
      obtain ⟨branches, loops, same⟩ := counts_react notes t s
      rw [same]
      exact .counts branches loops
  | true =>
      cases goal
      case enterClass name => exact .renames name
      case enterSubroutine name kind => exact .enters name kind
      case declare name position type kind =>
        simp only [react, reactDeclare]
        split
        · exact .same
        · exact .declares (Scope.levelOf kind) name type kind
      case subroutines | subroutine =>
        simp only [react]
        split
        all_goals first | exact .leaves | exact .same
      all_goals cases notes

theorem isSome_subroutineKind_react (goal : Goal) (t : Token) (s : Scope)
    (h : s.subroutineKind.isSome ∨ goal.enters) :
    (goal.react t s).scope.subroutineKind.isSome := by
  obtain known | enters := h
  · exact (turns_react goal t s).isSome_subroutineKind known
  · cases goal
    case enterSubroutine name kind => exact s.isSome_subroutineKind_enterSubroutine name kind
    all_goals cases enters

end Goal

end Jack
