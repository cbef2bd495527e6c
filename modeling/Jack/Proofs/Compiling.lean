import Jack.Proofs.Driving
import Jack.Proofs.Generation

/-! # Compiling a tree

Driving goals along the row of a tree writes the code of the tree. There is one equation
for each construct, and the equation of a whole is put together from those of its parts:
one token of lookahead tells which part is next, because of what can stand behind each.
-/

namespace Jack

open Jack.Tree

/-- What the names of a scope stand for. -/
def Scope.frame (s : Scope) : Frame :=
  ⟨s.className, s.classTable, s.subroutineTable⟩

/-- Whether an expression can start with a lexeme. -/
def Starts (l : Lexeme) : Prop :=
  ∀ mark, l = .symbol mark → mark = .openParen ∨ ∃ op : UnaryOp, mark = op.symbol

theorem Tree.Term.starts (t : Term) : ∃ l row, t.lexemes = l :: row ∧ Starts l := by
  cases t with
  | integer digits value => exact ⟨_, _, rfl, fun _ h => by cases h⟩
  | string content => exact ⟨_, _, rfl, fun _ h => by cases h⟩
  | constant word => exact ⟨_, _, rfl, fun _ h => by cases h⟩
  | var name => exact ⟨_, _, rfl, fun _ h => by cases h⟩
  | element base index => exact ⟨_, _, rfl, fun _ h => by cases h⟩
  | call call =>
      cases call with
      | own name arguments => exact ⟨_, _, rfl, fun _ h => by cases h⟩
      | qualified qualifier name arguments => exact ⟨_, _, rfl, fun _ h => by cases h⟩
  | group inner => exact ⟨_, _, rfl, fun _ h => by cases h; exact .inl rfl⟩
  | unary op operand => exact ⟨_, _, rfl, fun _ h => by cases h; exact .inr ⟨op, rfl⟩⟩

theorem Tree.Expression.starts (e : Expression) : ∃ l row, e.lexemes = l :: row ∧ Starts l := by
  obtain ⟨first, rest⟩ := e
  obtain ⟨l, row, whole, starts⟩ := first.starts
  exact ⟨l, row ++ rest.lexemes, by rw [Expression.lexemes, whole, List.cons_append], starts⟩

theorem Starts.ne {l : Lexeme} {mark : Symbol} (h : Starts l) (paren : mark ≠ .openParen)
    (unary : UnaryOp.ofSymbol? mark = none) : l ≠ .symbol mark := by
  rintro rfl
  rcases h mark rfl with rfl | ⟨op, rfl⟩
  · exact paren rfl
  · rw [UnaryOp.ofSymbol?_eq_some_iff.mpr rfl] at unary
    cases unary

/-! ### Single goals -/

section Goals

variable {goals : List Goal} {s : Scope} {l : Lexeme} {row : List Lexeme}

@[simp] theorem drive_symbol (mark : Symbol) :
    drive (.symbol mark :: goals) s (.symbol mark :: row) = drive goals s row := by
  have effect : (Goal.symbol mark).effect? (.symbol mark) s = some ⟨s, [], some []⟩ := by
    simp [Goal.effect?, Goal.react, Goal.reactSymbol, Reaction.shift, Reaction.effect?]
  rw [drive_of_pass effect, writing_nil, List.nil_append]

@[simp] theorem drive_emit (code : List Code) :
    drive (.emit code :: goals) s (l :: row) = writing code (drive goals s (l :: row)) :=
  drive_of_stay rfl

/-- A goal that does what another one does, and has more goals after it, can be put as both. -/
theorem drive_of_andThen {goal first : Goal} (later : List Goal)
    (same : goal.effect? l s = (first.effect? l s).map fun e =>
      { e with next := e.next.map (· ++ later) })
    (passes : ∀ e, first.effect? l s = some e → e.next.isSome) :
    drive (goal :: goals) s (l :: row) = drive (first :: (later ++ goals)) s (l :: row) := by
  rcases found : first.effect? l s with _ | ⟨s', code, _ | next⟩
  · rw [found] at same
    rw [drive_of_none found, drive_of_none same]
  · cases passes _ found
  · rw [found] at same
    rw [drive_of_pass found, drive_of_pass same, List.append_assoc]

theorem isSome_next_term {e : Effect} (h : Goal.term.effect? l s = some e) : e.next.isSome := by
  simp only [Goal.effect?, Goal.react, Goal.reactTerm] at h
  repeat' split at h
  all_goals cases h
  all_goals rfl

theorem isSome_next_andThen {r : Reaction} {later : List Goal} {e : Effect}
    (h : (r.andThen later).effect? = some e)
    (passes : ∀ e, r.effect? = some e → e.next.isSome) : e.next.isSome := by
  rw [Reaction.effect?_andThen] at h
  obtain ⟨first, found, rfl⟩ := Option.map_eq_some_iff.mp h
  simpa using passes first found

theorem isSome_next_expression {e : Effect} (h : Goal.expression.effect? l s = some e) :
    e.next.isSome :=
  isSome_next_andThen h fun _ => isSome_next_term

/-- An expression is a term and what may follow it. -/
theorem drive_expression :
    drive (.expression :: goals) s row = drive (.term :: .operators :: goals) s row := by
  cases row with
  | nil => rw [drive, drive]
  | cons l row =>
      exact drive_of_andThen [.operators] (Reaction.effect?_andThen _ _) fun _ => isSome_next_term

theorem drive_arguments (callee : String) (count : Nat) (first : Expression) :
    drive (.arguments callee count :: goals) s (first.lexemes ++ row) =
      drive (.expression :: .moreArguments callee (count + 1) :: goals) s
        (first.lexemes ++ row) := by
  obtain ⟨l, tail, whole, starts⟩ := first.starts
  have h : l ≠ .symbol .closeParen := starts.ne (by decide) rfl
  rw [whole, List.cons_append]
  refine drive_of_andThen [.moreArguments callee (count + 1)] ?_ fun _ => isSome_next_expression
  rw [Goal.effect?, Goal.react, Goal.reactArguments, if_neg h]
  exact Reaction.effect?_andThen _ _

theorem drive_returnValue (value : Expression) :
    drive (.returnValue :: goals) s (value.lexemes ++ row) =
      drive (.expression :: .symbol .semicolon :: .emit [.ret] :: goals) s
        (value.lexemes ++ row) := by
  obtain ⟨l, tail, whole, starts⟩ := value.starts
  have h : l ≠ .symbol .semicolon := starts.ne (by decide) rfl
  rw [whole, List.cons_append]
  refine drive_of_andThen [.symbol .semicolon, .emit [.ret]] ?_ fun _ => isSome_next_expression
  rw [Goal.effect?, Goal.react, if_neg h]
  exact Reaction.effect?_andThen _ _

/-! ### What stands behind a term -/

/-- Whether a lexeme can stand right behind an expression. -/
def Closes (l : Lexeme) : Prop :=
  l = .symbol .closeBracket ∨ l = .symbol .closeParen ∨ l = .symbol .semicolon ∨ l = .symbol .comma

/-- Whether a lexeme can stand right behind a term. -/
def Follows (l : Lexeme) : Prop :=
  Closes l ∨ ∃ op : BinaryOp, l = .symbol op.symbol

theorem drive_operators_end (h : Closes l) :
    drive (.operators :: goals) s (l :: row) = drive goals s (l :: row) := by
  have effect : Goal.operators.effect? l s = some ⟨s, [], none⟩ := by
    rcases h with rfl | rfl | rfl | rfl <;> rfl
  rw [drive_of_stay effect, writing_nil]

theorem drive_operator (op : BinaryOp) :
    drive (.operators :: goals) s (.symbol op.symbol :: row) =
      drive (.term :: .emit [binaryCode op] :: .operators :: goals) s row := by
  have effect : Goal.operators.effect? (.symbol op.symbol) s =
      some ⟨s, [], some [.term, .emit [binaryCode op], .operators]⟩ := by
    cases op <;> rfl
  rw [drive_of_pass effect, writing_nil]
  rfl

theorem drive_constant {first : Lexeme} {code : List Code}
    (h : Goal.term.effect? first s = some ⟨s, [], some [.emit code]⟩) :
    drive (.term :: goals) s (first :: l :: row) = writing code (drive goals s (l :: row)) := by
  rw [drive_of_pass h, writing_nil]
  exact drive_emit code

theorem drive_name (name : String) :
    drive (.term :: goals) s (.identifier name :: row) =
      drive (.afterName name .start :: goals) s row := by
  have effect : Goal.term.effect? (.identifier name) s =
      some ⟨s, [], some [.afterName name .start]⟩ := rfl
  rw [drive_of_pass effect, writing_nil]
  rfl

theorem drive_variable {name : String} {entry : SymbolEntry} (h : s.resolve? name = some entry)
    (follows : Follows l) :
    drive (.afterName name .start :: goals) s (l :: row) =
      writing [Template.pushVariable entry] (drive goals s (l :: row)) := by
  have effect : (Goal.afterName name .start).effect? l s =
      some ⟨s, [Template.pushVariable entry], none⟩ := by
    simp only [Goal.effect?, Goal.react, Goal.reactAfterName, Goal.withVariable, h]
    rcases follows with (rfl | rfl | rfl | rfl) | ⟨op, rfl⟩
    · rfl
    · rfl
    · rfl
    · rfl
    · cases op <;> rfl
  exact drive_of_stay effect

theorem drive_element {name : String} {entry : SymbolEntry} (h : s.resolve? name = some entry) :
    drive (.afterName name .start :: goals) s (.symbol .openBracket :: row) =
      writing [Template.pushVariable entry]
        (drive (.expression :: .symbol .closeBracket :: .emit Template.readElement :: goals)
          s row) := by
  have effect : (Goal.afterName name .start).effect? (.symbol .openBracket) s =
      some ⟨s, [Template.pushVariable entry],
        some [.expression, .symbol .closeBracket, .emit Template.readElement]⟩ := by
    simp only [Goal.effect?, Goal.react, Goal.reactAfterName, Goal.withVariable, h]
    rfl
  exact drive_of_pass effect

theorem drive_group :
    drive (.term :: goals) s (.symbol .openParen :: row) =
      drive (.expression :: .symbol .closeParen :: goals) s row := by
  have effect : Goal.term.effect? (.symbol .openParen) s =
      some ⟨s, [], some [.expression, .symbol .closeParen]⟩ := rfl
  rw [drive_of_pass effect, writing_nil]
  rfl

theorem drive_unary (op : UnaryOp) :
    drive (.term :: goals) s (.symbol op.symbol :: row) =
      drive (.term :: .emit [unaryCode op] :: goals) s row := by
  have effect : Goal.term.effect? (.symbol op.symbol) s =
      some ⟨s, [], some [.term, .emit [unaryCode op]]⟩ := by
    cases op <;> rfl
  rw [drive_of_pass effect, writing_nil]
  rfl

theorem drive_own_call (name : String) :
    drive (.callTail name :: goals) s (.symbol .openParen :: row) =
      writing [.push .pointer 0]
        (drive (.arguments (s.className ++ "." ++ name) 1 :: goals) s row) := by
  have effect : (Goal.callTail name).effect? (.symbol .openParen) s =
      some ⟨s, [.push .pointer 0], some [.arguments (s.className ++ "." ++ name) 1]⟩ := rfl
  exact drive_of_pass effect

theorem drive_qualifier (qualifier name : String) :
    drive (.callTail qualifier :: goals) s (.symbol .dot :: .identifier name :: row) =
      drive (.qualifiedCall qualifier name :: goals) s row := by
  have effect : (Goal.callTail qualifier).effect? (.symbol .dot) s =
      some ⟨s, [], some [.methodName qualifier]⟩ := rfl
  have effect' : (Goal.methodName qualifier).effect? (.identifier name) s =
      some ⟨s, [], some [.qualifiedCall qualifier name]⟩ := rfl
  rw [drive_of_pass effect, writing_nil, List.singleton_append, drive_of_pass effect', writing_nil]
  rfl

theorem drive_call_on_variable {qualifier name : String} {receiver : SymbolEntry}
    (h : s.resolve? qualifier = some receiver) :
    drive (.qualifiedCall qualifier name :: goals) s (.symbol .openParen :: row) =
      writing [Template.pushVariable receiver]
        (drive (.arguments (receiver.type ++ "." ++ name) 1 :: goals) s row) := by
  have effect : (Goal.qualifiedCall qualifier name).effect? (.symbol .openParen) s =
      some ⟨s, [Template.pushVariable receiver],
        some [.arguments (receiver.type ++ "." ++ name) 1]⟩ := by
    simp only [Goal.effect?, Goal.react, Goal.reactQualifiedCall, h]
    rfl
  exact drive_of_pass effect

theorem drive_call_in_class {qualifier name : String} (h : s.resolve? qualifier = none) :
    drive (.qualifiedCall qualifier name :: goals) s (.symbol .openParen :: row) =
      drive (.arguments (qualifier ++ "." ++ name) 0 :: goals) s row := by
  have effect : (Goal.qualifiedCall qualifier name).effect? (.symbol .openParen) s =
      some ⟨s, [], some [.arguments (qualifier ++ "." ++ name) 0]⟩ := by
    simp only [Goal.effect?, Goal.react, Goal.reactQualifiedCall, h]
    rfl
  rw [drive_of_pass effect, writing_nil]
  rfl

/-- Behind a name that starts a call, a term goes on as the call does. -/
theorem drive_afterName_call {name : String} (h : l = .symbol .openParen ∨ l = .symbol .dot) :
    drive (.afterName name .start :: goals) s (l :: row) =
      drive (.callTail name :: goals) s (l :: row) := by
  have same : (Goal.afterName name .start).effect? l s = (Goal.callTail name).effect? l s := by
    rcases h with rfl | rfl <;> rfl
  rcases found : (Goal.callTail name).effect? l s with _ | ⟨s', code, _ | next⟩
  · rw [drive_of_none found, drive_of_none (same.trans found)]
  · rw [drive_of_stay found, drive_of_stay (same.trans found)]
  · rw [drive_of_pass found, drive_of_pass (same.trans found)]

theorem drive_arguments_end (callee : String) (count : Nat) :
    drive (.arguments callee count :: goals) s (.symbol .closeParen :: l :: row) =
      writing [.call callee count] (drive goals s (l :: row)) := by
  have effect : (Goal.arguments callee count).effect? (.symbol .closeParen) s =
      some ⟨s, [], some [.emit [.call callee count]]⟩ := rfl
  rw [drive_of_pass effect, writing_nil]
  exact drive_emit _

theorem drive_moreArguments_end (callee : String) (count : Nat) :
    drive (.moreArguments callee count :: goals) s (.symbol .closeParen :: l :: row) =
      writing [.call callee count] (drive goals s (l :: row)) := by
  have effect : (Goal.moreArguments callee count).effect? (.symbol .closeParen) s =
      some ⟨s, [], some [.emit [.call callee count]]⟩ := rfl
  rw [drive_of_pass effect, writing_nil]
  exact drive_emit _

theorem drive_moreArguments (callee : String) (count : Nat) :
    drive (.moreArguments callee count :: goals) s (.symbol .comma :: row) =
      drive (.expression :: .moreArguments callee (count + 1) :: goals) s row := by
  have effect : (Goal.moreArguments callee count).effect? (.symbol .comma) s =
      some ⟨s, [], some [.expression, .moreArguments callee (count + 1)]⟩ := rfl
  rw [drive_of_pass effect, writing_nil]
  rfl

end Goals

/-! ### Expressions -/

theorem Tree.Frame.Resolves.left {f : Frame} {names more : List String}
    (h : f.Resolves (names ++ more)) : f.Resolves names :=
  fun name inside => h name (List.mem_append_left more inside)

theorem Tree.Frame.Resolves.right {f : Frame} {names more : List String}
    (h : f.Resolves (names ++ more)) : f.Resolves more :=
  fun name inside => h name (List.mem_append_right names inside)

theorem Tree.Frame.Resolves.head {f : Frame} {name : String} {more : List String}
    (h : f.Resolves (name :: more)) : ∃ entry, f.resolve? name = some entry :=
  Option.isSome_iff_exists.mp (h name (List.mem_cons_self ..))

theorem Tree.Frame.Resolves.tail {f : Frame} {name : String} {more : List String}
    (h : f.Resolves (name :: more)) : f.Resolves more :=
  fun other inside => h other (List.mem_cons_of_mem name inside)

namespace Tree

/-- The name that a call starts with. -/
def Call.first : Call → String
  | .own name _ => name
  | .qualified qualifier _ _ => qualifier

/-- The row of a call behind its first name. -/
def Call.tail : Call → List Lexeme
  | .own _ arguments => .symbol .openParen :: (arguments.lexemes ++ [.symbol .closeParen])
  | .qualified _ name arguments =>
    .symbol .dot :: .identifier name :: .symbol .openParen ::
      (arguments.lexemes ++ [.symbol .closeParen])

theorem Call.lexemes_eq (call : Call) : call.lexemes = .identifier call.first :: call.tail := by
  cases call <;> rfl

theorem Call.opens (call : Call) :
    ∃ l row, call.tail = l :: row ∧ (l = .symbol .openParen ∨ l = .symbol .dot) := by
  cases call with
  | own name arguments => exact ⟨_, _, rfl, .inl rfl⟩
  | qualified qualifier name arguments => exact ⟨_, _, rfl, .inr rfl⟩

theorem Operations.follows (rest : Operations) {l : Lexeme} (closes : Closes l)
    (row : List Lexeme) : ∃ l' row', rest.lexemes ++ l :: row = l' :: row' ∧ Follows l' := by
  cases rest with
  | nil => exact ⟨_, _, rfl, .inl closes⟩
  | cons op operand rest => exact ⟨_, _, rfl, .inr ⟨op, rfl⟩⟩

theorem Arguments.closes (arguments : Arguments) (row : List Lexeme) :
    ∃ l row', arguments.moreLexemes ++ .symbol .closeParen :: row = l :: row' ∧ Closes l := by
  cases arguments with
  | nil => exact ⟨_, _, rfl, .inr (.inl rfl)⟩
  | cons first rest => exact ⟨_, _, rfl, .inr (.inr (.inr rfl))⟩

end Tree

section Expressions

variable {s : Scope}

mutual

theorem drive_term (t : Term) (h : s.frame.Resolves t.uses) {goals : List Goal} {l : Lexeme}
    {row : List Lexeme} (follows : Follows l) :
    drive (.term :: goals) s (t.lexemes ++ l :: row) =
      writing (t.code s.frame) (drive goals s (l :: row)) := by
  cases t with
  | integer digits value => exact drive_constant rfl
  | string content => exact drive_constant rfl
  | constant word => cases word <;> exact drive_constant rfl
  | var name =>
      obtain ⟨entry, found⟩ := h.head
      rw [Term.lexemes, List.singleton_append, drive_name, drive_variable found follows,
        Term.code, Frame.push, found]
      rfl
  | element base index =>
      obtain ⟨entry, found⟩ := h.head
      rw [Term.lexemes, List.cons_append, drive_name, List.cons_append, drive_element found,
        List.append_assoc, List.singleton_append, drive_expr index h.tail (.inl rfl)]
      simp [Term.code, Frame.push, found, Template.pushVariable, Template.readElement]
  | call call =>
      obtain ⟨next, tail, whole, opens⟩ := call.opens
      rw [Term.lexemes, call.lexemes_eq, List.cons_append, drive_name, whole, List.cons_append,
        drive_afterName_call opens, ← List.cons_append, ← whole, drive_call call h]
      rfl
  | group inner =>
      rw [Term.lexemes, List.cons_append, drive_group, List.append_assoc, List.singleton_append,
        drive_expr inner h (.inr (.inl rfl)), drive_symbol]
      rfl
  | unary op operand =>
      rw [Term.lexemes, List.cons_append, drive_unary, drive_term operand h follows]
      simp [Term.code]
termination_by structural t

theorem drive_expr (e : Expression) (h : s.frame.Resolves e.uses) {goals : List Goal} {l : Lexeme}
    {row : List Lexeme} (closes : Closes l) :
    drive (.expression :: goals) s (e.lexemes ++ l :: row) =
      writing (e.code s.frame) (drive goals s (l :: row)) := by
  cases e with
  | of first rest =>
      obtain ⟨next, tail, whole, follows⟩ := rest.follows closes row
      rw [Expression.lexemes, List.append_assoc, drive_expression, whole,
        drive_term first h.left follows, ← whole, drive_rest rest h.right closes, writing_writing]
      rfl
termination_by structural e

theorem drive_rest (rest : Operations) (h : s.frame.Resolves rest.uses) {goals : List Goal}
    {l : Lexeme} {row : List Lexeme} (closes : Closes l) :
    drive (.operators :: goals) s (rest.lexemes ++ l :: row) =
      writing (rest.code s.frame) (drive goals s (l :: row)) := by
  cases rest with
  | nil => exact (drive_operators_end closes).trans (writing_nil _).symm
  | cons op operand rest =>
      obtain ⟨next, tail, whole, follows⟩ := rest.follows closes row
      rw [Operations.lexemes, List.cons_append, drive_operator, List.append_assoc, whole,
        drive_term operand h.left follows, drive_emit, ← whole, drive_rest rest h.right closes,
        writing_writing, writing_writing, Operations.code, List.append_assoc, List.singleton_append]
termination_by structural rest

/-- A call is written behind its first name. -/
theorem drive_call (call : Call) (h : s.frame.Resolves call.uses) {goals : List Goal}
    {l : Lexeme} {row : List Lexeme} :
    drive (.callTail call.first :: goals) s (call.tail ++ l :: row) =
      writing (call.code s.frame) (drive goals s (l :: row)) := by
  cases call with
  | own name arguments =>
      rw [Call.tail, List.cons_append, List.append_assoc, List.singleton_append, Call.first,
        drive_own_call, drive_args arguments h, writing_writing]
      simp [Call.code, Scope.frame, Nat.add_comm]
  | qualified qualifier name arguments =>
      rw [Call.tail, List.cons_append, List.cons_append, List.cons_append, List.append_assoc,
        List.singleton_append, Call.first, drive_qualifier]
      cases found : s.resolve? qualifier with
      | none =>
          have found' : s.frame.resolve? qualifier = none := found
          rw [drive_call_in_class found, drive_args arguments h, Call.code, found',
            Nat.zero_add]
      | some receiver =>
          have found' : s.frame.resolve? qualifier = some receiver := found
          rw [drive_call_on_variable found, drive_args arguments h, Call.code, found',
            writing_writing, Nat.add_comm]
          rfl
termination_by structural call

theorem drive_args (arguments : Arguments) (h : s.frame.Resolves arguments.uses)
    {goals : List Goal} {callee : String} {count : Nat} {l : Lexeme} {row : List Lexeme} :
    drive (.arguments callee count :: goals) s
        (arguments.lexemes ++ .symbol .closeParen :: l :: row) =
      writing (arguments.code s.frame ++ [.call callee (count + arguments.count)])
        (drive goals s (l :: row)) := by
  cases arguments with
  | nil => exact drive_arguments_end callee count
  | cons first rest =>
      obtain ⟨next, tail, whole, closes⟩ := rest.closes (l :: row)
      rw [Arguments.lexemes, List.append_assoc, drive_arguments, whole,
        drive_expr first h.left closes, ← whole, drive_moreArgs rest h.right, writing_writing]
      rw [Arguments.code, Arguments.count, List.append_assoc, Nat.add_assoc, Nat.add_comm 1]
termination_by structural arguments

theorem drive_moreArgs (arguments : Arguments) (h : s.frame.Resolves arguments.uses)
    {goals : List Goal} {callee : String} {count : Nat} {l : Lexeme} {row : List Lexeme} :
    drive (.moreArguments callee count :: goals) s
        (arguments.moreLexemes ++ .symbol .closeParen :: l :: row) =
      writing (arguments.code s.frame ++ [.call callee (count + arguments.count)])
        (drive goals s (l :: row)) := by
  cases arguments with
  | nil => exact drive_moreArguments_end callee count
  | cons first rest =>
      obtain ⟨next, tail, whole, closes⟩ := rest.closes (l :: row)
      rw [Arguments.moreLexemes, List.cons_append, drive_moreArguments, List.append_assoc, whole,
        drive_expr first h.left closes, ← whole, drive_moreArgs rest h.right, writing_writing]
      rw [Arguments.code, Arguments.count, List.append_assoc, Nat.add_assoc, Nat.add_comm 1]
termination_by structural arguments

end

end Expressions

/-! ### Statements -/

/-- The scope behind so many branches and loops. -/
def Scope.counted (s : Scope) (branches loops : Nat) : Scope :=
  { s with branches := s.branches + branches, loops := s.loops + loops }

@[simp] theorem Scope.counted_zero (s : Scope) : s.counted 0 0 = s := rfl

@[simp] theorem Scope.counted_counted (s : Scope) (b l b' l' : Nat) :
    (s.counted b l).counted b' l' = s.counted (b + b') (l + l') := by
  simp [counted, Nat.add_assoc]

@[simp] theorem Scope.branches_counted (s : Scope) (b l : Nat) :
    (s.counted b l).branches = s.branches + b := rfl

@[simp] theorem Scope.loops_counted (s : Scope) (b l : Nat) :
    (s.counted b l).loops = s.loops + l := rfl

@[simp] theorem Scope.frame_counted (s : Scope) (b l : Nat) : (s.counted b l).frame = s.frame :=
  rfl

section Statements

variable {goals : List Goal} {s : Scope} {l : Lexeme} {row : List Lexeme}

theorem drive_statements_end :
    drive (.statements :: goals) s (.symbol .closeBrace :: row) =
      drive goals s (.symbol .closeBrace :: row) := by
  have effect : Goal.statements.effect? (.symbol .closeBrace) s = some ⟨s, [], none⟩ := rfl
  rw [drive_of_stay effect, writing_nil]

theorem drive_let (target : String) :
    drive (.statements :: goals) s (.keyword .letWord :: .identifier target :: row) =
      drive (.assignment target .start :: .statements :: goals) s row := by
  have effect : Goal.statements.effect? (.keyword .letWord) s =
      some ⟨s, [], some [.letTarget, .statements]⟩ := rfl
  have effect' : Goal.letTarget.effect? (.identifier target) s =
      some ⟨s, [], some [.assignment target .start]⟩ := rfl
  rw [drive_of_pass effect, writing_nil, List.cons_append, drive_of_pass effect', writing_nil]
  rfl

theorem drive_assignment {name : String} {entry : SymbolEntry}
    (h : s.resolve? name = some entry) :
    drive (.assignment name .start :: goals) s (.symbol .equals :: row) =
      drive (.expression :: .symbol .semicolon :: .emit [Template.popVariable entry] :: goals) s
        row := by
  have effect : (Goal.assignment name .start).effect? (.symbol .equals) s =
      some ⟨s, [],
        some [.expression, .symbol .semicolon, .emit [Template.popVariable entry]]⟩ := by
    simp only [Goal.effect?, Goal.react, Goal.reactAssignment, Goal.withVariable, h]
    rfl
  rw [drive_of_pass effect, writing_nil]
  rfl

theorem drive_element_assignment {name : String} {entry : SymbolEntry}
    (h : s.resolve? name = some entry) :
    drive (.assignment name .start :: goals) s (.symbol .openBracket :: row) =
      writing [Template.pushVariable entry]
        (drive (.expression :: .symbol .closeBracket :: .emit [.arithmetic .add] ::
          .symbol .equals :: .expression :: .symbol .semicolon ::
          .emit Template.writeElement :: goals) s row) := by
  have effect : (Goal.assignment name .start).effect? (.symbol .openBracket) s =
      some ⟨s, [Template.pushVariable entry],
        some [.expression, .symbol .closeBracket, .emit [.arithmetic .add], .symbol .equals,
          .expression, .symbol .semicolon, .emit Template.writeElement]⟩ := by
    simp only [Goal.effect?, Goal.react, Goal.reactAssignment, Goal.withVariable, h]
    rfl
  exact drive_of_pass effect

theorem drive_if :
    drive (.statements :: goals) s (.keyword .ifWord :: .symbol .openParen :: row) =
      drive (.expression :: .symbol .closeParen ::
        .emit [.arithmetic .not, .ifGoto (.branchNot s.branches)] ::
        .symbol .openBrace :: .statements :: .symbol .closeBrace ::
        .emit [.goto (.branchEnd s.branches), .label (.branchNot s.branches)] ::
        .elseBranch s.branches :: .statements :: goals) (s.counted 1 0) row := by
  have effect : Goal.statements.effect? (.keyword .ifWord) s =
      some ⟨s.counted 1 0, [], some [.symbol .openParen, .expression, .symbol .closeParen,
        .emit [.arithmetic .not, .ifGoto (.branchNot s.branches)],
        .symbol .openBrace, .statements, .symbol .closeBrace,
        .emit [.goto (.branchEnd s.branches), .label (.branchNot s.branches)],
        .elseBranch s.branches, .statements]⟩ := rfl
  rw [drive_of_pass effect, writing_nil, List.cons_append, drive_symbol]
  rfl

theorem drive_else (id : Nat) :
    drive (.elseBranch id :: goals) s (.keyword .elseWord :: .symbol .openBrace :: row) =
      drive (.statements :: .symbol .closeBrace :: .emit [.label (.branchEnd id)] :: goals) s
        row := by
  have effect : (Goal.elseBranch id).effect? (.keyword .elseWord) s =
      some ⟨s, [], some [.symbol .openBrace, .statements, .symbol .closeBrace,
        .emit [.label (.branchEnd id)]]⟩ := rfl
  rw [drive_of_pass effect, writing_nil, List.cons_append, drive_symbol]
  rfl

theorem drive_no_else (id : Nat) (h : l ≠ .keyword .elseWord) :
    drive (.elseBranch id :: goals) s (l :: row) =
      writing [.label (.branchEnd id)] (drive goals s (l :: row)) := by
  have effect : (Goal.elseBranch id).effect? l s =
      some ⟨s, [.label (.branchEnd id)], none⟩ := by
    rw [Goal.effect?, Goal.react, if_neg h]
    rfl
  exact drive_of_stay effect

theorem drive_while :
    drive (.statements :: goals) s (.keyword .whileWord :: .symbol .openParen :: row) =
      writing [.label (.loopStart s.loops)]
        (drive (.expression :: .symbol .closeParen ::
          .emit [.arithmetic .not, .ifGoto (.loopEnd s.loops)] ::
          .symbol .openBrace :: .statements :: .symbol .closeBrace ::
          .emit [.goto (.loopStart s.loops), .label (.loopEnd s.loops)] ::
          .statements :: goals) (s.counted 0 1) row) := by
  have effect : Goal.statements.effect? (.keyword .whileWord) s =
      some ⟨s.counted 0 1, [.label (.loopStart s.loops)],
        some [.symbol .openParen, .expression, .symbol .closeParen,
          .emit [.arithmetic .not, .ifGoto (.loopEnd s.loops)],
          .symbol .openBrace, .statements, .symbol .closeBrace,
          .emit [.goto (.loopStart s.loops), .label (.loopEnd s.loops)], .statements]⟩ := rfl
  rw [drive_of_pass effect, List.cons_append, drive_symbol]
  rfl

theorem drive_do (name : String) :
    drive (.statements :: goals) s (.keyword .doWord :: .identifier name :: row) =
      drive (.callTail name :: .symbol .semicolon :: .emit [.pop .temp 0] ::
        .statements :: goals) s row := by
  have effect : Goal.statements.effect? (.keyword .doWord) s =
      some ⟨s, [], some [.call, .symbol .semicolon, .emit [.pop .temp 0], .statements]⟩ := rfl
  have effect' : Goal.call.effect? (.identifier name) s =
      some ⟨s, [], some [.callTail name]⟩ := rfl
  rw [drive_of_pass effect, writing_nil, List.cons_append, drive_of_pass effect', writing_nil]
  rfl

theorem drive_return :
    drive (.statements :: goals) s (.keyword .returnWord :: row) =
      drive (.returnValue :: .statements :: goals) s row := by
  have effect : Goal.statements.effect? (.keyword .returnWord) s =
      some ⟨s, [], some [.returnValue, .statements]⟩ := rfl
  rw [drive_of_pass effect, writing_nil]
  rfl

theorem drive_return_nothing :
    drive (.returnValue :: goals) s (.symbol .semicolon :: l :: row) =
      writing [.push .constant 0, .ret] (drive goals s (l :: row)) := by
  have effect : Goal.returnValue.effect? (.symbol .semicolon) s =
      some ⟨s, [.push .constant 0], some [.emit [.ret]]⟩ := rfl
  rw [drive_of_pass effect, List.singleton_append, drive_emit, writing_writing]
  rfl

end Statements

/-- Statements start with a word of their own, or are none. -/
theorem Tree.Statements.starts (ss : Statements) (row : List Lexeme) :
    ∃ l row', ss.lexemes ++ .symbol .closeBrace :: row = l :: row' ∧
      l ≠ .keyword .elseWord ∧ l ≠ .keyword .varWord := by
  cases ss with
  | nil => exact ⟨_, _, rfl, by simp, by simp⟩
  | cons first rest =>
      cases first with
      | ret value =>
          cases value with
          | none => exact ⟨_, _, rfl, by simp, by simp⟩
          | some value => exact ⟨_, _, rfl, by simp, by simp⟩
      | _ => exact ⟨_, _, rfl, by simp, by simp⟩

mutual

theorem drive_statement (st : Statement) {s : Scope} (h : s.frame.Resolves st.uses)
    {goals : List Goal} {l : Lexeme} {row : List Lexeme} (noElse : l ≠ .keyword .elseWord) :
    drive (.statements :: goals) s (st.lexemes ++ l :: row) =
      writing (st.code s.frame s.branches s.loops)
        (drive (.statements :: goals) (s.counted st.branches st.loops) (l :: row)) := by
  cases st with
  | assign target value =>
      obtain ⟨entry, found⟩ := h.head
      simp only [Statement.lexemes, List.cons_append, List.append_assoc, List.nil_append]
      rw [drive_let, drive_assignment found, drive_expr value h.tail (.inr (.inr (.inl rfl))),
        drive_symbol, drive_emit, writing_writing, Statement.code, Frame.pop, found]
      rfl
  | store base index value =>
      obtain ⟨entry, found⟩ := h.head
      simp only [Statement.lexemes, List.cons_append, List.append_assoc, List.nil_append]
      rw [drive_let, drive_element_assignment found, drive_expr index h.tail.left (.inl rfl),
        drive_symbol, drive_emit, drive_symbol,
        drive_expr value h.tail.right (.inr (.inr (.inl rfl))), drive_symbol, drive_emit]
      simp [Statement.code, Frame.push, found, Template.pushVariable, Template.writeElement,
        Statement.branches, Statement.loops]
  | branch condition body =>
      have inner : (s.counted 1 0).frame.Resolves (condition.uses ++ body.uses) := h
      simp only [Statement.lexemes, List.cons_append, List.append_assoc, List.nil_append]
      rw [drive_if, drive_expr condition inner.left (.inr (.inl rfl)), drive_symbol, drive_emit,
        drive_symbol, drive_statements body inner.right, drive_symbol, drive_emit,
        drive_no_else _ noElse]
      simp [Statement.code, Statement.branches, Statement.loops]
  | branchElse condition body other =>
      have inner : (s.counted 1 0).frame.Resolves (condition.uses ++ (body.uses ++ other.uses)) := h
      have last : ((s.counted 1 0).counted body.branches body.loops).frame.Resolves other.uses :=
        inner.right.right
      simp only [Statement.lexemes, List.cons_append, List.append_assoc, List.nil_append]
      rw [drive_if, drive_expr condition inner.left (.inr (.inl rfl)), drive_symbol, drive_emit,
        drive_symbol, drive_statements body inner.right.left, drive_symbol, drive_emit, drive_else,
        drive_statements other last, drive_symbol, drive_emit]
      simp [Statement.code, Statement.branches, Statement.loops, Nat.add_assoc]
  | loop condition body =>
      have inner : (s.counted 0 1).frame.Resolves (condition.uses ++ body.uses) := h
      simp only [Statement.lexemes, List.cons_append, List.append_assoc, List.nil_append]
      rw [drive_while, drive_expr condition inner.left (.inr (.inl rfl)), drive_symbol, drive_emit,
        drive_symbol, drive_statements body inner.right, drive_symbol, drive_emit]
      simp [Statement.code, Statement.branches, Statement.loops]
  | perform call =>
      simp only [Statement.lexemes, List.cons_append, List.append_assoc, List.nil_append]
      rw [call.lexemes_eq, List.cons_append, drive_do, drive_call call h, drive_symbol, drive_emit,
        writing_writing]
      rfl
  | ret value =>
      cases value with
      | none =>
          simp only [Statement.lexemes, List.cons_append, List.nil_append]
          rw [drive_return, drive_return_nothing]
          rfl
      | some value =>
          simp only [Statement.lexemes, List.cons_append, List.append_assoc, List.nil_append]
          rw [drive_return, drive_returnValue, drive_expr value h (.inr (.inr (.inl rfl))),
            drive_symbol, drive_emit, writing_writing]
          rfl
termination_by structural st

theorem drive_statements (ss : Statements) {s : Scope} (h : s.frame.Resolves ss.uses)
    {goals : List Goal} {row : List Lexeme} :
    drive (.statements :: goals) s (ss.lexemes ++ .symbol .closeBrace :: row) =
      writing (ss.code s.frame s.branches s.loops)
        (drive goals (s.counted ss.branches ss.loops) (.symbol .closeBrace :: row)) := by
  cases ss with
  | nil => exact drive_statements_end.trans (writing_nil _).symm
  | cons first rest =>
      have later : (s.counted first.branches first.loops).frame.Resolves rest.uses := h.right
      obtain ⟨l, tail, whole, noElse, -⟩ := rest.starts row
      rw [Statements.lexemes, List.append_assoc, whole, drive_statement first h.left noElse,
        ← whole, drive_statements rest later]
      simp [Statements.code, Statements.branches, Statements.loops]
termination_by structural ss

end

/-! ### Declarations -/

/-- Whether names can be declared in a table one after the other: in a strict scope none of them
may be there before. -/
def Scope.Admits (s : Scope) (level : Scope.Level) (names : List String) : Prop :=
  s.strict = true → names.Nodup ∧ ∀ name ∈ names, (s.table level).contains name = false

instance (s : Scope) (level : Scope.Level) (names : List String) :
    Decidable (s.Admits level names) :=
  inferInstanceAs (Decidable (_ → _))

section Admits

variable {s : Scope} {level : Scope.Level} {names more : List String}

theorem Scope.admits_of_lax (lax : s.strict = false) : s.Admits level names := by
  intro strict
  rw [lax] at strict
  cases strict

@[simp] theorem Scope.admits_nil : s.Admits level [] :=
  fun _ => ⟨List.nodup_nil, List.forall_mem_nil _⟩

theorem Scope.admits_singleton {name : String} :
    s.Admits level [name] ↔ s.refuses level name = false := by
  cases h : s.strict <;> simp [Admits, refuses, h]

/-- Names behind others can be declared in the table that has those. -/
theorem Scope.admits_append {t : SymbolTable}
    (declared : ∀ name, (t.lookup? name).isSome ↔
      name ∈ names ∨ ((s.table level).lookup? name).isSome) :
    s.Admits level (names ++ more) ↔
      s.Admits level names ∧ (s.setTable level t).Admits level more := by
  have absent (name : String) : t.contains name = false ↔
      name ∉ names ∧ (s.table level).contains name = false := by
    rw [← Bool.not_eq_true, ← Bool.not_eq_true]
    exact (not_congr (declared name)).trans not_or
  simp only [Admits, table_setTable, strict_setTable, absent, List.nodup_append,
    List.mem_append]
  constructor
  · intro h
    refine ⟨fun strict => ?_, fun strict => ?_⟩
    · obtain ⟨⟨nodup, -, -⟩, free⟩ := h strict
      exact ⟨nodup, fun name inside => free name (.inl inside)⟩
    · obtain ⟨⟨-, nodup, apart⟩, free⟩ := h strict
      exact ⟨nodup, fun name inside =>
        ⟨fun before => apart name before name inside rfl, free name (.inr inside)⟩⟩
  · rintro ⟨first, later⟩ strict
    obtain ⟨nodup, free⟩ := first strict
    obtain ⟨nodup', free'⟩ := later strict
    refine ⟨⟨nodup, nodup', ?_⟩, ?_⟩
    · rintro name before _ inside rfl
      exact (free' name inside).1 before
    · rintro name (inside | inside)
      · exact free name inside
      · exact (free' name inside).2

end Admits

theorem exists_of_names (names : List String) (row : List Lexeme) :
    ∃ l tail, Declaration.moreLexemes names ++ .symbol .semicolon :: row = l :: tail := by
  cases names with
  | nil => exact ⟨_, _, rfl⟩
  | cons => exact ⟨_, _, rfl⟩

section Declarations

variable {goals : List Goal} {s : Scope} {l : Lexeme} {row : List Lexeme}

theorem drive_variableName (name type : String) (kind : VariableKind) :
    drive (.variableName type kind :: goals) s (.identifier name :: l :: row) =
      if s.Admits (Scope.levelOf kind) [name] then
        drive goals (s.setTable (Scope.levelOf kind)
          ((s.table (Scope.levelOf kind)).define name type kind)) (l :: row)
      else none := by
  have effect : (Goal.variableName type kind).effect? (.identifier name) s =
      some ⟨s, [], some [.declare name .start type kind]⟩ := rfl
  rw [drive_of_pass effect, writing_nil, List.singleton_append]
  by_cases free : s.refuses (Scope.levelOf kind) name = false
  · have effect' : (Goal.declare name .start type kind).effect? l s =
        some ⟨s.define (Scope.levelOf kind) name type kind, [], none⟩ := by
      simp only [Goal.effect?, Goal.react, Goal.reactDeclare, free, Bool.false_eq_true, if_false]
      rfl
    rw [if_pos (Scope.admits_singleton.mpr free), drive_of_stay effect', writing_nil]
    rfl
  · have refused : (Goal.declare name .start type kind).effect? l s = none := by
      simp only [Goal.effect?, Goal.react, Goal.reactDeclare, Bool.eq_true_of_not_eq_false free,
        if_true]
      rfl
    rw [if_neg fun admits => free (Scope.admits_singleton.mp admits), drive_of_none refused]

/-- Declaring in two parts fails if one of them does. -/
theorem drive_admitted {level : Scope.Level} {names more : List String} {t : SymbolTable}
    {f : Option Finish}
    (declared : ∀ name, (t.lookup? name).isSome ↔
      name ∈ names ∨ ((s.table level).lookup? name).isSome) :
    (if s.Admits level names then
        if (s.setTable level t).Admits level more then f else none
      else none) =
      if s.Admits level (names ++ more) then f else none := by
  rw [← ite_and, if_congr (Scope.admits_append declared) rfl rfl]

theorem drive_moreVariables (names : List String) (type : String) (kind : VariableKind) :
    drive (.moreVariables type kind :: goals) s
        (Declaration.moreLexemes names ++ .symbol .semicolon :: row) =
      if s.Admits (Scope.levelOf kind) names then
        drive goals (s.setTable (Scope.levelOf kind)
          ((s.table (Scope.levelOf kind)).defineAll names type kind)) row
      else none := by
  induction names generalizing s with
  | nil =>
      have effect : (Goal.moreVariables type kind).effect? (.symbol .semicolon) s =
          some ⟨s, [], some []⟩ := rfl
      rw [Declaration.moreLexemes, List.flatMap_nil, List.nil_append, drive_of_pass effect,
        writing_nil, List.nil_append, SymbolTable.defineAll, List.foldl_nil, Scope.setTable_table,
        if_pos Scope.admits_nil]
  | cons name names ih =>
      have effect : (Goal.moreVariables type kind).effect? (.symbol .comma) s =
          some ⟨s, [], some [.variableName type kind, .moreVariables type kind]⟩ := rfl
      have declared (other : String) :=
        (s.table (Scope.levelOf kind)).lookup?_defineAll [name] type other kind
      rw [Declaration.moreLexemes, List.flatMap_cons, ← Declaration.moreLexemes]
      simp only [List.cons_append, List.nil_append]
      obtain ⟨l, tail, whole⟩ := exists_of_names names row
      rw [drive_of_pass effect, writing_nil, List.cons_append, whole, drive_variableName,
        ← whole, List.singleton_append, ih, Scope.table_setTable, Scope.setTable_setTable]
      exact drive_admitted declared

theorem drive_declaration (d : Declaration) (kind : VariableKind) :
    drive (.variableType kind :: goals) s (d.tail ++ row) =
      if s.Admits (Scope.levelOf kind) d.names then
        drive goals (s.setTable (Scope.levelOf kind)
          ((s.table (Scope.levelOf kind)).defineAll d.names d.type.text kind)) row
      else none := by
  have effect : (Goal.variableType kind).effect? d.type.lexeme s =
      some ⟨s, [], some [.variableName d.type.text kind, .moreVariables d.type.text kind]⟩ := by
    cases d.type <;> rfl
  have declared (other : String) :=
    (s.table (Scope.levelOf kind)).lookup?_defineAll [d.first] d.type.text other kind
  obtain ⟨l, tail, whole⟩ := exists_of_names d.more row
  simp only [Declaration.tail, List.cons_append, List.append_assoc, List.nil_append]
  rw [drive_of_pass effect, writing_nil, List.cons_append, whole, drive_variableName, ← whole,
    List.singleton_append, drive_moreVariables, Scope.table_setTable, Scope.setTable_setTable]
  exact drive_admitted declared

theorem drive_classVariables (vs : List ClassVariables)
    (ends : ∀ s, Goal.classVariables.effect? l s = some ⟨s, [], none⟩) :
    drive (.classVariables :: goals) s (vs.flatMap ClassVariables.lexemes ++ l :: row) =
      if s.Admits .classLevel (vs.flatMap fun v => v.declaration.names) then
        drive goals (s.setTable .classLevel (vs.foldl ClassVariables.declareIn s.classTable))
          (l :: row)
      else none := by
  induction vs generalizing s with
  | nil =>
      rw [List.flatMap_nil, List.flatMap_nil, if_pos Scope.admits_nil]
      exact (drive_of_stay (ends s)).trans (writing_nil _)
  | cons v vs ih =>
      have effect : Goal.classVariables.effect? (.keyword v.keeping.keyword) s =
          some ⟨s, [], some [.variableType v.keeping.kind, .classVariables]⟩ := by
        cases v.keeping <;> rfl
      have level : Scope.levelOf v.keeping.kind = .classLevel := by cases v.keeping <;> rfl
      have declared (other : String) :=
        s.classTable.lookup?_defineAll v.declaration.names v.declaration.type.text other
          v.keeping.kind
      rw [List.flatMap_cons, ClassVariables.lexemes, Declaration.lexemes]
      simp only [List.cons_append, List.append_assoc]
      rw [drive_of_pass effect, writing_nil, List.cons_append, drive_declaration, level,
        List.singleton_append, ih]
      exact drive_admitted declared

theorem drive_locals (ds : List Declaration) (ends : l ≠ .keyword .varWord) :
    drive (.localVariables :: goals) s
        (ds.flatMap (Declaration.lexemes .varWord) ++ l :: row) =
      if s.Admits .subroutineLevel (ds.flatMap Declaration.names) then
        drive goals
          (s.setTable .subroutineLevel (ds.foldl Declaration.declareIn s.subroutineTable))
          (l :: row)
      else none := by
  induction ds generalizing s with
  | nil =>
      have effect : Goal.localVariables.effect? l s = some ⟨s, [], none⟩ := by
        rw [Goal.effect?, Goal.react, if_neg ends]
        rfl
      rw [List.flatMap_nil, List.flatMap_nil, if_pos Scope.admits_nil]
      exact (drive_of_stay effect).trans (writing_nil _)
  | cons d ds ih =>
      have effect : Goal.localVariables.effect? (.keyword .varWord) s =
          some ⟨s, [], some [.variableType .localVar, .localVariables]⟩ := rfl
      have declared (other : String) :=
        s.subroutineTable.lookup?_defineAll d.names d.type.text other .localVar
      rw [List.flatMap_cons, Declaration.lexemes]
      simp only [List.cons_append, List.append_assoc]
      rw [drive_of_pass effect, writing_nil, List.cons_append, drive_declaration,
        List.singleton_append, ih]
      exact drive_admitted declared

theorem exists_of_parameters (ps : List Parameter) (row : List Lexeme) :
    ∃ l tail, Parameter.moreLexemes ps ++ .symbol .closeParen :: row = l :: tail := by
  cases ps with
  | nil => exact ⟨_, _, rfl⟩
  | cons => exact ⟨_, _, rfl⟩

theorem drive_moreParameters (ps : List Parameter) :
    drive (.moreParameters :: goals) s
        (Parameter.moreLexemes ps ++ .symbol .closeParen :: row) =
      if s.Admits .subroutineLevel (ps.map Parameter.name) then
        drive goals
          (s.setTable .subroutineLevel (ps.foldl Parameter.declareIn s.subroutineTable))
          (.symbol .closeParen :: row)
      else none := by
  induction ps generalizing s with
  | nil =>
      have effect : Goal.moreParameters.effect? (.symbol .closeParen) s =
          some ⟨s, [], none⟩ := rfl
      rw [List.map_nil, if_pos Scope.admits_nil]
      exact (drive_of_stay effect).trans (writing_nil _)
  | cons p ps ih =>
      have effect : Goal.moreParameters.effect? (.symbol .comma) s =
          some ⟨s, [], some [.parameterType, .moreParameters]⟩ := rfl
      have effect' : Goal.parameterType.effect? p.type.lexeme s =
          some ⟨s, [], some [.variableName p.type.text .argument]⟩ := by
        cases p.type <;> rfl
      have declared (other : String) :=
        s.subroutineTable.lookup?_defineAll [p.name] p.type.text other .argument
      obtain ⟨l, tail, whole⟩ := exists_of_parameters ps row
      rw [Parameter.moreLexemes, List.flatMap_cons, ← Parameter.moreLexemes, Parameter.lexemes]
      simp only [List.cons_append, List.nil_append]
      rw [drive_of_pass effect, writing_nil, List.cons_append, drive_of_pass effect', writing_nil,
        List.cons_append, whole, drive_variableName, ← whole, List.nil_append,
        List.singleton_append, ih]
      exact drive_admitted declared

theorem drive_parameters (ps : List Parameter) :
    drive (.parameterList :: goals) s (Parameter.rowOf ps ++ .symbol .closeParen :: row) =
      if s.Admits .subroutineLevel (ps.map Parameter.name) then
        drive goals
          (s.setTable .subroutineLevel (ps.foldl Parameter.declareIn s.subroutineTable))
          (.symbol .closeParen :: row)
      else none := by
  cases ps with
  | nil =>
      have effect : Goal.parameterList.effect? (.symbol .closeParen) s =
          some ⟨s, [], none⟩ := rfl
      rw [List.map_nil, if_pos Scope.admits_nil]
      exact (drive_of_stay effect).trans (writing_nil _)
  | cons p ps =>
      have effect : Goal.parameterList.effect? p.type.lexeme s =
          some ⟨s, [], some [.variableName p.type.text .argument, .moreParameters]⟩ := by
        cases p.type <;> rfl
      have declared (other : String) :=
        s.subroutineTable.lookup?_defineAll [p.name] p.type.text other .argument
      obtain ⟨l, tail, whole⟩ := exists_of_parameters ps row
      rw [Parameter.rowOf, Parameter.lexemes]
      simp only [List.cons_append, List.nil_append]
      rw [drive_of_pass effect, writing_nil, List.cons_append, whole, drive_variableName,
        ← whole, List.singleton_append, drive_moreParameters]
      exact drive_admitted declared

end Declarations

/-! ### Subroutines and classes -/

/-- The scope in the body of a subroutine. -/
def Scope.within (s : Scope) (sub : Subroutine) : Scope :=
  { s with
    subroutineName := sub.name
    subroutineKind := some sub.kind
    subroutineTable := sub.table s.className }

/-- Whether a scope has the class entered whose subroutines are read. -/
structure Scope.Inside (s : Scope) (c : Tree.Class) : Prop where
  className : s.className = c.name
  classTable : s.classTable = c.table

/-- The scope behind the name of a subroutine. -/
def Scope.entered (s : Scope) (sub : Subroutine) : Scope :=
  { s with
    subroutineName := sub.name
    subroutineKind := some sub.kind
    subroutineTable := sub.receiver s.className }

theorem enterSubroutine_eq (s : Scope) (sub : Subroutine) :
    s.leaveSubroutine.enterSubroutine sub.name sub.kind = s.entered sub := by
  unfold Scope.entered Subroutine.receiver
  cases sub.kind <;> rfl

/-- The scope behind the parameters of a subroutine. -/
def Scope.called (s : Scope) (sub : Subroutine) : Scope :=
  (s.entered sub).setTable .subroutineLevel
    (sub.parameters.foldl Parameter.declareIn (s.entered sub).subroutineTable)

theorem within_eq (s : Scope) (sub : Subroutine) :
    (s.called sub).setTable .subroutineLevel
        (sub.locals.foldl Declaration.declareIn (s.called sub).subroutineTable) =
      s.within sub := rfl

/-- In front of a subroutine only the object of a method is declared in its table. -/
theorem admits_entered (s : Scope) (sub : Subroutine) :
    (s.entered sub).Admits .subroutineLevel sub.names ↔ (s.strict = true → sub.Distinct) := by
  have absent (name : String) : (sub.receiver s.className).contains name = false ↔
      ¬(sub.kind = .method ∧ name = "this") := by
    rw [← Bool.not_eq_true]
    exact not_congr (lookup?_receiver sub s.className name)
  refine imp_congr_right fun _ => and_congr_right fun _ => ?_
  constructor
  · intro free method inside
    exact (absent _).mp (free _ inside) ⟨method, rfl⟩
  · rintro free name inside
    exact (absent name).mpr fun ⟨method, this⟩ => free method (this ▸ inside)

section Classes

variable {goals : List Goal} {s : Scope} {l : Lexeme} {row : List Lexeme} {c : Tree.Class}

theorem header_within (inside : s.Inside c) (sub : Subroutine) :
    Template.header (s.within sub) =
      .function (c.name ++ "." ++ sub.name) sub.localCount := by
  rw [← inside.className, ← count_subroutine_table sub s.className]
  rfl

theorem prologue_within (inside : s.Inside c) (sub : Subroutine) :
    Template.prologue (s.within sub) sub.kind = sub.prologue c := by
  rw [Subroutine.prologue, ← count_class_table, ← inside.classTable]
  cases sub.kind <;> rfl

theorem drive_openBody (inside : s.Inside c) (sub : Subroutine) :
    drive (.openBody :: goals) (s.within sub) (l :: row) =
      writing (.function (c.name ++ "." ++ sub.name) sub.localCount :: sub.prologue c)
        (drive goals (s.within sub) (l :: row)) := by
  rw [← header_within inside, ← prologue_within inside]
  exact drive_of_stay rfl

theorem frame_within (inside : s.Inside c) (sub : Subroutine) :
    (s.within sub).frame = sub.frame c := by
  rw [Subroutine.frame, ← inside.className, ← inside.classTable]
  rfl

theorem drive_signature (sub : Subroutine) :
    drive (.subroutines :: goals) s
        (sub.lexemes ++ row) =
      if (s.entered sub).Admits .subroutineLevel (sub.parameters.map Parameter.name) then
        drive (.subroutineBody :: .subroutines :: goals) (s.called sub) (sub.bodyLexemes ++ row)
      else none := by
  have first : Goal.subroutines.effect? (.keyword (keywordOf sub.kind)) s =
      some ⟨s.leaveSubroutine, [], some [.resultType sub.kind, .subroutines]⟩ := by
    cases sub.kind <;> rfl
  have result : (Goal.resultType sub.kind).effect? sub.resultLexeme s.leaveSubroutine =
      some ⟨s.leaveSubroutine, [], some [.subroutineName sub.kind]⟩ := by
    unfold Subroutine.resultLexeme
    cases sub.result with
    | none => rfl
    | some type => cases type <;> rfl
  have name : (Goal.subroutineName sub.kind).effect? (.identifier sub.name) s.leaveSubroutine =
      some ⟨s.leaveSubroutine, [], some [.enterSubroutine sub.name sub.kind, .symbol .openParen,
        .parameterList, .symbol .closeParen, .subroutineBody]⟩ := rfl
  have enter : (Goal.enterSubroutine sub.name sub.kind).effect? (.symbol .openParen)
      s.leaveSubroutine = some ⟨s.entered sub, [], none⟩ := by
    rw [← enterSubroutine_eq]
    rfl
  simp only [Subroutine.lexemes, Subroutine.tail, List.cons_append, List.append_assoc]
  rw [drive_of_pass first, writing_nil, List.cons_append, drive_of_pass result, writing_nil,
    List.singleton_append, drive_of_pass name, writing_nil, List.cons_append, drive_of_stay enter,
    writing_nil, List.cons_append, drive_symbol, List.cons_append, drive_parameters,
    List.cons_append, drive_symbol]
  rfl

/-- A subroutine leaves nothing behind but the numbers of its branches and loops. -/
theorem drive_subroutine (inside : s.Inside c) (sub : Subroutine)
    (h : (sub.frame c).Resolves sub.body.uses) :
    drive (.subroutines :: goals) s (sub.lexemes ++ l :: row) =
      if s.strict = true → sub.Distinct then
        writing (sub.code c s.branches s.loops)
          (drive (.subroutines :: goals)
            ((s.within sub).counted sub.body.branches sub.body.loops) (l :: row))
      else none := by
  have body : Goal.subroutineBody.effect? (.symbol .openBrace) (s.called sub) =
      some ⟨s.called sub, [],
        some [.localVariables, .openBody, .statements, .symbol .closeBrace]⟩ := rfl
  have resolves : (s.within sub).frame.Resolves sub.body.uses := by
    rw [frame_within inside]
    exact h
  have declared := lookup?_parameters sub.parameters (s.entered sub).subroutineTable
  obtain ⟨next, tail, whole, -, noVar⟩ := sub.body.starts (l :: row)
  rw [drive_signature]
  simp only [Subroutine.bodyLexemes, List.cons_append, List.append_assoc, List.nil_append]
  rw [drive_of_pass body, writing_nil, List.cons_append, whole,
    drive_locals _ noVar, within_eq, List.cons_append, drive_openBody inside, ← whole,
    List.cons_append, drive_statements sub.body resolves, List.singleton_append, drive_symbol,
    writing_writing, frame_within inside]
  refine (drive_admitted declared).trans ?_
  rw [← Subroutine.names, if_congr (admits_entered s sub) rfl rfl]
  rfl

theorem exists_of_subroutines (subs : List Subroutine) (row : List Lexeme) :
    ∃ l tail, subs.flatMap Subroutine.lexemes ++ .symbol .closeBrace :: row = l :: tail ∧
      ∀ s, Goal.classVariables.effect? l s = some ⟨s, [], none⟩ := by
  cases subs with
  | nil => exact ⟨_, _, rfl, fun _ => rfl⟩
  | cons sub subs =>
      refine ⟨_, _, rfl, fun s => ?_⟩
      cases sub.kind <;> rfl

theorem drive_subroutines (inside : s.Inside c) (subs : List Subroutine)
    (h : ∀ sub ∈ subs, (sub.frame c).Resolves sub.body.uses) :
    ∃ s', drive (.subroutines :: goals) s
        (subs.flatMap Subroutine.lexemes ++ .symbol .closeBrace :: row) =
      if s.strict = true → ∀ sub ∈ subs, sub.Distinct then
        writing (c.codeFrom s.branches s.loops subs) (drive goals s' (.symbol .closeBrace :: row))
      else none := by
  induction subs generalizing s with
  | nil =>
      have effect : Goal.subroutines.effect? (.symbol .closeBrace) s =
          some ⟨s, [], none⟩ := rfl
      refine ⟨s, ?_⟩
      rw [if_pos fun _ => List.forall_mem_nil _]
      exact drive_of_stay effect
  | cons sub subs ih =>
      have later : ((s.within sub).counted sub.body.branches sub.body.loops).Inside c :=
        ⟨inside.className, inside.classTable⟩
      have strictly : ((s.within sub).counted sub.body.branches sub.body.loops).strict =
        s.strict := rfl
      obtain ⟨s', driven⟩ := ih later fun other hm => h other (List.mem_cons_of_mem sub hm)
      obtain ⟨l, tail, whole, -⟩ := exists_of_subroutines subs row
      refine ⟨s', ?_⟩
      rw [List.flatMap_cons, List.append_assoc, whole,
        drive_subroutine inside sub (h sub (List.mem_cons_self ..)), ← whole, driven, strictly]
      by_cases distinct : s.strict = true → ∀ other ∈ sub :: subs, other.Distinct
      · rw [if_pos distinct, if_pos fun strict => (List.forall_mem_cons.mp (distinct strict)).1,
          if_pos fun strict => (List.forall_mem_cons.mp (distinct strict)).2, writing_writing]
        rfl
      · rw [if_neg distinct]
        split
        · next first =>
          rw [if_neg fun rest => distinct fun strict =>
            List.forall_mem_cons.mpr ⟨first strict, rest strict⟩]
          rfl
        · rfl

end Classes

/-- The members of a class can be read where the scope behind its variables is one inside a class
that declares the names. -/
theorem drive_members {c whole : Tree.Class} {s : Scope}
    (inside : (s.setTable .classLevel
      (c.declarations.foldl ClassVariables.declareIn s.classTable)).Inside whole)
    (h : ∀ sub ∈ c.subroutines, (sub.frame whole).Resolves sub.body.uses) :
    ∃ s', drive [.classVariables, .subroutines, .symbol .closeBrace, .endOfInput] s
        (c.declarations.flatMap ClassVariables.lexemes ++
          (c.subroutines.flatMap Subroutine.lexemes ++ [.symbol .closeBrace, .endOfInput])) =
      if s.Admits .classLevel c.names ∧ (s.strict = true → ∀ sub ∈ c.subroutines, sub.Distinct) then
        some ⟨whole.codeFrom s.branches s.loops c.subroutines, s', [.endOfInput]⟩
      else none := by
  have fin (s : Scope) : Goal.endOfInput.effect? .endOfInput s = some ⟨s, [], none⟩ := rfl
  obtain ⟨s', driven⟩ : ∃ s', drive [.subroutines, .symbol .closeBrace, .endOfInput] _
      (c.subroutines.flatMap Subroutine.lexemes ++ [.symbol .closeBrace, .endOfInput]) = _ :=
    drive_subroutines inside c.subroutines h
  obtain ⟨l, tail, front, ends⟩ := exists_of_subroutines c.subroutines [.endOfInput]
  have ended : drive [.symbol .closeBrace, .endOfInput] s' [.symbol .closeBrace, .endOfInput] =
      some ⟨[], s', [.endOfInput]⟩ := by
    rw [drive_symbol, drive_of_stay (fin s'), writing_nil, drive_nil]
  refine ⟨s', ?_⟩
  rw [front, drive_classVariables _ ends, ← front, driven, ended, writing_some, List.append_nil,
    ← ite_and]
  rfl

/-- Along the row of a class whose names are resolved its code is written, unless a strict scope
finds a name declared twice. -/
theorem drive_class_in (strict : Bool) (c : Tree.Class)
    (h : ∀ sub ∈ c.subroutines, (sub.frame c).Resolves sub.body.uses) :
    ∃ s, drive [.classDeclaration] (.initial strict) (c.lexemes ++ [.endOfInput]) =
      if strict = true → c.Distinct then some ⟨c.code, s, [.endOfInput]⟩ else none := by
  let entered : Scope := { Scope.initial strict with className := c.name }
  have start : Goal.classDeclaration.effect? (.keyword .classWord) (.initial strict) =
      some ⟨.initial strict, [], some [.className, .symbol .openBrace, .classVariables,
        .subroutines, .symbol .closeBrace, .endOfInput]⟩ := rfl
  have name : Goal.className.effect? (.identifier c.name) (.initial strict) =
      some ⟨.initial strict, [], some [.enterClass c.name]⟩ := rfl
  have enter : (Goal.enterClass c.name).effect? (.symbol .openBrace) (.initial strict) =
      some ⟨entered, [], none⟩ := rfl
  have inside : (entered.setTable .classLevel
      (c.declarations.foldl ClassVariables.declareIn entered.classTable)).Inside c :=
    ⟨rfl, rfl⟩
  have admits : entered.Admits .classLevel c.names ↔ (strict = true → c.names.Nodup) :=
    imp_congr_right fun _ => and_iff_left fun _ _ => rfl
  obtain ⟨s, driven⟩ := drive_members inside h
  refine ⟨s, ?_⟩
  simp only [Tree.Class.lexemes, List.cons_append, List.append_assoc, List.nil_append]
  rw [drive_of_pass start, writing_nil, List.cons_append, drive_of_pass name, writing_nil,
    List.singleton_append, drive_of_stay enter, writing_nil, List.cons_append, drive_symbol]
  refine driven.trans (if_congr ?_ rfl rfl)
  rw [admits]
  exact imp_and.symm

/-- Along the row of a class whose names are declared, the code of the class is written. -/
theorem drive_class (c : Tree.Class)
    (h : ∀ sub ∈ c.subroutines, (sub.frame c).Resolves sub.body.uses) :
    ∃ s, drive [.classDeclaration] (.initial false) (c.lexemes ++ [.endOfInput]) =
      some ⟨c.code, s, [.endOfInput]⟩ := by
  obtain ⟨s, driven⟩ := drive_class_in false c h
  rw [if_pos (by simp)] at driven
  exact ⟨s, driven⟩

/-- A declared name stands for a variable. -/
theorem resolves_of_wellScoped {c : Tree.Class} (h : c.WellScoped) :
    ∀ sub ∈ c.subroutines, (sub.frame c).Resolves sub.body.uses := by
  intro sub hs name used
  have own := lookup?_subroutine_table sub c.name name
  have shared := lookup?_class_table c name
  rw [Frame.resolve?, Option.isSome_or, Bool.or_eq_true]
  rcases h sub hs name used with declared | declared
  · exact .inl (own.mpr (.inl declared))
  · exact .inr (shared.mpr declared)

/-- Reading and writing at once gives the code of the tree: a source that is written as a well
scoped class compiles to the code of that class. -/
theorem compiles_to_code_of_tree (c : Tree.Class) (declared : c.WellScoped) (source : Source)
    (filename : Option String) (chunkSize : Int) (positive : 0 < chunkSize) (tokens : List Token)
    (read : Lexer.tokensOf source chunkSize filename = .ok tokens)
    (spelled : tokens.map Token.lexeme = c.lexemes) :
    compileText source filename false chunkSize = .ok (Code.program c.code) := by
  obtain ⟨s, driven⟩ := drive_class c (resolves_of_wellScoped declared)
  rw [← spelled] at driven
  rw [compileText, compileSource_of_drive positive read driven]
  rfl

/-- A class with a field, a method and a loop. -/
def Tree.counter : Tree.Class where
  name := "C"
  declarations := [⟨.field, ⟨.int, "x", []⟩⟩]
  subroutines :=
    [{ kind := .method
       result := some .int
       name := "f"
       parameters := [⟨.object "A", "d"⟩]
       locals := []
       body :=
        .cons (.loop (.of (.element "d" (.of (.var "x") .nil)) .nil)
          (.cons (.assign "x" (.of (.var "x") (.cons .multiply (.integer "2" 2) .nil))) .nil))
        (.cons (.ret (some (.of (.call (.qualified "d" "g" .nil)) .nil))) .nil) }]

theorem compiles_to_code_of_counter :
    let source : Source :=
      .text ("class C\x7bfield int x;method int f(A d)\x7bwhile(d[x])\x7blet x=x*2;\x7d" ++
        "return d.g();\x7d\x7d")
    counter.WellScoped ∧ (0 : Int) < 16 ∧
      ∃ tokens, Lexer.tokensOf source 16 none = .ok tokens ∧
        tokens.map Token.lexeme = counter.lexemes ∧
        compileText source none false 16 = .ok
          ("function C.f 0\npush argument 0\npop pointer 0\nlabel WHILE_START_0\n" ++
            "push argument 1\npush this 0\nadd\npop pointer 1\npush that 0\nnot\n" ++
            "if-goto WHILE_END_0\npush this 0\npush constant 2\ncall Math.multiply 2\n" ++
            "pop this 0\ngoto WHILE_START_0\nlabel WHILE_END_0\npush argument 1\n" ++
            "call A.g 1\nreturn\n") := by
  intro source
  have declared : counter.WellScoped := by
    intro s hs name used
    obtain rfl := List.mem_singleton.mp hs
    revert name
    decide
  have read : (Lexer.tokensOf source 16 none).toOption.map (·.map Token.lexeme) =
      some counter.lexemes := by
    decide +kernel
  cases found : Lexer.tokensOf source 16 none with
  | error failure => rw [found] at read; cases read
  | ok tokens =>
      rw [found] at read
      have spelled : tokens.map Token.lexeme = counter.lexemes := Option.some.inj read
      refine ⟨declared, by decide, tokens, rfl, spelled, ?_⟩
      rw [compiles_to_code_of_tree counter declared source none 16 (by decide) tokens found spelled]
      decide +kernel

end Jack
