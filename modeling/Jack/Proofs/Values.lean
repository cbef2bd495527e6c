import Jack.Proofs.Recognizing
import Jack.Proofs.Simulation

/-! # What expressions compute

Wherever an expression is read, the code written for it pushes one word, which is the value of the
expression, and ends right behind itself. On the way nothing changes but what the calls of the
expression change, and these come in the order in which the expression names them.
-/

namespace Jack

open Jack.Tree

/-! ### Calls -/

/-- The function that is called for an operator, if one is. -/
def BinaryOp.callees : BinaryOp → List String
  | .multiply => ["Math.multiply"]
  | .divide => ["Math.divide"]
  | _ => []

namespace Tree

mutual

/-- The functions that a term calls, each after those that its arguments call. -/
def Term.callees (f : Frame) : Term → List String
  | .integer _ _ | .constant _ | .var _ => []
  | .string content => "String.new" :: content.toList.map fun _ => "String.appendChar"
  | .element _ index => index.callees f
  | .call call => call.callees f
  | .group inner => inner.callees f
  | .unary _ operand => operand.callees f

def Expression.callees (f : Frame) : Expression → List String
  | .of first rest => first.callees f ++ rest.callees f

def Operations.callees (f : Frame) : Operations → List String
  | .nil => []
  | .cons op operand rest => operand.callees f ++ (op.callees ++ rest.callees f)

def Call.callees (f : Frame) : Call → List String
  | .own name arguments => arguments.callees f ++ [f.className ++ "." ++ name]
  | .qualified qualifier name arguments =>
    match f.resolve? qualifier with
    | some receiver => arguments.callees f ++ [receiver.type ++ "." ++ name]
    | none => arguments.callees f ++ [qualifier ++ "." ++ name]

def Arguments.callees (f : Frame) : Arguments → List String
  | .nil => []
  | .cons first rest => first.callees f ++ rest.callees f

end

end Tree

/-- The store behind calls that are made one after the other. -/
def Platform.after {W : Type} (p : Platform W) (calls : List (String × List Word)) (s : Store W) :
    Store W :=
  calls.foldl (fun s call => (p.call call.1 call.2 s).2) s

section Calls

variable {W : Type} {p : Platform W} {f : Frame}

theorem Platform.after_append (calls more : List (String × List Word)) (s : Store W) :
    p.after (calls ++ more) s = p.after more (p.after calls s) :=
  List.foldl_append

/-- Calls change the memory alone. -/
theorem Platform.after_eq (calls : List (String × List Word)) (s : Store W) :
    p.after calls s = { s with memory := (p.after calls s).memory } := by
  induction calls generalizing s with
  | nil => rfl
  | cons call calls ih => exact ih (p.call call.1 call.2 s).2

/-- Whether a store is reached from another one by calls of some functions in order. -/
def Platform.Calls (p : Platform W) (callees : List String) (s s' : Store W) : Prop :=
  ∃ calls, s' = p.after calls s ∧ calls.map Prod.fst = callees

namespace Platform.Calls

variable {callees more : List String} {s s' s'' : Store W}

theorem refl (s : Store W) : p.Calls [] s s :=
  ⟨[], rfl, rfl⟩

theorem trans (h : p.Calls callees s s') (h' : p.Calls more s' s'') :
    p.Calls (callees ++ more) s s'' := by
  obtain ⟨calls, rfl, rfl⟩ := h
  obtain ⟨calls', rfl, rfl⟩ := h'
  exact ⟨calls ++ calls', (Platform.after_append ..).symm, List.map_append⟩

theorem single (callee : String) (arguments : List Word) (s : Store W) :
    p.Calls [callee] s (p.call callee arguments s).2 :=
  ⟨[(callee, arguments)], rfl, rfl⟩

theorem combine (op : BinaryOp) (v w : Word) (s : Store W) :
    p.Calls op.callees s (p.combine op v w s).2 := by
  cases op with
  | multiply | divide => exact .single _ [v, w] s
  | _ => exact .refl s

theorem append (content : List Char) (state : Word × Store W) :
    p.Calls (content.map fun _ => "String.appendChar") state.2
      (content.foldl p.append state).2 := by
  induction content generalizing state with
  | nil => exact .refl _
  | cons c content ih =>
      exact (single "String.appendChar" [state.1, BitVec.ofNat 16 c.toNat] state.2).trans
        (ih (p.append state c))

theorem spell (content : String) (s : Store W) :
    p.Calls ("String.new" :: content.toList.map fun _ => "String.appendChar") s
      (p.spell content s).2 :=
  (single "String.new" [BitVec.ofNat 16 content.length] s).trans (append content.toList _)

end Platform.Calls

open Platform

theorem Tree.Frame.Resolves.read {name : String} {more : List String}
    (h : f.Resolves (name :: more)) (s : Store W) : ∃ v, f.read? name s = some v := by
  obtain ⟨entry, found⟩ := h.head
  exact ⟨s.read entry.kind entry.index, by rw [Frame.read?, found]; rfl⟩

mutual

/-- A term whose names stand for variables has a value, and makes its calls on the way to it. -/
theorem Tree.Term.exists_eval (t : Term) (h : f.Resolves t.uses) (s : Store W) :
    ∃ v s', t.eval p f s = some (v, s') ∧ p.Calls (t.callees f) s s' := by
  cases t with
  | integer digits value => exact ⟨_, s, rfl, .refl s⟩
  | string content => exact ⟨_, _, rfl, .spell content s⟩
  | constant word => exact ⟨_, s, rfl, .refl s⟩
  | var name =>
      obtain ⟨v, found⟩ := h.read s
      exact ⟨v, s, by rw [Term.eval, found]; rfl, .refl s⟩
  | element base index =>
      obtain ⟨address, found⟩ := h.read s
      obtain ⟨i, s', value, calls⟩ := index.exists_eval h.tail s
      exact ⟨_, s', by rw [Term.eval, found, Option.bind_some, value]; rfl, calls⟩
  | call call => exact call.exists_eval h s
  | group inner => exact inner.exists_eval h s
  | unary op operand =>
      obtain ⟨v, s', value, calls⟩ := operand.exists_eval h s
      exact ⟨op.apply v, s', by rw [Term.eval, value]; rfl, calls⟩
termination_by structural t

theorem Tree.Expression.exists_eval (e : Expression) (h : f.Resolves e.uses) (s : Store W) :
    ∃ v s', e.eval p f s = some (v, s') ∧ p.Calls (e.callees f) s s' := by
  cases e with
  | of first rest =>
      obtain ⟨v, s', value, calls⟩ := first.exists_eval h.left s
      obtain ⟨w, s'', values, more⟩ := rest.exists_eval h.right v s'
      exact ⟨w, s'', by rw [Expression.eval, value]; exact values, calls.trans more⟩
termination_by structural e

theorem Tree.Operations.exists_eval (rest : Operations) (h : f.Resolves rest.uses) (v : Word)
    (s : Store W) : ∃ w s', rest.eval p f v s = some (w, s') ∧ p.Calls (rest.callees f) s s' := by
  cases rest with
  | nil => exact ⟨v, s, rfl, .refl s⟩
  | cons op operand rest =>
      obtain ⟨w, s', value, calls⟩ := operand.exists_eval h.left s
      obtain ⟨x, s'', values, more⟩ :=
        rest.exists_eval h.right (p.combine op v w s').1 (p.combine op v w s').2
      exact ⟨x, s'', by rw [Operations.eval, value]; exact values,
        calls.trans ((Calls.combine op v w s').trans more)⟩
termination_by structural rest

theorem Tree.Call.exists_eval (call : Tree.Call) (h : f.Resolves call.uses) (s : Store W) :
    ∃ v s', call.eval p f s = some (v, s') ∧ p.Calls (call.callees f) s s' := by
  cases call with
  | own name arguments =>
      obtain ⟨vs, s', values, calls⟩ := arguments.exists_eval h s
      exact ⟨_, _, by rw [Call.eval, values]; rfl, calls.trans (.single _ (s.this :: vs) s')⟩
  | qualified qualifier name arguments =>
      obtain ⟨vs, s', values, calls⟩ := arguments.exists_eval h s
      rw [Call.eval, Call.callees, values]
      cases f.resolve? qualifier with
      | some receiver =>
          exact ⟨_, _, rfl,
            calls.trans (.single _ (s.read receiver.kind receiver.index :: vs) s')⟩
      | none => exact ⟨_, _, rfl, calls.trans (.single _ vs s')⟩
termination_by structural call

theorem Tree.Arguments.exists_eval (arguments : Arguments) (h : f.Resolves arguments.uses)
    (s : Store W) :
    ∃ vs s', arguments.eval p f s = some (vs, s') ∧ p.Calls (arguments.callees f) s s' := by
  cases arguments with
  | nil => exact ⟨[], s, rfl, .refl s⟩
  | cons first rest =>
      obtain ⟨v, s', value, calls⟩ := first.exists_eval h.left s
      obtain ⟨vs, s'', values, more⟩ := rest.exists_eval h.right s'
      exact ⟨v :: vs, s'', by simp [Arguments.eval, value, values], calls.trans more⟩
termination_by structural arguments

end

end Calls

/-! ### Where code ends -/

section Place

variable {W : Type} {p : Platform W} {block : List Code} {m m' : Machine W}

theorem Machine.pc_put {v : Word} {segment : Segment} {i : Nat}
    (h : m.put v segment i = some m') : m'.pc = m.pc := by
  unfold put at h
  split at h <;> cases h <;> rfl

/-- No step leaves the block. -/
theorem Machine.pc_le_of_step (h : m.step p block = some m') : m'.pc ≤ block.length := by
  have inside {i : Code} (found : block[m.pc]? = some i) : m.pc + 1 ≤ block.length :=
    (List.getElem?_eq_some_iff.mp found).1
  have jumps {m : Machine W} {name : Label} (h : m.jump block name = some m') :
      m'.pc ≤ block.length := by
    unfold jump at h
    split at h <;> cases h
    exact List.idxOf_le_length
  unfold step at h
  split at h
  · next found =>
    obtain ⟨v, -, rfl⟩ := Option.map_eq_some_iff.mp h
    exact inside found
  · next found =>
    split at h
    · exact (pc_put h).trans_le (inside found)
    · cases h
  · next found =>
    obtain ⟨stack, -, rfl⟩ := Option.map_eq_some_iff.mp h
    exact inside found
  · next found =>
    cases h
    exact inside found
  · exact jumps h
  · next found =>
    split at h
    · split at h
      · cases h
        exact inside found
      · exact jumps h
    · cases h
  · next found =>
    split at h <;> cases h
    exact inside found
  · next found =>
    cases h
    exact inside found
  · cases h
  · cases h

theorem Machine.pc_le_of_reaches (h : Reaches p block m m') (start : m.pc ≤ block.length) :
    m'.pc ≤ block.length := by
  induction h with
  | refl => exact start
  | tail _ step _ => exact pc_le_of_step step

/-- A machine with the end of a block ahead is right behind what stands in front of it. -/
theorem Config.Shows.pc_eq {front after : List Code} {c : Config W}
    (h : c.Shows (front ++ after) m) (ahead : c.ahead = after)
    (inside : m.pc ≤ (front ++ after).length) : m.pc = front.length := by
  have left := congrArg List.length (h.ahead.trans ahead)
  rw [List.length_drop, List.length_append] at left
  rw [List.length_append] at inside
  omega

end Place

/-! ### Reading an expression anywhere -/

namespace Goal

/-- Whether a goal can come up while an expression is read. -/
def InExpression : Goal → Prop
  | .expression | .operators | .term | .afterName .. | .call | .callTail _ | .methodName _
  | .qualifiedCall .. | .arguments .. | .moreArguments .. | .symbol _ | .emit _ => True
  | _ => False

section InExpression

variable {goal : Goal} {goals next : List Goal} {l : Lexeme} {s s' : Scope} {code : List Code}
  {row : List Lexeme}

theorem inExpression_of_term (h : Goal.term.effect? l s = some ⟨s', code, some next⟩) :
    ∀ g ∈ next, g.InExpression := by
  simp only [effect?, react, reactTerm] at h
  repeat' split at h
  all_goals cases h
  all_goals simp [InExpression, unplaced]

theorem inExpression_of_andThen {r : Reaction} {later : List Goal}
    (h : (r.andThen later).effect? = some ⟨s', code, some next⟩)
    (first : ∀ {next}, r.effect? = some ⟨s', code, some next⟩ → ∀ g ∈ next, g.InExpression)
    (more : ∀ g ∈ later.map unplaced, g.InExpression) : ∀ g ∈ next, g.InExpression := by
  rw [Reaction.effect?_andThen] at h
  obtain ⟨⟨_, _, passed⟩, found, same⟩ := Option.map_eq_some_iff.mp h
  cases passed with
  | none => cases same
  | some passed =>
      cases same
      intro g inside
      exact (List.mem_append.mp inside).elim (first found g) (more g)

theorem inExpression_of_expression (h : Goal.expression.effect? l s = some ⟨s', code, some next⟩) :
    ∀ g ∈ next, g.InExpression :=
  inExpression_of_andThen h inExpression_of_term (by simp [unplaced, InExpression])

/-- Reading an expression takes only goals that can come up there. -/
theorem inExpression_of_effect? (inside : goal.InExpression)
    (h : goal.effect? l s = some ⟨s', code, some next⟩) : ∀ g ∈ next, g.InExpression := by
  cases goal
  case term => exact inExpression_of_term h
  case expression => exact inExpression_of_expression h
  case arguments callee count =>
    simp only [effect?, react, reactArguments] at h
    split at h
    · cases h
      simp [InExpression, unplaced]
    · exact inExpression_of_andThen h inExpression_of_expression (by simp [unplaced, InExpression])
  all_goals try exact inside.elim
  all_goals
    simp only [effect?, react, reactOperators, reactAfterName, reactCallTail, reactName,
      reactQualifiedCall, reactMoreArguments, reactSymbol, withVariable] at h
    repeat' split at h
  all_goals cases h
  all_goals simp [InExpression, unplaced]

/-- A goal of an expression that leaves a lexeme to others would leave a semicolon as well. -/
theorem effect?_semicolon (inside : goal.InExpression)
    (h : goal.effect? l s = some ⟨s', code, none⟩) :
    goal.effect? (.symbol .semicolon) s = some ⟨s', code, none⟩ := by
  cases goal
  case term => cases isSome_next_term h
  case expression => cases isSome_next_expression h
  case arguments callee count =>
    simp only [effect?, react, reactArguments] at h
    split at h
    · cases h
    · cases isSome_next_andThen h fun _ => isSome_next_expression
  all_goals try exact inside.elim
  all_goals
    simp only [effect?, react, reactOperators, reactAfterName, reactCallTail, reactName,
      reactQualifiedCall, reactMoreArguments, reactSymbol, withVariable] at h ⊢
    repeat' split at h
  all_goals cases h
  all_goals rfl

end InExpression

end Goal

/-- What stands behind an expression makes no difference to it: a semicolon would do. -/
theorem drive_semicolon {goals : List Goal} {l : Lexeme} {s s' : Scope} {code : List Code}
    {row : List Lexeme} (inside : ∀ g ∈ goals, g.InExpression)
    (h : drive goals s (row ++ [l]) = some ⟨code, s', [l]⟩) :
    drive goals s (row ++ [.symbol .semicolon]) = some ⟨code, s', [.symbol .semicolon]⟩ := by
  generalize whole : row ++ [l] = lexemes at h
  fun_induction drive goals s lexemes generalizing row code with
  | case1 s lexemes =>
      cases h
      obtain rfl : row = [] := List.append_left_eq_self.mp whole
      exact drive_nil _ _
  | case2 s goal rest => cases h
  | case3 s goal rest first later none => cases h
  | case4 s goal rest first later s₁ code₁ effect ih =>
      rw [List.forall_mem_cons] at inside
      obtain ⟨⟨code', _, _⟩, driven, same⟩ := exists_of_writing h
      cases same
      have along := ih inside.2 whole driven
      cases row with
      | nil =>
          exact (drive_of_stay (Goal.effect?_semicolon inside.1 effect)).trans
            (congrArg (writing code₁) along)
      | cons first' row =>
          cases whole
          exact (drive_of_stay effect).trans (congrArg (writing code₁) along)
  | case5 s goal rest first later s₁ code₁ next effect ih =>
      rw [List.forall_mem_cons] at inside
      obtain ⟨⟨code', _, _⟩, driven, same⟩ := exists_of_writing h
      cases same
      cases row with
      | nil =>
          cases whole
          cases left_of_drive_nil driven
      | cons first' row =>
          cases whole
          have reached : ∀ g ∈ next ++ rest, g.InExpression := fun g among =>
            (List.mem_append.mp among).elim (Goal.inExpression_of_effect? inside.1 effect g)
              (inside.2 g)
          exact (drive_of_pass effect).trans (congrArg (writing code₁) (ih reached rfl driven))

/-- An engine that has read an expression has written its code and has changed no table. -/
theorem Engine.exists_expression_of_run {e e' : Engine} (h : e.run [.expression] = (.ok (), e')) :
    ∃ (passed : List Token) (tree : Expression),
      e.cursor.Shows (passed ++ [e'.cursor.current]) ∧ tree.lexemes = passed.map Token.lexeme ∧
      e.scope.frame.Resolves tree.uses ∧ e'.scope = e.scope ∧
      e'.code = e.code ++ tree.code e.scope.frame := by
  obtain ⟨row, code, shown, ended, written, driven⟩ := drive_of_run h
  obtain ⟨passed, rfl⟩ := List.getLast?_eq_some_iff.mp ended
  rw [List.map_append, List.map_singleton] at driven
  obtain ⟨used, whole, reads⟩ := Goal.readsAll_of_drive driven
  obtain ⟨tree, rfl, resolves, scope⟩ := Goal.reads_of_readsAll reads
  have spelled := List.append_cancel_right whole
  have alone := drive_semicolon (by simp [Goal.unplaced, Goal.InExpression]) driven
  rw [spelled] at alone
  have along : drive [.expression] e.scope (tree.lexemes ++ [.symbol .semicolon]) =
      writing (tree.code e.scope.frame) (drive [] e.scope [.symbol .semicolon]) :=
    drive_expr tree resolves (.inr (.inr (.inl rfl)))
  rw [drive_nil, writing_some, List.append_nil] at along
  obtain rfl := congrArg Finish.code (Option.some.inj (alone.symm.trans along))
  exact ⟨passed, tree, shown, spelled.symm, resolves, scope, written⟩

/-- Whenever an expression is read, the machine that runs the code written for it, wherever this
stands, comes to its end with the words that were on the stack and the value of the expression on
top of them. Variables of the subroutine and the pointer to the current object stay, and the memory
is what the calls of the expression leave, made in the order in which it names them. -/
theorem expressions_push_their_values (e e' : Engine)
    (read : e.run [.expression] = (.ok (), e')) :
    ∃ (passed : List Token) (tree : Expression) (code : List Code),
      e.cursor.Shows (passed ++ [e'.cursor.current]) ∧ tree.lexemes = passed.map Token.lexeme ∧
      e'.scope = e.scope ∧ e'.code = e.code ++ code ∧
      ∀ (W : Type) (p : Platform W) (before after : List Code) (m : Machine W),
        m.pc = before.length →
        ∃ (m' : Machine W) (v : Word) (calls : List (String × List Word)),
          Machine.Reaches p (before ++ code ++ after) m m' ∧
          m'.pc = (before ++ code).length ∧ m'.stack = v :: m.stack ∧
          tree.eval p e.scope.frame m.store = some (v, m'.store) ∧
          calls.map Prod.fst = tree.callees e.scope.frame ∧ m'.store = p.after calls m.store ∧
          m'.store.locals = m.store.locals ∧ m'.store.arguments = m.store.arguments ∧
          m'.store.this = m.store.this := by
  obtain ⟨passed, tree, shown, spelled, resolves, scope, written⟩ :=
    Engine.exists_expression_of_run read
  refine ⟨passed, tree, tree.code e.scope.frame, shown, spelled, scope, written, ?_⟩
  intro W p before after m start
  obtain ⟨v, s', value, calls, rfl, callees⟩ := tree.exists_eval (p := p) resolves m.store
  have ahead : (before ++ tree.code e.scope.frame ++ after).drop m.pc =
      tree.code e.scope.frame ++ after := by
    rw [start, List.append_assoc, List.drop_left]
  have led : Config.Leads p (before ++ tree.code e.scope.frame ++ after)
      ⟨tree.code e.scope.frame ++ after, m.stack, m.store⟩
      ⟨after, v :: m.stack, p.after calls m.store⟩ := tree.leads value
  obtain ⟨m', reached, shows⟩ := led m ⟨ahead, rfl, rfl⟩
  have inside := Machine.pc_le_of_reaches reached (by simp [start])
  have store : m'.store = p.after calls m.store := shows.store
  have kept := Platform.after_eq (p := p) calls m.store
  rw [← store] at kept value
  refine ⟨m', v, calls, reached, shows.pc_eq rfl inside, shows.stack, value, callees, store, ?_⟩
  rw [kept]
  exact ⟨rfl, rfl, rfl⟩

/-- An element of an array, and a product behind it, in front of a bracket that belongs to neither:
the difference is multiplied, and the word that was on the stack is still there. -/
theorem expressions_push_their_values_at_product :
    let stream : TokenStream := .readFrom none [] (.ofSource 4 (.text "a[i] - 2 * f(i)]"))
    let scope : Scope := { Scope.initial false with
      className := "A"
      subroutineTable :=
        (SymbolTable.empty.define "a" "Array" .localVar).define "i" "int" .argument }
    let e : Engine :=
      { Engine.atStart stream ⟨.identifier "a", ⟨1, 1⟩⟩ false none with scope := scope }
    let code : List Code :=
      [.push .localVar 0, .push .argument 0, .arithmetic .add, .pop .pointer 1, .push .that 0,
        .push .constant 2, .arithmetic .sub, .push .pointer 0, .push .argument 0, .call "A.f" 2,
        .call "Math.multiply" 2]
    let m : Machine Unit := { Machine.atStart 1 with stack := [7] }
    e.run [.expression] = (.ok (), (e.run [.expression]).2) ∧
      ∃ m' v, Machine.Reaches .still code m m' ∧ m'.pc = 11 ∧ m'.stack = [v, 7] := by
  intro stream scope e code m
  have read : e.run [.expression] = (.ok (), (e.run [.expression]).2) :=
    Prod.ext (by decide +kernel) rfl
  obtain ⟨_, _, code', -, -, -, written, computes⟩ := expressions_push_their_values e _ read
  have found : (e.run [.expression]).2.code = code := by decide +kernel
  obtain rfl : code' = code := written.symm.trans found
  obtain ⟨m', v, -, reached, place, stack, -⟩ := computes Unit .still [] [] m rfl
  rw [List.append_nil] at reached
  exact ⟨read, m', v, reached, place, stack⟩

end Jack
