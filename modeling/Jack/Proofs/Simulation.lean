import Jack.Proofs.Evaluation
import Jack.Proofs.Language
import Jack.Proofs.Layout

/-! # Code does what its tree says

From any configuration with the code of a tree ahead, a machine reaches the configuration
that evaluating the tree leads to. Jumps find their labels because no label of a block is
set twice.
-/

namespace Jack

open Jack.Tree

section Expressions

variable {W : Type} {p : Platform W} {f : Frame} {block rest : List Code} {stack : List Word}
  {s s' : Store W} {v : Word}

namespace Config

theorem leads_push_name {name : String} (h : f.read? name s = some v) :
    Leads p block ⟨f.push name ++ rest, stack, s⟩ ⟨rest, v :: stack, s⟩ := by
  obtain ⟨entry, found, rfl⟩ := Option.map_eq_some_iff.mp h
  rw [Frame.push, found]
  exact leads_push_variable entry.kind entry.index

theorem leads_pop_name {name : String} {entry : SymbolEntry}
    (found : f.resolve? name = some entry) :
    Leads p block ⟨f.pop name ++ rest, v :: stack, s⟩
      ⟨rest, stack, s.write v entry.kind entry.index⟩ := by
  rw [Frame.pop, found]
  exact leads_pop_variable entry.kind entry.index v

theorem leads_constant (word : Constant) :
    Leads p block ⟨word.code ++ rest, stack, s⟩ ⟨rest, word.value s :: stack, s⟩ := by
  cases word with
  | trueWord =>
      apply (leads_push_constant 1).trans
      exact leads_arithmetic rfl
  | falseWord => exact leads_push_constant 0
  | nullWord => exact leads_push_constant 0
  | thisWord => exact leads_push_this

theorem leads_unary (op : UnaryOp) :
    Leads p block ⟨.cons (unaryCode op) rest, v :: stack, s⟩ ⟨rest, op.apply v :: stack, s⟩ := by
  cases op with
  | negate => exact leads_arithmetic rfl
  | not => exact leads_arithmetic rfl

theorem leads_binary (op : BinaryOp) (w : Word) :
    Leads p block ⟨.cons (binaryCode op) rest, w :: v :: stack, s⟩
      ⟨rest, (p.combine op v w s).1 :: stack, (p.combine op v w s).2⟩ := by
  cases op with
  | multiply => exact leads_call "Math.multiply" [v, w] rfl
  | divide => exact leads_call "Math.divide" [v, w] rfl
  | add => exact leads_arithmetic rfl
  | subtract => exact leads_arithmetic rfl
  | and => exact leads_arithmetic rfl
  | or => exact leads_arithmetic rfl
  | less => exact leads_arithmetic rfl
  | greater => exact leads_arithmetic rfl
  | equal => exact leads_arithmetic rfl

/-- The characters are put at the end of the string one after the other. -/
theorem leads_characters (content : List Char) (state : Word × Store W) :
    Leads p block
      ⟨(content.flatMap fun c => [.push .constant c.toNat, .call "String.appendChar" 2]) ++ rest,
        state.1 :: stack, state.2⟩
      ⟨rest, (content.foldl p.append state).1 :: stack, (content.foldl p.append state).2⟩ := by
  induction content generalizing state with
  | nil => exact .refl _
  | cons c content ih =>
      apply (leads_push_constant c.toNat).trans
      apply (leads_call "String.appendChar" [state.1, BitVec.ofNat 16 c.toNat] rfl).trans
      exact ih (p.append state c)

theorem leads_string {content : String} (h : p.spell content s = (v, s')) :
    Leads p block ⟨stringCode content ++ rest, stack, s⟩ ⟨rest, v :: stack, s'⟩ := by
  have made : Leads p block ⟨stringCode content ++ rest, stack, s⟩
      ⟨rest, (p.spell content s).1 :: stack, (p.spell content s).2⟩ := by
    apply (leads_push_constant content.length).trans
    apply (leads_call "String.new" [BitVec.ofNat 16 content.length] (Prod.eta _).symm).trans
    exact leads_characters content.toList _
  rw [h] at made
  exact made

end Config

open Config

theorem Tree.Arguments.length_of_eval (arguments : Arguments) {s s' : Store W} {vs : List Word}
    (h : arguments.eval p f s = some (vs, s')) : vs.length = arguments.count := by
  cases arguments with
  | nil =>
      cases h
      rfl
  | cons first more =>
      obtain ⟨⟨w, between⟩, value, later⟩ := Option.bind_eq_some_iff.mp h
      obtain ⟨⟨ws, _⟩, values, same⟩ := Option.map_eq_some_iff.mp later
      cases same
      exact congrArg (· + 1) (more.length_of_eval values)
termination_by structural arguments

/-- A call takes the values of its arguments from the stack. -/
theorem leads_call_of_eval {arguments : Arguments} {vs : List Word} {s'' : Store W}
    {callee : String} (values : arguments.eval p f s = some (vs, s'))
    (called : p.call callee vs s' = (v, s'')) :
    Leads p block ⟨.call callee arguments.count :: rest, vs.reverse ++ stack, s'⟩
      ⟨rest, v :: stack, s''⟩ := by
  rw [← arguments.length_of_eval values]
  exact leads_call callee vs called

/-- The receiver of a call is on the stack below the other arguments. -/
theorem leads_call_on {arguments : Arguments} {vs : List Word} {s'' : Store W} {receiver : Word}
    {callee : String} (values : arguments.eval p f s = some (vs, s'))
    (called : p.call callee (receiver :: vs) s' = (v, s'')) :
    Leads p block
      ⟨.call callee (arguments.count + 1) :: rest, vs.reverse ++ receiver :: stack, s'⟩
      ⟨rest, v :: stack, s''⟩ := by
  have below : vs.reverse ++ receiver :: stack = (receiver :: vs).reverse ++ stack := by simp
  rw [← arguments.length_of_eval values, below]
  exact leads_call callee (receiver :: vs) called

mutual

theorem Tree.Term.leads (t : Term) {rest : List Code} {stack : List Word} {s s' : Store W}
    {v : Word} (h : t.eval p f s = some (v, s')) :
    Leads p block ⟨t.code f ++ rest, stack, s⟩ ⟨rest, v :: stack, s'⟩ := by
  cases t with
  | integer digits value =>
      cases h
      exact leads_push_constant value
  | string content =>
      exact leads_string (Option.some.inj h)
  | constant word =>
      cases h
      exact leads_constant word
  | var name =>
      obtain ⟨w, found, same⟩ := Option.map_eq_some_iff.mp h
      cases same
      exact leads_push_name found
  | element base index =>
      obtain ⟨address, found, later⟩ := Option.bind_eq_some_iff.mp h
      obtain ⟨⟨i, _⟩, value, same⟩ := Option.map_eq_some_iff.mp later
      cases same
      simp only [Term.code, List.append_assoc]
      apply (leads_push_name found).trans
      apply (index.leads value).trans
      apply (leads_arithmetic rfl).trans
      exact leads_readElement (address + i)
  | call call => exact call.leads h
  | group inner => exact inner.leads h
  | unary op operand =>
      obtain ⟨⟨w, _⟩, value, same⟩ := Option.map_eq_some_iff.mp h
      cases same
      simp only [Term.code, List.append_assoc]
      apply (operand.leads value).trans
      exact leads_unary op
termination_by structural t

theorem Tree.Expression.leads (e : Expression) {rest : List Code} {stack : List Word}
    {s s' : Store W} {v : Word} (h : e.eval p f s = some (v, s')) :
    Leads p block ⟨e.code f ++ rest, stack, s⟩ ⟨rest, v :: stack, s'⟩ := by
  cases e with
  | of first more =>
      obtain ⟨⟨w, between⟩, value, later⟩ := Option.bind_eq_some_iff.mp h
      simp only [Expression.code, List.append_assoc]
      apply (first.leads value).trans
      exact more.leads later
termination_by structural e

theorem Tree.Operations.leads (more : Operations) {rest : List Code} {stack : List Word}
    {s s' : Store W} {v w : Word} (h : more.eval p f w s = some (v, s')) :
    Leads p block ⟨more.code f ++ rest, w :: stack, s⟩ ⟨rest, v :: stack, s'⟩ := by
  cases more with
  | nil =>
      cases h
      exact .refl _
  | cons op operand more =>
      obtain ⟨⟨x, between⟩, value, later⟩ := Option.bind_eq_some_iff.mp h
      simp only [Operations.code, List.append_assoc, List.cons_append]
      apply (operand.leads value).trans
      apply (leads_binary op x).trans
      exact more.leads later
termination_by structural more

theorem Tree.Call.leads (call : Tree.Call) {rest : List Code} {stack : List Word}
    {s s' : Store W} {v : Word} (h : call.eval p f s = some (v, s')) :
    Leads p block ⟨call.code f ++ rest, stack, s⟩ ⟨rest, v :: stack, s'⟩ := by
  cases call with
  | own name arguments =>
      obtain ⟨⟨vs, _⟩, values, same⟩ := Option.map_eq_some_iff.mp h
      simp only [Call.code, List.append_assoc, List.cons_append, List.nil_append]
      apply leads_push_this.trans
      apply (arguments.leads values).trans
      exact leads_call_on values same
  | qualified qualifier name arguments =>
      cases found : f.resolve? qualifier with
      | some receiver =>
          simp only [Call.eval, found] at h
          obtain ⟨⟨vs, _⟩, values, same⟩ := Option.map_eq_some_iff.mp h
          simp only [Call.code, found, List.append_assoc, List.cons_append, List.nil_append]
          apply (leads_push_variable receiver.kind receiver.index).trans
          apply (arguments.leads values).trans
          exact leads_call_on values same
      | none =>
          simp only [Call.eval, found] at h
          obtain ⟨⟨vs, _⟩, values, same⟩ := Option.map_eq_some_iff.mp h
          simp only [Call.code, found, List.append_assoc, List.cons_append, List.nil_append]
          apply (arguments.leads values).trans
          exact leads_call_of_eval values same
termination_by structural call

theorem Tree.Arguments.leads (arguments : Arguments) {rest : List Code} {stack : List Word}
    {s s' : Store W} {vs : List Word} (h : arguments.eval p f s = some (vs, s')) :
    Leads p block ⟨arguments.code f ++ rest, stack, s⟩ ⟨rest, vs.reverse ++ stack, s'⟩ := by
  cases arguments with
  | nil =>
      cases h
      exact .refl _
  | cons first more =>
      obtain ⟨⟨w, between⟩, value, later⟩ := Option.bind_eq_some_iff.mp h
      obtain ⟨⟨ws, _⟩, values, same⟩ := Option.map_eq_some_iff.mp later
      cases same
      simp only [Arguments.code, List.append_assoc, List.reverse_cons, List.singleton_append]
      apply (first.leads value).trans
      exact more.leads values
termination_by structural arguments

end

end Expressions

/-! ### Statements -/

section Statements

variable {W : Type} {p : Platform W} {f : Frame} {block rest between : List Code}
  {stack : List Word} {s s' : Store W} {v : Word} {o : Outcome}

open Config

/-- Whether a configuration leads to where an outcome leaves a machine: in front of what stands
behind, or of a return with a value. -/
def Tree.Outcome.Reached (p : Platform W) (block : List Code) (c : Config W) (rest : List Code)
    (stack : List Word) (s : Store W) : Outcome → Prop
  | .next => Leads p block c ⟨rest, stack, s⟩
  | .returned v => ∃ behind, Leads p block c ⟨.ret :: behind, v :: stack, s⟩

theorem Tree.Outcome.Reached.after {c c' : Config W} (h : Leads p block c c')
    (h' : o.Reached p block c' rest stack s) : o.Reached p block c rest stack s := by
  cases o with
  | next => exact h.trans h'
  | returned v =>
      obtain ⟨behind, returns⟩ := h'
      exact ⟨behind, h.trans returns⟩

theorem Tree.Outcome.Reached.before {c : Config W} (h : o.Reached p block c between stack s)
    (h' : Leads p block ⟨between, stack, s⟩ ⟨rest, stack, s⟩) :
    o.Reached p block c rest stack s := by
  cases o with
  | next => exact h.trans h'
  | returned v => exact h

theorem suffix_of_append {first : List Code} (h : first ++ rest <:+ block) : rest <:+ block :=
  (List.suffix_append first rest).trans h

theorem suffix_of_cons {i : Code} (h : i :: rest <:+ block) : rest <:+ block :=
  (List.suffix_cons i rest).trans h

mutual

/-- A machine does what a statement does. -/
theorem Tree.Statement.Runs.reached {st : Statement} {o : Outcome} {s s' : Store W}
    (h : st.Runs p f s o s') (once : (Code.labels block).Nodup) (b l : Nat) {rest : List Code}
    (stack : List Word) (within : st.code f b l ++ rest <:+ block) :
    o.Reached p block ⟨st.code f b l ++ rest, stack, s⟩ rest stack s' := by
  match h with
  | .assign found value =>
      simp only [Statement.code, List.append_assoc]
      exact (Expression.leads _ value).trans (leads_pop_name found)
  | .store found index value =>
      simp only [Statement.code, List.append_assoc, List.cons_append, List.nil_append]
      apply (leads_push_name found).trans
      apply (Expression.leads _ index).trans
      apply (leads_arithmetic rfl).trans
      apply (Expression.leads _ value).trans
      exact leads_writeElement _ _
  | .branch_holds holds body =>
      simp only [Statement.code, List.append_assoc, List.cons_append, List.nil_append] at within ⊢
      have inner := suffix_of_cons (suffix_of_cons (suffix_of_append within))
      have after := suffix_of_cons (suffix_of_cons (suffix_of_append inner))
      apply Outcome.Reached.after ((Expression.leads _ holds).trans leads_stay)
      apply (body.reached once (b + 1) l stack inner).before
      exact (leads_goto once after).trans (leads_label _)
  | .branch_fails value fails =>
      simp only [Statement.code, List.append_assoc, List.cons_append, List.nil_append] at within ⊢
      have inner := suffix_of_cons (suffix_of_cons (suffix_of_append within))
      have after := suffix_of_cons (suffix_of_append inner)
      apply (Expression.leads _ value).trans
      apply (leads_skip fails once after).trans
      exact (leads_label _).trans (leads_label _)
  | .branchElse_holds holds body =>
      simp only [Statement.code, List.append_assoc, List.cons_append, List.nil_append] at within ⊢
      have inner := suffix_of_cons (suffix_of_cons (suffix_of_append within))
      have after := suffix_of_append (suffix_of_cons (suffix_of_cons (suffix_of_append inner)))
      apply Outcome.Reached.after ((Expression.leads _ holds).trans leads_stay)
      apply (body.reached once (b + 1) l stack inner).before
      exact (leads_goto once after).trans (leads_label _)
  | .branchElse_fails value fails other =>
      simp only [Statement.code, List.append_assoc, List.cons_append, List.nil_append] at within ⊢
      have inner := suffix_of_cons (suffix_of_cons (suffix_of_append within))
      have after := suffix_of_cons (suffix_of_append inner)
      apply Outcome.Reached.after ((Expression.leads _ value).trans (leads_skip fails once after))
      apply Outcome.Reached.after (leads_label _)
      apply (other.reached once _ _ stack (suffix_of_cons after)).before
      exact leads_label _
  | .loop_again holds body again =>
      have start := again.reached once b l stack within
      simp only [Statement.code, List.append_assoc, List.cons_append, List.nil_append] at within ⊢
      simp only [Statement.code, List.append_assoc, List.cons_append, List.nil_append] at start
      have inner := suffix_of_cons (suffix_of_cons (suffix_of_append (suffix_of_cons within)))
      apply Outcome.Reached.after (leads_label _)
      apply Outcome.Reached.after ((Expression.leads _ holds).trans leads_stay)
      have done := body.reached once b (l + 1) stack inner
      apply Outcome.Reached.after done
      exact .after (leads_goto once within) start
  | .loop_returns holds body =>
      simp only [Statement.code, List.append_assoc, List.cons_append, List.nil_append] at within ⊢
      have inner := suffix_of_cons (suffix_of_cons (suffix_of_append (suffix_of_cons within)))
      apply Outcome.Reached.after (leads_label _)
      apply Outcome.Reached.after ((Expression.leads _ holds).trans leads_stay)
      exact body.reached once b (l + 1) stack inner
  | .loop_ends value fails =>
      simp only [Statement.code, List.append_assoc, List.cons_append, List.nil_append] at within ⊢
      have inner := suffix_of_cons (suffix_of_cons (suffix_of_append (suffix_of_cons within)))
      have after := suffix_of_cons (suffix_of_append inner)
      apply (leads_label _).trans
      apply (Expression.leads _ value).trans
      exact (leads_skip fails once after).trans (leads_label _)
  | .perform value =>
      simp only [Statement.code, List.append_assoc]
      exact (Call.leads _ value).trans (leads_pop_temp _)
  | .ret_nothing => exact ⟨rest, leads_push_constant 0⟩
  | .ret value =>
      simp only [Statement.code, List.append_assoc]
      exact ⟨rest, Expression.leads _ value⟩

theorem Tree.Statements.Runs.reached {ss : Statements} {o : Outcome} {s s' : Store W}
    (h : ss.Runs p f s o s') (once : (Code.labels block).Nodup) (b l : Nat) {rest : List Code}
    (stack : List Word) (within : ss.code f b l ++ rest <:+ block) :
    o.Reached p block ⟨ss.code f b l ++ rest, stack, s⟩ rest stack s' := by
  match h with
  | .nil => exact .refl _
  | .next first more =>
      simp only [Statements.code, List.append_assoc] at within ⊢
      have done := first.reached once b l stack within
      exact .after done (more.reached once _ _ stack (suffix_of_append within))
  | .returns first =>
      simp only [Statements.code, List.append_assoc] at within ⊢
      exact first.reached once b l stack within

end

end Statements

/-! ### Subroutines -/

section Subroutines

variable {W : Type} {p : Platform W} {c : Tree.Class} {sub : Subroutine} {block rest : List Code}
  {stack : List Word} {s s' : Store W} {v : Word}

open Config

/-- The header and the prologue of a subroutine lead to the store in front of its statements. -/
theorem leads_start (name : String) :
    Leads p block ⟨.function name sub.localCount :: (sub.prologue c ++ rest), stack, s⟩
      ⟨rest, stack, sub.start p c s⟩ := by
  apply (leads_function name sub.localCount).trans
  unfold Subroutine.prologue Subroutine.start
  cases sub.kind with
  | constructor =>
      apply (leads_push_constant c.fieldCount).trans
      apply (leads_call "Memory.alloc" [BitVec.ofNat 16 c.fieldCount] (Prod.eta _).symm).trans
      exact leads_pop_this _
  | function => exact .refl _
  | method =>
      apply (leads_push_variable .argument 0).trans
      exact leads_pop_this _

/-- Code of a subroutine leads to a return with the value that its tree returns. -/
theorem Tree.Subroutine.Returns.reached (h : sub.Returns p c s v s') (b l : Nat)
    (stack : List Word) :
    ∃ behind, Leads p (sub.code c b l) ⟨sub.code c b l, stack, s⟩
      ⟨.ret :: behind, v :: stack, s'⟩ := by
  have within : sub.body.code (sub.frame c) b l ++ [] <:+ sub.code c b l := by
    rw [List.append_nil, Subroutine.code]
    exact (List.suffix_append _ _).trans (List.suffix_cons _ _)
  obtain ⟨behind, returns⟩ := Statements.Runs.reached h (sub.nodup_labels c b l) b l stack within
  rw [List.append_nil] at returns
  exact ⟨behind, (leads_start _).trans returns⟩

theorem getElem?_blocksFrom (subs : List Subroutine) {b l i : Nat}
    (found : (c.blocksFrom b l subs)[i]? = some block) (known : subs[i]? = some sub) :
    ∃ b' l', block = sub.code c b' l' := by
  induction subs generalizing b l i with
  | nil => cases known
  | cons first subs ih =>
      cases i with
      | zero =>
          cases found
          cases known
          exact ⟨b, l, rfl⟩
      | succ i => exact ih found known

theorem length_blocksFrom (subs : List Subroutine) (b l : Nat) :
    (c.blocksFrom b l subs).length = subs.length := by
  induction subs generalizing b l with
  | nil => rfl
  | cons first subs ih => exact congrArg (· + 1) (ih _ _)

end Subroutines

/-- The functions of a class that was compiled are its subroutines, and each does what its tree
says: whenever the tree returns a value, a machine at the start of the function reaches a return
with this value on the stack and in the same store. -/
theorem functions_return_values (source : Source) (filename : Option String) (strict : Bool)
    (chunkSize : Int) (positive : 0 < chunkSize) (code : List Code)
    (compiled : compileSource source filename strict chunkSize = .ok code) :
    ∃ (tokens : List Token) (c : Tree.Class),
      Lexer.tokensOf source chunkSize filename = .ok tokens ∧
      c.lexemes = tokens.map Token.lexeme ∧
      (Code.blocks code).length = c.subroutines.length ∧
      ∀ (i : Nat) (block : List Code) (sub : Subroutine),
        (Code.blocks code)[i]? = some block → c.subroutines[i]? = some sub →
        ∀ (W : Type) (p : Platform W) (m : Machine W) (v : Word) (s : Store W), m.pc = 0 →
          sub.Returns p c m.store v s →
          ∃ m', Machine.Reaches p block m m' ∧ block[m'.pc]? = some .ret ∧
            m'.stack = v :: m.stack ∧ m'.store = s := by
  obtain ⟨tokens, c, read, spelled, -, rfl⟩ := exists_tree_of_compileSource positive compiled
  have functions : Code.blocks c.code = c.blocksFrom 0 0 c.subroutines := c.blocks_codeFrom 0 0 _
  rw [functions]
  refine ⟨tokens, c, read, spelled.symm, length_blocksFrom _ _ _, ?_⟩
  intro i block sub found known W p m v s start returns
  obtain ⟨b, l, rfl⟩ := getElem?_blocksFrom c.subroutines found known
  obtain ⟨behind, leads⟩ := returns.reached b l m.stack
  obtain ⟨m', reached, shows⟩ := leads m ⟨by rw [start]; rfl, rfl, rfl⟩
  exact ⟨m', reached, shows.instruction, shows.stack, shows.store⟩

/-- A function that adds up the numbers from its argument down to one. -/
def Tree.total : Subroutine where
  kind := .function
  result := some .int
  name := "f"
  parameters := [⟨.int, "n"⟩]
  locals := [⟨.int, "s", []⟩]
  body :=
    .cons (.loop (.of (.var "n") (.cons .greater (.integer "0" 0) .nil))
      (.cons (.assign "s" (.of (.var "s") (.cons .add (.var "n") .nil)))
      (.cons (.assign "n" (.of (.var "n") (.cons .subtract (.integer "1" 1) .nil))) .nil)))
    (.cons (.ret (some (.of (.var "s") .nil))) .nil)

/-- A platform whose calls answer zero and change nothing, and whose local variables start as
zero. -/
def Platform.still : Platform Unit where
  answer _ _ memory := (0, memory)
  scratch _ _ _ temp := temp
  enter _ _ _ := 0

/-- A machine in front of a function with one argument. -/
def Machine.atStart (argument : Word) : Machine Unit where
  pc := 0
  stack := []
  store := ⟨⟨fun _ => 0, fun _ => 0, ()⟩, fun _ => 0, fun _ => argument, 0⟩
  that := 0
  temp _ := 0

theorem total_returns : ∃ s,
    total.Returns .still ⟨"A", [], [total]⟩ (Machine.atStart 1).store 1 s := by
  let f := total.frame ⟨"A", [], [total]⟩
  let before := total.start .still ⟨"A", [], [total]⟩ (Machine.atStart 1).store
  let added := before.write 1 .localVar 0
  let after := added.write (1 - 1) .argument 0
  have s : f.resolve? "s" = some ⟨"s", "int", .localVar, 0⟩ := rfl
  have n : f.resolve? "n" = some ⟨"n", "int", .argument, 0⟩ := rfl
  have first : Statement.Runs .still f
      (.assign "s" (.of (.var "s") (.cons .add (.var "n") .nil))) before .next added :=
    .assign s rfl
  have second : Statement.Runs .still f
      (.assign "n" (.of (.var "n") (.cons .subtract (.integer "1" 1) .nil))) added .next after :=
    .assign n rfl
  have again : Statement.Runs .still f
      (.loop (.of (.var "n") (.cons .greater (.integer "0" 0) .nil))
      (.cons (.assign "s" (.of (.var "s") (.cons .add (.var "n") .nil)))
      (.cons (.assign "n" (.of (.var "n") (.cons .subtract (.integer "1" 1) .nil))) .nil)))
      after .next after :=
    .loop_ends (v := 0) rfl (by decide)
  exact ⟨after, .next (.loop_again rfl (.next first (.next second .nil)) again)
    (.returns (.ret rfl))⟩

theorem functions_return_values_at_total :
    let source : Source :=
      .text ("class A\x7bfunction int f(int n)\x7bvar int s;while(n>0)\x7b" ++
        "let s=s+n;let n=n-1;\x7dreturn s;\x7d\x7d")
    let block : List Code :=
      [.function "A.f" 1, .label (.loopStart 0), .push .argument 0, .push .constant 0,
        .arithmetic .gt, .arithmetic .not, .ifGoto (.loopEnd 0), .push .localVar 0,
        .push .argument 0, .arithmetic .add, .pop .localVar 0, .push .argument 0,
        .push .constant 1, .arithmetic .sub, .pop .argument 0, .goto (.loopStart 0),
        .label (.loopEnd 0), .push .localVar 0, .ret]
    (0 : Int) < 32 ∧ compileSource source none false 32 = .ok block ∧
      ∃ m, Machine.Reaches .still block (.atStart 1) m ∧ block[m.pc]? = some .ret ∧
        m.stack = [1] := by
  intro source block
  have compiled : compileSource source none false 32 = .ok block := by decide +kernel
  have read : (Lexer.tokensOf source 32 none).toOption.map (·.map Token.lexeme) =
      some (Tree.Class.lexemes ⟨"A", [], [total]⟩) := by
    decide +kernel
  refine ⟨by decide, compiled, ?_⟩
  obtain ⟨tokens, c, found, spelled, -, runs⟩ :=
    functions_return_values source none false 32 (by decide) block compiled
  rw [found] at read
  obtain rfl : c = ⟨"A", [], [total]⟩ :=
    Tree.Class.lexemes_inj (spelled.trans (Option.some.inj read))
  obtain ⟨s, returns⟩ := total_returns
  obtain ⟨m, reached, stops, stack, -⟩ :=
    runs 0 block total (by decide +kernel) rfl Unit .still (.atStart 1) 1 s rfl returns
  exact ⟨m, reached, stops, stack⟩

end Jack
