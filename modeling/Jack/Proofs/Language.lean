import Jack.Proofs.Grammar

/-! # The language

No row of lexemes belongs to two trees, so what a source says and whether its names are
declared depend on its tokens only. A source compiles if and only if its tokens are
derived from the grammar and its names are declared.
-/

namespace Jack

/-- What a row starts with, if it is not empty. -/
def Behind (P : Lexeme → Prop) (row : List Lexeme) : Prop :=
  ∀ l ∈ row.head?, P l

theorem Behind.cons {P : Lexeme → Prop} {l : Lexeme} {row : List Lexeme} (h : P l) :
    Behind P (l :: row) := by
  intro l' first
  cases first
  exact h

theorem Behind.head {P : Lexeme → Prop} {l : Lexeme} {row : List Lexeme} (h : Behind P (l :: row)) :
    P l :=
  h l rfl

theorem Closes.ne_op {l : Lexeme} (h : Closes l) (op : BinaryOp) : l ≠ .symbol op.symbol := by
  rcases h with rfl | rfl | rfl | rfl <;> cases op <;> simp [BinaryOp.symbol]

theorem Follows.ne {l : Lexeme} (h : Follows l) :
    l ≠ .symbol .openBracket ∧ l ≠ .symbol .openParen ∧ l ≠ .symbol .dot := by
  rcases h with (rfl | rfl | rfl | rfl) | ⟨op, rfl⟩
  · simp
  · simp
  · simp
  · simp
  · cases op <;> simp [BinaryOp.symbol]

namespace Tree

theorem Operations.behind (rest : Operations) {row : List Lexeme} (b : Behind Closes row) :
    Behind Follows (rest.lexemes ++ row) := by
  cases rest with
  | nil =>
      intro l first
      exact .inl (b l first)
  | cons op operand rest => exact .cons (.inr ⟨op, rfl⟩)

theorem Arguments.behind (arguments : Arguments) {row : List Lexeme} :
    Behind Closes (arguments.moreLexemes ++ .symbol .closeParen :: row) := by
  obtain ⟨l, tail, whole, closes⟩ := arguments.closes row
  rw [whole]
  exact .cons closes

theorem Constant.keyword_inj {word word' : Constant} (h : word.keyword = word'.keyword) :
    word = word' := by
  cases word <;> cases word' <;> first | rfl | cases h

theorem unaryOp_symbol_inj {op op' : UnaryOp} (h : op.symbol = op'.symbol) : op = op' := by
  cases op <;> cases op' <;> first | rfl | cases h

theorem binaryOp_symbol_inj {op op' : BinaryOp} (h : op.symbol = op'.symbol) : op = op' := by
  cases op <;> cases op' <;> first | rfl | cases h

section Unique

mutual

theorem Term.unique (t t' : Term) {row row' : List Lexeme}
    (h : t.lexemes ++ row = t'.lexemes ++ row') (b : Behind Follows row)
    (b' : Behind Follows row') : t = t' ∧ row = row' := by
  cases t with
  | integer digits value =>
      cases t' with
      | integer digits' value' => simpa [Term.lexemes, and_assoc] using h
      | _ => simp [Term.lexemes, Call.lexemes_eq] at h
  | string content =>
      cases t' with
      | string content' => simpa [Term.lexemes] using h
      | _ => simp [Term.lexemes, Call.lexemes_eq] at h
  | constant word =>
      cases t' with
      | constant word' =>
          simp only [Term.lexemes, List.cons_append, List.nil_append, List.cons.injEq,
            Lexeme.keyword.injEq] at h
          exact ⟨by rw [Constant.keyword_inj h.1], h.2⟩
      | _ => simp [Term.lexemes, Call.lexemes_eq] at h
  | var name =>
      cases t' with
      | var name' => simpa [Term.lexemes] using h
      | element base index =>
          simp only [Term.lexemes, List.cons_append, List.nil_append, List.cons.injEq] at h
          rw [h.2] at b
          exact absurd rfl b.head.ne.1
      | call call =>
          obtain ⟨l, tail, whole, opens⟩ := call.opens
          simp only [Term.lexemes, Call.lexemes_eq, whole, List.cons_append, List.nil_append,
            List.cons.injEq] at h
          rw [h.2] at b
          rcases opens with rfl | rfl
          · exact absurd rfl b.head.ne.2.1
          · exact absurd rfl b.head.ne.2.2
      | _ => simp [Term.lexemes] at h
  | element base index =>
      cases t' with
      | var name =>
          simp only [Term.lexemes, List.cons_append, List.nil_append, List.cons.injEq] at h
          rw [← h.2] at b'
          exact absurd rfl b'.head.ne.1
      | element base' index' =>
          simp only [Term.lexemes, List.cons_append, List.append_assoc, List.nil_append,
            List.cons.injEq, Lexeme.identifier.injEq, true_and] at h
          obtain ⟨rfl, same⟩ := h
          obtain ⟨rfl, after⟩ := Expression.unique index index' same (.cons (.inl rfl))
            (.cons (.inl rfl))
          exact ⟨rfl, (List.cons.inj after).2⟩
      | call call =>
          cases call <;> simp [Term.lexemes, Call.lexemes] at h
      | _ => simp [Term.lexemes] at h
  | call call =>
      cases t' with
      | var name =>
          obtain ⟨l, tail, whole, opens⟩ := call.opens
          simp only [Term.lexemes, Call.lexemes_eq, whole, List.cons_append, List.nil_append,
            List.cons.injEq] at h
          rw [← h.2] at b'
          rcases opens with rfl | rfl
          · exact absurd rfl b'.head.ne.2.1
          · exact absurd rfl b'.head.ne.2.2
      | element base index =>
          cases call <;> simp [Term.lexemes, Call.lexemes] at h
      | call call' =>
          obtain ⟨rfl, after⟩ := Call.unique call call' h
          exact ⟨rfl, after⟩
      | _ => simp [Term.lexemes, Call.lexemes_eq] at h
  | group inner =>
      cases t' with
      | group inner' =>
          simp only [Term.lexemes, List.cons_append, List.append_assoc, List.nil_append,
            List.cons.injEq, true_and] at h
          obtain ⟨rfl, after⟩ := Expression.unique inner inner' h (.cons (.inr (.inl rfl)))
            (.cons (.inr (.inl rfl)))
          exact ⟨rfl, (List.cons.inj after).2⟩
      | unary op operand => cases op <;> simp [Term.lexemes, UnaryOp.symbol] at h
      | _ => simp [Term.lexemes, Call.lexemes_eq] at h
  | unary op operand =>
      cases t' with
      | group inner => cases op <;> simp [Term.lexemes, UnaryOp.symbol] at h
      | unary op' operand' =>
          simp only [Term.lexemes, List.cons_append, List.cons.injEq, Lexeme.symbol.injEq] at h
          obtain rfl := unaryOp_symbol_inj h.1
          obtain ⟨rfl, after⟩ := Term.unique operand operand' h.2 b b'
          exact ⟨rfl, after⟩
      | _ => simp [Term.lexemes, Call.lexemes_eq] at h
termination_by structural t

theorem Expression.unique (e e' : Expression) {row row' : List Lexeme}
    (h : e.lexemes ++ row = e'.lexemes ++ row') (b : Behind Closes row)
    (b' : Behind Closes row') : e = e' ∧ row = row' := by
  cases e with
  | of first rest =>
      cases e' with
      | of first' rest' =>
          rw [Expression.lexemes, Expression.lexemes, List.append_assoc, List.append_assoc] at h
          obtain ⟨rfl, same⟩ := Term.unique first first' h (rest.behind b) (rest'.behind b')
          obtain ⟨rfl, after⟩ := Operations.unique rest rest' same b b'
          exact ⟨rfl, after⟩
termination_by structural e

theorem Operations.unique (rest rest' : Operations) {row row' : List Lexeme}
    (h : rest.lexemes ++ row = rest'.lexemes ++ row') (b : Behind Closes row)
    (b' : Behind Closes row') : rest = rest' ∧ row = row' := by
  cases rest with
  | nil =>
      cases rest' with
      | nil => exact ⟨rfl, h⟩
      | cons op operand more =>
          simp only [Operations.lexemes, List.nil_append, List.cons_append] at h
          rw [h] at b
          exact absurd rfl (b.head.ne_op op)
  | cons op operand more =>
      cases rest' with
      | nil =>
          simp only [Operations.lexemes, List.nil_append, List.cons_append] at h
          rw [← h] at b'
          exact absurd rfl (b'.head.ne_op op)
      | cons op' operand' more' =>
          simp only [Operations.lexemes, List.cons_append, List.append_assoc, List.cons.injEq,
            Lexeme.symbol.injEq] at h
          obtain rfl := binaryOp_symbol_inj h.1
          obtain ⟨rfl, same⟩ := Term.unique operand operand' h.2 (more.behind b) (more'.behind b')
          obtain ⟨rfl, after⟩ := Operations.unique more more' same b b'
          exact ⟨rfl, after⟩
termination_by structural rest

theorem Call.unique (call call' : Tree.Call) {row row' : List Lexeme}
    (h : call.lexemes ++ row = call'.lexemes ++ row') : call = call' ∧ row = row' := by
  cases call with
  | own name arguments =>
      cases call' with
      | own name' arguments' =>
          simp only [Call.lexemes, List.cons_append, List.append_assoc, List.nil_append,
            List.cons.injEq, Lexeme.identifier.injEq, true_and] at h
          obtain ⟨rfl, same⟩ := h
          obtain ⟨rfl, after⟩ := Arguments.unique arguments arguments' same
          exact ⟨rfl, after⟩
      | qualified qualifier name' arguments' => simp [Call.lexemes] at h
  | qualified qualifier name arguments =>
      cases call' with
      | own name' arguments' => simp [Call.lexemes] at h
      | qualified qualifier' name' arguments' =>
          simp only [Call.lexemes, List.cons_append, List.append_assoc, List.nil_append,
            List.cons.injEq, Lexeme.identifier.injEq, true_and] at h
          obtain ⟨rfl, rfl, same⟩ := h
          obtain ⟨rfl, after⟩ := Arguments.unique arguments arguments' same
          exact ⟨rfl, after⟩
termination_by structural call

theorem Arguments.unique (arguments arguments' : Arguments) {row row' : List Lexeme}
    (h : arguments.lexemes ++ .symbol .closeParen :: row =
      arguments'.lexemes ++ .symbol .closeParen :: row') : arguments = arguments' ∧ row = row' := by
  cases arguments with
  | nil =>
      cases arguments' with
      | nil => exact ⟨rfl, (List.cons.inj h).2⟩
      | cons first rest =>
          obtain ⟨l, tail, whole, starts⟩ := first.starts
          simp only [Arguments.lexemes, whole, List.nil_append, List.cons_append,
            List.cons.injEq] at h
          exact absurd h.1.symm (starts.ne (by decide) rfl)
  | cons first rest =>
      cases arguments' with
      | nil =>
          obtain ⟨l, tail, whole, starts⟩ := first.starts
          simp only [Arguments.lexemes, whole, List.nil_append, List.cons_append,
            List.cons.injEq] at h
          exact absurd h.1 (starts.ne (by decide) rfl)
      | cons first' rest' =>
          rw [Arguments.lexemes, Arguments.lexemes, List.append_assoc, List.append_assoc] at h
          obtain ⟨rfl, same⟩ := Expression.unique first first' h rest.behind rest'.behind
          obtain ⟨rfl, after⟩ := Arguments.unique_more rest rest' same
          exact ⟨rfl, after⟩
termination_by structural arguments

theorem Arguments.unique_more (arguments arguments' : Arguments) {row row' : List Lexeme}
    (h : arguments.moreLexemes ++ .symbol .closeParen :: row =
      arguments'.moreLexemes ++ .symbol .closeParen :: row') :
    arguments = arguments' ∧ row = row' := by
  cases arguments with
  | nil =>
      cases arguments' with
      | nil => exact ⟨rfl, (List.cons.inj h).2⟩
      | cons first rest => simp [Arguments.moreLexemes] at h
  | cons first rest =>
      cases arguments' with
      | nil => simp [Arguments.moreLexemes] at h
      | cons first' rest' =>
          simp only [Arguments.moreLexemes, List.cons_append, List.append_assoc, List.cons.injEq,
            true_and] at h
          obtain ⟨rfl, same⟩ := Expression.unique first first' h rest.behind rest'.behind
          obtain ⟨rfl, after⟩ := Arguments.unique_more rest rest' same
          exact ⟨rfl, after⟩
termination_by structural arguments

end

/-- Nothing but an `else` tells a branch that has another way from one that has not. -/
def NoElse (l : Lexeme) : Prop :=
  l ≠ .keyword .elseWord

theorem Statements.behind (ss : Statements) {row : List Lexeme} :
    Behind NoElse (ss.lexemes ++ .symbol .closeBrace :: row) := by
  obtain ⟨l, tail, whole, noElse, -⟩ := ss.starts row
  rw [whole]
  exact .cons noElse

theorem closes_semicolon {row : List Lexeme} : Behind Closes (.symbol .semicolon :: row) :=
  .cons (.inr (.inr (.inl rfl)))

theorem closes_closeParen {row : List Lexeme} : Behind Closes (.symbol .closeParen :: row) :=
  .cons (.inr (.inl rfl))

theorem closes_closeBracket {row : List Lexeme} : Behind Closes (.symbol .closeBracket :: row) :=
  .cons (.inl rfl)

theorem Statement.unique_ret (value : Option Expression) (st' : Statement)
    {row row' : List Lexeme} (h : (Statement.ret value).lexemes ++ row = st'.lexemes ++ row') :
    .ret value = st' ∧ row = row' := by
  cases st' with
  | ret value' =>
      cases value with
      | none =>
          cases value' with
          | none => exact ⟨rfl, (List.cons.inj (List.cons.inj h).2).2⟩
          | some value' =>
              obtain ⟨l, tail, whole, starts⟩ := value'.starts
              simp only [Statement.lexemes, whole, List.cons_append, List.cons.injEq,
                true_and] at h
              exact absurd h.1.symm (starts.ne (by decide) rfl)
      | some value =>
          cases value' with
          | none =>
              obtain ⟨l, tail, whole, starts⟩ := value.starts
              simp only [Statement.lexemes, whole, List.cons_append, List.cons.injEq,
                true_and] at h
              exact absurd h.1 (starts.ne (by decide) rfl)
          | some value' =>
              simp only [Statement.lexemes, List.cons_append, List.append_assoc, List.nil_append,
                List.cons.injEq, true_and] at h
              obtain ⟨rfl, after⟩ := value.unique value' h closes_semicolon closes_semicolon
              exact ⟨rfl, (List.cons.inj after).2⟩
  | _ => cases value <;> simp [Statement.lexemes] at h

theorem Statement.ne_closeBrace (st : Statement) {row row' : List Lexeme} :
    .symbol .closeBrace :: row ≠ st.lexemes ++ row' := by
  cases st with
  | ret value => cases value <;> simp [Statement.lexemes]
  | _ => simp [Statement.lexemes]

mutual

theorem Statement.unique (st st' : Statement) {row row' : List Lexeme}
    (h : st.lexemes ++ row = st'.lexemes ++ row') (b : Behind NoElse row)
    (b' : Behind NoElse row') : st = st' ∧ row = row' := by
  cases st with
  | assign target value =>
      cases st' with
      | assign target' value' =>
          simp only [Statement.lexemes, List.cons_append, List.append_assoc, List.nil_append,
            List.cons.injEq, Lexeme.identifier.injEq, true_and] at h
          obtain ⟨rfl, same⟩ := h
          obtain ⟨rfl, after⟩ := value.unique value' same closes_semicolon closes_semicolon
          exact ⟨rfl, (List.cons.inj after).2⟩
      | ret value' => cases value' <;> simp [Statement.lexemes] at h
      | _ => simp [Statement.lexemes] at h
  | store base index value =>
      cases st' with
      | store base' index' value' =>
          simp only [Statement.lexemes, List.cons_append, List.append_assoc, List.nil_append,
            List.cons.injEq, Lexeme.identifier.injEq, true_and] at h
          obtain ⟨rfl, same⟩ := h
          obtain ⟨rfl, after⟩ := index.unique index' same closes_closeBracket closes_closeBracket
          simp only [List.cons.injEq, true_and] at after
          obtain ⟨rfl, later⟩ := value.unique value' after closes_semicolon closes_semicolon
          exact ⟨rfl, (List.cons.inj later).2⟩
      | ret value' => cases value' <;> simp [Statement.lexemes] at h
      | _ => simp [Statement.lexemes] at h
  | branch condition body =>
      cases st' with
      | branch condition' body' =>
          simp only [Statement.lexemes, List.cons_append, List.append_assoc, List.nil_append,
            List.cons.injEq, true_and] at h
          obtain ⟨rfl, after⟩ := condition.unique condition' h closes_closeParen closes_closeParen
          simp only [List.cons.injEq, true_and] at after
          obtain ⟨rfl, later⟩ := Statements.unique body body' after
          exact ⟨rfl, later⟩
      | branchElse condition' body' other =>
          simp only [Statement.lexemes, List.cons_append, List.append_assoc, List.nil_append,
            List.cons.injEq, true_and] at h
          obtain ⟨rfl, after⟩ := condition.unique condition' h closes_closeParen closes_closeParen
          simp only [List.cons.injEq, true_and] at after
          obtain ⟨rfl, later⟩ := Statements.unique body body' after
          rw [later] at b
          exact absurd rfl b.head
      | ret value' => cases value' <;> simp [Statement.lexemes] at h
      | _ => simp [Statement.lexemes] at h
  | branchElse condition body other =>
      cases st' with
      | branch condition' body' =>
          simp only [Statement.lexemes, List.cons_append, List.append_assoc, List.nil_append,
            List.cons.injEq, true_and] at h
          obtain ⟨rfl, after⟩ := condition.unique condition' h closes_closeParen closes_closeParen
          simp only [List.cons.injEq, true_and] at after
          obtain ⟨rfl, later⟩ := Statements.unique body body' after
          rw [← later] at b'
          exact absurd rfl b'.head
      | branchElse condition' body' other' =>
          simp only [Statement.lexemes, List.cons_append, List.append_assoc, List.nil_append,
            List.cons.injEq, true_and] at h
          obtain ⟨rfl, after⟩ := condition.unique condition' h closes_closeParen closes_closeParen
          simp only [List.cons.injEq, true_and] at after
          obtain ⟨rfl, later⟩ := Statements.unique body body' after
          simp only [List.cons.injEq, true_and] at later
          obtain ⟨rfl, tail⟩ := Statements.unique other other' later
          exact ⟨rfl, tail⟩
      | ret value' => cases value' <;> simp [Statement.lexemes] at h
      | _ => simp [Statement.lexemes] at h
  | loop condition body =>
      cases st' with
      | loop condition' body' =>
          simp only [Statement.lexemes, List.cons_append, List.append_assoc, List.nil_append,
            List.cons.injEq, true_and] at h
          obtain ⟨rfl, after⟩ := condition.unique condition' h closes_closeParen closes_closeParen
          simp only [List.cons.injEq, true_and] at after
          obtain ⟨rfl, later⟩ := Statements.unique body body' after
          exact ⟨rfl, later⟩
      | ret value' => cases value' <;> simp [Statement.lexemes] at h
      | _ => simp [Statement.lexemes] at h
  | perform call =>
      cases st' with
      | perform call' =>
          simp only [Statement.lexemes, List.cons_append, List.append_assoc, List.nil_append,
            List.cons.injEq, true_and] at h
          obtain ⟨rfl, after⟩ := call.unique call' h
          exact ⟨rfl, (List.cons.inj after).2⟩
      | ret value' => cases value' <;> simp [Statement.lexemes] at h
      | _ => simp [Statement.lexemes] at h
  | ret value => exact Statement.unique_ret value st' h
termination_by structural st

theorem Statements.unique (ss ss' : Statements) {row row' : List Lexeme}
    (h : ss.lexemes ++ .symbol .closeBrace :: row = ss'.lexemes ++ .symbol .closeBrace :: row') :
    ss = ss' ∧ row = row' := by
  cases ss with
  | nil =>
      cases ss' with
      | nil => exact ⟨rfl, (List.cons.inj h).2⟩
      | cons first rest =>
          rw [Statements.lexemes, Statements.lexemes, List.nil_append, List.append_assoc] at h
          exact absurd h first.ne_closeBrace
  | cons first rest =>
      cases ss' with
      | nil =>
          rw [Statements.lexemes, Statements.lexemes, List.nil_append, List.append_assoc] at h
          exact absurd h.symm first.ne_closeBrace
      | cons first' rest' =>
          rw [Statements.lexemes, Statements.lexemes, List.append_assoc, List.append_assoc] at h
          obtain ⟨rfl, after⟩ := Statement.unique first first' h rest.behind rest'.behind
          obtain ⟨rfl, later⟩ := Statements.unique rest rest' after
          exact ⟨rfl, later⟩
termination_by structural ss

end

/-- Things that end by themselves and are followed by what starts none of them are as unique as
each of them. -/
theorem unique_flatMap {α : Type} {f : α → List Lexeme} {P : Lexeme → Prop}
    (each : ∀ a b row row', f a ++ row = f b ++ row' → a = b ∧ row = row')
    (starts : ∀ a, ∃ l tail, f a = l :: tail ∧ ¬ P l) (as bs : List α) {row row' : List Lexeme}
    (h : as.flatMap f ++ row = bs.flatMap f ++ row') (b : Behind P row) (b' : Behind P row') :
    as = bs ∧ row = row' := by
  induction as generalizing bs with
  | nil =>
      cases bs with
      | nil => exact ⟨rfl, h⟩
      | cons other bs =>
          obtain ⟨l, tail, whole, noStart⟩ := starts other
          rw [List.flatMap_nil, List.flatMap_cons, whole, List.nil_append] at h
          rw [h] at b
          exact absurd b.head noStart
  | cons a as ih =>
      cases bs with
      | nil =>
          obtain ⟨l, tail, whole, noStart⟩ := starts a
          rw [List.flatMap_nil, List.flatMap_cons, whole, List.nil_append] at h
          rw [← h] at b'
          exact absurd b'.head noStart
      | cons other bs =>
          rw [List.flatMap_cons, List.flatMap_cons, List.append_assoc, List.append_assoc] at h
          obtain ⟨rfl, after⟩ := each a other _ _ h
          obtain ⟨rfl, later⟩ := ih bs after
          exact ⟨rfl, later⟩

theorem TypeName.lexeme_inj {type type' : TypeName} (h : type.lexeme = type'.lexeme) :
    type = type' := by
  cases type <;> cases type' <;> simp_all [lexeme]

theorem Declaration.unique (d d' : Declaration) {row row' : List Lexeme}
    (h : d.tail ++ row = d'.tail ++ row') : d = d' ∧ row = row' := by
  obtain ⟨type, first, more⟩ := d
  obtain ⟨type', first', more'⟩ := d'
  simp only [Declaration.tail, List.cons_append, List.append_assoc, List.nil_append,
    List.cons.injEq, Lexeme.identifier.injEq] at h
  obtain ⟨sameType, rfl, same⟩ := h
  obtain rfl := TypeName.lexeme_inj sameType
  obtain ⟨rfl, after⟩ := unique_flatMap (f := fun name => [.symbol .comma, .identifier name])
    (P := fun l => l ≠ .symbol .comma) (by simp) (by simp) more more' same (.cons (by simp))
    (.cons (by simp))
  exact ⟨rfl, (List.cons.inj after).2⟩

theorem ClassVariables.unique (v v' : ClassVariables) {row row' : List Lexeme}
    (h : v.lexemes ++ row = v'.lexemes ++ row') : v = v' ∧ row = row' := by
  obtain ⟨keeping, d⟩ := v
  obtain ⟨keeping', d'⟩ := v'
  simp only [ClassVariables.lexemes, Declaration.lexemes, List.cons_append, List.cons.injEq,
    Lexeme.keyword.injEq] at h
  obtain ⟨sameKeeping, same⟩ := h
  obtain rfl : keeping = keeping' := by
    cases keeping <;> cases keeping' <;> simp_all [Keeping.keyword]
  obtain ⟨rfl, after⟩ := Declaration.unique d d' same
  exact ⟨rfl, after⟩

theorem Parameter.unique (p p' : Parameter) {row row' : List Lexeme}
    (h : p.lexemes ++ row = p'.lexemes ++ row') : p = p' ∧ row = row' := by
  obtain ⟨type, name⟩ := p
  obtain ⟨type', name'⟩ := p'
  simp only [Parameter.lexemes, List.cons_append, List.nil_append, List.cons.injEq,
    Lexeme.identifier.injEq] at h
  obtain ⟨sameType, rfl, same⟩ := h
  obtain rfl := TypeName.lexeme_inj sameType
  exact ⟨rfl, same⟩

theorem Parameter.unique_rowOf (ps ps' : List Parameter) {row row' : List Lexeme}
    (h : Parameter.rowOf ps ++ .symbol .closeParen :: row =
      Parameter.rowOf ps' ++ .symbol .closeParen :: row') : ps = ps' ∧ row = row' := by
  cases ps with
  | nil =>
      cases ps' with
      | nil => exact ⟨rfl, (List.cons.inj h).2⟩
      | cons p ps' =>
          obtain ⟨type, name⟩ := p
          cases type <;> simp [Parameter.rowOf, Parameter.lexemes, TypeName.lexeme] at h
  | cons p ps =>
      cases ps' with
      | nil =>
          obtain ⟨type, name⟩ := p
          cases type <;> simp [Parameter.rowOf, Parameter.lexemes, TypeName.lexeme] at h
      | cons p' ps' =>
          rw [Parameter.rowOf, Parameter.rowOf, List.append_assoc, List.append_assoc] at h
          obtain ⟨rfl, same⟩ := Parameter.unique p p' h
          have each (q q' : Parameter) (row row' : List Lexeme)
              (h : .symbol .comma :: q.lexemes ++ row = .symbol .comma :: q'.lexemes ++ row') :
              q = q' ∧ row = row' :=
            Parameter.unique q q' (List.cons.inj h).2
          obtain ⟨rfl, after⟩ := unique_flatMap (P := fun l => l ≠ .symbol .comma) each
            (fun q => ⟨_, _, rfl, by simp⟩) ps ps' same (.cons (by simp)) (.cons (by simp))
          exact ⟨rfl, (List.cons.inj after).2⟩

theorem Subroutine.resultLexeme_inj {result result' : Option TypeName}
    (h : (match result with
      | none => Lexeme.keyword .voidWord
      | some type => type.lexeme) = match result' with
      | none => .keyword .voidWord
      | some type => type.lexeme) : result = result' := by
  cases result with
  | none =>
      cases result' with
      | none => rfl
      | some type => cases type <;> simp [TypeName.lexeme] at h
  | some type =>
      cases result' with
      | none => cases type <;> simp [TypeName.lexeme] at h
      | some type' => rw [TypeName.lexeme_inj h]

theorem Subroutine.unique (sub sub' : Subroutine) {row row' : List Lexeme}
    (h : sub.lexemes ++ row = sub'.lexemes ++ row') : sub = sub' ∧ row = row' := by
  obtain ⟨kind, result, name, ps, ds, body⟩ := sub
  obtain ⟨kind', result', name', ps', ds', body'⟩ := sub'
  simp only [Subroutine.lexemes, Subroutine.tail, List.cons_append, List.append_assoc,
    List.cons.injEq, Lexeme.keyword.injEq, Lexeme.identifier.injEq, true_and] at h
  obtain ⟨sameKind, sameResult, rfl, same⟩ := h
  obtain rfl : kind = kind' := by
    cases kind <;> cases kind' <;> simp_all [keywordOf]
  obtain rfl := Subroutine.resultLexeme_inj sameResult
  obtain ⟨rfl, after⟩ := Parameter.unique_rowOf ps ps' same
  simp only [Subroutine.bodyLexemes, List.cons_append, List.append_assoc, List.nil_append,
    List.cons.injEq, true_and] at after
  have each (d d' : Declaration) (row row' : List Lexeme)
      (h : d.lexemes .varWord ++ row = d'.lexemes .varWord ++ row') : d = d' ∧ row = row' :=
    d.unique d' (List.cons.inj h).2
  have noVar (ss : Statements) (row : List Lexeme) :
      Behind (fun l => l ≠ .keyword .varWord) (ss.lexemes ++ .symbol .closeBrace :: row) := by
    obtain ⟨l, tail, whole, -, noVar⟩ := ss.starts row
    rw [whole]
    exact .cons noVar
  obtain ⟨rfl, later⟩ := unique_flatMap each (fun d => ⟨_, _, rfl, by simp⟩) ds ds' after
    (noVar body _) (noVar body' _)
  obtain ⟨rfl, last⟩ := body.unique body' later
  exact ⟨rfl, last⟩

/-- A row belongs to one class. -/
theorem Class.lexemes_inj {c c' : Class} (h : c.lexemes = c'.lexemes) : c = c' := by
  obtain ⟨name, vs, subs⟩ := c
  obtain ⟨name', vs', subs'⟩ := c'
  simp only [Class.lexemes, List.cons.injEq, Lexeme.identifier.injEq, true_and] at h
  obtain ⟨rfl, same⟩ := h
  have noVariable (subs : List Subroutine) :
      Behind (fun l => ∀ keeping : Keeping, l ≠ .keyword keeping.keyword)
        (subs.flatMap Subroutine.lexemes ++ [.symbol .closeBrace]) := by
    cases subs with
    | nil => exact .cons (by simp)
    | cons sub subs =>
        refine .cons fun keeping => ?_
        cases sub.kind <;> cases keeping <;> simp [keywordOf, Keeping.keyword]
  have noSubroutine : Behind (fun l => ∀ kind, l ≠ .keyword (keywordOf kind))
      [.symbol .closeBrace] :=
    .cons (by simp)
  obtain ⟨rfl, after⟩ := unique_flatMap ClassVariables.unique
    (fun v => ⟨_, _, rfl, fun none => none v.keeping rfl⟩) vs vs' same (noVariable subs)
    (noVariable subs')
  obtain ⟨rfl, -⟩ := unique_flatMap Subroutine.unique
    (fun sub => ⟨_, _, rfl, fun none => none sub.kind rfl⟩) subs subs' after noSubroutine
    noSubroutine
  rfl

end Unique

end Tree

/-- A source compiles if and only if it divides into tokens, these are derived from the grammar,
and every name that the class they spell needs declared is. -/
theorem compiles_iff_in_language (source : Source) (filename : Option String) (chunkSize : Int)
    (positive : 0 < chunkSize) :
    (∃ text, compileText source filename false chunkSize = .ok text) ↔
      ∃ tokens, Lexer.tokensOf source chunkSize filename = .ok tokens ∧
        Derives (.category .classDec) (tokens.map Token.lexeme) ∧
        ∀ c : Tree.Class, c.lexemes = tokens.map Token.lexeme → c.WellScoped := by
  constructor
  · rintro ⟨text, compiled⟩
    rw [compileText] at compiled
    cases found : compileSource source filename false chunkSize with
    | error failure => rw [found] at compiled; cases compiled
    | ok code =>
        obtain ⟨tokens, c, read, spelled, declared, -⟩ :=
          exists_tree_of_compileSource positive found
        refine ⟨tokens, read, Derives.classDec_iff.mpr ⟨c, spelled.symm⟩, ?_⟩
        intro c' spelled'
        obtain rfl := Tree.Class.lexemes_inj (spelled'.trans spelled)
        exact declared
  · rintro ⟨tokens, read, derived, declared⟩
    obtain ⟨c, spelled⟩ := Derives.classDec_iff.mp derived
    obtain ⟨s, driven⟩ := drive_class c (resolves_of_wellScoped (declared c spelled))
    rw [spelled] at driven
    refine ⟨Code.program c.code, ?_⟩
    rw [compileText, compileSource_of_drive positive read driven]
    rfl

/-- A name is declared in the first of two sources and not in the second. -/
theorem compiles_iff_in_language_at_names :
    let source : Source := .text "class A\x7bfunction int f(int x)\x7breturn x;\x7d\x7d"
    let other : Source := .text "class A\x7bfunction int f(int x)\x7breturn y;\x7d\x7d"
    let Language (source : Source) : Prop := ∃ tokens,
      Lexer.tokensOf source 5 none = .ok tokens ∧
        Derives (.category .classDec) (tokens.map Token.lexeme) ∧
        ∀ c : Tree.Class, c.lexemes = tokens.map Token.lexeme → c.WellScoped
    (0 : Int) < 5 ∧ Language source ∧ ¬ Language other := by
  intro source other Language
  refine ⟨by decide, ?_, ?_⟩
  · apply (compiles_iff_in_language source none 5 (by decide)).mp
    exact ⟨"function A.f 0\npush argument 0\nreturn\n", by decide +kernel⟩
  · intro inside
    obtain ⟨text, compiled⟩ := (compiles_iff_in_language other none 5 (by decide)).mpr inside
    have fails : (compileText other none false 5).toOption = none := by decide +kernel
    rw [compiled] at fails
    cases fails

end Jack
