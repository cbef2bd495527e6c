import Jack.Proofs.Delivery

/-! # Tokens at other places

What an engine does with its tokens depends on their lexemes alone. In front of tokens with the same
lexemes at other places it writes the same code, or it fails for the same reason, at the place that
the token to blame has there.
-/

namespace Jack

/-- A failure without the place of its diagnostic. -/
def Failure.unplaced : Failure → Failure
  | .diagnosed d => .diagnosed { d with line := none, column := none }
  | failure => failure

theorem Failure.unplaced_ofFault (filename : Option String) (fault : Fault) :
    (ofFault filename fault.unplaced).unplaced = (ofFault filename fault).unplaced := by
  cases fault <;> rfl

namespace Move

variable {move move' : Move}

theorem eq_pop_of_unplaced (moved : move = .pop) (same : move.unplaced = move'.unplaced) :
    move' = .pop := by
  subst moved
  cases move' with
  | pop => rfl
  | _ => cases same

theorem exists_shift_of_unplaced {next : List Goal} (moved : move = .shift next)
    (same : move.unplaced = move'.unplaced) :
    ∃ next', move' = .shift next' ∧ next.map Goal.unplaced = next'.map Goal.unplaced := by
  subst moved
  cases move' with
  | shift next' => exact ⟨next', rfl, Move.shift.inj same⟩
  | _ => cases same

theorem exists_fail_of_unplaced {fault : Fault} (moved : move = .fail fault)
    (same : move.unplaced = move'.unplaced) :
    ∃ fault', move' = .fail fault' ∧ fault.unplaced = fault'.unplaced := by
  subst moved
  cases move' with
  | fail fault' => exact ⟨fault', rfl, Move.fail.inj same⟩
  | _ => cases same

end Move

namespace Cursor

/-- A cursor has tokens with the given lexemes in front, up to the end of their source. -/
def Spells (c : Cursor) (row : List Lexeme) : Prop :=
  row.getLast? = some .endOfInput ∧ ∃ tokens, c.Shows tokens ∧ tokens.map Token.lexeme = row

variable {c : Cursor} {row : List Lexeme}

theorem Spells.head (h : c.Spells row) : row.head? = some c.current.lexeme := by
  obtain ⟨-, tokens, shown, rfl⟩ := h
  rw [List.head?_map, shown.head, Option.map_some]

/-- In front of all its tokens a cursor can pass each but the end. -/
theorem Spells.advance (h : c.Spells row) (more : c.current.isEnd = false) :
    c.advance.1 = .ok () ∧ c.advance.2.2.Spells row.tail := by
  obtain ⟨ended, tokens, shown, rfl⟩ := h
  cases shown with
  | current =>
      have last : c.current.lexeme = .endOfInput := by simpa using ended
      simp [Token.isEnd, last] at more
  | @next _ tokens more passed shown =>
      obtain ⟨rest, rfl⟩ := List.head?_eq_some_iff.mp shown.head
      rw [List.map_cons, List.map_cons, List.getLast?_cons_cons] at ended
      exact ⟨passed, ended, _, shown, rfl⟩

/-- A cursor in front of a source that has tokens spells their lexemes. -/
theorem spells_of_tokensFrom (filename : Option String) {r : Reader} {tokens : List Token}
    (h : (r.tokensFrom []).1 = .ok tokens) :
    ∃ t, (TokenStream.readFrom filename [] r).next.1.outcome = .ok t ∧
      Spells ⟨none, t, (TokenStream.readFrom filename [] r).next.2⟩ (rowOfTokens tokens) := by
  obtain ⟨t, last, found, ended, shown⟩ := (tokensFrom_eq_ok_iff filename r tokens).mp h
  exact ⟨t, found, List.getLast?_concat, _, shown, map_lexeme_of_isEnd ended⟩

end Cursor

namespace Engine

/-- Two engines that differ in nothing but the places of their tokens. -/
structure Unplaced (e e' : Engine) : Prop where
  cursor : ∃ row, e.cursor.Spells row ∧ e'.cursor.Spells row
  scope : e.scope = e'.scope
  filename : e.filename = e'.filename
  written : e.written = e'.written

namespace Unplaced

variable {e e' : Engine}

theorem lexeme (h : e.Unplaced e') : e.cursor.current.lexeme = e'.cursor.current.lexeme := by
  obtain ⟨row, spelled, spelled'⟩ := h.cursor
  exact Option.some.inj (spelled.head.symm.trans spelled'.head)

theorem absorb (h : e.Unplaced e') {r r' : Reaction} (same : r.unplaced = r'.unplaced) :
    (e.absorb r).Unplaced (e'.absorb r') := by
  have code : r.unplaced.code = r'.unplaced.code := congrArg Reaction.code same
  have scope : r.unplaced.scope = r'.unplaced.scope := congrArg Reaction.scope same
  refine ⟨h.cursor, scope, h.filename, ?_⟩
  change r.unplaced.code.reverse ++ e.written = r'.unplaced.code.reverse ++ e'.written
  rw [code, h.written]

theorem advance (h : e.Unplaced e') (more : e.cursor.current.isEnd = false) :
    e.advance.1 = .ok () ∧ e'.advance.1 = .ok () ∧ e.advance.2.Unplaced e'.advance.2 := by
  obtain ⟨row, spelled, spelled'⟩ := h.cursor
  have more' : e'.cursor.current.isEnd = false := by
    rw [Token.isEnd, ← h.lexeme]
    exact more
  obtain ⟨passed, later⟩ := spelled.advance more
  obtain ⟨passed', later'⟩ := spelled'.advance more'
  exact ⟨passed, passed', ⟨_, later, later'⟩, h.scope, h.filename, h.written⟩

theorem reaction (h : e.Unplaced e') {goal goal' : Goal} (same : goal.unplaced = goal'.unplaced) :
    (e.reaction goal).unplaced = (e'.reaction goal').unplaced := by
  rw [Engine.reaction, Engine.reaction, Goal.unplaced_react, same, h.lexeme, h.scope,
    ← Goal.unplaced_react]

/-- Where its tokens stand makes no difference to a run but for the place of a problem. -/
theorem run (h : e.Unplaced e') {goals goals' : List Goal}
    (same : goals.map Goal.unplaced = goals'.map Goal.unplaced) :
    (e.run goals).1.mapError Failure.unplaced = (e'.run goals').1.mapError Failure.unplaced ∧
      (e.run goals).2.written = (e'.run goals').2.written := by
  fun_induction Engine.run goals e generalizing e' goals' with
  | case1 e =>
      obtain rfl := List.map_eq_nil_iff.mp same.symm
      rw [Engine.run]
      exact ⟨rfl, h.written⟩
  | case2 e goal rest moved ih =>
      obtain ⟨goal', rest', rfl, first, others⟩ := List.map_eq_cons_iff.mp same.symm
      have reacts := h.reaction first.symm
      have moved' := Move.eq_pop_of_unplaced moved (congrArg Reaction.move reacts)
      rw [run_of_pop moved']
      exact ih (h.absorb reacts) others.symm
  | case3 e goal rest next moved passed ih =>
      obtain ⟨goal', rest', rfl, first, others⟩ := List.map_eq_cons_iff.mp same.symm
      have reacts := h.reaction first.symm
      obtain ⟨next', moved', goals⟩ :=
        Move.exists_shift_of_unplaced moved (congrArg Reaction.move reacts)
      obtain ⟨-, passed', later⟩ := (h.absorb reacts).advance (Goal.isEnd_of_react_shift moved)
      rw [run_of_shift moved' passed']
      exact ih later (by rw [List.map_append, List.map_append, goals, others])
  | case4 e goal rest next moved failure failed =>
      obtain ⟨goal', rest', rfl, first, others⟩ := List.map_eq_cons_iff.mp same.symm
      have reacts := h.reaction first.symm
      obtain ⟨passed, -, -⟩ := (h.absorb reacts).advance (Goal.isEnd_of_react_shift moved)
      cases failed.symm.trans passed
  | case5 e goal rest fault moved =>
      obtain ⟨goal', rest', rfl, first, others⟩ := List.map_eq_cons_iff.mp same.symm
      have reacts := h.reaction first.symm
      obtain ⟨fault', moved', faults⟩ :=
        Move.exists_fail_of_unplaced moved (congrArg Reaction.move reacts)
      rw [run_of_fail moved']
      refine ⟨congrArg Except.error ?_, (h.absorb reacts).written⟩
      rw [← Failure.unplaced_ofFault, faults, h.filename, Failure.unplaced_ofFault]

end Unplaced

end Engine

/-- Sources that have the same lexemes compile to the same code, or the same is wrong with them
somewhere. -/
theorem compileText_of_lexemes {source source' : Source} {chunkSize chunkSize' : Int}
    {filename : Option String} {tokens tokens' : List Token} (positive : 0 < chunkSize)
    (positive' : 0 < chunkSize') (read : Lexer.tokensOf source chunkSize filename = .ok tokens)
    (read' : Lexer.tokensOf source' chunkSize' filename = .ok tokens')
    (same : tokens.map Token.lexeme = tokens'.map Token.lexeme) (strict : Bool) :
    (compileText source filename strict chunkSize).mapError Failure.unplaced =
      (compileText source' filename strict chunkSize').mapError Failure.unplaced := by
  rw [Lexer.tokensOf_eq_ok_iff positive] at read
  rw [Lexer.tokensOf_eq_ok_iff positive'] at read'
  obtain ⟨t, found, spelled⟩ := Cursor.spells_of_tokensFrom filename read
  obtain ⟨t', found', spelled'⟩ := Cursor.spells_of_tokensFrom filename read'
  rw [rowOfTokens, same] at spelled
  have engines : (Engine.atStart (.readFrom filename [] (.ofSource chunkSize.toNat source)) t strict
      filename).Unplaced
        (.atStart (.readFrom filename [] (.ofSource chunkSize'.toNat source')) t' strict
          filename) :=
    ⟨⟨_, spelled, spelled'⟩, rfl, rfl, rfl⟩
  have goals : [Goal.classDeclaration].map Goal.unplaced = [.classDeclaration] := rfl
  obtain ⟨outcome, written⟩ := engines.run (goals.trans goals.symm)
  rw [compileText, compileText, compileSource_of_pos positive, compileSource_of_pos positive']
  simp only [found, found']
  revert outcome written
  generalize Engine.run _ (Engine.atStart _ t strict filename) = ran
  generalize Engine.run _ (Engine.atStart _ t' strict filename) = ran'
  obtain ⟨reached, e⟩ := ran
  obtain ⟨reached', e'⟩ := ran'
  intro outcome written
  cases reached <;> cases reached' <;> simp_all [Except.mapError, Except.map, Engine.code]

end Jack
