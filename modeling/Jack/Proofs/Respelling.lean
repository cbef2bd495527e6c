import Jack.Proofs.Fillers

/-! # Other identifiers in a text

An identifier in a text can give way to another one. Both start with a letter or an underscore, and
no lexeme or comment next to one of them can end differently next to the other, so all gaps and all
other tokens stay.
-/

namespace Jack

/-- A lexeme that can give way to another one: it is the same, or both are identifiers. -/
inductive Lexeme.Yields : Lexeme → Lexeme → Prop where
  | same (l : Lexeme) : Yields l l
  | renamed (name name' : String) : Yields (.identifier name) (.identifier name')

/-- Pieces with the lexemes of a row instead of their own. -/
def respelled (pieces : List Piece) (row : List Lexeme) : List Piece :=
  List.zipWith (fun p l => ⟨p.gap, l, p.token.position⟩) pieces row

/-- Rows of characters that start alike: with the same character, or with some letter or underscore
each. -/
def StartAlike (rest rest' : List Char) : Prop :=
  rest.head? = rest'.head? ∨
    (∃ c ∈ rest.head?, isWordStart c) ∧ ∃ c ∈ rest'.head?, isWordStart c

section StartAlike

variable {rest rest' gap : List Char} {l l' : Lexeme}

theorem Gap.of_startAlike (h : Gap gap rest) (alike : StartAlike rest rest') : Gap gap rest' := by
  rcases alike with same | ⟨⟨c, first, word⟩, -⟩
  · exact h.of_head same.symm
  · induction h with
    | nil => exact .nil
    | blank hc h ih => exact .blank hc (ih first)
    | @line body gap rest inside ended h ih =>
        refine .line inside ?_ (ih first)
        cases gap with
        | cons d gap => exact ended
        | nil =>
            -- No line comment ends right in front of a letter.
            rw [List.nil_append, Option.mem_def.mp first] at ended
            simp only [reduceCtorEq, Option.some.injEq, false_or] at ended
            subst ended
            exact absurd word (by decide)
    | block inside h ih => exact .block inside (ih first)

theorem Lexeme.Maximal.of_startAlike (h : l.Maximal rest) (alike : StartAlike rest rest') :
    l.Maximal rest' := by
  rcases alike with same | ⟨⟨c, first, word⟩, c', first', word'⟩
  · exact h.of_head fun d inside => .inr (same ▸ inside)
  · have inside : isWordChar c := by rw [isWordChar_eq, word, Bool.true_or]
    have only : ∀ d ∈ rest'.head?, d = c' := fun d h => Option.mem_unique h first'
    unfold Maximal at *
    split at h
    · exact absurd inside (h c first)
    · exact absurd inside (h c first)
    · intro d found
      rw [only d found, isDigit_eq_false_of_isWordStart word']
      exact Bool.false_ne_true
    · intro d found
      rw [only d found]
      constructor <;> rintro rfl <;> exact absurd word' (by decide)
    · trivial

theorem Lexeme.Yields.maximal (h : l.Yields l') (maximal : l.Maximal rest) : l'.Maximal rest := by
  cases h with
  | same => exact maximal
  | renamed => exact maximal

theorem Lexeme.exists_wordStart {name : String} (proper : (Lexeme.identifier name).Proper) :
    ∃ c word, name.toList = c :: word ∧ isWordStart c := by
  obtain ⟨c, word, spelled⟩ := List.exists_cons_of_ne_nil proper.1.1
  exact ⟨c, word, spelled, isWordStart_of_isWord (spelled ▸ proper.1)⟩

theorem Lexeme.Yields.startAlike (h : l.Yields l') (proper : l.Proper) (proper' : l'.Proper)
    (rest rest' : List Char) :
    StartAlike (l.text.toList ++ rest) (l'.text.toList ++ rest') := by
  cases h with
  | same =>
      obtain ⟨c, tail, spelled⟩ := List.exists_cons_of_ne_nil (Lexeme.text_ne_nil proper)
      rw [spelled]
      exact .inl rfl
  | renamed name name' =>
      obtain ⟨c, word, spelled, start⟩ := exists_wordStart proper
      obtain ⟨c', word', spelled', start'⟩ := exists_wordStart proper'
      refine .inr ⟨⟨c, ?_, start⟩, c', ?_, start'⟩
      · rw [Lexeme.text, spelled]
        rfl
      · rw [Lexeme.text, spelled']
        rfl

theorem StartAlike.append (h : StartAlike rest rest') (gap : List Char) :
    StartAlike (gap ++ rest) (gap ++ rest') := by
  cases gap with
  | nil => exact h
  | cons c gap => exact .inl rfl

end StartAlike

/-- Pieces fit as well with other identifiers in them, and behind other characters. -/
theorem Divides.respelled {before last : List Char} {pieces : List Piece} {row : List Lexeme}
    (h : Divides before pieces last) (yields : List.Forall₂ Lexeme.Yields (lexemesOf pieces) row)
    (proper : ∀ l ∈ row, l.Proper) (before' : List Char) :
    ∃ pieces', Divides before' pieces' last ∧
      rowOf pieces' last = rowOf (Jack.respelled pieces row) last ∧ lexemesOf pieces' = row ∧
      StartAlike (rowOf pieces last) (rowOf pieces' last) := by
  induction h generalizing row before' with
  | last isGap =>
      cases yields
      exact ⟨[], .last isGap, rfl, rfl, .inl rfl⟩
  | @piece before last p pieces fits h ih =>
      obtain _ | ⟨yield, yields⟩ := yields
      rename_i l row
      rw [List.forall_mem_cons] at proper
      let p' : Piece := ⟨p.gap, l, .behind (before' ++ p.gap)⟩
      obtain ⟨pieces', divides, whole, lexemes, alike⟩ := ih yields proper.2 (before' ++ p'.row)
      have front := yield.startAlike fits.proper proper.1 (rowOf pieces last) (rowOf pieces' last)
      have fits' : p'.Fits before' (rowOf pieces' last) :=
        ⟨fits.gap.of_startAlike front, proper.1,
          yield.maximal (fits.maximal.of_startAlike alike), rfl⟩
      refine ⟨p' :: pieces', .piece fits' divides, ?_, congrArg (l :: ·) lexemes, ?_⟩
      · rw [rowOf_cons, whole, Jack.respelled, Jack.respelled, List.zipWith_cons_cons, rowOf_cons]
        rfl
      · rw [rowOf_cons, rowOf_cons, Piece.row, Piece.row, List.append_assoc, List.append_assoc]
        exact front.append p.gap

theorem Lexeme.Yields.short {l l' : Lexeme} (h : l.Yields l') (short : l.Short) : l'.Short := by
  cases h with
  | same => exact short
  | renamed => exact fun _ _ numeral => by cases numeral

theorem Lexeme.short_of_yields {row row' : List Lexeme} (h : List.Forall₂ Yields row row')
    (shorts : ∀ l ∈ row, l.Short) : ∀ l ∈ row', l.Short := by
  induction h with
  | nil => exact shorts
  | cons yield yields ih =>
      rw [List.forall_mem_cons] at shorts ⊢
      exact ⟨yield.short shorts.1, ih shorts.2⟩

/-- A source with other identifiers in the places of its own has these instead of them. -/
theorem Lexer.lexemes_of_respelled {source source' : Source} {chunkSize chunkSize' : Int}
    {filename filename' : Option String} {pieces : List Piece} {last : List Char}
    {row : List Lexeme} (positive : 0 < chunkSize) (splits : Splits source.characters pieces last)
    (read : tokensOf source chunkSize filename = .ok (pieces.map Piece.token))
    (yields : List.Forall₂ Lexeme.Yields (lexemesOf pieces) row) (proper : ∀ l ∈ row, l.Proper)
    (positive' : 0 < chunkSize')
    (whole : source'.characters = rowOf (respelled pieces row) last) :
    ∃ tokens', tokensOf source' chunkSize' filename' = .ok tokens' ∧
      tokens'.map Token.lexeme = row := by
  obtain ⟨pieces', divides, spelled, rfl, -⟩ := splits.divides.respelled yields proper []
  have shorts : ∀ l ∈ lexemesOf pieces, l.Short :=
    (Reader.eq_of_tokensFrom splits.divides rfl
      ((Reader.remaining_ofSource chunkSize.toNat source).trans splits.spelled)
      ((tokensOf_eq_ok_iff positive _).mp read)).2
  have shorts' := Lexeme.short_of_yields yields shorts
  refine ⟨pieces'.map Piece.token, ?_, List.map_map⟩
  rw [tokensOf_eq_ok_iff positive']
  refine Reader.tokensFrom_of_short divides rfl ?_ ?_ []
  · exact fun p inside => shorts' _ (List.mem_map_of_mem inside)
  · rw [Reader.remaining_ofSource, whole, spelled]

end Jack
