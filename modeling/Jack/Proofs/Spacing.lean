import Jack.Proofs.Compiling

/-! # Spaced rows

Every row of lexemes that can be written is the row of some source: with a space in front of each
lexeme, none can go on in the next one. So every class whose names are declared is compiled from
some source.
-/

namespace Jack

open Jack.Tree

namespace Lexeme

/-- The characters of a row of lexemes with a space in front of each. -/
def spaced (row : List Lexeme) : List Char :=
  row.flatMap fun l => ' ' :: l.text.toList

/-- A lexeme cannot be longer with a space behind it. -/
theorem maximal_spaced (l : Lexeme) (row : List Lexeme) : l.Maximal (spaced row) := by
  apply maximal_of_blank
  cases row with
  | nil => simp [spaced]
  | cons => simp [spaced, isBlank]

end Lexeme

section Spaced

variable {row : List Lexeme} (proper : ∀ l ∈ row, l.Proper)

include proper

/-- A spaced row divides into its lexemes. -/
theorem exists_pieces (before : List Char) :
    ∃ pieces, Divides before pieces [] ∧ rowOf pieces [] = Lexeme.spaced row ∧
      pieces.map (·.token.lexeme) = row := by
  induction row generalizing before with
  | nil => exact ⟨[], .last .nil, rfl, rfl⟩
  | cons l row ih =>
      rw [List.forall_mem_cons] at proper
      let p : Piece := ⟨[' '], ⟨l, .behind (before ++ [' '])⟩⟩
      obtain ⟨pieces, divides, whole, lexemes⟩ := ih proper.2 (before ++ p.row)
      have fits : p.Fits before (rowOf pieces []) :=
        ⟨.blank (by decide) .nil, proper.1, whole ▸ l.maximal_spaced row, rfl⟩
      refine ⟨p :: pieces, .piece fits divides, ?_, by rw [List.map_cons, lexemes]⟩
      rw [rowOf_cons, whole]
      rfl

/-- The source that a row is written as with spaces has the lexemes of the row. -/
theorem exists_tokens_of_spaced {chunkSize : Int} (filename : Option String)
    (positive : 0 < chunkSize) (short : ShortNumerals (Lexeme.spaced row)) :
    ∃ tokens, Lexer.tokensOf (.text (String.ofList (Lexeme.spaced row))) chunkSize filename =
      .ok tokens ∧ tokens.map Token.lexeme = row := by
  obtain ⟨pieces, divides, whole, lexemes⟩ := exists_pieces proper []
  have left : (Reader.ofSource chunkSize.toNat
      (.text (String.ofList (Lexeme.spaced row)))).remaining = Lexeme.spaced row :=
    (Reader.remaining_ofSource ..).trans ((Source.flatten_cut ..).trans String.toList_ofList)
  refine ⟨pieces.map Piece.token, ?_, by rw [List.map_map]; exact lexemes⟩
  rw [Lexer.tokensOf_eq_ok_iff positive]
  exact Reader.tokensFrom_of_divides divides rfl (left.symm ▸ short) (left.trans whole.symm) []

end Spaced

/-- A class whose names are declared is compiled from its row with spaces. -/
theorem compileSource_spaced {c : Tree.Class} (declared : c.WellScoped)
    (proper : ∀ l ∈ c.lexemes, l.Proper) (short : ShortNumerals (Lexeme.spaced c.lexemes))
    {chunkSize : Int} (filename : Option String) (positive : 0 < chunkSize) :
    compileSource (.text (String.ofList (Lexeme.spaced c.lexemes))) filename false chunkSize =
      .ok c.code := by
  obtain ⟨tokens, read, spelled⟩ := exists_tokens_of_spaced proper filename positive short
  obtain ⟨s, driven⟩ := drive_class c (resolves_of_wellScoped declared)
  rw [← spelled] at driven
  exact compileSource_of_drive positive read driven

/-- Where no digit is, no numeral is long. -/
theorem shortNumerals_of_noDigit {row : List Char} (h : ∀ c ∈ row, c.isDigit = false) :
    ShortNumerals row := by
  intro run inside digits
  cases run with
  | nil => exact Nat.zero_le _
  | cons c run =>
      have none := h c (inside.subset (List.mem_cons_self ..))
      rw [digits c (List.mem_cons_self ..)] at none
      cases none

end Jack
