import Jack.Proofs.Fillers
import Mathlib.Data.List.Chain

/-! # Tokenizing undoes printing

Lexemes can be written one behind the other with any blanks between them, also with none where two
neighbours do not clash. Tokenizing what was written gives back the lexemes, and it does so only
if no two neighbours clash.
-/

namespace Jack

namespace Lexeme

/-- Whether a lexeme is written as a word. -/
def SpelledAsWord : Lexeme → Prop
  | .keyword _ | .identifier _ => True
  | _ => False

/-- Whether a lexeme is written as a run of digits. -/
def SpelledInDigits : Lexeme → Prop
  | .integer .. => True
  | _ => False

/-- Whether a lexeme goes on in another one right behind it: a word in letters and digits, a run of
digits in digits, and a slash that opens a comment with the next character. -/
def Clashes : Lexeme → Lexeme → Prop
  | .keyword _, next | .identifier _, next => next.SpelledAsWord ∨ next.SpelledInDigits
  | .integer .., next => next.SpelledInDigits
  | .symbol .slash, next => next = .symbol .slash ∨ next = .symbol .star
  | _, _ => False

end Lexeme

/-- A lexeme with the blanks that are written behind it. -/
structure Written where
  lexeme : Lexeme
  blanks : List Char

namespace Written

/-- The characters of a lexeme and of the blanks behind it. -/
def row (w : Written) : List Char :=
  w.lexeme.text.toList ++ w.blanks

/-- Whether a lexeme is what its kind can be, is no numeral that is too long, and only blanks are
written behind it. -/
structure Legible (w : Written) : Prop where
  proper : w.lexeme.Proper
  short : w.lexeme.Short
  blank : ∀ c ∈ w.blanks, isBlank c

end Written

/-- The characters of lexemes that are written one behind the other. -/
def written (ws : List Written) : List Char :=
  ws.flatMap Written.row

/-- Whether there are blanks between any two neighbours that clash. -/
def Separated (ws : List Written) : Prop :=
  ws.IsChain fun w w' => w.blanks = [] → ¬ w.lexeme.Clashes w'.lexeme

/-! ### Neighbours -/

/-- What the first character of a lexeme tells of how the lexeme is spelled. -/
structure Lexeme.First (l : Lexeme) (c : Char) : Prop where
  notBlank : ¬ isBlank c
  wordChar : isWordChar c ↔ l.SpelledAsWord ∨ l.SpelledInDigits
  digit : c.isDigit ↔ l.SpelledInDigits
  mark : ∀ mark : Symbol, c = mark.char ↔ l = .symbol mark

theorem Symbol.isWordChar_char (mark : Symbol) : isWordChar mark.char = false := by
  cases mark <;> decide

theorem Symbol.char_inj {mark mark' : Symbol} : mark.char = mark'.char ↔ mark = mark' := by
  rw [← Symbol.ofChar?_eq_some_iff, Symbol.ofChar?_char, Option.some.injEq]

namespace Lexeme

/-- A word does not start with a digit. -/
theorem exists_first_of_isWord {l : Lexeme} (word : l.SpelledAsWord)
    (h : IsWord l.text.toList) : ∃ c ∈ l.text.toList.head?, l.First c := by
  obtain ⟨nonempty, inside, start⟩ := h
  have first := List.head_mem_head? nonempty
  have wordChar := inside _ (List.mem_of_mem_head? first)
  refine ⟨_, first, ?_, by simp [wordChar, word], ?_, fun mark => ?_⟩
  · simp [isBlank_eq_false_of_isWordChar wordChar]
  · simp only [start _ first]
    cases l <;> simp_all [SpelledAsWord, SpelledInDigits]
  · constructor
    · intro same
      rw [same, mark.isWordChar_char] at wordChar
      cases wordChar
    · rintro rfl
      exact word.elim

theorem Proper.exists_first {l : Lexeme} (proper : l.Proper) :
    ∃ c ∈ l.text.toList.head?, l.First c := by
  cases l with
  | keyword word => exact exists_first_of_isWord trivial (isWord_text word)
  | identifier name => exact exists_first_of_isWord trivial proper.1
  | symbol mark =>
      refine ⟨mark.char, by simp [text, Symbol.text], ?_, ?_, ?_, fun mark' => ?_⟩
      · cases mark <;> decide
      · simp [mark.isWordChar_char, SpelledAsWord, SpelledInDigits]
      · cases mark <;> simp [SpelledInDigits] <;> decide
      · simp [Symbol.char_inj]
  | integer digits value =>
      have first := List.head_mem_head? proper.1
      have digit := proper.2.1 _ (List.mem_of_mem_head? first)
      have wordChar : isWordChar (digits.toList.head proper.1) := by
        rw [isWordChar_eq, digit, Bool.or_true]
      refine ⟨_, first, ?_, ?_, ?_, fun mark => ?_⟩
      · simp [isBlank_eq_false_of_isWordChar wordChar]
      · simp [wordChar, SpelledInDigits]
      · simp [digit, SpelledInDigits]
      · simp only [reduceCtorEq, iff_false]
        intro same
        rw [same, mark.isWordChar_char] at wordChar
        cases wordChar
  | string content =>
      refine ⟨'"', by simp [text], by decide, ?_, ?_, fun mark => ?_⟩
      · simp [SpelledAsWord, SpelledInDigits]; decide
      · simp [SpelledInDigits]
      · cases mark <;> simp <;> decide
  | endOfInput => exact proper.elim

theorem Proper.head?_append {l : Lexeme} (proper : l.Proper) (rest : List Char) :
    ∃ c ∈ (l.text.toList ++ rest).head?, ¬ isBlank c := by
  obtain ⟨c, first, how⟩ := proper.exists_first
  exact ⟨c, by rw [List.head?_append, first, Option.some_or]; rfl, how.notBlank⟩

/-- A lexeme could be longer with another one right behind it if and only if the two clash. -/
theorem maximal_append_iff {l l' : Lexeme} (proper' : l'.Proper) (rest : List Char) :
    l.Maximal (l'.text.toList ++ rest) ↔ ¬ l.Clashes l' := by
  obtain ⟨c, first, -, wordChar, digit, mark⟩ := proper'.exists_first
  have atFirst (P : Char → Prop) : (∀ d ∈ (l'.text.toList ++ rest).head?, P d) ↔ P c := by
    rw [List.head?_append, first, Option.some_or]
    simp
  cases l with
  | keyword | identifier => exact (atFirst _).trans (not_congr wordChar)
  | integer => exact (atFirst _).trans (not_congr digit)
  | symbol mark' =>
      by_cases slash : mark' = .slash
      · subst slash
        refine (atFirst _).trans ?_
        rw [Clashes, not_or, ← mark .slash, ← mark .star]
        rfl
      · cases mark' <;> first | exact absurd rfl slash | exact (not_false_iff).symm
  | string | endOfInput => exact (not_false_iff).symm

end Lexeme

theorem written_cons (w : Written) (ws : List Written) :
    written (w :: ws) = w.lexeme.text.toList ++ (w.blanks ++ written ws) :=
  (List.flatMap_cons ..).trans (List.append_assoc ..)

/-- Whether a lexeme could be longer depends on the next one if no blanks are between them. -/
theorem Written.maximal_iff {w : Written} {ws : List Written} (blank : ∀ c ∈ w.blanks, isBlank c)
    (legible : ∀ w ∈ ws, w.Legible) :
    w.lexeme.Maximal (w.blanks ++ written ws) ↔
      ∀ w' ∈ ws.head?, w.blanks = [] → ¬ w.lexeme.Clashes w'.lexeme := by
  cases between : w.blanks with
  | cons c blanks =>
      rw [between] at blank
      have maximal : w.lexeme.Maximal (c :: (blanks ++ written ws)) :=
        Lexeme.maximal_of_blank (by simpa using blank c (List.mem_cons_self ..))
      simpa using maximal
  | nil =>
      cases ws with
      | nil =>
          have alone : w.lexeme.Maximal [] := Lexeme.maximal_of_blank (by simp)
          simpa [written] using alone
      | cons w' ws =>
          have proper := (legible w' (List.mem_cons_self ..)).proper
          rw [List.nil_append, written_cons, Lexeme.maximal_append_iff proper]
          simp

theorem separated_cons {w : Written} {ws : List Written} :
    Separated (w :: ws) ↔
      (∀ w' ∈ ws.head?, w.blanks = [] → ¬ w.lexeme.Clashes w'.lexeme) ∧ Separated ws :=
  List.isChain_cons

theorem gap_of_blank {gap rest : List Char} (blank : ∀ c ∈ gap, isBlank c) : Gap gap rest := by
  induction gap with
  | nil => exact .nil
  | cons c gap ih =>
      rw [List.forall_mem_cons] at blank
      exact .blank blank.1 (ih blank.2)

/-! ### What was written divides into its lexemes -/

section Division

variable {ws : List Written} {lead : List Char}

/-- What is written with blanks between clashing neighbours divides into the lexemes. -/
theorem exists_pieces_of_written (legible : ∀ w ∈ ws, w.Legible) (separated : Separated ws)
    (blank : ∀ c ∈ lead, isBlank c) (before : List Char) :
    ∃ pieces last, Divides before pieces last ∧ rowOf pieces last = lead ++ written ws ∧
      lexemesOf pieces = ws.map Written.lexeme := by
  induction ws generalizing lead before with
  | nil => exact ⟨[], lead, .last (gap_of_blank blank), (List.append_nil lead).symm, rfl⟩
  | cons w ws ih =>
      rw [List.forall_mem_cons] at legible
      obtain ⟨⟨proper, -, blanks⟩, legible⟩ := legible
      obtain ⟨apart, separated⟩ := separated_cons.mp separated
      let p : Piece := ⟨lead, w.lexeme, .behind (before ++ lead)⟩
      obtain ⟨pieces, last, divides, row, lexemes⟩ :=
        ih legible separated blanks (before ++ p.row)
      have fits : p.Fits before (rowOf pieces last) :=
        ⟨gap_of_blank blank, proper, row ▸ (Written.maximal_iff blanks legible).mpr apart, rfl⟩
      refine ⟨p :: pieces, last, .piece fits divides, ?_, congrArg (w.lexeme :: ·) lexemes⟩
      rw [rowOf_cons, row, written_cons, Piece.row, List.append_assoc]
      rfl

/-- How many characters of a row are no blanks. -/
def inked (row : List Char) : Nat :=
  row.countP fun c => !isBlank c

theorem inked_append (row row' : List Char) : inked (row ++ row') = inked row + inked row' :=
  List.countP_append

theorem inked_eq_zero_iff {row : List Char} : inked row = 0 ↔ ∀ c ∈ row, isBlank c := by
  simp [inked, List.countP_eq_zero]

/-- Between written lexemes there are only blanks. -/
theorem inked_written (legible : ∀ w ∈ ws, w.Legible) :
    inked (written ws) = inked ((ws.map Written.lexeme).flatMap fun l => l.text.toList) := by
  induction ws with
  | nil => rfl
  | cons w ws ih =>
      rw [List.forall_mem_cons] at legible
      rw [written_cons, inked_append, inked_append, inked_eq_zero_iff.mpr legible.1.blank,
        ih legible.2, List.map_cons, List.flatMap_cons, inked_append]
      omega

theorem inked_le_rowOf (pieces : List Piece) (last : List Char) :
    inked ((lexemesOf pieces).flatMap fun l => l.text.toList) ≤ inked (rowOf pieces last) := by
  induction pieces with
  | nil => exact Nat.zero_le _
  | cons p pieces ih =>
      have same : inked p.lexeme = inked p.token.lexeme.text.toList := rfl
      rw [rowOf_cons, inked_append, Piece.row, inked_append]
      rw [lexemesOf, List.map_cons, List.flatMap_cons, inked_append]
      rw [lexemesOf] at ih
      omega

/-- Blanks in front of other characters are told apart from these. -/
theorem eq_of_blank {blanks blanks' row row' : List Char} (blank : ∀ c ∈ blanks, isBlank c)
    (blank' : ∀ c ∈ blanks', isBlank c) (first : ∃ c ∈ row.head?, ¬ isBlank c)
    (first' : ∃ c ∈ row'.head?, ¬ isBlank c) (same : blanks ++ row = blanks' ++ row') :
    blanks = blanks' := by
  have taken {blanks row : List Char} (blank : ∀ c ∈ blanks, isBlank c)
      (first : ∃ c ∈ row.head?, ¬ isBlank c) : (blanks ++ row).takeWhile isBlank = blanks := by
    obtain ⟨c, first, notBlank⟩ := first
    obtain ⟨tail, rfl⟩ := List.head?_eq_some_iff.mp first
    rw [List.takeWhile_append_of_pos blank, List.takeWhile_cons_of_neg notBlank, List.append_nil]
  rw [← taken blank first, same, taken blank' first']

/-- If the lexemes of a division are those that were written, their neighbours do not clash. -/
theorem separated_of_divides {before last : List Char} {pieces : List Piece}
    (legible : ∀ w ∈ ws, w.Legible) (blank : ∀ c ∈ lead, isBlank c)
    (divides : Divides before pieces last) (row : rowOf pieces last = lead ++ written ws)
    (lexemes : lexemesOf pieces = ws.map Written.lexeme) : Separated ws := by
  induction ws generalizing lead before pieces with
  | nil => exact .nil
  | cons w ws ih =>
      cases divides with
      | last => cases lexemes
      | @piece _ _ p pieces fits divides =>
        have spelled : p.gap ++ (p.lexeme ++ rowOf pieces last) =
            lead ++ (w.lexeme.text.toList ++ (w.blanks ++ written ws)) := by
          rw [← written_cons, ← row, rowOf_cons, Piece.row, List.append_assoc]
        -- All that is no blank is in the lexemes, so the gap in front is no comment.
        have isBlank : ∀ c ∈ p.gap, isBlank c := by
          have whole := congrArg inked row
          have enough := inked_le_rowOf pieces last
          rw [rowOf_cons, inked_append, inked_append, Piece.row, inked_append,
            inked_eq_zero_iff.mpr blank, inked_written legible, ← lexemes, lexemesOf,
            List.map_cons, List.flatMap_cons, inked_append, Piece.lexeme] at whole
          rw [lexemesOf] at enough
          rw [← inked_eq_zero_iff]
          omega
        obtain ⟨(same : p.token.lexeme = w.lexeme), lexemes⟩ := List.cons.inj lexemes
        rw [List.forall_mem_cons] at legible
        obtain rfl : p.gap = lead :=
          eq_of_blank isBlank blank (fits.proper.head?_append _)
            (legible.1.proper.head?_append _) spelled
        have left := List.append_cancel_left spelled
        rw [Piece.lexeme, same] at left
        have left := List.append_cancel_left left
        have maximal := fits.maximal
        rw [same, left, Written.maximal_iff legible.1.blank legible.2] at maximal
        exact separated_cons.mpr ⟨maximal, ih legible.2 legible.1.blank divides left lexemes⟩

end Division

/-- Lexemes that were written one behind the other, with any blanks in front and behind each, are
the lexemes of the source if and only if there are blanks between all neighbours that clash. -/
theorem tokenizing_undoes_printing (ws : List Written) (lead : List Char) (source : Source)
    (chunkSize : Int) (filename : Option String) (positive : 0 < chunkSize)
    (legible : ∀ w ∈ ws, w.Legible) (blank : ∀ c ∈ lead, isBlank c)
    (spelled : source.characters = lead ++ written ws) :
    (∃ tokens, Lexer.tokensOf source chunkSize filename = .ok tokens ∧
      tokens.map Token.lexeme = ws.map Written.lexeme) ↔ Separated ws := by
  have whole := Reader.remaining_ofSource chunkSize.toNat source
  have start : (Reader.ofSource chunkSize.toNat source).position = .behind [] := rfl
  simp only [Lexer.tokensOf_eq_ok_iff positive]
  constructor
  · rintro ⟨tokens, read, lexemes⟩
    obtain ⟨pieces, last, divides, row, rfl⟩ := Reader.divides_of_tokensFrom start read
    rw [whole, spelled] at row
    rw [List.reverse_nil, List.nil_append, List.map_map] at lexemes
    exact separated_of_divides legible blank divides row.symm lexemes
  · intro separated
    obtain ⟨pieces, last, divides, row, lexemes⟩ :=
      exists_pieces_of_written legible separated blank []
    have short : ∀ l ∈ lexemesOf pieces, l.Short := by
      rw [lexemes, List.forall_mem_map]
      exact fun w inside => (legible w inside).short
    rw [lexemesOf, List.forall_mem_map] at short
    refine ⟨pieces.map Piece.token, ?_, by rw [List.map_map]; exact lexemes⟩
    exact Reader.tokensFrom_of_short divides start short (whole.trans (spelled.trans row.symm)) []

/-- A word right behind a number, a string that is no comment, and a slash away from another. -/
theorem tokenizing_undoes_printing_at_slashes :
    let ws : List Written :=
      [⟨.integer "07" 7, []⟩, ⟨.identifier "x", []⟩, ⟨.string "//", []⟩, ⟨.symbol .slash, ['\n']⟩,
        ⟨.symbol .slash, []⟩]
    let source : Source := .stream [" 0", "7x\"/", "/\"/\n/"]
    (0 : Int) < 2 ∧ (∀ w ∈ ws, w.Legible) ∧ (∀ c ∈ [' '], isBlank c) ∧
      source.characters = [' '] ++ written ws ∧
      ∃ tokens, Lexer.tokensOf source 2 none = .ok tokens ∧
        tokens.map Token.lexeme = ws.map Written.lexeme := by
  intro ws source
  have short {l : Lexeme} (h : l.text.toList.length ≤ maxDigits) : l.Short := by
    rintro digits value rfl
    exact h
  have notReserved : ∀ word : Keyword, word.text ≠ "x" := by rintro ⟨⟩ <;> decide
  have legible : ∀ w ∈ ws, w.Legible := by
    simp only [ws, List.forall_mem_cons]
    refine ⟨⟨?_, short (by decide), by simp⟩, ⟨?_, short (by decide), by simp⟩,
      ⟨?_, short (by decide), by simp⟩, ⟨trivial, short (by decide), by simp; decide⟩,
      ⟨trivial, short (by decide), by simp⟩, by simp⟩
    · exact ⟨by decide, List.all_eq_true.mp rfl, by decide, by decide⟩
    · exact ⟨by decide, notReserved⟩
    · simp [Lexeme.Proper]
  have spelled : source.characters = [' '] ++ written ws := by decide +kernel
  have separated : Separated ws := by
    simp [ws, Separated, Lexeme.Clashes, Lexeme.SpelledInDigits, Lexeme.SpelledAsWord]
  have blank : ∀ c ∈ [' '], isBlank c := List.forall_mem_singleton.mpr rfl
  exact ⟨by decide, legible, blank, spelled,
    (tokenizing_undoes_printing ws [' '] source 2 none (by decide) legible blank spelled).mpr
      separated⟩

end Jack
