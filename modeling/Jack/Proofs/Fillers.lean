import Jack.Proofs.Findings
import Jack.Proofs.Numerals
import Jack.Proofs.Unplaced

/-! # Blanks and comments between tokens

Where neither a token nor a comment is under way, blanks can be put into a source, and comments
behind a blank. The comments can hold whatever they like: the scanner is behind them where it would
have been without them, so the lexemes stay, and only places change.
-/

namespace Jack

/-- A row of blanks and whole comments. To a line comment belongs the line feed that ends it. -/
inductive Filler : List Char → Prop where
  | nil : Filler []
  | blank {c : Char} {row : List Char} (hc : isBlank c) (h : Filler row) : Filler (c :: row)
  | line {body row : List Char} (inside : '\n' ∉ body) (h : Filler row) :
      Filler ('/' :: '/' :: (body ++ '\n' :: row))
  | block {body row : List Char} (inside : ¬ ['*', '/'] <:+: body) (h : Filler row) :
      Filler ('/' :: '*' :: (body ++ '*' :: '/' :: row))

/-- A place of a divided source that is in no token and in no comment: what stands before it, and
what behind it. A line comment holds all places up to its line feed, or up to the end of the source
if it has none. -/
inductive Between : List Piece → List Char → List Char → List Char → Prop where
  | last {front rest : List Char} (fills : Filler front) : Between [] (front ++ rest) front rest
  | gap {p : Piece} {pieces : List Piece} {last front rest : List Char}
      (split : p.gap = front ++ rest) (fills : Filler front) :
      Between (p :: pieces) last front (rest ++ (p.lexeme ++ rowOf pieces last))
  | later {p : Piece} {pieces : List Piece} {last front rest : List Char}
      (h : Between pieces last front rest) : Between (p :: pieces) last (p.row ++ front) rest

theorem Between.row {pieces : List Piece} {last front rest : List Char}
    (h : Between pieces last front rest) : rowOf pieces last = front ++ rest := by
  induction h with
  | last fills => rfl
  | gap split fills => rw [rowOf_cons, Piece.row, split, List.append_assoc, List.append_assoc]
  | later h ih => rw [rowOf_cons, ih, List.append_assoc]

/-! ### Gaps -/

section Gaps

variable {gap row rest rest' : List Char}

theorem Filler.gap_append (h : Filler row) (isGap : Gap gap rest) : Gap (row ++ gap) rest := by
  induction h with
  | nil => exact isGap
  | blank hc h ih => exact .blank hc ih
  | line inside h ih =>
      simp only [List.cons_append, List.append_assoc]
      exact .line inside (.inr rfl) (.blank (by decide) ih)
  | block inside h ih =>
      simp only [List.cons_append, List.append_assoc]
      exact .block inside ih

/-- The first line feed ends a line comment. -/
theorem eq_of_line {body body' after : List Char} (inside : '\n' ∉ body) (inside' : '\n' ∉ body')
    (ended : (gap ++ rest).head? = none ∨ (gap ++ rest).head? = some '\n')
    (same : body ++ '\n' :: after = body' ++ gap) : gap = '\n' :: after := by
  obtain ⟨more, rfl, whole⟩ | ⟨more, rfl, rfl⟩ := List.append_eq_append_iff.mp same
  · cases more with
    | nil => exact whole.symm
    | cons c more =>
        obtain ⟨rfl, -⟩ := List.cons.inj whole
        simp at inside'
  · cases more with
    | nil => rfl
    | cons c more =>
        have feed : c = '\n' := by simpa using ended
        simp [feed] at inside

/-- The first closing mark ends a block comment. -/
theorem eq_of_block {body body' after : List Char} (inside : ¬ ['*', '/'] <:+: body)
    (inside' : ¬ ['*', '/'] <:+: body')
    (same : body ++ '*' :: '/' :: after = body' ++ '*' :: '/' :: gap) : gap = after := by
  let r : Reader := ⟨body ++ '*' :: '/' :: after, none, .start, []⟩
  have whole : r.remaining = body ++ '*' :: '/' :: after := List.append_nil _
  obtain ⟨next, found, passed⟩ := Reader.skipToCommentEnd_of_closed inside whole
  obtain ⟨next', found', passed'⟩ := Reader.skipToCommentEnd_of_closed inside' (whole.trans same)
  obtain rfl : next = next' := congrArg Prod.snd (found.symm.trans found')
  have left := passed.left (whole.trans (List.append_assoc body ['*', '/'] after).symm)
  have left' := passed'.left
    ((whole.trans same).trans (List.append_assoc body' ['*', '/'] gap).symm)
  exact left'.symm.trans left

/-- What is left of a gap behind blanks and whole comments is a gap. -/
theorem Filler.gap_of_append (h : Filler row) (isGap : Gap (row ++ gap) rest) : Gap gap rest := by
  induction h with
  | nil => exact isGap
  | blank hc h ih =>
      rw [List.cons_append] at isGap
      generalize _ ++ gap = whole at isGap ih
      cases isGap with
      | blank hc' isGap => exact ih isGap
      | line | block => exact absurd hc (by decide)
  | @line body row inside h ih =>
      simp only [List.cons_append, List.append_assoc] at isGap
      generalize same : body ++ '\n' :: (row ++ gap) = whole at isGap
      cases isGap with
      | blank hc => exact absurd hc (by decide)
      | line inside' ended isGap =>
          obtain rfl := eq_of_line inside inside' ended same
          cases isGap with
          | blank hc isGap => exact ih isGap
  | @block body row inside h ih =>
      simp only [List.cons_append, List.append_assoc] at isGap
      generalize same : body ++ '*' :: '/' :: (row ++ gap) = whole at isGap
      cases isGap with
      | blank hc => exact absurd hc (by decide)
      | block inside' isGap =>
          obtain rfl := eq_of_block inside inside' same
          exact ih isGap

/-- Of what follows a gap only the first character counts. -/
theorem Gap.of_head (h : Gap gap rest) (same : rest'.head? = rest.head?) : Gap gap rest' := by
  induction h with
  | nil => exact .nil
  | blank hc h ih => exact .blank hc (ih same)
  | line inside ended h ih =>
      refine .line inside ?_ (ih same)
      rwa [List.head?_append, same, ← List.head?_append]
  | block inside h ih => exact .block inside (ih same)

end Gaps

/-! ### Pieces at other places -/

/-- A piece behind other characters. -/
def Piece.moved (p : Piece) (before : List Char) : Piece :=
  ⟨p.gap, p.token.lexeme, .behind (before ++ p.gap)⟩

/-- The lexemes of pieces. -/
def lexemesOf (pieces : List Piece) : List Lexeme :=
  pieces.map fun p => p.token.lexeme

section Pieces

variable {before last after after' : List Char} {p : Piece} {pieces : List Piece}

theorem Piece.Fits.moved (fits : p.Fits before after)
    (behind : ∀ c ∈ after'.head?, isBlank c ∨ c ∈ after.head?) (before' : List Char) :
    (p.moved before').Fits before' after' where
  gap := by
    refine fits.gap.of_head ?_
    obtain ⟨c, tail, spelled⟩ := List.exists_cons_of_ne_nil (Lexeme.text_ne_nil fits.proper)
    rw [Piece.lexeme, Piece.lexeme, show (p.moved before').token.lexeme = p.token.lexeme from rfl,
      spelled]
    rfl
  proper := fits.proper
  maximal := fits.maximal.of_head behind
  placed := rfl

/-- Pieces fit as well behind other characters. -/
theorem Divides.moved (h : Divides before pieces last) (before' : List Char) :
    ∃ pieces', Divides before' pieces' last ∧ rowOf pieces' last = rowOf pieces last ∧
      lexemesOf pieces' = lexemesOf pieces := by
  induction h generalizing before' with
  | last isGap => exact ⟨[], .last isGap, rfl, rfl⟩
  | @piece before last p pieces fits h ih =>
      obtain ⟨pieces', divides, row, lexemes⟩ := ih (before' ++ (p.moved before').row)
      refine ⟨p.moved before' :: pieces', .piece (row ▸ fits.moved (fun c => .inr) before') divides,
        ?_, congrArg (p.token.lexeme :: ·) lexemes⟩
      rw [rowOf_cons, row, rowOf_cons]
      rfl

/-- The first character behind a place stays the same if something is put in there that starts with
a blank, unless it is that blank. -/
theorem head?_insert {front ins rest : List Char} (blank : ∀ c ∈ ins.head?, isBlank c) :
    ∀ c ∈ (front ++ (ins ++ rest)).head?, isBlank c ∨ c ∈ (front ++ rest).head? := by
  intro c first
  cases front with
  | cons d front => exact .inr first
  | nil =>
      cases ins with
      | cons d ins => exact .inl (blank c first)
      | nil => exact .inr first

/-- Blanks and comments can be put in between tokens. -/
theorem Between.insert {front rest ins : List Char} (h : Between pieces last front rest)
    (divides : Divides before pieces last) (filler : Filler ins)
    (blank : ∀ c ∈ ins.head?, isBlank c) (before' : List Char) :
    ∃ pieces' last', Divides before' pieces' last' ∧
      rowOf pieces' last' = front ++ (ins ++ rest) ∧ lexemesOf pieces' = lexemesOf pieces := by
  induction h generalizing before before' with
  | @last front rest fills =>
      cases divides with
      | last isGap =>
          have isGap := fills.gap_append (filler.gap_append (fills.gap_of_append isGap))
          exact ⟨[], _, .last isGap, rfl, rfl⟩
  | @gap p pieces last front rest split fills =>
      cases divides with
      | piece fits divides =>
          -- The gap grows, and what follows the token stays.
          let p' : Piece := ⟨front ++ (ins ++ rest), p.token⟩
          obtain ⟨gap, proper, maximal, -⟩ := fits
          rw [split] at gap
          have gap' : Gap p'.gap (p'.lexeme ++ rowOf pieces last) :=
            fills.gap_append (filler.gap_append (fills.gap_of_append gap))
          obtain ⟨pieces', divides', row, lexemes⟩ :=
            divides.moved (before' ++ (p'.moved before').row)
          refine ⟨p'.moved before' :: pieces', last, .piece ⟨?_, proper, ?_, rfl⟩ divides', ?_,
            congrArg (p.token.lexeme :: ·) lexemes⟩
          · rw [row]
            exact gap'
          · rw [row]
            exact maximal
          · rw [rowOf_cons, row]
            simp [Piece.row, Piece.moved, p', Piece.lexeme]
  | @later p pieces last front rest h ih =>
      cases divides with
      | piece fits divides =>
          obtain ⟨pieces', last', divides', row, lexemes⟩ :=
            ih divides (before' ++ (p.moved before').row)
          have fits' : (p.moved before').Fits before' (rowOf pieces' last') := by
            rw [h.row] at fits
            rw [row]
            exact fits.moved (head?_insert blank) before'
          refine ⟨p.moved before' :: pieces', last', .piece fits' divides', ?_,
            congrArg (p.token.lexeme :: ·) lexemes⟩
          rw [rowOf_cons, row, List.append_assoc]
          rfl

end Pieces

/-! ### Sources that have tokens -/

namespace Reader

theorem tokenFrom_of_long {digits : String} {value : Nat} {rest : List Char} {r : Reader}
    (proper : (Lexeme.integer digits value).Proper) (long : ¬ digits.toList.length ≤ maxDigits)
    (ended : ∀ c ∈ rest.head?, ¬ c.isDigit) (whole : r.remaining = digits.toList ++ rest) :
    ∃ c ∈ digits.toList.head?, (r.tokenFrom c).1 = .error .numeralTooLong := by
  obtain ⟨nonempty, inside, -, -⟩ := proper
  have isNumeral : IsNumeral digits.toList rest := ⟨nonempty, inside, ended⟩
  refine ⟨_, List.head_mem_head? nonempty, ?_⟩
  rw [tokenFrom_of_isDigit (inside _ (List.head_mem nonempty)), (isNumeral.integer whole _).1,
    if_neg long]

/-- A piece in front that was read is no numeral that is too long to be. -/
theorem short_of_nextToken {r after : Reader} {found : Option Token} {p : Piece}
    {before rest : List Char} (fits : p.Fits before rest) (whole : r.remaining = p.row ++ rest)
    (read : r.nextToken = (.ok found, after)) : p.token.lexeme.Short := by
  intro digits value numeral
  obtain ⟨gap, proper, maximal, -⟩ := fits
  have whole : r.remaining = p.gap ++ (p.lexeme ++ rest) := by
    rw [whole, Piece.row, List.append_assoc]
  obtain ⟨front, passed, scanned⟩ := nextToken_of_front gap (stops_of_maximal proper maximal) whole
  have left := passed.left whole
  rw [Piece.lexeme] at scanned left
  rw [numeral] at proper maximal scanned left
  by_contra long
  obtain ⟨c, first, failed⟩ := tokenFrom_of_long proper long maximal left
  have scanned := scanned c (by rw [List.head?_append, Lexeme.text, first, Option.some_or]; rfl)
  rw [failed, read] at scanned
  cases scanned

/-- If the source in front of a reader has tokens, they are those of any division of it. -/
theorem eq_of_tokensFrom {before last : List Char} {pieces : List Piece}
    (h : Divides before pieces last) {r : Reader} (placed : r.position = .behind before)
    (whole : r.remaining = rowOf pieces last) {taken tokens : List Token}
    (read : (r.tokensFrom taken).1 = .ok tokens) :
    tokens = taken.reverse ++ pieces.map Piece.token ∧ ∀ l ∈ lexemesOf pieces, l.Short := by
  induction h generalizing r taken with
  | last isGap =>
      obtain ⟨after, ended⟩ := nextToken_of_gap (r := r) (by rw [whole]; exact isGap)
      rw [tokensFrom_of_end ended] at read
      obtain rfl := Except.ok.inj read
      simp [lexemesOf]
  | @piece before last p pieces fits h ih =>
      rw [rowOf_cons] at whole
      have short : p.token.lexeme.Short := by
        cases scanned : r.nextToken with
        | mk found after =>
            cases found with
            | ok found => exact short_of_nextToken fits whole scanned
            | error fault => rw [tokensFrom_of_fault scanned] at read; cases read
      obtain ⟨after, found, passed⟩ := nextToken_of_fits fits placed short whole
      rw [tokensFrom_of_token found] at read
      have later : after.position = .behind (before ++ p.row) := by
        rw [passed.position, placed, ← Position.past_start, ← Position.past_start,
          Position.past_append]
      obtain ⟨tokens, shorts⟩ := ih later (passed.left whole) read
      refine ⟨by simpa using tokens, ?_⟩
      rw [lexemesOf, List.map_cons, List.forall_mem_cons]
      exact ⟨short, shorts⟩

end Reader

/-- A source that has tokens divides into them and into blanks and comments. Wherever neither a
token nor a comment is under way, a row of blanks, and of comments behind a blank, can be put in:
the lexemes are the same, and the source compiles to the same code, or the same is wrong with it,
only maybe at another place. -/
theorem fillers_are_invisible (source : Source) (chunkSize : Int) (filename : Option String)
    (tokens : List Token) (positive : 0 < chunkSize)
    (read : Lexer.tokensOf source chunkSize filename = .ok tokens) :
    (∃ pieces last, Splits source.characters pieces last ∧ tokens = pieces.map Piece.token) ∧
    ∀ pieces last front rest ins, Splits source.characters pieces last →
      Between pieces last front rest → Filler ins → (∀ c ∈ ins.head?, isBlank c) →
      ∀ (source' : Source) (chunkSize' : Int), source'.characters = front ++ (ins ++ rest) →
        0 < chunkSize' →
        (∃ tokens', Lexer.tokensOf source' chunkSize' filename = .ok tokens' ∧
          tokens'.map Token.lexeme = tokens.map Token.lexeme) ∧
        ∀ strict, (compileText source' filename strict chunkSize').mapError Failure.unplaced =
          (compileText source filename strict chunkSize).mapError Failure.unplaced := by
  have found := (Lexer.tokensOf_eq_ok_iff positive tokens).mp read
  have whole := Reader.remaining_ofSource chunkSize.toNat source
  have start : (Reader.ofSource chunkSize.toNat source).position = .behind [] := rfl
  refine ⟨?_, ?_⟩
  · obtain ⟨pieces, last, divides, row, spelled⟩ := Reader.divides_of_tokensFrom start found
    exact ⟨pieces, last, ⟨whole.symm.trans row, divides⟩, spelled⟩
  · rintro pieces last front rest ins ⟨row, divides⟩ between filler blank source' chunkSize' changed
      positive'
    obtain ⟨rfl, short⟩ := Reader.eq_of_tokensFrom divides start (whole.trans row) found
    obtain ⟨pieces', last', divides', row', lexemes⟩ := between.insert divides filler blank []
    have whole' := Reader.remaining_ofSource chunkSize'.toNat source'
    have short' : ∀ p ∈ pieces', p.token.lexeme.Short := fun p inside =>
      short _ (lexemes ▸ List.mem_map_of_mem inside)
    have read' : Lexer.tokensOf source' chunkSize' filename = .ok (pieces'.map Piece.token) := by
      rw [Lexer.tokensOf_eq_ok_iff positive']
      have whole' := whole'.trans (changed.trans row'.symm)
      exact Reader.tokensFrom_of_short divides' rfl short' whole' []
    have same : (pieces'.map Piece.token).map Token.lexeme =
        ([].reverse ++ pieces.map Piece.token).map Token.lexeme := by
      rw [List.map_map, List.reverse_nil, List.nil_append, List.map_map]
      exact lexemes
    exact ⟨⟨_, read', same⟩, compileText_of_lexemes positive' positive read' read same⟩

/-- A comment with comment marks and a quote in it stands right in front of a division sign. -/
theorem fillers_are_invisible_at_division :
    let source : Source := .text "x/2"
    let source' : Source := .text "x /**\"//\n**//2"
    let missing : Problem := .expected "'class'" "identifier 'x'"
    (0 : Int) < 3 ∧ (0 : Int) < 1 ∧
      (Lexer.tokensOf source 3 none).map (·.map Token.lexeme) =
        .ok [.identifier "x", .symbol .slash, .integer "2" 2] ∧
      (Lexer.tokensOf source' 1 none).map (·.map Token.lexeme) =
        .ok [.identifier "x", .symbol .slash, .integer "2" 2] ∧
      (compileText source' none false 1).mapError Failure.unplaced =
        .error (.diagnosed ⟨missing, none, none, none⟩) := by
  intro source source' missing
  let tokens : List Token :=
    [⟨.identifier "x", ⟨1, 1⟩⟩, ⟨.symbol .slash, ⟨1, 2⟩⟩, ⟨.integer "2" 2, ⟨1, 3⟩⟩]
  let pieces : List Piece := tokens.map fun t => ⟨[], t⟩
  let comment : List Char := '/' :: '*' :: ("*\"//\n*".toList ++ ['*', '/'])
  have read : Lexer.tokensOf source 3 none = .ok tokens := by decide +kernel
  have name : (Lexeme.identifier "x").Proper := ⟨by decide, fun word => by cases word <;> decide⟩
  have number : (Lexeme.integer "2" 2).Proper := by simp [Lexeme.Proper]
  have nameEnds : ∀ c ∈ ['/', '2'].head?, ¬ isWordChar c := by rintro c ⟨⟩; decide
  have signEnds : ∀ c ∈ ['2'].head?, c ≠ '/' ∧ c ≠ '*' := by rintro c ⟨⟩; decide
  have splits : Splits source.characters pieces [] :=
    ⟨by decide +kernel,
      .piece ⟨.nil, name, nameEnds, rfl⟩ <|
      .piece ⟨.nil, trivial, signEnds, rfl⟩ <|
      .piece ⟨.nil, number, by rintro c ⟨⟩, rfl⟩ (.last .nil)⟩
  have between : Between pieces [] ['x'] ['/', '2'] := .later (@Between.gap _ _ _ [] _ rfl .nil)
  have filler : Filler (' ' :: comment) := .blank (by decide) (.block (by decide) .nil)
  have blank : ∀ c ∈ (' ' :: comment).head?, isBlank c := by rintro c ⟨⟩; decide
  obtain ⟨-, insert⟩ := fillers_are_invisible source 3 none tokens (by decide) read
  obtain ⟨⟨tokens', read', lexemes⟩, compiled⟩ := insert pieces [] ['x'] ['/', '2'] (' ' :: comment)
    splits between filler blank source' 1 (by decide +kernel) (by decide)
  refine ⟨by decide, by decide, by rw [read]; rfl, ?_, ?_⟩
  · rw [read', Except.map, lexemes]
    rfl
  · rw [compiled]
    decide +kernel

end Jack
