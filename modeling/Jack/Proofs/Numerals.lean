import Jack.Proofs.Tokenizing

/-! # Numerals

What becomes of a run of digits of any length, whatever number it spells. Only runs of at most
`maxDigits` digits are ever converted, so a longer one is neither an integer constant nor found to
be out of range, not even if all its digits are zeros.
-/

namespace Jack

/-- The number that a run of decimal digits spells. -/
def numeralValue (digits : List Char) : Nat :=
  Nat.ofDigits 10 (digits.reverse.map fun c => c.toNat - '0'.toNat)

theorem decimalValue_eq_numeralValue (digits : List Char) :
    decimalValue digits = numeralValue digits :=
  decimalValue_eq digits

/-- A run of digits that no other digit follows. -/
structure IsNumeral (digits rest : List Char) : Prop where
  nonempty : digits ≠ []
  inside : ∀ c ∈ digits, c.isDigit
  ended : ∀ c ∈ rest.head?, ¬ c.isDigit

/-- What a run of digits is by its value alone: an integer constant if the value is in range, and
out of range where it starts if it is not. -/
def Lexer.numeral (filename : Option String) (digits : List Char) (start : Position) :
    Except Failure (Option Token) :=
  let text := String.ofList digits
  if numeralValue digits ≤ 32767 then .ok (some ⟨.integer text (numeralValue digits), start⟩)
  else .error (.diagnosed (.atPosition (.integerOutOfRange text) start filename))

namespace IsNumeral

variable {digits rest : List Char}

theorem stops (h : IsNumeral digits rest) : Stops (digits ++ rest) :=
  stops_of_isWordChar h.nonempty fun c hc => by rw [isWordChar_eq, h.inside c hc, Bool.or_true]

/-- The integer scanner takes the whole run, and looks at the value only of a short one. -/
theorem integer (h : IsNumeral digits rest) {r : Reader} (whole : r.remaining = digits ++ rest)
    (start : Position) :
    (r.integer start).1 =
      (if digits.length ≤ maxDigits then
        if numeralValue digits ≤ 32767 then
          .ok ⟨.integer (String.ofList digits) (numeralValue digits), start⟩
        else .error (.problem (.integerOutOfRange (String.ofList digits)) start)
      else .error .numeralTooLong) ∧
    r.Passes digits (r.integer start).2 := by
  obtain ⟨taken, passed⟩ := Reader.passes_takeWhile_append h.inside h.ended whole
  have nonempty : ¬ digits.isEmpty := by simpa using h.nonempty
  have short : (digits.drop maxDigits).isEmpty ↔ digits.length ≤ maxDigits := by simp
  simp only [Reader.integer, taken, if_neg nonempty, short,
    decimalValue_eq_numeralValue, maxConstant]
  refine ⟨?_, ?_⟩
  all_goals split
  · split <;> rfl
  · rfl
  · split <;> exact passed
  · exact passed

/-- A run of digits is scanned up to its end, and read by its value if it is short. -/
theorem scan (h : IsNumeral digits rest) {l : Lexer} {gap : List Char}
    (isGap : Gap gap (digits ++ rest)) (whole : l.reader.remaining = gap ++ (digits ++ rest)) :
    l.scan.1 =
      (if digits.length ≤ maxDigits then
        Lexer.numeral l.filename digits (l.reader.position.past gap)
      else .error .numeralTooLong) ∧
    l.reader.Passes (gap ++ digits) l.scan.2.reader := by
  obtain ⟨front, passed, read⟩ := Reader.nextToken_of_front isGap h.stops whole
  obtain ⟨c, tail, spelled⟩ := List.exists_cons_of_ne_nil h.nonempty
  have digit : c.isDigit := h.inside c (by simp [spelled])
  have read := read c (by rw [spelled]; rfl)
  rw [Reader.tokenFrom_of_isDigit digit, passed.position] at read
  obtain ⟨found, scanned⟩ := h.integer (passed.left whole) (l.reader.position.past gap)
  simp only [Lexer.scan, Lexer.scanned, read, found]
  refine ⟨?_, passed.trans scanned⟩
  unfold Lexer.numeral
  split
  · split <;> rfl
  · rfl

end IsNumeral

theorem Lexer.numeral_ne_numeralTooLong (filename : Option String) (digits : List Char)
    (start : Position) : numeral filename digits start ≠ .error .numeralTooLong := by
  unfold numeral
  split <;> simp

/-- Wherever a run of digits is the next thing to be read, it is passed as a whole. It becomes what
its value makes it if and only if it has at most `maxDigits` digits; a longer one fails in another
way, whatever its value is. -/
theorem numerals_are_read_by_value_iff_short (l : Lexer) (gap digits rest : List Char)
    (isNumeral : IsNumeral digits rest) (isGap : Gap gap (digits ++ rest))
    (whole : l.reader.remaining = gap ++ (digits ++ rest)) :
    l.reader.Passes (gap ++ digits) l.scan.2.reader ∧
    (l.scan.1 = Lexer.numeral l.filename digits (l.reader.position.past gap) ↔
      digits.length ≤ maxDigits) ∧
    (maxDigits < digits.length → l.scan.1 = .error .numeralTooLong) := by
  obtain ⟨found, passed⟩ := isNumeral.scan isGap whole
  refine ⟨passed, ⟨fun byValue => ?_, fun short => ?_⟩, fun long => ?_⟩
  · by_contra long
    rw [if_neg long] at found
    exact Lexer.numeral_ne_numeralTooLong _ _ _ (byValue.symm.trans found)
  · rw [found, if_pos short]
  · rw [found, if_neg (by omega)]

/-- A number behind a comment that is out of range. -/
theorem numerals_are_read_by_value_iff_short_at_comment :
    let l : Lexer := ⟨.ofSource 3 (.text "/* */ 0032768;"), some "Main.jack", none⟩
    let gap := "/* */ ".toList
    let digits := "0032768".toList
    IsNumeral digits [';'] ∧ Gap gap (digits ++ [';']) ∧
      l.reader.remaining = gap ++ (digits ++ [';']) ∧
      l.scan.1 = .error (.diagnosed
        (.atPosition (.integerOutOfRange "0032768") ⟨1, 7⟩ (some "Main.jack"))) := by
  intro l gap digits
  have isNumeral : IsNumeral digits [';'] :=
    ⟨by decide, List.all_eq_true.mp rfl, by simp⟩
  have isGap : Gap ('/' :: '*' :: ([' '] ++ '*' :: '/' :: [' '])) (digits ++ [';']) :=
    .block (by decide) (.blank (by decide) .nil)
  have whole : l.reader.remaining = gap ++ (digits ++ [';']) := by decide +kernel
  obtain ⟨-, byValue, -⟩ :=
    numerals_are_read_by_value_iff_short l gap digits [';'] isNumeral isGap whole
  exact ⟨isNumeral, isGap, whole, (byValue.mpr (by decide)).trans (by decide +kernel)⟩

/-- A row of zeros that is too long to be converted is not read as zero. -/
theorem scan_of_zeros {n : Nat} (long : maxDigits < n) :
    let digits := List.replicate n '0'
    let l : Lexer := ⟨.ofSource 4096 (.text (String.ofList digits)), none, none⟩
    IsNumeral digits [] ∧ l.reader.remaining = digits ∧ l.scan.1 = .error .numeralTooLong := by
  intro digits l
  have length : digits.length = n := List.length_replicate
  have isNumeral : IsNumeral digits [] := by
    refine ⟨List.length_pos_iff.mp (by omega), fun c hc => ?_, by simp⟩
    rw [List.eq_of_mem_replicate hc]
    rfl
  have whole : l.reader.remaining = digits := by
    refine (Source.flatten_chunks 4096 (.text (String.ofList digits))).trans ?_
    simp [Source.characters, Source.chunks, Source.flatten_cut]
  obtain ⟨found, -⟩ := isNumeral.scan (l := l) .nil (whole.trans (List.append_nil _).symm)
  rw [if_neg (by omega)] at found
  exact ⟨isNumeral, whole, found⟩

/-- Not every run of digits is read by its value. -/
theorem numerals_are_not_always_read_by_value :
    let digits := List.replicate 4301 '0'
    let l : Lexer := ⟨.ofSource 4096 (.text (String.ofList digits)), none, none⟩
    IsNumeral digits [] ∧ l.reader.remaining = digits ∧
      l.scan.1 ≠ Lexer.numeral none digits ⟨1, 1⟩ := by
  intro digits l
  obtain ⟨isNumeral, whole, found⟩ := scan_of_zeros (n := 4301) (by decide)
  refine ⟨isNumeral, whole, fun byValue => ?_⟩
  exact Lexer.numeral_ne_numeralTooLong _ _ _ (byValue.symm.trans found)

end Jack
