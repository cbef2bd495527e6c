import Jack.Proofs.Interleaving
import Jack.Token.Entry
import Mathlib.Data.List.Basic

/-! # Token listings

A token listing can be read back. In the text of an element every character with a meaning is
written as an entity, so the brackets of a listing are those of its elements and an ampersand starts
an entity. Tokens that a lexer gives are on a line each.
-/

namespace Jack

/-! ### Entities -/

/-- The characters that markup gives a meaning, each with its entity. -/
def entities : List (Char × List Char) :=
  [('&', "&amp;".toList), ('>', "&gt;".toList), ('<', "&lt;".toList), ('"', "&quot;".toList),
    ('\'', "&apos;".toList)]

/-- A text with the entity of a character wherever the character stands. -/
def replaced (text : List Char) (entity : Char × List Char) : List Char :=
  text.flatMap fun c => if c = entity.1 then entity.2 else [c]

/-- The text that was written with entities, unless a character stands in it that never does. -/
def unescaped : List Char → Option (List Char)
  | [] => some []
  | '&' :: 'a' :: 'm' :: 'p' :: ';' :: rest => (unescaped rest).map ('&' :: ·)
  | '&' :: 'g' :: 't' :: ';' :: rest => (unescaped rest).map ('>' :: ·)
  | '&' :: 'l' :: 't' :: ';' :: rest => (unescaped rest).map ('<' :: ·)
  | '&' :: 'q' :: 'u' :: 'o' :: 't' :: ';' :: rest => (unescaped rest).map ('"' :: ·)
  | '&' :: 'a' :: 'p' :: 'o' :: 's' :: ';' :: rest => (unescaped rest).map ('\'' :: ·)
  | c :: rest => if entities.any (·.1 == c) then none else (unescaped rest).map (c :: ·)

/-- A text in which nothing but the ampersands of entities has a meaning. -/
structure Marked (text : List Char) : Prop where
  plain : ∀ c ∈ ['<', '>', '"', '\''], c ∉ text
  entity : ∀ before after, text = before ++ '&' :: after →
    ∃ entity ∈ entities, entity.2 <+: '&' :: after

/-- A character is written as its entity, or as itself if it has none. -/
theorem escapedChar_cases (c : Char) :
    (c, escapedChar c) ∈ entities ∨ escapedChar c = [c] ∧ ∀ entity ∈ entities, entity.1 ≠ c := by
  unfold escapedChar
  split
  case h_6 h₁ h₂ h₃ h₄ h₅ =>
    refine .inr ⟨rfl, ?_⟩
    simp only [entities, List.forall_mem_cons, List.not_mem_nil, false_implies, implies_true,
      and_true]
    exact ⟨Ne.symm h₁, Ne.symm h₂, Ne.symm h₃, Ne.symm h₄, Ne.symm h₅⟩
  all_goals exact .inl (by decide)

theorem unescaped_entity : ∀ entity ∈ entities, ∀ rest : List Char,
    unescaped (entity.2 ++ rest) = (unescaped rest).map (entity.1 :: ·) := by
  simp only [entities, List.forall_mem_cons, List.not_mem_nil, false_implies, implies_true,
    and_true]
  exact ⟨fun _ => rfl, fun _ => rfl, fun _ => rfl, fun _ => rfl, fun _ => rfl⟩

theorem unescaped_cons {c : Char} (plain : ∀ entity ∈ entities, entity.1 ≠ c) (rest : List Char) :
    unescaped (c :: rest) = (unescaped rest).map (c :: ·) := by
  have known : ('&', "&amp;".toList) ∈ entities := by decide
  have notAmpersand : '&' ≠ c := plain _ known
  have none : entities.any (·.1 == c) = false := by simpa using plain
  rw [unescaped.eq_def]
  split
  case h_7 =>
    next same =>
      cases same
      rw [none]
      rfl
  case h_1 => next same => cases same
  all_goals
    next same =>
      cases same
      exact absurd rfl notAmpersand

/-- Entities are read back as what they were written for. -/
theorem unescaped_escaped (text : List Char) :
    unescaped (text.flatMap escapedChar) = some text := by
  induction text with
  | nil => rfl
  | cons c text ih =>
      rw [List.flatMap_cons]
      obtain known | ⟨same, plain⟩ := escapedChar_cases c
      · rw [unescaped_entity _ known, ih, Option.map_some]
      · rw [same, List.singleton_append, unescaped_cons plain, ih, Option.map_some]

theorem foldl_replaced_append (es : List (Char × List Char)) (text more : List Char) :
    es.foldl replaced (text ++ more) = es.foldl replaced text ++ es.foldl replaced more := by
  induction es generalizing text more with
  | nil => rfl
  | cons entity es ih =>
      rw [List.foldl_cons, replaced, List.flatMap_append, ih]
      rfl

theorem foldl_replaced_of_ne {es : List (Char × List Char)} {c : Char}
    (plain : ∀ entity ∈ es, entity.1 ≠ c) : es.foldl replaced [c] = [c] := by
  induction es with
  | nil => rfl
  | cons entity es ih =>
      rw [List.forall_mem_cons] at plain
      rw [List.foldl_cons, replaced, List.flatMap_singleton, if_neg plain.1.symm, ih plain.2]

/-- The entities can be put in place one after the other, that of the ampersand first. -/
theorem escaped_eq_foldl (text : List Char) :
    text.flatMap escapedChar = entities.foldl replaced text := by
  have each : ∀ entity ∈ entities, entities.foldl replaced [entity.1] = entity.2 := by decide
  induction text with
  | nil => rfl
  | cons c text ih =>
      rw [List.flatMap_cons, ih, ← List.singleton_append (x := c), foldl_replaced_append]
      congr 1
      obtain known | ⟨same, plain⟩ := escapedChar_cases c
      · exact (each _ known).symm
      · rw [same, foldl_replaced_of_ne plain]

theorem Marked.append {text more : List Char} (h : Marked text) (h' : Marked more) :
    Marked (text ++ more) where
  plain c meaning := by
    rw [List.mem_append]
    exact not_or.mpr ⟨h.plain c meaning, h'.plain c meaning⟩
  entity before after split := by
    obtain ⟨middle, -, whole⟩ | ⟨middle, whole, rest⟩ := List.append_eq_append_iff.mp split
    · exact h'.entity middle after whole
    · cases middle with
      | nil => exact h'.entity [] after rest.symm
      | cons c middle =>
          obtain ⟨rfl, rfl⟩ := List.cons.inj rest
          obtain ⟨entity, known, front⟩ := h.entity before middle whole
          exact ⟨entity, known, front.trans ⟨more, rfl⟩⟩

theorem marked_entity : ∀ entity ∈ entities, Marked entity.2 := by
  intro entity known
  have parts : ∀ entity ∈ entities, (∀ c ∈ ['<', '>', '"', '\''], c ∉ entity.2) ∧
      '&' ∉ entity.2.tail := by simp [entities]
  obtain ⟨plain, first⟩ := parts entity known
  refine ⟨plain, fun before after split => ?_⟩
  cases before with
  | nil => exact ⟨entity, known, split ▸ List.prefix_rfl⟩
  | cons c before => exact absurd (by rw [split]; simp) first

theorem marked_escaped (text : List Char) : Marked (text.flatMap escapedChar) := by
  induction text with
  | nil => exact ⟨by simp, by simp⟩
  | cons c text ih =>
      rw [List.flatMap_cons]
      refine .append ?_ ih
      obtain known | ⟨same, plain⟩ := escapedChar_cases c
      · exact marked_entity _ known
      · have meaningful : ∀ d ∈ ['&', '<', '>', '"', '\''], ∃ entity ∈ entities, entity.1 = d := by
          simp [entities]
        have other : ∀ d ∈ ['&', '<', '>', '"', '\''], d ≠ c := by
          rintro d inside rfl
          obtain ⟨entity, known, same⟩ := meaningful d inside
          exact plain entity known same
        rw [same]
        refine ⟨fun d inside => ?_, fun before after split => ?_⟩
        · simpa using other d (List.mem_cons_of_mem _ inside)
        · have inside : '&' ∈ [c] := by rw [split]; simp
          exact absurd (List.mem_singleton.mp inside) (other '&' (List.mem_cons_self ..))

/-! ### Reading a listing -/

/-- The name and the text of an element, of which the characters between the brackets that open its
tags are given. -/
def readElement (opening closing : List Char) : Option (String × String) :=
  let name := opening.takeWhile (· != '>')
  match opening.dropWhile (· != '>') with
  | '>' :: ' ' :: body =>
    if body.getLast? = some ' ' ∧ closing = '/' :: name ++ ['>', '\n'] then
      (unescaped body.dropLast).map fun text => (String.ofList name, String.ofList text)
    else none
  | _ => none

/-- The names and the texts of elements, up to the tag that closes the listing. -/
def readElements : List (List Char) → Option (List (String × String))
  | [] => none
  | [last] => if last = "/tokens>\n".toList then some [] else none
  | opening :: closing :: rest =>
    (readElement opening closing).bind fun first => (readElements rest).map (first :: ·)

/-- The names and the texts of the elements in a listing. -/
def readListing (listing : String) : Option (List (String × String)) :=
  match listing.toList.splitOn '<' with
  | [] :: first :: rest => if first = "tokens>\n".toList then readElements rest else none
  | _ => none

namespace TokenEntry

/-- What a listing shows of an entry: the name of its kind, and a text. -/
def shown (e : TokenEntry) : String × String :=
  (e.kind.text, e.listedText)

/-- The characters behind the bracket that opens an element. -/
def opening (e : TokenEntry) : List Char :=
  e.kind.text.toList ++ '>' :: ' ' :: (e.listedText.toList.flatMap escapedChar ++ [' '])

/-- The characters behind the bracket of the tag that closes an element. -/
def closing (e : TokenEntry) : List Char :=
  '/' :: e.kind.text.toList ++ ['>', '\n']

theorem toList_listed (e : TokenEntry) :
    e.listed.toList = '<' :: (e.opening ++ '<' :: e.closing) := by
  simp [listed, opening, closing, escaped, String.toList_append, String.toList_ofList]

theorem kind_plain (kind : TokenKind) : '<' ∉ kind.text.toList ∧ '>' ∉ kind.text.toList := by
  cases kind <;> decide

theorem bracket_not_mem (e : TokenEntry) : '<' ∉ e.opening ∧ '<' ∉ e.closing := by
  have text := (marked_escaped e.listedText.toList).plain '<' (by decide)
  have kind := (kind_plain e.kind).1
  constructor
  · simp [opening, text, kind]
  · simp [closing, kind]

theorem readElement_eq (e : TokenEntry) : readElement e.opening e.closing = some e.shown := by
  have name : ∀ c ∈ e.kind.text.toList, (c != '>') = true := by
    intro c inside
    simpa using ne_of_mem_of_not_mem inside (kind_plain e.kind).2
  have front : e.opening.takeWhile (· != '>') = e.kind.text.toList := by
    rw [opening, List.takeWhile_append_of_pos name]
    simp
  have behind : e.opening.dropWhile (· != '>') =
      '>' :: ' ' :: (e.listedText.toList.flatMap escapedChar ++ [' ']) := by
    rw [opening, List.dropWhile_append_of_pos name]
    rfl
  simp only [readElement, front, behind]
  rw [if_pos ⟨List.getLast?_concat, rfl⟩, List.dropLast_concat, unescaped_escaped, Option.map_some,
    String.ofList_toList, String.ofList_toList, shown]

/-- The parts of a listing behind its first tag. -/
def parts (entries : List TokenEntry) : List (List Char) :=
  entries.flatMap (fun e => [e.opening, e.closing]) ++ ["/tokens>\n".toList]

theorem splitOn_listed {front : List Char} (plain : '<' ∉ front) (entries : List TokenEntry) :
    (front ++ (String.join (entries.map listed) ++ "</tokens>\n").toList).splitOn '<' =
      front :: parts entries := by
  induction entries generalizing front with
  | nil =>
      have last : '<' ∉ "/tokens>\n".toList := by decide
      exact (List.splitOn_append_cons_self_of_not_mem plain _).trans
        (congrArg _ (List.splitOn_eq_singleton last))
  | cons e entries ih =>
      rw [List.map_cons, String.join_cons, String.append_assoc, String.toList_append, toList_listed,
        List.cons_append, List.append_assoc, List.cons_append,
        List.splitOn_append_cons_self_of_not_mem plain,
        List.splitOn_append_cons_self_of_not_mem e.bracket_not_mem.1, ih e.bracket_not_mem.2]
      rfl

theorem readElements_parts (entries : List TokenEntry) :
    readElements (parts entries) = some (entries.map shown) := by
  induction entries with
  | nil => decide
  | cons e entries ih =>
      have split : parts (e :: entries) = e.opening :: e.closing :: parts entries := rfl
      cases rest : parts entries with
      | nil => simp [parts] at rest
      | cons next rest' =>
          rw [split, rest, readElements, readElement_eq, ← rest, ih]
          rfl

/-- A listing is read back as what it shows. -/
theorem readListing_listing (entries : List TokenEntry) :
    readListing (listing entries) = some (entries.map shown) := by
  have whole : (listing entries).toList =
      [] ++ '<' :: ("tokens>\n".toList ++
        (String.join (entries.map listed) ++ "</tokens>\n").toList) := by
    rw [listing, String.append_assoc, String.toList_append]
    rfl
  rw [readListing, whole, List.splitOn_append_cons_self_of_not_mem (by simp),
    splitOn_listed (by decide)]
  exact readElements_parts entries

end TokenEntry

/-! ### Tokens of a lexer -/

/-- Whether the text of a token is on one line. -/
def Token.OneLine (t : Token) : Prop :=
  '\n' ∉ t.lexeme.text.toList

theorem newline_not_mem {p : Char → Bool} {text : List Char} (h : ∀ c ∈ text, p c)
    (excluded : p '\n' = false) : '\n' ∉ text := by
  intro inside
  rw [h _ inside] at excluded
  cases excluded

theorem Lexeme.newline_not_mem_text {l : Lexeme} (h : l.Proper) : '\n' ∉ l.text.toList := by
  cases l with
  | keyword word => cases word <;> decide
  | symbol mark => cases mark <;> decide
  | identifier name => exact newline_not_mem h.1.2.1 (by decide)
  | integer digits value => exact newline_not_mem h.2.1 (by decide)
  | string content =>
      have inside : '\n' ∉ content.toList := fun inside => (h _ inside).2.1 rfl
      simp [Lexeme.text, inside]
  | endOfInput => exact h.elim

theorem Lexeme.newline_not_mem_ofWord {word : String} (h : '\n' ∉ word.toList) :
    '\n' ∉ (Lexeme.ofWord word).text.toList := by
  rwa [Lexeme.text_ofWord]

namespace Reader

variable {r rest : Reader} {start : Position} {t : Token}

theorem oneLine_of_nextToken (h : r.nextToken = (.ok (some t), rest)) : t.OneLine :=
  Lexeme.newline_not_mem_text (proper_of_nextToken h)

theorem oneLine_of_tokensFrom {taken tokens : List Token}
    (h : (r.tokensFrom taken).1 = .ok tokens) (before : ∀ t ∈ taken, t.OneLine) :
    ∀ t ∈ tokens, t.OneLine := by
  fun_induction tokensFrom taken r with
  | case1 taken r t rest read ih =>
      exact ih h (List.forall_mem_cons.mpr ⟨oneLine_of_nextToken read, before⟩)
  | case2 taken r rest read =>
      cases h
      exact fun t inside => before t (List.mem_reverse.mp inside)
  | case3 taken r fault rest read => cases h

theorem oneLine_of_integer (h : (r.integer start).1 = .ok t) : t.OneLine := by
  simp only [integer, fst_takeWhile] at h
  repeat' split at h
  all_goals cases h
  refine newline_not_mem (p := Char.isDigit) (fun c inside => ?_) (by decide)
  exact List.mem_takeWhile_imp (String.toList_ofList ▸ inside)

theorem oneLine_of_string (h : (r.string start).1 = .ok t) : t.OneLine := by
  simp only [string, fst_takeWhile] at h
  repeat' split at h
  all_goals cases h
  have inside : '\n' ∉ r.advance.remaining.takeWhile isStringChar :=
    newline_not_mem (fun c inside => List.mem_takeWhile_imp inside) (by decide)
  simp [Token.OneLine, Lexeme.text, inside]

theorem oneLine_word (start : Position) (r : Reader) : (r.word start).1.OneLine := by
  simp only [word, fst_takeWhile]
  refine Lexeme.newline_not_mem_ofWord ?_
  rw [String.toList_ofList]
  exact newline_not_mem (fun c inside => List.mem_takeWhile_imp inside) (by decide)

end Reader

namespace Lexer

/-- The tokens in an answer. -/
def given : Except Failure Answer → List Token
  | .ok (.token found) => found.toList
  | .ok (.tokens all) => all
  | _ => []

/-- A token in an answer of a lexer, whatever its source is and whatever it was asked before. -/
def Gives (t : Token) : Prop :=
  ∃ (source : Source) (chunkSize : Int) (filename : Option String) (l : Lexer) (calls : List Call),
    ofSource source chunkSize filename = .ok l ∧ ∃ answer ∈ answers calls l, t ∈ given answer

/-- Tokens of an answer and the one that is kept are on a line each. -/
structure OneLine (found : Except Failure Answer × Lexer) : Prop where
  given : ∀ t ∈ given found.1, t.OneLine
  kept : ∀ t ∈ found.2.pending, t.OneLine

/-- A scan finds a token on one line, and keeps what was kept. -/
theorem oneLine_scan {l next : Lexer} {found : Except Failure (Option Token)}
    (h : l.scan = (found, next)) :
    next.pending = l.pending ∧ ∀ token, found = .ok token → ∀ t ∈ token, t.OneLine := by
  obtain ⟨rfl, rfl⟩ := Prod.mk.inj h
  refine ⟨rfl, fun token same t inside => ?_⟩
  cases read : l.reader.nextToken with
  | mk outcome rest =>
      rw [read] at same
      cases outcome with
      | error fault => cases same
      | ok outcome =>
          cases same
          rw [Option.mem_def.mp inside] at read
          exact Reader.oneLine_of_nextToken read

section Perform

variable {l : Lexer} (kept : ∀ t ∈ l.pending, t.OneLine)

include kept

theorem oneLine_hasNext : ∀ t ∈ l.hasNext.2.pending, t.OneLine := by
  unfold hasNext
  split
  · exact kept
  · cases read : l.scan with
    | mk found next =>
        obtain ⟨same, oneLine⟩ := oneLine_scan read
        cases found with
        | error failure => exact same ▸ kept
        | ok token => exact oneLine token rfl

theorem oneLine_advance : (∀ t, l.advance.1 = .ok t → t.OneLine) ∧
    ∀ t ∈ l.advance.2.pending, t.OneLine := by
  have asked := oneLine_hasNext kept
  unfold advance
  split
  · next answered =>
    rw [answered] at asked
    exact ⟨fun t same => (by cases same), asked⟩
  · next answered =>
    rw [answered] at asked
    split
    · next token there =>
      refine ⟨fun t same => ?_, by simp⟩
      cases same
      exact asked _ there
    · exact ⟨fun t same => (by cases same), asked⟩

theorem oneLine_tokenize : (∀ tokens, l.tokenize.1 = .ok tokens → ∀ t ∈ tokens, t.OneLine) := by
  intro tokens same
  cases read : l.reader.tokensFrom l.pending.toList with
  | mk outcome rest =>
      simp only [tokenize, scanned, read] at same
      cases outcome with
      | error fault => cases same
      | ok found =>
          cases same
          refine Reader.oneLine_of_tokensFrom (by rw [read]) fun t inside => kept t ?_
          exact Option.mem_toList.mp inside

/-- Whatever a lexer is asked, the tokens that it answers with and keeps are on a line each. -/
theorem oneLine_perform (call : Call) : OneLine (perform call l) := by
  have single {found : Except Fault Token} (h : ∀ t, found = .ok t → t.OneLine) :
      ∀ t ∈ given ((found.mapError (.ofFault l.filename)).map fun t => .token (some t)),
        t.OneLine := by
    cases found with
    | error fault => exact List.forall_mem_nil _
    | ok t => exact List.forall_mem_singleton.mpr (h t rfl)
  cases call with
  | hasNext =>
      refine ⟨?_, oneLine_hasNext kept⟩
      simp only [perform, answered]
      cases l.hasNext.1 <;> exact List.forall_mem_nil _
  | advance =>
      obtain ⟨taken, kept⟩ := oneLine_advance kept
      refine ⟨?_, kept⟩
      simp only [perform, answered]
      cases found : l.advance.1 with
      | error failure => exact List.forall_mem_nil _
      | ok t => exact List.forall_mem_singleton.mpr (taken t found)
  | tokenize =>
      refine ⟨?_, by simp [perform, answered, tokenize, scanned]⟩
      simp only [perform, answered]
      cases found : l.tokenize.1 with
      | error failure => exact List.forall_mem_nil _
      | ok tokens => exact oneLine_tokenize kept tokens found
  | scan =>
      cases read : l.scan with
      | mk found next =>
          obtain ⟨same, oneLine⟩ := oneLine_scan read
          simp only [perform, answered, read]
          refine ⟨?_, same ▸ kept⟩
          cases found with
          | error failure => exact List.forall_mem_nil _
          | ok token => exact fun t inside => oneLine token rfl t (Option.mem_toList.mp inside)
  | skipIgnored =>
      refine ⟨?_, kept⟩
      simp only [perform, answered, scanned]
      cases l.reader.skipIgnored.1 <;> exact List.forall_mem_nil _
  | skipBlock =>
      refine ⟨?_, kept⟩
      simp only [perform, answered, scanned]
      cases l.reader.skipBlock.1 <;> exact List.forall_mem_nil _
  | integer start => exact ⟨single fun t => Reader.oneLine_of_integer, kept⟩
  | string start => exact ⟨single fun t => Reader.oneLine_of_string, kept⟩
  | word start =>
      exact ⟨List.forall_mem_singleton.mpr (Reader.oneLine_word start l.reader), kept⟩
  | skipLine | peek | advanceChar => exact ⟨List.forall_mem_nil _, kept⟩

theorem oneLine_answers (calls : List Call) :
    ∀ answer ∈ answers calls l, ∀ t ∈ given answer, t.OneLine := by
  induction calls generalizing l with
  | nil => exact List.forall_mem_nil _
  | cons call calls ih =>
      have first := oneLine_perform kept call
      exact List.forall_mem_cons.mpr ⟨first.given, ih first.kept⟩

end Perform

theorem Gives.oneLine {t : Token} (h : Gives t) : t.OneLine := by
  obtain ⟨source, chunkSize, filename, l, calls, opened, answer, inside, given⟩ := h
  refine oneLine_answers (fun t kept => ?_) calls answer inside t given
  unfold ofSource at opened
  split at opened <;> cases opened
  cases kept

end Lexer

/-! ### Lines of a listing -/

namespace TokenEntry

/-- The line of an entry in a listing, without its end. -/
def line (e : TokenEntry) : List Char :=
  '<' :: (e.opening ++ '<' :: '/' :: e.kind.text.toList ++ ['>'])

theorem toList_listed_eq_line (e : TokenEntry) : e.listed.toList = e.line ++ ['\n'] := by
  simp [toList_listed, line, closing]

end TokenEntry

theorem newline_not_mem_escaped {text : List Char} (h : '\n' ∉ text) :
    '\n' ∉ text.flatMap escapedChar := by
  have entity : ∀ entity ∈ entities, '\n' ∉ entity.2 := by decide
  rw [List.mem_flatMap]
  rintro ⟨c, inside, written⟩
  obtain known | ⟨same, -⟩ := escapedChar_cases c
  · exact entity _ known written
  · rw [same, List.mem_singleton] at written
    exact h (written ▸ inside)

theorem Token.OneLine.line {t : Token} (h : t.OneLine) : '\n' ∉ t.entry.line := by
  have kind : '\n' ∉ t.entry.kind.text.toList := by
    cases t.entry.kind <;> decide
  have text : '\n' ∉ t.entry.listedText.toList := by
    obtain ⟨l, place⟩ := t
    cases l with
    | string content =>
        refine fun inside => h ?_
        rw [Lexeme.text, String.toList_append, String.toList_append]
        exact List.mem_append_left _ (List.mem_append_right _ inside)
    | _ => exact h
  simp [TokenEntry.line, TokenEntry.opening, kind, newline_not_mem_escaped text]

/-- Cut at line feeds, the part of a listing behind its first line has a line for each token. -/
theorem splitOn_lines {tokens : List Token} (h : ∀ t ∈ tokens, t.OneLine) :
    (String.join ((tokens.map Token.entry).map TokenEntry.listed) ++ "</tokens>\n").toList.splitOn
        '\n' = tokens.map (·.entry.line) ++ ["</tokens>".toList, []] := by
  induction tokens with
  | nil => decide
  | cons t tokens ih =>
      rw [List.forall_mem_cons] at h
      rw [List.map_cons, List.map_cons, String.join_cons, String.append_assoc,
        String.toList_append, TokenEntry.toList_listed_eq_line, List.append_assoc,
        List.singleton_append, List.splitOn_append_cons_self_of_not_mem h.1.line, ih h.2]
      rfl

theorem splitOn_listing {tokens : List Token} (h : ∀ t ∈ tokens, t.OneLine) :
    (Token.listing tokens).toList.splitOn '\n' =
      "<tokens>".toList :: tokens.map (·.entry.line) ++ ["</tokens>".toList, []] := by
  have first : '\n' ∉ "<tokens>".toList := by decide
  rw [Token.listing, TokenEntry.listing, String.append_assoc, String.toList_append]
  refine (List.splitOn_append_cons_self_of_not_mem first _).trans ?_
  exact congrArg ("<tokens>".toList :: ·) (splitOn_lines h)

/-- A listing is read back as the names and texts of its entries, so no two listings are equal
unless these are. An entry shows its value if it is a string constant and its source text otherwise.
In the text of an element, which is what putting entities in place one after the other makes of it,
nothing has a meaning but the ampersands of entities, and these are read back as what they were
written for. A listing of tokens from a lexer has a line for each token between its first and its
last one. -/
theorem listings_are_lossless (entries entries' : List TokenEntry) (text : String)
    (tokens : List Token) :
    readListing (TokenEntry.listing entries) = some (entries.map TokenEntry.shown) ∧
      (TokenEntry.listing entries = TokenEntry.listing entries' →
        entries.map TokenEntry.shown = entries'.map TokenEntry.shown) ∧
      (∀ e : TokenEntry, e.shown.1 = e.kind.text ∧
        (∀ content, e.kind = .stringConstant → e.value = .text content → e.shown.2 = content) ∧
        (e.kind ≠ .stringConstant → e.shown.2 = e.text)) ∧
      ((escaped text).toList = entities.foldl replaced text.toList ∧
        Marked (escaped text).toList ∧ unescaped (escaped text).toList = some text.toList) ∧
      ((∀ t ∈ tokens, Lexer.Gives t) →
        (Token.listing tokens).toList.splitOn '\n' =
          "<tokens>".toList :: tokens.map (·.entry.line) ++ ["</tokens>".toList, []]) := by
  refine ⟨TokenEntry.readListing_listing entries, fun same => ?_, fun e => ⟨rfl, ?_, ?_⟩, ?_,
    fun given => splitOn_listing fun t inside => (given t inside).oneLine⟩
  · have read := TokenEntry.readListing_listing entries
    rw [same, TokenEntry.readListing_listing] at read
    exact (Option.some.inj read).symm
  · rintro content kind value
    simp only [TokenEntry.shown, TokenEntry.listedText, kind, value]
  · intro kind
    simp only [TokenEntry.shown, TokenEntry.listedText]
    split
    · next found _ => exact absurd found kind
    · rfl
  · rw [escaped, String.toList_ofList]
    exact ⟨escaped_eq_foldl _, marked_escaped _, unescaped_escaped _⟩

/-- A text that looks like an entity keeps its spaces and its ampersand, and so does the text of a
token that a lexer takes out of its source. -/
theorem listings_are_lossless_at_entities :
    readListing (TokenEntry.listing [⟨.stringConstant, "\"", .text " &lt; ", ⟨1, 1⟩⟩,
        ⟨.endOfInput, "<eof>", .null, ⟨1, 9⟩⟩]) =
        some [("stringConstant", " &lt; "), ("eof", "<eof>")] ∧
      unescaped (escaped "&amp;lt;").toList = some "&amp;lt;".toList ∧
      (Token.listing [⟨.string "a<b ", ⟨1, 1⟩⟩]).toList.splitOn '\n' =
        ["<tokens>".toList, "<stringConstant> a&lt;b  </stringConstant>".toList,
          "</tokens>".toList, []] := by
  have written := listings_are_lossless [⟨.stringConstant, "\"", .text " &lt; ", ⟨1, 1⟩⟩,
    ⟨.endOfInput, "<eof>", .null, ⟨1, 9⟩⟩] [] "&amp;lt;" [⟨.string "a<b ", ⟨1, 1⟩⟩]
  have given : Lexer.Gives ⟨.string "a<b ", ⟨1, 1⟩⟩ := by
    refine ⟨.text "\"a<b \"", 4, none, ⟨.ofSource 4 (.text "\"a<b \""), none, none⟩, [.advance],
      rfl, List.mem_flatMap.mp ?_⟩
    decide +kernel
  exact ⟨written.1, written.2.2.2.1.2.2,
    written.2.2.2.2 (List.forall_mem_singleton.mpr given)⟩

end Jack
