import Jack.Proofs.Driving

/-! # How a text is delivered

A text can be at hand and read in chunks of any size, or come from a stream in parts of any
sizes. The chunks show in the deliveries that are reported, and nowhere else: streams,
cursors and engines that differ only in these stay so whatever they do, and have the same
results.
-/

namespace Jack

/-- The sources that deliver a text: the text itself, and a stream whose reads return its parts,
none of them empty, before the stream ends or returns an empty part. -/
inductive Source.Delivers (text : String) : Source → Prop where
  | text : Delivers text (.text text)
  | stream {parts later : List String} (filled : ∀ part ∈ parts, part ≠ "")
      (whole : String.join parts = text) (ended : ∀ part ∈ later.head?, part = "") :
      Delivers text (.stream (parts ++ later))

theorem Source.Delivers.characters {text : String} {source : Source} (h : source.Delivers text) :
    source.characters = text.toList := by
  cases h with
  | text => exact flatten_cut _ _
  | @stream parts later filled whole ended =>
      have front : ∀ part ∈ parts.map String.toList, !part.isEmpty := by
        simpa [String.toList_eq_nil_iff] using filled
      have behind : (later.map String.toList).takeWhile (fun part => !part.isEmpty) = [] := by
        cases later with
        | nil => rfl
        | cons part later =>
            obtain rfl := ended part rfl
            rfl
      rw [Source.characters, chunks, List.map_append, List.takeWhile_append_of_pos front, behind,
        List.append_nil, ← whole, String.toList_join, List.flatMap]

/-- Every source delivers a text. -/
theorem Source.exists_delivers (source : Source) : ∃ text, source.Delivers text := by
  cases source with
  | text content => exact ⟨content, .text⟩
  | stream parts =>
      let front := parts.takeWhile (· != "")
      have filled : ∀ part ∈ front, part ≠ "" := fun part inside => by
        simpa using List.mem_takeWhile_imp inside
      have ended : ∀ part ∈ (parts.dropWhile (· != "")).head?, part = "" := fun part first => by
        have stopped := List.head?_dropWhile_not (· != "") parts
        rw [Option.mem_def.mp first] at stopped
        simpa using stopped
      have delivered := Source.Delivers.stream filled rfl ended
      rw [List.takeWhile_append_dropWhile] at delivered
      exact ⟨String.join front, delivered⟩

/-- A relation of readers that no scan tells apart and none leaves. -/
structure Reader.Bisimilar (related : Reader → Reader → Prop) : Prop where
  forget : ∀ {r r' : Reader}, related r r' → related r.forget r'.forget
  position : ∀ {r r' : Reader}, related r r' → r.position = r'.position
  found : ∀ {r r' : Reader}, related r r' → r.nextToken.1 = r'.nextToken.1
  later : ∀ {r r' : Reader}, related r r' → related r.nextToken.2 r'.nextToken.2
  shorter : ∀ {r r' : Reader}, related r r' →
    (r.nextToken.2.remaining.length < r.remaining.length ↔
      r'.nextToken.2.remaining.length < r'.remaining.length)

namespace Reader

theorem bisimilar_alike : Bisimilar Alike where
  forget same := (Alike.forget _).trans (same.trans (Alike.forget _).symm)
  position same := same.position
  found same := same.nextToken.1
  later same := same.nextToken.2
  shorter same := by rw [same.nextToken.2.remaining, same.remaining]

namespace Bisimilar

variable {related : Reader → Reader → Prop}

theorem exists_eq (h : Bisimilar related) {r r' rest : Reader} (same : related r r')
    {found : Except Fault (Option Token)} (read : r.nextToken = (found, rest)) :
    ∃ rest', r'.nextToken = (found, rest') ∧ related rest rest' := by
  have first := h.found same
  have later := h.later same
  rw [read] at first later
  exact ⟨r'.nextToken.2, Prod.ext first.symm rfl, later⟩

theorem tokensFrom (h : Bisimilar related) {r r' : Reader} (same : related r r')
    (taken : List Token) : (r.tokensFrom taken).1 = (r'.tokensFrom taken).1 := by
  fun_induction Reader.tokensFrom taken r generalizing r' with
  | case1 taken r token rest read ih =>
      obtain ⟨rest', read', later⟩ := h.exists_eq same read
      rw [tokensFrom_of_token read']
      exact ih later
  | case2 taken r rest read =>
      obtain ⟨rest', read', -⟩ := h.exists_eq same read
      rw [tokensFrom_of_end read']
  | case3 taken r fault rest read =>
      obtain ⟨rest', read', -⟩ := h.exists_eq same read
      rw [tokensFrom_of_fault read']

end Bisimilar

end Reader

namespace TokenStream

/-- Two streams find the same, whatever they read for it. -/
structure Alike (s s' : TokenStream) : Prop where
  outcomes : s.scans.map Scan.outcome = s'.scans.map Scan.outcome
  ending : s.ending = s'.ending

theorem alike_readFrom {related : Reader → Reader → Prop} (h : Reader.Bisimilar related)
    {r r' : Reader} (same : related r r') (filename : Option String)
    {taken taken' : List Scan} (before : taken.map Scan.outcome = taken'.map Scan.outcome) :
    (readFrom filename taken r).Alike (readFrom filename taken' r') := by
  fun_induction readFrom filename taken r generalizing taken' r' with
  | case1 taken r token rest read ih =>
      obtain ⟨rest', found, later⟩ := h.exists_eq (h.forget same) read
      rw [readFrom_of_token found]
      exact ih later (by simp [before])
  | case2 taken r rest read =>
      rename_i last
      obtain ⟨rest', found, later⟩ := h.exists_eq (h.forget same) read
      rw [readFrom_of_end found]
      have place := h.position later
      exact ⟨by simp [before, last, place], by simp [place]⟩
  | case3 taken r fault rest read failure failed shorter =>
      rename_i ih
      obtain ⟨rest', found, later⟩ := h.exists_eq (h.forget same) read
      have less := h.shorter (h.forget same)
      simp only [read, found, Reader.remaining_forget] at less
      rw [readFrom_of_fault found, if_pos (less.mp shorter)]
      exact ih later (by simp [before, failed, failure])
  | case4 taken r fault rest read failure failed =>
      rename_i stays
      obtain ⟨rest', found, later⟩ := h.exists_eq (h.forget same) read
      have less := h.shorter (h.forget same)
      simp only [read, found, Reader.remaining_forget] at less
      rw [readFrom_of_fault found, if_neg fun shorter => stays (less.mpr shorter)]
      exact ⟨by simp [before, failed, failure], rfl⟩

theorem Alike.next {s s' : TokenStream} (h : s.Alike s') :
    s.next.1.outcome = s'.next.1.outcome ∧ s.next.2.Alike s'.next.2 := by
  obtain ⟨scans, ending⟩ := s
  obtain ⟨scans', ending'⟩ := s'
  obtain ⟨outcomes, rfl⟩ := h
  cases scans with
  | nil =>
      obtain rfl : scans' = [] := by simpa using outcomes.symm
      exact ⟨rfl, rfl, rfl⟩
  | cons scan scans =>
      obtain ⟨scan', scans', rfl⟩ : ∃ scan' rest, scans' = scan' :: rest := by
        cases scans' with
        | nil => cases outcomes
        | cons scan' rest => exact ⟨scan', rest, rfl⟩
      obtain ⟨first, later⟩ := List.cons.inj outcomes
      exact ⟨first, later, rfl⟩

end TokenStream

/-- Two cursors at the same place, in front of streams that find the same. -/
structure Cursor.Alike (c c' : Cursor) : Prop where
  previous : c.previous = c'.previous
  current : c.current = c'.current
  ahead : c.ahead.Alike c'.ahead

theorem Cursor.Alike.advance {c c' : Cursor} (h : c.Alike c') :
    c.advance.1 = c'.advance.1 ∧ c.advance.2.2.Alike c'.advance.2.2 := by
  obtain ⟨outcome, later⟩ := h.ahead.next
  obtain ⟨previous, current, ahead⟩ := c
  obtain ⟨previous', current', ahead'⟩ := c'
  obtain ⟨rfl, rfl, same⟩ := h
  simp only [Cursor.advance, outcome]
  split
  · exact ⟨rfl, rfl, rfl, same⟩
  · split
    · exact ⟨rfl, rfl, rfl, later⟩
    · exact ⟨rfl, rfl, rfl, later⟩

namespace Engine

section Steps

variable {goal : Goal} {rest next : List Goal} {e : Engine}

theorem run_of_pop (h : (e.reaction goal).move = .pop) :
    e.run (goal :: rest) = (e.absorb (e.reaction goal)).run rest := by
  rw [run]
  split
  · rfl
  · next found => cases h.symm.trans found
  · next found => cases h.symm.trans found

theorem run_of_shift (h : (e.reaction goal).move = .shift next)
    (passed : (e.absorb (e.reaction goal)).advance.1 = .ok ()) :
    e.run (goal :: rest) = (e.absorb (e.reaction goal)).advance.2.run (next ++ rest) := by
  rw [run]
  split
  · next found => cases h.symm.trans found
  · next found =>
    cases h.symm.trans found
    split
    · rfl
    · next failed => cases passed.symm.trans failed
  · next found => cases h.symm.trans found

theorem run_of_stop {failure : Failure} (h : (e.reaction goal).move = .shift next)
    (failed : (e.absorb (e.reaction goal)).advance.1 = .error failure) :
    e.run (goal :: rest) = (.error failure, (e.absorb (e.reaction goal)).advance.2) := by
  rw [run]
  split
  · next found => cases h.symm.trans found
  · next found =>
    cases h.symm.trans found
    split
    · next passed => cases failed.symm.trans passed
    · next failed' => cases failed.symm.trans failed'; rfl
  · next found => cases h.symm.trans found

theorem run_of_fail {fault : Fault} (h : (e.reaction goal).move = .fail fault) :
    e.run (goal :: rest) = (.error (.ofFault e.filename fault), e.absorb (e.reaction goal)) := by
  rw [run]
  split
  · next found => cases h.symm.trans found
  · next found => cases h.symm.trans found
  · next found => cases h.symm.trans found; rfl

end Steps

/-- Two engines that differ in nothing but what they read of their sources. -/
structure Alike (e e' : Engine) : Prop where
  cursor : e.cursor.Alike e'.cursor
  scope : e.scope = e'.scope
  filename : e.filename = e'.filename
  written : e.written = e'.written

namespace Alike

variable {e e' : Engine}

theorem reaction (h : e.Alike e') (goal : Goal) : e.reaction goal = e'.reaction goal := by
  rw [Engine.reaction, Engine.reaction, h.cursor.current, h.scope]

theorem absorb (h : e.Alike e') (r : Reaction) : (e.absorb r).Alike (e'.absorb r) :=
  ⟨h.cursor, rfl, h.filename, congrArg (r.code.reverse ++ ·) h.written⟩

theorem advance (h : e.Alike e') : e.advance.1 = e'.advance.1 ∧ e.advance.2.Alike e'.advance.2 :=
  ⟨h.cursor.advance.1, h.cursor.advance.2, h.scope, h.filename, h.written⟩

/-- What engines reach does not depend on what they read for it. -/
theorem run (h : e.Alike e') (goals : List Goal) :
    (e.run goals).1 = (e'.run goals).1 ∧ (e.run goals).2.Alike (e'.run goals).2 := by
  have advanced {e e' : Engine} (h : e.Alike e') (goal : Goal) :=
    (h.absorb (e'.reaction goal)).advance
  fun_induction Engine.run goals e generalizing e' with
  | case1 e =>
      rw [Engine.run]
      exact ⟨rfl, h⟩
  | case2 e goal rest moved ih =>
      rw [h.reaction] at moved ih ⊢
      rw [run_of_pop moved]
      exact ih (h.absorb _)
  | case3 e goal rest next moved passed ih =>
      obtain ⟨outcome, later⟩ := advanced h goal
      rw [h.reaction] at moved passed ih ⊢
      rw [run_of_shift moved (outcome.symm.trans passed)]
      exact ih later
  | case4 e goal rest next moved failure failed =>
      obtain ⟨outcome, later⟩ := advanced h goal
      rw [h.reaction] at moved failed ⊢
      rw [run_of_stop moved (outcome.symm.trans failed)]
      exact ⟨rfl, later⟩
  | case5 e goal rest fault moved =>
      rw [h.reaction] at moved ⊢
      rw [run_of_fail moved, h.filename]
      exact ⟨rfl, h.absorb _⟩

end Alike

end Engine

/-! ### Sources -/

section Sources

variable {source source' : Source} {chunkSize chunkSize' : Int}

theorem Reader.alike_ofSource (same : source.characters = source'.characters)
    (size size' : Nat) : (ofSource size source).Alike (ofSource size' source') :=
  ⟨by rw [remaining_ofSource, remaining_ofSource, same], rfl⟩

theorem Lexer.tokensOf_of_bisimilar {related : Reader → Reader → Prop}
    (h : Reader.Bisimilar related) (positive : 0 < chunkSize) (positive' : 0 < chunkSize')
    (same : related (.ofSource chunkSize.toNat source) (.ofSource chunkSize'.toNat source'))
    (filename : Option String) :
    tokensOf source chunkSize filename = tokensOf source' chunkSize' filename := by
  rw [tokensOf_eq positive, tokensOf_eq positive', h.tokensFrom same]

theorem compileSource_of_bisimilar {related : Reader → Reader → Prop}
    (h : Reader.Bisimilar related) (positive : 0 < chunkSize) (positive' : 0 < chunkSize')
    (same : related (.ofSource chunkSize.toNat source) (.ofSource chunkSize'.toNat source'))
    (filename : Option String) (strict : Bool) :
    compileSource source filename strict chunkSize =
      compileSource source' filename strict chunkSize' := by
  have streams : (TokenStream.readFrom filename [] (.ofSource chunkSize.toNat source)).Alike
      (.readFrom filename [] (.ofSource chunkSize'.toNat source')) :=
    TokenStream.alike_readFrom h same filename rfl
  obtain ⟨first, later⟩ := streams.next
  rw [compileSource_of_pos positive, compileSource_of_pos positive']
  simp only [← first]
  split
  · rfl
  · next t found =>
    have engines : (Engine.atStart (.readFrom filename [] (.ofSource chunkSize.toNat source)) t
        strict filename).Alike
          (.atStart (.readFrom filename [] (.ofSource chunkSize'.toNat source')) t strict
            filename) :=
      ⟨⟨rfl, rfl, later⟩, rfl, rfl, rfl⟩
    obtain ⟨outcome, reached⟩ := engines.run [.classDeclaration]
    have written := congrArg List.reverse reached.written
    split
    · next e ran =>
      rw [ran] at outcome written
      split
      · next e' ran' =>
        rw [ran'] at written
        exact congrArg Except.ok written
      · next failure e' ran' => rw [ran'] at outcome; cases outcome
    · next failure e ran =>
      rw [ran] at outcome
      split
      · next e' ran' => rw [ran'] at outcome; cases outcome
      · next failure' e' ran' => rw [ran'] at outcome; cases outcome; rfl

theorem Lexer.tokensOf_congr (same : source.characters = source'.characters)
    (positive : 0 < chunkSize) (positive' : 0 < chunkSize') (filename : Option String) :
    tokensOf source chunkSize filename = tokensOf source' chunkSize' filename :=
  tokensOf_of_bisimilar Reader.bisimilar_alike positive positive'
    (Reader.alike_ofSource same _ _) filename

theorem compileSource_congr (same : source.characters = source'.characters)
    (positive : 0 < chunkSize) (positive' : 0 < chunkSize') (filename : Option String)
    (strict : Bool) :
    compileSource source filename strict chunkSize =
      compileSource source' filename strict chunkSize' :=
  compileSource_of_bisimilar Reader.bisimilar_alike positive positive'
    (Reader.alike_ofSource same _ _) filename strict

end Sources

/-- However a text is delivered, it has the same tokens with the same listing and compiles to the
same code, or fails in the same way. -/
theorem delivery_is_invisible (text : String) (source source' : Source)
    (delivered : source.Delivers text) (delivered' : source'.Delivers text)
    (chunkSize chunkSize' : Int) (positive : 0 < chunkSize) (positive' : 0 < chunkSize')
    (filename : Option String) (strict : Bool) :
    Lexer.tokensOf source chunkSize filename = Lexer.tokensOf source' chunkSize' filename ∧
      (Lexer.tokensOf source chunkSize filename).map Token.listing =
        (Lexer.tokensOf source' chunkSize' filename).map Token.listing ∧
      compileText source filename strict chunkSize =
        compileText source' filename strict chunkSize' := by
  have same := delivered.characters.trans delivered'.characters.symm
  have tokens := Lexer.tokensOf_congr same positive positive' filename
  refine ⟨tokens, by rw [tokens], ?_⟩
  rw [compileText, compileSource_congr same positive positive' filename strict]
  rfl

/-- The marks of a comment are cut in two, and what the stream holds behind its end is no part of
the text. -/
theorem delivery_is_invisible_at_cut_comment :
    let text := "class A\x7b/*x*/function int f()\x7breturn 1;\x7d\x7d"
    let parts := ["class A\x7b/", "*x*", "/function int f()\x7breturn 1;\x7d\x7d"]
    (Source.text text).Delivers text ∧ (Source.stream (parts ++ ["", "class"])).Delivers text ∧
      (0 : Int) < 3 ∧ (0 : Int) < 1 ∧
      compileText (.stream (parts ++ ["", "class"])) none false 1 =
        .ok "function A.f 0\npush constant 1\nreturn\n" := by
  intro text parts
  have delivered : (Source.text text).Delivers text := .text
  have delivered' : (Source.stream (parts ++ ["", "class"])).Delivers text :=
    .stream (by decide) (by decide) (by decide)
  refine ⟨delivered, delivered', by decide, by decide, ?_⟩
  obtain ⟨-, -, same⟩ := delivery_is_invisible text _ _ delivered delivered' 3 1 (by decide)
    (by decide) none false
  rw [← same]
  decide +kernel

end Jack
