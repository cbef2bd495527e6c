import Jack.Proofs.Delivery
import Jack.Proofs.Findings

/-! # Line ends

A line may end with a line feed, or with a carriage return in front of one. The carriage return is
a blank outside of tokens and comments, is passed like any other character inside a comment, and
ends a string constant just as the line feed would; it moves the column, but the line feed behind it
starts a new line all the same. So a text with carriage returns in front of its line feeds has the
same tokens at the same places, and the same is wrong with it.
-/

namespace Jack

/-- A row with a carriage return in front of each of its line feeds. -/
def crlf (row : List Char) : List Char :=
  row.flatMap fun c => if c = '\n' then ['\r', '\n'] else [c]

section Rows

variable {c : Char} {row rest : List Char}

theorem crlf_nil : crlf [] = [] := rfl

theorem crlf_feed (rest : List Char) : crlf ('\n' :: rest) = '\r' :: '\n' :: crlf rest := rfl

theorem crlf_cons_of_ne (hc : c ≠ '\n') (rest : List Char) : crlf (c :: rest) = c :: crlf rest := by
  rw [crlf, List.flatMap_cons, if_neg hc]
  rfl

theorem crlf_append (row rest : List Char) : crlf (row ++ rest) = crlf row ++ crlf rest :=
  List.flatMap_append

theorem crlf_of_notMem (h : '\n' ∉ row) : crlf row = row := by
  induction row with
  | nil => rfl
  | cons c row ih =>
      rw [List.mem_cons, not_or] at h
      rw [crlf_cons_of_ne (Ne.symm h.1), ih h.2]

theorem crlf_eq_nil_iff : crlf row = [] ↔ row = [] := by
  cases row with
  | nil => simp [crlf_nil]
  | cons c row =>
      by_cases hc : c = '\n'
      · subst hc
        simp [crlf_feed]
      · simp [crlf_cons_of_ne hc]

/-- A character other than the two of a line end is in front of both rows or of none. -/
theorem head?_crlf {d : Char} (feed : d ≠ '\n') (back : d ≠ '\r') :
    (crlf row).head? = some d ↔ row.head? = some d := by
  cases row with
  | nil => rfl
  | cons c row =>
      by_cases hc : c = '\n'
      · subst hc
        simp [crlf_feed, Ne.symm feed, Ne.symm back]
      · simp [crlf_cons_of_ne hc]

/-- Characters of a class without line ends are taken from both rows alike. -/
theorem span_crlf {p : Char → Bool} (feed : p '\n' = false) (back : p '\r' = false)
    (row : List Char) :
    (crlf row).takeWhile p = row.takeWhile p ∧ (crlf row).dropWhile p = crlf (row.dropWhile p) := by
  induction row with
  | nil => exact ⟨rfl, rfl⟩
  | cons c row ih =>
      by_cases hc : c = '\n'
      · subst hc
        simp [crlf_feed, feed, back]
      · rw [crlf_cons_of_ne hc]
        by_cases inside : p c
        · simp [inside, ih]
        · simp [inside, crlf_cons_of_ne hc]

/-- The carriage return moves the column in vain. -/
theorem Position.past_crlf (p : Position) (row : List Char) : p.past (crlf row) = p.past row := by
  induction row generalizing p with
  | nil => rfl
  | cons c row ih =>
      by_cases hc : c = '\n'
      · subst hc
        rw [crlf_feed, past_cons, past_cons, ih]
        rfl
      · rw [crlf_cons_of_ne hc, past_cons, past_cons, ih]

end Rows

namespace Reader

/-- One reader is where another is, in the same source with carriage returns. -/
structure Returns (r s : Reader) : Prop where
  remaining : r.remaining = crlf s.remaining
  position : r.position = s.position

namespace Returns

variable {r s : Reader}

/-- Two scans find the same, one of them in the source with carriage returns. -/
def Same {α : Type} (x y : α × Reader) : Prop :=
  x.1 = y.1 ∧ x.2.Returns y.2

theorem Same.exists_eq {α : Type} {x y : α × Reader} {found : α} {rest : Reader} (h : Same x y)
    (hy : y = (found, rest)) : ∃ rest', x = (found, rest') ∧ rest'.Returns rest := by
  subst hy
  exact ⟨x.2, Prod.ext h.1 rfl, h.2⟩

theorem of_passes {row row' : List Char} {next last : Reader} (h : r.Returns s)
    (spelled : row' = crlf row) (hr : r.Passes row' next) (hs : s.Passes row last) :
    next.Returns last where
  remaining := hr.left (by rw [h.remaining, hs.remaining, crlf_append, spelled])
  position := by rw [hr.position, hs.position, h.position, spelled, Position.past_crlf]

theorem peek (h : r.Returns s) {c : Option Char} {ahead : Reader}
    (hp : s.peek 0 = (c, ahead)) (hc : c ≠ some '\n') :
    ∃ ahead', r.peek 0 = (c, ahead') ∧ ahead'.Returns ahead := by
  have looked : r.peek 0 = ((r.peek 0).1, (r.peek 0).2) := rfl
  have moved := h.of_passes crlf_nil.symm (passes_of_peek looked) (passes_of_peek hp)
  refine ⟨(r.peek 0).2, Prod.ext ?_ rfl, moved⟩
  rw [fst_peek, h.remaining]
  cases c with
  | none => rw [remaining_of_peek_none hp]; rfl
  | some c => rw [remaining_of_peek_some hp, crlf_cons_of_ne (by simpa using hc)]; rfl

/-- Behind the same character the next one is the same as well, unless it is that of a line end. -/
theorem second (h : r.Returns s) {c : Char} {rest : List Char} (whole : s.remaining = c :: rest)
    (hc : c ≠ '\n') {d : Option Char} {after : Reader} (hq : s.peek 1 = (d, after)) :
    ∃ d' after', r.peek 1 = (d', after') ∧ after'.Returns after ∧
      ∀ mark, mark ≠ '\n' → mark ≠ '\r' → (d' = some mark ↔ d = some mark) := by
  have looked : r.peek 1 = ((r.peek 1).1, (r.peek 1).2) := rfl
  have moved := h.of_passes crlf_nil.symm (passes_of_peek looked) (passes_of_peek hq)
  refine ⟨(r.peek 1).1, (r.peek 1).2, rfl, moved, fun mark feed back => ?_⟩
  rw [fst_peek, h.remaining, ← getElem?_of_peek hq, whole, crlf_cons_of_ne hc]
  simpa [← List.head?_eq_getElem?] using head?_crlf feed back

theorem advance (h : r.Returns s) {c : Char} {rest : List Char} (whole : s.remaining = c :: rest)
    (hc : c ≠ '\n') : r.advance.Returns s.advance := by
  have whole' : r.remaining = c :: crlf rest := by rw [h.remaining, whole, crlf_cons_of_ne hc]
  exact h.of_passes (crlf_cons_of_ne hc []).symm (passes_advance whole') (passes_advance whole)

/-- A line end is passed by one step, and by two in the source with carriage returns. -/
theorem feed (h : r.Returns s) {ahead : Reader} (hp : s.peek 0 = (some '\n', ahead)) :
    ∃ back, r.peek 0 = (some '\r', back) ∧ ∃ front, back.advance.peek 0 = (some '\n', front) ∧
      front.advance.Returns ahead.advance := by
  have whole : r.remaining = '\r' :: '\n' :: crlf ahead.advance.remaining := by
    rw [h.remaining, remaining_of_peek_some hp, crlf_feed]
  obtain ⟨back, hb, looked⟩ := passes_front whole
  have passed := looked.trans (passes_advance (looked.left whole))
  obtain ⟨front, hf, looked'⟩ := passes_front (passed.left whole)
  have passed' := looked'.trans (passes_advance (looked'.left (passed.left whole)))
  have later := h.of_passes (crlf_feed []).symm (passed.trans passed') (passes_of_peek_some hp)
  exact ⟨back, hb, front, hf, later⟩

theorem takeWhile (h : r.Returns s) {p : Char → Bool} (feed : p '\n' = false)
    (back : p '\r' = false) : Same (r.takeWhile p) (s.takeWhile p) := by
  have same := (span_crlf feed back s.remaining).1
  have passed := passes_takeWhile p r
  rw [h.remaining, same] at passed
  refine ⟨by rw [fst_takeWhile, fst_takeWhile, h.remaining, same], ?_⟩
  refine h.of_passes (crlf_of_notMem fun inside => ?_).symm passed (passes_takeWhile p s)
  rw [List.mem_takeWhile_imp inside] at feed
  cases feed

theorem skipToCommentEnd (h : r.Returns s) : Same r.skipToCommentEnd s.skipToCommentEnd := by
  fun_induction Reader.skipToCommentEnd s generalizing r with
  | case1 s ahead hp =>
      obtain ⟨ahead', hr, moved⟩ := h.peek hp (by simp)
      rw [skipToCommentEnd_at_end hr]
      exact ⟨rfl, moved⟩
  | case2 s ahead hp after hq =>
      obtain ⟨ahead', hr, moved⟩ := h.peek hp (by simp)
      have whole := (remaining_of_peek hp).trans (remaining_of_peek_some hp)
      obtain ⟨d', after', hr', moved, same⟩ := moved.second whole (by decide) hq
      obtain rfl := (same '/' (by decide) (by decide)).mpr rfl
      obtain ⟨front, rest, whole⟩ := remaining_of_peeks hp hq
      have star := passes_advance (front.left whole)
      rw [skipToCommentEnd_at_close hr hr']
      exact ⟨rfl, (moved.advance (front.left whole) (by decide)).advance
        (star.left (front.left whole)) (by decide)⟩
  | case3 s ahead hp d after hd hq ih =>
      obtain ⟨ahead', hr, moved⟩ := h.peek hp (by simp)
      have whole := (remaining_of_peek hp).trans (remaining_of_peek_some hp)
      obtain ⟨d', after', hr', moved, same⟩ := moved.second whole (by decide) hq
      have other := mt (same '/' (by decide) (by decide)).mp hd
      rw [skipToCommentEnd_at_star hr hr' other]
      exact ih (moved.advance ((remaining_of_peek hq).trans whole) (by decide))
  | case4 s c ahead hc hp ih =>
      by_cases feed : c = '\n'
      · subst feed
        obtain ⟨back, hb, front, hf, moved⟩ := h.feed hp
        rw [skipToCommentEnd_at_other hb (by decide), skipToCommentEnd_at_other hf (by decide)]
        exact ih moved
      · obtain ⟨ahead', hr, moved⟩ := h.peek hp (by simpa using feed)
        have whole := (remaining_of_peek hp).trans (remaining_of_peek_some hp)
        rw [skipToCommentEnd_at_other hr hc]
        exact ih (moved.advance whole feed)

theorem skipBlock (h : r.Returns s) {rest : List Char} (whole : s.remaining = '/' :: '*' :: rest) :
    Same r.skipBlock s.skipBlock := by
  have slash := h.advance whole (by decide)
  have star := slash.advance ((passes_advance whole).left whole) (by decide)
  obtain ⟨found, moved⟩ := star.skipToCommentEnd
  unfold Reader.skipBlock
  rw [h.position]
  cases hs : s.advance.advance.skipToCommentEnd with
  | mk closed after =>
      cases hr : r.advance.advance.skipToCommentEnd with
      | mk closed' after' =>
          rw [hs, hr] at found moved
          obtain rfl : closed' = closed := found
          cases closed' <;> exact ⟨rfl, moved⟩

theorem Same.of_sameScan {α : Type} {x x' y : α × Reader} (h : Same x y) (same : SameScan x x') :
    Same x' y :=
  ⟨same.1.symm.trans h.1, same.2.remaining.symm.trans h.2.remaining,
    same.2.position.symm.trans h.2.position⟩

/-- A line comment takes the carriage return behind it along, which is a blank otherwise: what is
skipped from there on is the same. -/
theorem skipLine (h : r.Returns s) :
    ∃ r' : Reader, r'.Returns s.skipLine ∧ SameScan r'.skipIgnored r.skipLine.skipIgnored := by
  have split : s.remaining.takeWhile (· != '\n') ++ s.remaining.dropWhile (· != '\n') =
      s.remaining := List.takeWhile_append_dropWhile
  have inside : '\n' ∉ s.remaining.takeWhile (· != '\n') := fun found => by
    simpa using List.mem_takeWhile_imp found
  have passed : s.Passes (s.remaining.takeWhile (· != '\n')) s.skipLine := passes_takeWhile _ s
  have left := passed.left split.symm
  have stop : ∀ c ∈ (s.remaining.dropWhile (· != '\n')).head?, ¬ (c != '\n') := head?_dropWhile
  generalize s.remaining.takeWhile (· != '\n') = body at *
  generalize s.remaining.dropWhile (· != '\n') = rest at *
  have whole : r.remaining = body ++ crlf rest := by
    rw [h.remaining, ← split, crlf_append, crlf_of_notMem inside]
  cases rest with
  | nil =>
      have passed' := passes_skipLine inside (.inl rfl) whole
      exact ⟨r.skipLine, h.of_passes (crlf_of_notMem inside).symm passed' passed,
        (Alike.refl _).skipIgnored⟩
  | cons c rest =>
      obtain rfl : c = '\n' := by simpa using stop
      have whole : r.remaining = (body ++ ['\r']) ++ '\n' :: crlf rest := by
        rw [whole, crlf_feed, List.append_assoc, List.singleton_append]
      have passed' : r.Passes (body ++ ['\r']) r.skipLine :=
        passes_skipLine (by simpa using inside) (.inr rfl) whole
      -- In front of the carriage return, where the other reader is behind the comment.
      let front : Reader := ⟨'\r' :: r.skipLine.remaining, none, s.skipLine.position, []⟩
      have here : front.remaining = '\r' :: r.skipLine.remaining := List.append_nil _
      obtain ⟨ahead, hp, looked⟩ := passes_front here
      have blank : front.Passes ['\r'] ahead.advance :=
        looked.trans (passes_advance (looked.left here))
      refine ⟨front, ⟨?_, rfl⟩, ?_⟩
      · rw [here, left, crlf_feed, passed'.left whole]
      · rw [skipIgnored_at_blank hp (by decide)]
        refine Alike.skipIgnored ⟨blank.left here, ?_⟩
        rw [blank.position, passed'.position, Position.past_append, h.position, ← passed.position]

theorem skipIgnored (h : r.Returns s) : Same r.skipIgnored s.skipIgnored := by
  fun_induction Reader.skipIgnored s generalizing r with
  | case1 s ahead hp =>
      obtain ⟨ahead', hr, moved⟩ := h.peek hp (by simp)
      rw [skipIgnored_at_end hr]
      exact ⟨rfl, moved⟩
  | case2 s c ahead hp hb ih =>
      by_cases feed : c = '\n'
      · subst feed
        obtain ⟨back, hr, front, hf, moved⟩ := h.feed hp
        rw [skipIgnored_at_blank hr (by decide), skipIgnored_at_blank hf hb]
        exact ih moved
      · obtain ⟨ahead', hr, moved⟩ := h.peek hp (by simpa using feed)
        have whole := (remaining_of_peek hp).trans (remaining_of_peek_some hp)
        rw [skipIgnored_at_blank hr hb]
        exact ih (moved.advance whole feed)
  | case3 s ahead after hq hp hb ih =>
      obtain ⟨ahead', hr, moved⟩ := h.peek hp (by simp)
      have whole := (remaining_of_peek hp).trans (remaining_of_peek_some hp)
      obtain ⟨d', after', hr', moved, same⟩ := moved.second whole (by decide) hq
      obtain rfl := (same '/' (by decide) (by decide)).mpr rfl
      obtain ⟨front, moved, later⟩ := moved.skipLine
      rw [skipIgnored_at_line hr hr']
      exact (ih moved).of_sameScan later
  | case4 s ahead after hq rest hk hp hb ih =>
      obtain ⟨ahead', hr, moved⟩ := h.peek hp (by simp)
      have whole := (remaining_of_peek hp).trans (remaining_of_peek_some hp)
      obtain ⟨d', after', hr', moved, same⟩ := moved.second whole (by decide) hq
      obtain rfl := (same '*' (by decide) (by decide)).mpr rfl
      obtain ⟨front, tail, whole⟩ := remaining_of_peeks hp hq
      obtain ⟨rest', hr'', moved⟩ := (moved.skipBlock (front.left whole)).exists_eq hk
      rw [skipIgnored_at_block hr hr', hr'']
      exact ih moved
  | case5 s ahead after hq fault rest hk hp hb =>
      obtain ⟨ahead', hr, moved⟩ := h.peek hp (by simp)
      have whole := (remaining_of_peek hp).trans (remaining_of_peek_some hp)
      obtain ⟨d', after', hr', moved, same⟩ := moved.second whole (by decide) hq
      obtain rfl := (same '*' (by decide) (by decide)).mpr rfl
      obtain ⟨front, tail, whole⟩ := remaining_of_peeks hp hq
      obtain ⟨rest', hr'', moved⟩ := (moved.skipBlock (front.left whole)).exists_eq hk
      rw [skipIgnored_at_block hr hr', hr'']
      exact ⟨rfl, moved⟩
  | case6 s ahead x after hx hx' hq hp hb =>
      obtain ⟨ahead', hr, moved⟩ := h.peek hp (by simp)
      have whole := (remaining_of_peek hp).trans (remaining_of_peek_some hp)
      obtain ⟨d', after', hr', moved, same⟩ := moved.second whole (by decide) hq
      rw [skipIgnored_at_slash hr hr' (mt (same '/' (by decide) (by decide)).mp hx)
        (mt (same '*' (by decide) (by decide)).mp hx')]
      exact ⟨rfl, moved⟩
  | case7 s c ahead hp hb hc =>
      have feed : c ≠ '\n' := by
        rintro rfl
        exact hb (by decide)
      obtain ⟨ahead', hr, moved⟩ := h.peek hp (by simpa using feed)
      rw [skipIgnored_at_other hr hb hc]
      exact ⟨rfl, moved⟩

theorem integer (h : r.Returns s) (start : Position) :
    Same (r.integer start) (s.integer start) := by
  obtain ⟨found, moved⟩ := h.takeWhile (p := Char.isDigit) rfl rfl
  simp only [Reader.integer, found]
  split
  · exact ⟨rfl, moved⟩
  · split
    · split <;> exact ⟨rfl, moved⟩
    · exact ⟨rfl, moved⟩

/-- Both characters of a line end stop a string constant. -/
theorem string (h : r.Returns s) {rest : List Char} (whole : s.remaining = '"' :: rest)
    (start : Position) : Same (r.string start) (s.string start) := by
  obtain ⟨found, moved⟩ :=
    (h.advance whole (by decide)).takeWhile (p := isStringChar) (by decide) (by decide)
  simp only [Reader.string, found]
  cases hs : (s.advance.takeWhile isStringChar).2.peek 0 with
  | mk c ahead =>
      by_cases feed : c = some '\n'
      · subst feed
        obtain ⟨back, hr, -⟩ := moved.feed hs
        rw [hr]
        exact ⟨rfl, moved.of_passes crlf_nil.symm (passes_of_peek hr) (passes_of_peek hs)⟩
      · obtain ⟨ahead', hr, moved⟩ := moved.peek hs feed
        rw [hr]
        cases c with
        | none => exact ⟨rfl, moved⟩
        | some c =>
            have front := (remaining_of_peek hs).trans (remaining_of_peek_some hs)
            split
            · next quote => cases quote; exact ⟨rfl, moved.advance front (by decide)⟩
            · next other => split <;> split <;> simp_all [Same]
            · next none => cases none

theorem tokenFrom (h : r.Returns s) {c : Char} {rest : List Char} (whole : s.remaining = c :: rest)
    (hb : ¬ isBlank c) : Same (r.tokenFrom c) (s.tokenFrom c) := by
  have feed : c ≠ '\n' := by
    rintro rfl
    exact hb (by decide)
  unfold Reader.tokenFrom
  rw [h.position]
  split
  · exact ⟨rfl, h.advance whole feed⟩
  · split
    · exact h.integer _
    · split
      · next quote =>
        obtain rfl : c = '"' := by simpa using quote
        exact h.string whole _
      · split
        · obtain ⟨found, moved⟩ := h.takeWhile (p := isWordChar) (by decide) (by decide)
          simp only [Reader.word, found]
          exact ⟨rfl, moved⟩
        · exact ⟨rfl, h⟩

theorem nextToken (h : r.Returns s) : Same r.nextToken s.nextToken := by
  unfold Reader.nextToken
  cases hs : s.skipIgnored with
  | mk skipped rest =>
      obtain ⟨rest', hr, moved⟩ := h.skipIgnored.exists_eq hs
      rw [hr]
      cases skipped with
      | error fault => exact ⟨rfl, moved⟩
      | ok =>
          obtain ⟨-, -, stops, -⟩ := gap_of_skipIgnored hs
          dsimp only
          cases hp : rest.peek 0 with
          | mk c front =>
              have blank : ∀ d, c = some d → ¬ isBlank d := by
                rintro d rfl
                exact stops.1 d (by rw [remaining_of_peek_some hp]; rfl)
              obtain ⟨front', hr, moved⟩ := moved.peek hp fun feed => blank _ feed (by decide)
              rw [hr]
              cases c with
              | none => exact ⟨rfl, moved⟩
              | some c =>
                  have whole := (remaining_of_peek hp).trans (remaining_of_peek_some hp)
                  dsimp only
                  cases ht : front.tokenFrom c with
                  | mk token after =>
                      obtain ⟨after', hr, moved⟩ :=
                        (moved.tokenFrom whole (blank c rfl)).exists_eq ht
                      rw [hr]
                      cases token <;> exact ⟨rfl, moved⟩

end Returns

theorem bisimilar_returns : Bisimilar Returns where
  forget h := ⟨h.remaining, h.position⟩
  position h := h.position
  found h := h.nextToken.1
  later h := h.nextToken.2
  shorter := by
    intro r s h
    obtain ⟨row, passed⟩ := (moves_nextToken s).reaches
    rw [h.nextToken.2.remaining, h.remaining, passed.remaining, crlf_append]
    simpa [List.length_pos_iff] using not_congr crlf_eq_nil_iff

end Reader

/-- Whether lines end with a line feed alone or with a carriage return in front of it, and however
the text is delivered: the tokens are the same and have the same places, the text compiles to the
same code, or the same is wrong at the same place. -/
theorem line_ends_are_invisible (text : String) (source source' : Source)
    (delivered : source.Delivers text)
    (delivered' : source'.Delivers (String.ofList (crlf text.toList)))
    (chunkSize chunkSize' : Int) (positive : 0 < chunkSize) (positive' : 0 < chunkSize')
    (filename : Option String) (strict : Bool) :
    Lexer.tokensOf source' chunkSize' filename = Lexer.tokensOf source chunkSize filename ∧
      compileText source' filename strict chunkSize' =
        compileText source filename strict chunkSize := by
  have same : (Reader.ofSource chunkSize'.toNat source').Returns
      (.ofSource chunkSize.toNat source) := by
    refine ⟨?_, rfl⟩
    rw [Reader.remaining_ofSource, Reader.remaining_ofSource, delivered.characters,
      delivered'.characters, String.toList_ofList]
  refine ⟨Lexer.tokensOf_of_bisimilar Reader.bisimilar_returns positive' positive same filename, ?_⟩
  rw [compileText, compileSource_of_bisimilar Reader.bisimilar_returns positive' positive same]
  rfl

/-- Every line end is cut in two; the last one ends a string constant. -/
theorem line_ends_are_invisible_at_string :
    let text := "class A\x7b// a\n/*\n*/ \"x\n\x7d"
    let parts := ["class A\x7b// a\r", "\n/*\r", "\n*/ \"x\r", "\n\x7d"]
    (Source.text text).Delivers text ∧
      (Source.stream (parts ++ [""])).Delivers (String.ofList (crlf text.toList)) ∧
      (0 : Int) < 1 ∧ (0 : Int) < 3 ∧
      compileText (.stream (parts ++ [""])) none false 3 =
        .error (.diagnosed (.atPosition .unterminatedString ⟨3, 4⟩ none)) := by
  intro text parts
  have delivered : (Source.text text).Delivers text := .text
  have delivered' : (Source.stream (parts ++ [""])).Delivers (String.ofList (crlf text.toList)) :=
    .stream (by decide) (by decide +kernel) (by simp)
  refine ⟨delivered, delivered', by decide, by decide, ?_⟩
  obtain ⟨-, same⟩ := line_ends_are_invisible text _ _ delivered delivered' 1 3 (by decide)
    (by decide) none false
  rw [same]
  decide +kernel

end Jack
