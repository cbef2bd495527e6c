import Jack.Proofs.Delivery
import Jack.Proofs.Diagnosing
import Jack.Proofs.Expecting

/-! # Nothing is foreseen

An engine decides by the token in front, and no later one has been read by then. Where two sources
have the same tokens up to some place, engines take the same steps in both until that place is
passed. So an error depends on no character behind the token in front.
-/

namespace Jack

namespace Reader

namespace Finds

variable {r rest : Reader} {row later : List Token}

/-- What is found behind the front of a row is found from where the front ends. -/
theorem split (h : r.Finds (row ++ later) rest) (more : later ≠ []) :
    ∃ mid, r.Finds row mid ∧ mid.Finds later rest := by
  induction row generalizing r with
  | nil => exact ⟨r, .nothing (.refl r), h⟩
  | cons t row ih =>
      generalize whole : t :: row ++ later = all at h
      cases h with
      | nothing => cases whole
      | token found h' =>
          obtain ⟨rfl, rfl⟩ := List.cons.inj whole
          obtain ⟨mid, front, back⟩ := ih h'
          exact ⟨mid, .token found front, back⟩
      | ended found same =>
          obtain ⟨-, none⟩ := List.cons.inj whole
          exact absurd (List.append_eq_nil_iff.mp none).2 more

/-- Finding the same row leaves readers at the same place. -/
theorem unique {mid : Reader} (h : r.Finds row rest) (h' : r.Finds row mid) : rest.Alike mid := by
  induction h with
  | nothing same =>
      cases h' with
      | nothing same' => exact same.symm.trans same'
  | token found more ih =>
      cases h' with
      | token found' more' =>
          cases found.symm.trans found'
          exact ih more'
      | ended found' => cases found.symm.trans found'
  | ended found same =>
      generalize ended : [(⟨.endOfInput, _⟩ : Token)] = row at h'
      cases h' with
      | nothing => cases ended
      | token found' => cases found.symm.trans found'
      | ended found' same' =>
          cases found.symm.trans found'
          exact same.symm.trans same'

/-- Of two rows that are found from one place, the shorter one is the front of the other. -/
theorem isPrefix {row' : List Token} {mid : Reader} (h : r.Finds row rest) (h' : r.Finds row' mid)
    (shorter : row.length ≤ row'.length) : row <+: row' := by
  induction h generalizing row' with
  | nothing same => exact List.nil_prefix
  | token found more ih =>
      cases h' with
      | nothing => cases shorter
      | token found' more' =>
          cases found.symm.trans found'
          exact List.prefix_cons_inj _ |>.mpr (ih more' (Nat.le_of_succ_le_succ shorter))
      | ended found' => cases found.symm.trans found'
  | ended found same =>
      cases h' with
      | nothing => cases shorter
      | token found' => cases found.symm.trans found'
      | ended found' same' =>
          cases found.symm.trans found'
          exact (same.position.symm.trans same'.position) ▸ List.prefix_rfl

theorem not_mem_of_last {t : Token} (h : r.Finds (row ++ [t]) rest) : t ∉ row := fun inside =>
  ((List.pairwise_append.mp h.ordered).2.2 t inside t (List.mem_singleton_self t)).ne rfl

/-- A token is found behind one row only. -/
theorem eq_of_last {t : Token} {row' : List Token} {mid : Reader} (h : r.Finds (row ++ [t]) rest)
    (h' : r.Finds (row' ++ [t]) mid) : row = row' := by
  have notShorter {row row' : List Token} {rest mid : Reader} (h : r.Finds (row ++ [t]) rest)
      (h' : r.Finds (row' ++ [t]) mid) : row'.length ≤ row.length := by
    by_contra shorter
    have front := h.isPrefix h' (by simp; omega)
    have inner := List.prefix_of_prefix_length_le front (List.prefix_append row' [t])
      (by simp; omega)
    exact h'.not_mem_of_last (inner.subset (by simp))
  have long := Nat.le_antisymm (notShorter h' h) (notShorter h h')
  have same := (h.isPrefix h' (by simp [long])).eq_of_length (by simp [long])
  exact List.append_cancel_right same

end Finds

/-- The first tokens of what is left, so many of them. The end of the source counts as a token that
has no other one behind it. -/
def firstTokens : Nat → Reader → Option (List Token)
  | 0, _ => some []
  | n + 1, r =>
    match r.nextToken with
    | (.ok (some t), after) => (firstTokens n after).map (t :: ·)
    | (.ok none, after) => if n = 0 then some [⟨.endOfInput, after.position⟩] else none
    | (.error _, _) => none

theorem finds_of_firstTokens {n : Nat} {r : Reader} {row : List Token}
    (h : r.firstTokens n = some row) : ∃ rest, r.Finds row rest := by
  fun_induction firstTokens n r generalizing row with
  | case1 r =>
      cases h
      exact ⟨r, .nothing (.refl r)⟩
  | case2 r n t after read ih =>
      obtain ⟨row, found, rfl⟩ := Option.map_eq_some_iff.mp h
      obtain ⟨rest, finds⟩ := ih found
      exact ⟨rest, .token read finds⟩
  | case3 r after read =>
      cases h
      exact ⟨after, .ended read (.refl after)⟩
  | case4 r n after read more => cases h
  | case5 r n fault after read => cases h

theorem firstTokens_of_finds {r rest : Reader} {row : List Token} (h : r.Finds row rest) :
    r.firstTokens row.length = some row := by
  induction h with
  | nothing => rfl
  | token found more ih => simp [firstTokens, found, ih]
  | ended found same => simp [firstTokens, found, same.position]

end Reader

/-- A stream hands out what a reader at its place finds. -/
theorem TokenStream.outcome_of_finds (filename : Option String) {r rest : Reader} {t : Token}
    (h : r.Finds [t] rest) : (readFrom filename [] r).next.1.outcome = .ok t := by
  have offered := offers_next filename r
  generalize (readFrom filename [] r).next = next at offered
  generalize whole : [t] = row at h
  cases h with
  | nothing => cases whole
  | token found =>
      obtain rfl := (List.cons.inj whole).1
      cases offered with
      | token _ read => cases found.symm.trans read; rfl
      | ended _ read => cases found.symm.trans read
      | fault read => cases found.symm.trans read
  | ended found same =>
      obtain rfl := (List.cons.inj whole).1
      cases offered with
      | token _ read => cases found.symm.trans read
      | ended _ read =>
          cases found.symm.trans read
          rw [same.position]
      | fault read => cases found.symm.trans read

/-- The first token of a row that is found is the one a stream starts with. -/
theorem TokenStream.head?_of_finds (filename : Option String) {r rest : Reader} {row : List Token}
    {t : Token} (h : r.Finds (row ++ [t]) rest) :
    ∃ first, (row ++ [t]).head? = some first ∧
      (readFrom filename [] r).next.1.outcome = .ok first := by
  cases row with
  | nil => exact ⟨t, rfl, outcome_of_finds filename h⟩
  | cons first row =>
      have h : r.Finds ([first] ++ (row ++ [t])) rest := h
      obtain ⟨mid, front, -⟩ := h.split (by simp)
      exact ⟨first, rfl, outcome_of_finds filename front⟩

namespace Engine

/-- Two engines with the same token in front, which have written the same and know the same. -/
structure Agrees (e e' : Engine) : Prop where
  current : e.cursor.current = e'.cursor.current
  scope : e.scope = e'.scope
  filename : e.filename = e'.filename
  written : e.written = e'.written

section Agrees

variable {e e' : Engine}

theorem Agrees.reaction (h : e.Agrees e') (goal : Goal) : e.reaction goal = e'.reaction goal := by
  rw [Engine.reaction, Engine.reaction, h.current, h.scope]

theorem Agrees.absorb (h : e.Agrees e') (r : Reaction) : (e.absorb r).Agrees (e'.absorb r) :=
  ⟨h.current, rfl, h.filename, congrArg (r.code.reverse ++ ·) h.written⟩

theorem Agrees.advance (h : e.Agrees e')
    (next : e.advance.2.cursor.current = e'.advance.2.cursor.current) :
    e.advance.2.Agrees e'.advance.2 :=
  ⟨next, h.scope, h.filename, h.written⟩

end Agrees

theorem run_of_steps {x y : List Goal × Engine} (h : Steps x y) : x.2.run x.1 = y.2.run y.1 := by
  induction h with
  | refl => rfl
  | tail _ step ih =>
      rw [ih]
      cases step with
      | pop moved => exact run_of_pop moved
      | shift moved passed => exact run_of_shift moved passed

variable {filename : Option String} {start : Reader} {before : List Token}

/-- An engine passes its token when a token is found behind it. -/
theorem advance_of_finds {e : Engine} {t : Token} {rest : Reader}
    (passed : e.cursor.Passed filename start before) (more : e.cursor.current.isEnd = false)
    (h : start.Finds (before ++ [e.cursor.current] ++ [t]) rest) :
    e.advance.1 = .ok () ∧ e.advance.2.cursor.current = t := by
  obtain ⟨here, finds, ahead⟩ := passed
  obtain ⟨mid, front, behind⟩ := h.split (by simp)
  have next := TokenStream.outcome_of_finds filename (behind.of_alike (finds.unique front))
  rw [← ahead more] at next
  have step := Cursor.advance_of_next more (Prod.ext rfl rfl) next
  constructor <;> simp [advance, step, deliver]

/-- Steps that one source allows are allowed by every source with the same tokens up to the one in
front. -/
theorem exists_steps {x y : List Goal × Engine} (steps : Steps x y)
    (passed : x.2.cursor.Passed filename start before) :
    ∃ row, y.2.cursor.Passed filename start (before ++ row) ∧
      ∀ (start' rest : Reader) (e : Engine), e.Agrees x.2 →
        e.cursor.Passed filename start' before →
        start'.Finds (before ++ row ++ [y.2.cursor.current]) rest →
      ∃ e', Steps (x.1, e) (y.1, e') ∧ e'.Agrees y.2 ∧
        e'.cursor.Passed filename start' (before ++ row) := by
  induction steps with
  | refl =>
      refine ⟨[], by simpa using passed, fun start' rest e agrees passed' _ => ?_⟩
      exact ⟨e, .refl, agrees, by simpa using passed'⟩
  | @tail y z _ step ih =>
      obtain ⟨row, passed, follows⟩ := ih
      cases step with
      | @pop goal goals y moved =>
          refine ⟨row, passed, fun start' rest e agrees passed' finds => ?_⟩
          obtain ⟨e', steps, same, passed'⟩ := follows start' rest e agrees passed' finds
          rw [← same.reaction] at moved
          refine ⟨e'.absorb (e'.reaction goal), steps.tail (.pop moved), ?_, passed'⟩
          rw [same.reaction]
          exact same.absorb _
      | @shift goal goals next y moved shifted =>
          have more := Goal.isEnd_of_react_shift moved
          have passed₁ := passed.advance more shifted
          refine ⟨row ++ [y.cursor.current], by rwa [← List.append_assoc], ?_⟩
          intro start' rest e agrees passed' finds
          rw [← List.append_assoc] at finds ⊢
          obtain ⟨mid, front, -⟩ := finds.split (by simp)
          obtain ⟨e', steps, same, passed'⟩ := follows start' mid e agrees passed' front
          rw [← same.reaction] at moved
          rw [← same.current] at finds more
          have advanced := advance_of_finds (e := e'.absorb (e'.reaction goal)) passed' more finds
          refine ⟨_, steps.tail (.shift moved advanced.1), ?_, ?_⟩
          · rw [same.reaction] at advanced ⊢
            exact (same.absorb _).advance advanced.2
          · rw [← same.current]
            exact passed'.advance more advanced.1

/-- What blames the grammar or a name is said by a goal, and not by a reader. -/
theorem Fails.exists_fault {goal : Goal} {e : Engine} {d : Diagnostic}
    (fails : e.Fails goal (.diagnosed d)) (passed : e.cursor.Passed filename start before)
    (stage : d.problem.stage ≠ .lexical) :
    ∃ fault, (e.reaction goal).move = .fail fault ∧
      .diagnosed d = Failure.ofFault e.filename fault := by
  generalize same : Failure.diagnosed d = failure at fails
  cases fails with
  | stuck moved => exact ⟨_, moved, rfl⟩
  | unread moved failed =>
      obtain ⟨rest, fault, after, -, read, rfl⟩ :=
        passed.fault (Goal.isEnd_of_react_shift moved) failed
      exact absurd ((Reader.rejects_of_nextToken read).stage_eq same) stage

/-- A run that fails at a goal fails the same in every source with the same tokens up to the one
then in front. -/
theorem exists_row_of_run {goals : List Goal} {first e : Engine} {d : Diagnostic}
    (passed : first.cursor.Passed filename start [])
    (stopped : first.run goals = (.error (.diagnosed d), e)) (stage : d.problem.stage ≠ .lexical) :
    ∃ row rest, start.Finds (row ++ [e.cursor.current]) rest ∧
      ∀ (start' rest' : Reader) (first' : Engine), first'.Agrees first →
        first'.cursor.Passed filename start' [] →
        start'.Finds (row ++ [e.cursor.current]) rest' →
        ∃ e', first'.run goals = (.error (.diagnosed d), e') ∧ e'.Agrees e := by
  obtain ⟨goal, rest, last, steps, fails, -⟩ := fails_of_run stopped
  obtain ⟨row, passedLast, follows⟩ := exists_steps steps passed
  obtain ⟨fault, moved, same⟩ := fails.exists_fault passedLast stage
  have ended := (run_of_steps steps).symm.trans stopped
  rw [run_of_fail moved] at ended
  obtain ⟨-, rfl⟩ := Prod.mk.inj ended
  obtain ⟨left, finds, -⟩ := passedLast
  refine ⟨[] ++ row, left, finds, fun start' rest' first' agrees passed' finds' => ?_⟩
  obtain ⟨last', steps', agrees, -⟩ := follows start' rest' first' agrees passed' finds'
  have blamed := agrees.reaction goal
  rw [← blamed] at moved
  refine ⟨last'.absorb (last'.reaction goal), ?_, ?_⟩
  · rw [run_of_steps steps', run_of_fail moved, agrees.filename, same]
  · rw [blamed]
    exact agrees.absorb _

end Engine

/-! ### Compiling a source -/

/-- The token that an engine has in front when a source is compiled or a goal fails, if a first one
was read. -/
def tokenInFront (source : Source) (filename : Option String) (strict : Bool) (chunkSize : Int) :
    Option Token :=
  match Lexer.ofSource source chunkSize filename with
  | .error _ => none
  | .ok lexer =>
    match (Engine.ofLexer lexer strict none).1 with
    | .error _ => none
    | .ok e => some (e.run [.classDeclaration]).2.cursor.current

section Compile

variable {source source' : Source} {filename : Option String} {strict : Bool}
  {chunkSize chunkSize' : Int}

theorem outcomes_of_run {t : Token} {failure : Failure} {e : Engine} (positive : 0 < chunkSize)
    (found : (TokenStream.readFrom filename [] (.ofSource chunkSize.toNat source)).next.1.outcome =
      .ok t)
    (failed : (Engine.atStart (.readFrom filename [] (.ofSource chunkSize.toNat source)) t strict
      filename).run [.classDeclaration] = (.error failure, e)) :
    compileSource source filename strict chunkSize = .error failure ∧
      writtenFor source filename strict chunkSize = e.code ∧
      tokenInFront source filename strict chunkSize = some e.cursor.current := by
  have started : (Engine.ofLexer ⟨.ofSource chunkSize.toNat source, filename, none⟩ strict
      none).1 = .ok (Engine.atStart (.readFrom filename [] (.ofSource chunkSize.toNat source)) t
        strict filename) := by
    simp only [Engine.ofLexer, Engine.ofStream, TokenStream.ofLexer, Option.map_none,
      Option.toList_none, Option.none_or, found]
    rfl
  refine ⟨?_, ?_, ?_⟩
  · rw [compileSource_of_pos positive]
    simp only [found, failed]
  · rw [writtenFor, Lexer.ofSource_of_pos positive]
    simp only [started, failed]
  · rw [tokenInFront, Lexer.ofSource_of_pos positive]
    simp only [started, failed]

/-- What blames the grammar or a name was said in a run that had a first token. -/
theorem exists_run_of_compileSource {d : Diagnostic}
    (failed : compileSource source filename strict chunkSize = .error (.diagnosed d))
    (stage : d.problem.stage ≠ .lexical) :
    0 < chunkSize ∧ ∃ t e,
      let stream := TokenStream.readFrom filename [] (.ofSource chunkSize.toNat source)
      stream.next.1.outcome = .ok t ∧
        (Engine.atStart stream t strict filename).run [.classDeclaration] =
          (.error (.diagnosed d), e) := by
  have positive : 0 < chunkSize := by
    by_contra small
    rw [compileSource_of_not_pos small] at failed
    cases failed
  rw [compileSource_of_pos positive] at failed
  dsimp only at failed
  split at failed
  · next unread =>
    cases failed
    obtain ⟨fault, after, read, same⟩ := TokenStream.fault_of_next unread
    exact absurd ((Reader.rejects_of_nextToken read).stage_eq same) stage
  · next t found =>
    split at failed
    · cases failed
    · next e stopped =>
      cases failed
      exact ⟨positive, t, e, found, stopped⟩

/-- A grammatical or semantic error is known from the tokens up to the one in front, which is a
token of the source or its end. Every source that starts with the same tokens at the same places,
whatever stands behind them and in whatever chunks it is read, is refused with the same error, and
the same was written before. -/
theorem errors_depend_on_nothing_behind_the_token_in_front (source : Source)
    (filename : Option String) (strict : Bool) (chunkSize : Int) (d : Diagnostic)
    (failed : compileSource source filename strict chunkSize = .error (.diagnosed d))
    (stage : d.problem.stage = .grammatical ∨ d.problem.stage = .semantic) :
    ∃ t, tokenInFront source filename strict chunkSize = some t ∧
      (∃ j before,
        (Reader.ofSource chunkSize.toNat source).firstTokens (j + 1) = some (before ++ [t])) ∧
      ∀ (j : Nat) (before : List Token),
        (Reader.ofSource chunkSize.toNat source).firstTokens (j + 1) = some (before ++ [t]) →
        ∀ (source' : Source) (chunkSize' : Int), 0 < chunkSize' →
          (Reader.ofSource chunkSize'.toNat source').firstTokens (j + 1) = some (before ++ [t]) →
          compileSource source' filename strict chunkSize' = .error (.diagnosed d) ∧
            writtenFor source' filename strict chunkSize' =
              writtenFor source filename strict chunkSize ∧
            tokenInFront source' filename strict chunkSize' = some t := by
  have notLexical : d.problem.stage ≠ .lexical := by
    rcases stage with stage | stage <;> simp [stage]
  obtain ⟨positive, t, e, found, stopped⟩ := exists_run_of_compileSource failed notLexical
  obtain ⟨-, written, front⟩ := outcomes_of_run positive found stopped
  obtain ⟨row, rest, finds, follows⟩ :=
    Engine.exists_row_of_run (Engine.passed_atStart found) stopped notLexical
  have numbered := Reader.firstTokens_of_finds finds
  rw [List.length_append] at numbered
  refine ⟨e.cursor.current, front, ⟨row.length, row, numbered⟩, ?_⟩
  intro j before same source' chunkSize' positive' same'
  -- The token in front is found behind one row only, so these are the tokens that were passed.
  obtain ⟨_, again⟩ := Reader.finds_of_firstTokens same
  obtain ⟨rest', finds'⟩ := Reader.finds_of_firstTokens same'
  obtain rfl := finds.eq_of_last again
  obtain ⟨first, head, found₁⟩ := TokenStream.head?_of_finds filename finds
  obtain ⟨first', head', found'⟩ := TokenStream.head?_of_finds filename finds'
  obtain rfl := Option.some.inj (head.symm.trans head')
  obtain rfl : t = first := Except.ok.inj (found.symm.trans found₁)
  obtain ⟨e', stopped', agrees⟩ := follows _ rest'
    (.atStart (.readFrom filename [] (.ofSource chunkSize'.toNat source')) t strict filename)
    ⟨rfl, rfl, rfl, rfl⟩ (Engine.passed_atStart found') finds'
  obtain ⟨compiled', written', front'⟩ := outcomes_of_run positive' found' stopped'
  refine ⟨compiled', ?_, ?_⟩
  · rw [written', written, Engine.code, Engine.code, agrees.written]
  · rw [front', agrees.current]

/-- Behind the token in front, a string is opened and the source ends. -/
theorem errors_depend_on_nothing_behind_the_token_in_front_at_open_string :
    let source : Source := .text "class A \x7b\n function int f() \x7b return x; \x7d \x7d"
    let source' : Source := .text "class A \x7b\n function int f() \x7b return x;\"\x7d"
    let d : Diagnostic := .atPosition (.undefinedVariable "x") ⟨2, 28⟩ none
    let t : Token := ⟨.symbol .semicolon, ⟨2, 29⟩⟩
    compileSource source none true 7 = .error (.diagnosed d) ∧ d.problem.stage = .semantic ∧
      tokenInFront source none true 7 = some t ∧
      (Reader.ofSource 7 source).firstTokens 12 = (Reader.ofSource 1 source').firstTokens 12 ∧
      compileSource source' none true 1 = .error (.diagnosed d) ∧
      writtenFor source' none true 1 = writtenFor source none true 7 := by
  intro source source' d t
  let before := ((Reader.ofSource 7 source).firstTokens 11).getD []
  have failed : compileSource source none true 7 = .error (.diagnosed d) := by decide +kernel
  have front : tokenInFront source none true 7 = some t := by decide +kernel
  have tokens : (Reader.ofSource 7 source).firstTokens 12 = some (before ++ [t]) := by
    decide +kernel
  have tokens' : (Reader.ofSource 1 source').firstTokens 12 = some (before ++ [t]) := by
    decide +kernel
  obtain ⟨t', front', -, foreseen⟩ :=
    errors_depend_on_nothing_behind_the_token_in_front source none true 7 d failed (.inr rfl)
  obtain rfl : t = t' := Option.some.inj (front.symm.trans front')
  obtain ⟨compiled, written, -⟩ := foreseen 11 before tokens source' 1 (by decide) tokens'
  exact ⟨failed, rfl, front, tokens.trans tokens'.symm, compiled, written⟩

end Compile

end Jack
