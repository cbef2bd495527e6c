import Jack.Proofs.Driving
import Jack.Proofs.Findings
import Mathlib.Logic.Relation

/-! # Steps of an engine

An engine takes a step for each goal that is done and for each token that is passed. A run that
fails has come by such steps to a goal that cannot be reached, or to a token behind which none
can be read; up to there its cursor has passed tokens that were found in the source.
-/

namespace Jack

/-- The scan from a reader's place found a token or the end of the source, which a stream hands
out; behind a token the stream goes on from where the reader then is. -/
theorem TokenStream.finds_of_next {filename : Option String} {r : Reader} {scan : Scan}
    {ahead : TokenStream} {t : Token} (h : (readFrom filename [] r).next = (scan, ahead))
    (found : scan.outcome = .ok t) :
    ∃ rest, r.Finds [t] rest ∧ (t.isEnd = false → ahead = readFrom filename [] rest) := by
  have offered := offers_next filename r
  rw [h] at offered
  cases offered with
  | token _ read same =>
      cases found
      exact ⟨_, .token read (.nothing same), fun _ => rfl⟩
  | ended _ read =>
      cases found
      exact ⟨_, .ended read (.refl _), fun more => by cases more⟩
  | fault _ failed => cases found.symm.trans failed

theorem TokenStream.fault_of_next {filename : Option String} {r : Reader} {failure : Failure}
    (failed : (readFrom filename [] r).next.1.outcome = .error failure) :
    ∃ fault after, r.nextToken = (.error fault, after) ∧ failure = .ofFault filename fault := by
  have offered := offers_next filename r
  generalize (readFrom filename [] r).next = next at failed offered
  cases offered with
  | token | ended => cases failed
  | fault read failed' => exact ⟨_, _, read, Except.error.inj (failed.symm.trans failed')⟩

/-- A cursor comes to another one by passing tokens, and not the end of the source. -/
inductive Cursor.Passes : Cursor → List Token → Cursor → Prop where
  | nothing (c : Cursor) : c.Passes [] c
  | token {c last : Cursor} {row : List Token} (more : c.current.isEnd = false)
      (passed : c.advance.1 = .ok ()) (rest : c.advance.2.2.Passes row last) :
      c.Passes (c.current :: row) last

/-- A cursor has passed tokens that a reader finds, and shows the one that the reader finds behind
them. -/
def Cursor.Passed (filename : Option String) (start : Reader) (before : List Token)
    (c : Cursor) : Prop :=
  ∃ rest, start.Finds (before ++ [c.current]) rest ∧
    (c.current.isEnd = false → c.ahead = .readFrom filename [] rest)

namespace Cursor

variable {filename : Option String} {start : Reader} {before : List Token} {c : Cursor}

theorem Passed.advance (h : c.Passed filename start before) (more : c.current.isEnd = false)
    (passed : c.advance.1 = .ok ()) :
    c.advance.2.2.Passed filename start (before ++ [c.current]) := by
  obtain ⟨rest, finds, ahead⟩ := h
  obtain ⟨scan, stream, t, next, found⟩ := next_of_advance more passed
  rw [advance_of_next more next found]
  rw [ahead more] at next
  obtain ⟨rest', later, ahead'⟩ := TokenStream.finds_of_next next found
  exact ⟨rest', finds.append (by simpa using more) later, ahead'⟩

theorem Passed.fault (h : c.Passed filename start before) (more : c.current.isEnd = false)
    {failure : Failure} (failed : c.advance.1 = .error failure) :
    ∃ rest fault after, start.Finds (before ++ [c.current]) rest ∧
      rest.nextToken = (.error fault, after) ∧ failure = .ofFault filename fault := by
  obtain ⟨rest, finds, ahead⟩ := h
  rw [Cursor.advance, more, ahead more] at failed
  have unread : (TokenStream.readFrom filename [] rest).next.1.outcome = .error failure := by
    cases found : (TokenStream.readFrom filename [] rest).next.1.outcome <;> simp_all
  obtain ⟨fault, after, read, rfl⟩ := TokenStream.fault_of_next unread
  exact ⟨rest, fault, after, finds, read, rfl⟩

end Cursor

namespace Engine

/-- A goal is done, or it passes a token and others take its place. -/
inductive Step : List Goal × Engine → List Goal × Engine → Prop where
  | pop {goal : Goal} {rest : List Goal} {e : Engine} (moved : (e.reaction goal).move = .pop) :
      Step (goal :: rest, e) (rest, e.absorb (e.reaction goal))
  | shift {goal : Goal} {rest next : List Goal} {e : Engine}
      (moved : (e.reaction goal).move = .shift next)
      (passed : (e.absorb (e.reaction goal)).advance.1 = .ok ()) :
      Step (goal :: rest, e) (next ++ rest, (e.absorb (e.reaction goal)).advance.2)

/-- Any number of steps. -/
abbrev Steps : List Goal × Engine → List Goal × Engine → Prop :=
  Relation.ReflTransGen Step

/-- A goal fails: it cannot be reached, or the token behind the one it passes cannot be read. -/
inductive Fails (e : Engine) (goal : Goal) : Failure → Prop where
  | stuck {fault : Fault} (moved : (e.reaction goal).move = .fail fault) :
      e.Fails goal (.ofFault e.filename fault)
  | unread {next : List Goal} {failure : Failure} (moved : (e.reaction goal).move = .shift next)
      (failed : (e.absorb (e.reaction goal)).advance.1 = .error failure) : e.Fails goal failure

/-- Steps lead to a goal that is not done. What was reported by then and with it are these events,
the last one first, and chunks that were read behind them. -/
inductive Stops (x : List Goal × Engine) : List Event → Prop where
  | intro {goal : Goal} {rest : List Goal} {last : Engine} (chunks : List Delivery)
      (steps : Steps x (goal :: rest, last)) (stays : (last.reaction goal).move ≠ .pop) :
      Stops x ((last.absorb (last.reaction goal)).deliver chunks).events

variable {goals : List Goal} {e e' : Engine} {failure : Failure}

theorem Stops.head {x y : List Goal × Engine} {events : List Event} (h : Stops y events)
    (step : Step x y) : Stops x events := by
  obtain ⟨chunks, steps, stays⟩ := h
  exact .intro chunks (steps.head step) stays

theorem steps_of_run (h : e.run goals = (.ok (), e')) : Steps (goals, e) ([], e') := by
  fun_induction run goals e with
  | case1 e =>
      cases h
      exact .refl
  | case2 e goal rest moved ih => exact (ih h).head (.pop moved)
  | case3 e goal rest next moved passed ih => exact (ih h).head (.shift moved passed)
  | case4 e goal rest next moved failure passed => cases h
  | case5 e goal rest fault moved => cases h

/-- A run that fails comes by steps to a goal that fails. Behind it nothing is written, and nothing
but chunks that were read is reported. -/
theorem fails_of_run (h : e.run goals = (.error failure, e')) :
    ∃ goal rest last, Steps (goals, e) (goal :: rest, last) ∧ last.Fails goal failure ∧
      e'.code = last.code ++ (last.reaction goal).code ∧
      e'.scope = (last.reaction goal).scope ∧
      ∃ chunks, e'.events = ((last.absorb (last.reaction goal)).deliver chunks).events := by
  fun_induction run goals e with
  | case1 e => cases h
  | case2 e goal rest moved ih =>
      obtain ⟨goal', rest', last, steps, fails⟩ := ih h
      exact ⟨goal', rest', last, steps.head (.pop moved), fails⟩
  | case3 e goal rest next moved passed ih =>
      obtain ⟨goal', rest', last, steps, fails⟩ := ih h
      exact ⟨goal', rest', last, steps.head (.shift moved passed), fails⟩
  | case4 e goal rest next moved failure failed =>
      cases h
      exact ⟨goal, rest, e, .refl, .unread moved failed, code_absorb e _, rfl, _, rfl⟩
  | case5 e goal rest fault moved =>
      cases h
      exact ⟨goal, rest, e, .refl, .stuck moved, code_absorb e _, rfl, [], rfl⟩

theorem stops_of_run (h : e.run goals = (.error failure, e')) : Stops (goals, e) e'.events := by
  obtain ⟨goal, rest, last, steps, fails, -, -, chunks, same⟩ := fails_of_run h
  rw [same]
  refine .intro chunks steps ?_
  cases fails with
  | stuck moved | unread moved => simp [moved]

/-! ### Compiling a source -/

variable {source : Source} {chunkSize : Int} {filename : Option String} {strict : Bool}

theorem passed_atStart {start : Reader} {t : Token}
    (found : (TokenStream.readFrom filename [] start).next.1.outcome = .ok t) :
    (atStart (.readFrom filename [] start) t strict filename).cursor.Passed filename start [] :=
  TokenStream.finds_of_next rfl found

/-- A source that does not compile makes no first token, or a goal fails that is reached from its
first token. -/
theorem fails_of_compileSource (positive : 0 < chunkSize)
    (h : compileSource source filename strict chunkSize = .error failure) :
    let start := Reader.ofSource chunkSize.toNat source
    (∃ fault after, start.nextToken = (.error fault, after) ∧ failure = .ofFault filename fault) ∨
    ∃ t goal rest last, let first := atStart (.readFrom filename [] start) t strict filename
      first.cursor.Passed filename start [] ∧
        Steps ([.classDeclaration], first) (goal :: rest, last) ∧ last.Fails goal failure := by
  intro start
  rw [compileSource_of_pos positive] at h
  dsimp only at h
  split at h
  · next failed =>
    cases h
    exact .inl (TokenStream.fault_of_next failed)
  · next t found =>
    split at h
    · cases h
    · next failed =>
      cases h
      obtain ⟨goal, rest, last, steps, fails, -⟩ := fails_of_run failed
      exact .inr ⟨t, goal, rest, last, passed_atStart found, steps, fails⟩

end Engine

end Jack
