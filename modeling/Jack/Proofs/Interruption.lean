import Jack.Proofs.Delivery
import Jack.Proofs.Steps

/-! # Sources that break off

Behind the chunks of a source a read may fail instead of returning nothing. Until a token is wanted
for which that read is taken, compiling goes as it would if the source ended there. A class is only
compiled when the end of its source was found, so none is compiled from a source that breaks off.
-/

namespace Jack

variable {failure : Failure} {filename : Option String} {strict : Bool} {r : Reader}

/-- A source that breaks off makes no next token, or the one that it makes if it ends there. -/
theorem TokenStream.next_brokenFrom (failure : Failure) (filename : Option String) (r : Reader) :
    (∃ failed, (brokenFrom failure filename r).next.1.outcome = .error failed) ∨
      ∃ token rest, r.forget.nextToken = (.ok (some token), rest) ∧
        (brokenFrom failure filename r).next =
          (⟨rest.deliveries.reverse, .ok token⟩, brokenFrom failure filename rest) := by
  rw [brokenFrom]
  split
  · next token rest found =>
    split
    · exact .inl ⟨failure, rfl⟩
    · exact .inr ⟨token, rest, found, rfl⟩
  · exact .inl ⟨_, rfl⟩
  · exact .inl ⟨_, rfl⟩

namespace Engine

variable {goals : List Goal} {e e' last' : Engine} {outcome : Except Failure Unit}

/-- An engine at the same place in front of other scans. -/
def facing (e : Engine) (ahead : TokenStream) : Engine :=
  { e with cursor := { e.cursor with ahead } }

/-- Two engines are at the same place, where the source of the second breaks off and that of the
first one ends there. -/
structure Severed (failure : Failure) (filename : Option String) (e e' : Engine) : Prop where
  more : e.cursor.current.isEnd = false
  ahead : ∃ r, e.cursor.ahead = .readFrom filename [] r ∧
    e' = e.facing (.brokenFrom failure filename r)

theorem Severed.reaction (h : Severed failure filename e e') (goal : Goal) :
    e'.reaction goal = e.reaction goal := by
  obtain ⟨-, r, -, rfl⟩ := h
  rfl

theorem Severed.absorb (h : Severed failure filename e e') (goal : Goal) :
    Severed failure filename (e.absorb (e.reaction goal)) (e'.absorb (e'.reaction goal)) := by
  obtain ⟨more, r, ahead, rfl⟩ := h
  exact ⟨more, r, ahead, rfl⟩

theorem Severed.advance (h : Severed failure filename e e') (passed : e'.advance.1 = .ok ()) :
    e.advance.1 = .ok () ∧ Severed failure filename e.advance.2 e'.advance.2 := by
  obtain ⟨more, r, ahead, rfl⟩ := h
  obtain ⟨failed, broken⟩ | ⟨token, rest, found, next⟩ :=
    TokenStream.next_brokenFrom failure filename r
  · simp [Engine.advance, Cursor.advance, facing, more, broken] at passed
  · have whole := TokenStream.next_readFrom_of_forget_token filename found
    rw [← ahead] at whole
    have step := Cursor.advance_of_next more whole rfl
    have step' := Cursor.advance_of_next
      (c := (e.facing (.brokenFrom failure filename r)).cursor) more next rfl
    have proper := Token.isEnd_of_proper (Reader.proper_of_nextToken found)
    simp only [Engine.advance, step, step']
    exact ⟨trivial, proper, rest, rfl, rfl⟩

theorem Severed.stops {goal : Goal} {rest : List Goal} (h : Severed failure filename e e')
    (stays : (e.reaction goal).move ≠ .pop) (chunks : List Delivery) :
    Stops (goal :: rest, e) ((e'.absorb (e'.reaction goal)).deliver chunks).events := by
  obtain ⟨-, r, -, rfl⟩ := h
  exact @Stops.intro _ goal rest e chunks .refl stays

/-- A run over a source that breaks off goes as it would if the source ended there, or it fails and
has come by the same steps to a goal that is not done. -/
theorem Severed.run (h : Severed failure filename e e') (ran : e'.run goals = (outcome, last')) :
    (∃ last, e.run goals = (.ok (), last) ∧ Severed failure filename last last') ∨
      (∃ failed, outcome = .error failed) ∧ Stops (goals, e) last'.events := by
  fun_induction Engine.run goals e' generalizing e with
  | case1 e' =>
      cases ran
      exact .inl ⟨e, by rw [Engine.run], h⟩
  | case2 e' goal rest moved ih =>
      have moved : (e.reaction goal).move = .pop := h.reaction goal ▸ moved
      obtain ⟨last, reached, severed⟩ | ⟨failed, stops⟩ := ih (h.absorb goal) ran
      · exact .inl ⟨last, (run_of_pop moved).trans reached, severed⟩
      · exact .inr ⟨failed, stops.head (.pop moved)⟩
  | case3 e' goal rest next moved passed ih =>
      have moved : (e.reaction goal).move = .shift next := h.reaction goal ▸ moved
      obtain ⟨passed, severed⟩ := (h.absorb goal).advance passed
      obtain ⟨last, reached, severed⟩ | ⟨failed, stops⟩ := ih severed ran
      · exact .inl ⟨last, (run_of_shift moved passed).trans reached, severed⟩
      · exact .inr ⟨failed, stops.head (.shift moved passed)⟩
  | case4 e' goal rest next moved failed passed =>
      cases ran
      have moved : (e.reaction goal).move = .shift next := h.reaction goal ▸ moved
      exact .inr ⟨⟨failed, rfl⟩,
        h.stops (by simp [moved]) (e'.absorb (e'.reaction goal)).cursor.advance.2.1⟩
  | case5 e' goal rest fault moved =>
      cases ran
      have moved : (e.reaction goal).move = .fail fault := h.reaction goal ▸ moved
      exact .inr ⟨⟨_, rfl⟩, h.stops (by simp [moved]) []⟩

theorem severed_atStart {t : Token} {rest : Reader} (strict : Bool)
    (found : r.forget.nextToken = (.ok (some t), rest))
    (next : (TokenStream.brokenFrom failure filename r).next =
      (⟨rest.deliveries.reverse, .ok t⟩, .brokenFrom failure filename rest)) :
    Severed failure filename (atStart (.readFrom filename [] r) t strict filename)
      (atStart (.brokenFrom failure filename r) t strict filename) := by
  have whole := TokenStream.next_readFrom_of_forget_token filename found
  refine ⟨Token.isEnd_of_proper (Reader.proper_of_nextToken found), rest, ?_, ?_⟩
  · rw [atStart, whole]
  · simp only [atStart, facing, whole, next]

end Engine

/-- Nothing is compiled from a source that breaks off: no first token is made, or a goal is not done
that is reached from the first token as it would be if the source ended there. -/
theorem exists_of_compile_broken {outcome : Except Failure Compilation} {events : List Event}
    (h : compileStream (.brokenFrom failure filename r) strict filename = (outcome, events)) :
    (∃ failed, outcome = .error failed) ∧
      ((∃ chunks : List Delivery, events = chunks.map Event.delivered) ∨
        ∃ t, (TokenStream.readFrom filename [] r).next.1.outcome = .ok t ∧
          Engine.Stops ([.classDeclaration], .atStart (.readFrom filename [] r) t strict filename)
            events.reverse) := by
  rw [compileStream_eq] at h
  obtain ⟨failed, broken⟩ | ⟨t, rest, found, next⟩ :=
    TokenStream.next_brokenFrom failure filename r
  · simp only [broken] at h
    cases h
    exact ⟨⟨failed, rfl⟩, .inl ⟨_, rfl⟩⟩
  · have severed := Engine.severed_atStart strict found next
    have started : (TokenStream.readFrom filename [] r).next.1.outcome = .ok t := by
      rw [TokenStream.next_readFrom_of_forget_token filename found]
    cases ran : (Engine.atStart (.brokenFrom failure filename r) t strict filename).run
        [.classDeclaration] with
    | mk reached last' =>
        simp only [next, ran] at h
        cases h
        obtain ⟨last, whole, severed⟩ | ⟨⟨failed, rfl⟩, stops⟩ := severed.run ran
        · have ended := (Engine.drive_of_atStart started whole).1
          rw [severed.more] at ended
          cases ended
        · rw [List.reverse_reverse]
          exact ⟨⟨failed, rfl⟩, .inr ⟨t, started, stops⟩⟩

theorem exists_failed_of_broken (failure : Failure) (r : Reader) (filename : Option String)
    (strict : Bool) :
    ∃ failed, (compileUntil (some failure) ⟨r, filename, none⟩ strict).1 = .error failed :=
  (exists_of_compile_broken rfl).1

/-- What is compiled comes from a source that was read to its end. -/
theorem compile_of_compileUntil {failure : Option Failure} {compilation : Compilation}
    {events : List Event}
    (h : compileUntil failure ⟨r, filename, none⟩ strict = (.ok compilation, events)) :
    failure = none ∧ compile ⟨r, filename, none⟩ strict = (.ok compilation, events) := by
  cases failure with
  | none => exact ⟨rfl, h⟩
  | some failure =>
      obtain ⟨failed, broken⟩ := exists_failed_of_broken failure r filename strict
      rw [h] at broken
      cases broken

end Jack
