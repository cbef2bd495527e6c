import Jack.Proofs.Resolution

/-! # What identifiers are used for

What an identifier stands for can be told from the lexemes before it and the one behind it. Some
identifiers use a variable, which has to be declared; some declare one, which a strict compiler lets
each table do only once; the others name classes and subroutines, which nobody has to declare.
-/

namespace Jack

/-- What an identifier is used for. -/
inductive Role where
  /-- It names the class. -/
  | className
  /-- It names a subroutine where the subroutine is declared. -/
  | subroutine
  /-- It is the type of something. -/
  | type
  /-- It declares a variable of a kind. -/
  | declares (kind : VariableKind)
  /-- It is the variable, or the array, that a `let` statement assigns to. -/
  | target
  /-- It is the array that a term reads an element of. -/
  | base
  /-- It is a term of its own. -/
  | variable
  /-- It names the subroutine that is called. -/
  | called
  /-- It is what the subroutine that is called belongs to. -/
  | qualifier
  deriving Repr, DecidableEq

namespace Role

/-- Whether an identifier has to be declared as a variable before. -/
def uses : Role → Bool
  | .target | .base | .variable => true
  | _ => false

/-- The role of an identifier between two lexemes, where nothing is being declared. -/
def between (last : Option Lexeme) (next : Lexeme) : Role :=
  match last with
  | some (.keyword .letWord) => .target
  | some (.keyword .doWord) => if next = .symbol .dot then .qualifier else .called
  | some (.symbol .dot) => .called
  | _ =>
    match next with
    | .symbol .openParen => .called
    | .symbol .dot => .qualifier
    | .symbol .openBracket => .base
    | _ => .variable

/-- The role of an identifier behind some lexemes and in front of another one. -/
def of (before : List Lexeme) (next : Lexeme) : Role :=
  match (declared before).reading with
  | .className => .className
  | .subroutine _ => .subroutine
  | .type _ | .result _ | .parameters => .type
  | .name _ kind => .declares kind
  | .parameter _ => .declares .argument
  | .nothing | .more _ _ => between before.getLast? next

theorem between_ne_declares (last : Option Lexeme) (next : Lexeme) (kind : VariableKind) :
    between last next ≠ .declares kind := by
  unfold between
  repeat' split
  all_goals simp

end Role

/-- The names of the variables that are declared at a level. -/
def Declared.names (d : Declared) : Scope.Level → List String
  | .classLevel => d.shared.map Definition.name
  | .subroutineLevel => d.own.map Definition.name

/-- Whether an identifier behind some lexemes and in front of another one may stand there. -/
structure Legal (strict : Bool) (before : List Lexeme) (name : String) (next : Lexeme) : Prop where
  /-- A variable that is used is one of the class or of the current subroutine so far. -/
  use : (Role.of before next).uses → ∃ level, name ∈ (declared before).names level
  /-- A variable that is declared is a new one of its table, if the compiler is strict. -/
  declaration : ∀ kind, Role.of before next = .declares kind → strict →
    name ∉ (declared before).names (Scope.levelOf kind)

/-- What is wrong with an identifier that may not stand behind some lexemes and in front of another
one. -/
inductive Illegal (strict : Bool) (before : List Lexeme) (name : String) (next : Lexeme) :
    Problem → Prop where
  | undefined (uses : (Role.of before next).uses)
      (unknown : ∀ level, name ∉ (declared before).names level) :
      Illegal strict before name next (.undefinedVariable name)
  | redefined {kind : VariableKind} (strictly : strict)
      (declares : Role.of before next = .declares kind)
      (known : name ∈ (declared before).names (Scope.levelOf kind)) :
      Illegal strict before name next (.redefinedVariable name)

/-- Whether all identifiers of a row that have a lexeme behind them may stand where they do. -/
def Lawful (strict : Bool) (row : List Lexeme) : Prop :=
  ∀ before name next after, row = before ++ .identifier name :: next :: after →
    Legal strict before name next

/-- Where nothing is being declared. -/
example : Role.of [.keyword .letWord, .identifier "x", .symbol .equals] (.symbol .openParen) =
    .called := by
  decide

/-! ### Lawful rows -/

section Lawful

variable {strict : Bool} {row : List Lexeme} {l next : Lexeme} {name : String}

theorem legal_of_free (notUse : (Role.of row next).uses = false)
    (notDeclares : ∀ kind, Role.of row next ≠ .declares kind) : Legal strict row name next where
  use uses := by rw [notUse] at uses; cases uses
  declaration kind declares := absurd declares (notDeclares kind)

/-- An identifier may stand where nothing is wrong with it, and nowhere else. -/
theorem legal_iff :
    Legal strict row name next ↔ ∀ problem, ¬ Illegal strict row name next problem := by
  constructor
  · rintro legal problem (⟨uses, unknown⟩ | ⟨strictly, declares, known⟩)
    · obtain ⟨level, known⟩ := legal.use uses
      exact unknown level known
    · exact legal.declaration _ declares strictly known
  · intro innocent
    refine ⟨fun uses => ?_, fun kind declares strictly known => ?_⟩
    · by_contra unknown
      exact innocent _ (.undefined uses (not_exists.mp unknown))
    · exact innocent _ (.redefined strictly declares known)

/-- Where nothing is declared, only a variable that is used can be wrong. -/
theorem illegal_iff_of_not_declares {problem : Problem}
    (notDeclares : ∀ kind, Role.of row next ≠ .declares kind) :
    Illegal strict row name next problem ↔ (Role.of row next).uses ∧
      (¬ ∃ level, name ∈ (declared row).names level) ∧ problem = .undefinedVariable name := by
  constructor
  · rintro (⟨uses, unknown⟩ | ⟨-, declares, -⟩)
    · exact ⟨uses, not_exists.mpr unknown, rfl⟩
    · exact absurd declares (notDeclares _)
  · rintro ⟨uses, unknown, rfl⟩
    exact .undefined uses (not_exists.mp unknown)

/-- What declares a variable can only be wrong where its name is taken. -/
theorem illegal_iff_of_declares {problem : Problem} {kind : VariableKind}
    (declares : Role.of row next = .declares kind) :
    Illegal strict row name next problem ↔
      strict ∧ name ∈ (declared row).names (Scope.levelOf kind) ∧
        problem = .redefinedVariable name := by
  constructor
  · rintro (⟨uses, -⟩ | ⟨strictly, declares', known⟩)
    · rw [declares] at uses
      cases uses
    · rw [declares] at declares'
      cases declares'
      exact ⟨strictly, known, rfl⟩
  · rintro ⟨strictly, known, rfl⟩
    exact .redefined strictly declares known

theorem append_ticked (lead name trail : String) :
    lead ++ ticked name ++ trail = lead ++ "'" ++ name ++ ("'" ++ trail) := by
  simp only [ticked, String.append_assoc]

/-- What is wrong with an identifier is said in a message that quotes it. -/
theorem Illegal.exists_message {problem : Problem} (h : Illegal strict row name next problem) :
    ∃ lead trail, problem.message = lead ++ ticked name ++ trail := by
  cases h with
  | undefined =>
      refine ⟨"Undefined variable ", "", .trans ?_ (append_ticked ..).symm⟩
      have lead : "Undefined variable '" = "Undefined variable " ++ "'" := by decide
      rw [← lead]
      rfl
  | redefined =>
      let words := " is already defined in this scope"
      refine ⟨"Variable ", words, .trans ?_ (append_ticked ..).symm⟩
      have lead : "Variable '" = "Variable " ++ "'" := by decide
      have trail : "' is already defined in this scope" = "'" ++ words := by decide
      rw [← lead, ← trail]
      rfl

theorem lawful_of_length_le (few : row.length ≤ 1) : Lawful strict row := by
  rintro before name next after rfl
  simp only [List.length_append, List.length_cons] at few
  omega

/-- One more lexeme shows the role of the last one. -/
theorem lawful_concat_iff : Lawful strict (row ++ [l] ++ [next]) ↔
    Lawful strict (row ++ [l]) ∧ ∀ name, l = .identifier name → Legal strict row name next := by
  constructor
  · intro lawful
    refine ⟨?_, ?_⟩
    · rintro before name follower after whole
      exact lawful before name follower (after ++ [next]) (by simp [whole])
    · rintro name rfl
      exact lawful row name next [] (by simp)
  · rintro ⟨lawful, last⟩ before name follower after whole
    cases after using List.reverseRecOn with
    | nil =>
        have split : (row ++ [l]) ++ [next] = (before ++ [.identifier name]) ++ [follower] := by
          simpa using whole
        obtain ⟨front, same⟩ := List.append_inj' split rfl
        obtain ⟨rfl, same'⟩ := List.append_inj' front rfl
        cases same
        exact last name (List.singleton_inj.mp same')
    | append_singleton after other =>
        have split : (row ++ [l]) ++ [next] =
            (before ++ .identifier name :: follower :: after) ++ [other] := by
          simpa using whole
        exact lawful before name follower after (List.append_inj' split rfl).1

end Lawful

/-! ### Names in a scope that keeps what is declared -/

theorem SymbolTable.Holds.contains_iff {t : SymbolTable} {made : List Definition}
    (h : t.Holds made) (name : String) :
    t.contains name = true ↔ name ∈ made.map Definition.name := by
  rw [contains, lookup?_eq_last?, last?, List.getLast?_isSome, ← h.entries, List.map_map, ne_eq,
    List.filter_eq_nil_iff]
  simp [SymbolEntry.definition]

section Names

variable {s : Scope} {d : Declared} {name : String}

theorem Scope.Keeps.contains_iff (h : s.Keeps d) (level : Scope.Level) :
    (s.table level).contains name = true ↔ name ∈ d.names level := by
  cases level with
  | classLevel => exact h.shared.contains_iff name
  | subroutineLevel => exact h.own.contains_iff name

/-- A name stands for a variable if and only if it is declared at one of the levels. -/
theorem Scope.Keeps.isSome_resolve?_iff (h : s.Keeps d) :
    (s.resolve? name).isSome ↔ ∃ level, name ∈ d.names level := by
  have own : _ ↔ name ∈ _ := h.contains_iff .subroutineLevel
  have shared : _ ↔ name ∈ _ := h.contains_iff .classLevel
  rw [Scope.resolve?, Option.isSome_or, Bool.or_eq_true]
  constructor
  · rintro (found | found)
    · exact ⟨_, own.mp found⟩
    · exact ⟨_, shared.mp found⟩
  · rintro ⟨_ | _, inside⟩
    · exact .inr (shared.mpr inside)
    · exact .inl (own.mpr inside)

/-- A name declares nothing where nothing is being declared. -/
theorem names_concat {row : List Lexeme} (reads : (declared row).reading = .nothing)
    (level : Scope.Level) :
    (declared (row ++ [.identifier name])).names level = (declared row).names level := by
  rw [declared_concat, Declared.read_identifier, Declared.named, reads]
  cases level <;> rfl

end Names

end Jack
