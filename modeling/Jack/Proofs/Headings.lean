import Jack.Proofs.Declarations
import Jack.Proofs.Trees

/-! # Headings

Which class and which subroutines are introduced up to some place of a class can be read off the
lexemes before it. Behind all of a class these are the class itself and its subroutines in order.
-/

namespace Jack

/-- A class or a subroutine where it is introduced. A subroutine goes by its full name. -/
inductive Heading where
  | ofClass (name : String)
  | ofSubroutine (kind : SubroutineKind) (name : String)
  deriving Repr, DecidableEq

/-- What a lexeme introduces. -/
def Declared.heading? (d : Declared) (l : Lexeme) : Option Heading :=
  match d.reading, l with
  | .className, .identifier name => some (.ofClass name)
  | .subroutine kind, .identifier name => some (.ofSubroutine kind (d.className ++ "." ++ name))
  | _, _ => none

/-- What is introduced by a row of lexemes behind what is declared before it. -/
def headingsFrom (d : Declared) : List Lexeme → List Heading
  | [] => []
  | l :: row => (d.heading? l).toList ++ headingsFrom (d.read l) row

/-- What is introduced by a row of lexemes. -/
def headings (row : List Lexeme) : List Heading :=
  headingsFrom .start row

theorem headingsFrom_append (d : Declared) (row later : List Lexeme) :
    headingsFrom d (row ++ later) =
      headingsFrom d row ++ headingsFrom (row.foldl Declared.read d) later := by
  induction row generalizing d with
  | nil => rfl
  | cons l row ih => rw [List.cons_append, headingsFrom, ih, headingsFrom, List.append_assoc]; rfl

theorem headings_concat (row : List Lexeme) (l : Lexeme) :
    headings (row ++ [l]) = headings row ++ ((declared row).heading? l).toList := by
  rw [headings, headingsFrom_append, headingsFrom, headingsFrom, List.append_nil]
  rfl

/-- Lexemes further on take nothing back. -/
theorem headings_mono {row whole : List Lexeme} (h : row <+: whole) :
    headings row <+: headings whole := by
  obtain ⟨later, rfl⟩ := h
  rw [headings, headings, headingsFrom_append]
  exact List.prefix_append _ _

/-! ### Headings of a tree -/

/-- Whether a name that comes next introduces something. -/
def Reading.introduces : Reading → Bool
  | .className | .subroutine _ => true
  | _ => false

theorem Declared.heading?_eq_none {d : Declared} (quiet : d.reading.introduces = false)
    (l : Lexeme) : d.heading? l = none := by
  unfold heading?
  split <;> simp_all [Reading.introduces]

theorem Declared.className_read {d : Declared} (other : d.reading ≠ .className) (l : Lexeme) :
    (d.read l).className = d.className := by
  have added (d : Declared) (name type : String) (kind : VariableKind) :
      (d.add name type kind).className = d.className := by
    cases kind <;> rfl
  unfold read
  simp only
  split
  · next word reads => cases word <;> rfl
  · unfold named
    split <;> simp_all
  · rfl

namespace Tree

/-- In a class a row of lexemes introduces headings, and leads from where one thing comes next to
where another does. -/
def Introduces (className : String) (first : Reading) (row : List Lexeme) (found : List Heading)
    (last : Reading) : Prop :=
  ∀ d : Declared, d.className = className → d.reading = first →
    headingsFrom d row = found ∧ (row.foldl Declared.read d).className = className ∧
      (row.foldl Declared.read d).reading = last

namespace Introduces

variable {className name : String} {first second last : Reading} {row later : List Lexeme}
  {found more : List Heading} {l : Lexeme} {kind : SubroutineKind}

theorem nil : Introduces className first [] [] first :=
  fun _ named reads => ⟨rfl, named, reads⟩

theorem append (h : Introduces className first row found second)
    (h' : Introduces className second later more last) :
    Introduces className first (row ++ later) (found ++ more) last := by
  intro d named reads
  obtain ⟨rfl, named, reads⟩ := h d named reads
  obtain ⟨rfl, named, reads⟩ := h' _ named reads
  rw [List.foldl_append]
  exact ⟨headingsFrom_append d row later, named, reads⟩

theorem cons (quiet : first.introduces = false)
    (h : Introduces className (first.next l) row found last) :
    Introduces className first (l :: row) found last := by
  intro d named reads
  subst reads
  have other : d.reading ≠ .className := by
    intro same
    rw [same] at quiet
    cases quiet
  rw [headingsFrom, Declared.heading?_eq_none quiet]
  exact h (d.read l) ((Declared.className_read other l).trans named) rfl

theorem subroutine (h : Introduces className .parameters row found last) :
    Introduces className (.subroutine kind) (.identifier name :: row)
      (.ofSubroutine kind (className ++ "." ++ name) :: found) last := by
  intro d named reads
  have other : d.reading ≠ .className := by simp [reads]
  have next : (d.read (.identifier name)).reading = .parameters := by
    rw [Declared.read_identifier, reads]
    rfl
  have headed : d.heading? (.identifier name) =
      some (.ofSubroutine kind (className ++ "." ++ name)) := by
    simp only [Declared.heading?, reads, named]
  rw [headingsFrom, headed]
  obtain ⟨rfl, rest⟩ := h _ ((Declared.className_read other _).trans named) next
  exact ⟨rfl, rest⟩

theorem flatMap {α : Type} {rows : List α} {write : α → List Lexeme} {heads : α → List Heading}
    (h : ∀ a ∈ rows, Introduces className first (write a) (heads a) first) :
    Introduces className first (rows.flatMap write) (rows.flatMap heads) first := by
  induction rows with
  | nil => exact nil
  | cons a rows ih =>
      rw [List.forall_mem_cons] at h
      exact append h.1 (ih h.2)

/-- Rows that introduce nothing do so together. -/
theorem flatMap_nil {α : Type} {rows : List α} {write : α → List Lexeme}
    (h : ∀ a ∈ rows, Introduces className first (write a) [] first) :
    Introduces className first (rows.flatMap write) [] first := by
  have none : (rows.flatMap fun _ => []) = ([] : List Heading) := by simp
  rw [← none]
  exact flatMap h

theorem of_quiet (h : ∀ l ∈ row, Reading.nothing.next l = .nothing) :
    Introduces className .nothing row [] .nothing := by
  induction row with
  | nil => exact nil
  | cons l row ih =>
      rw [List.forall_mem_cons] at h
      refine cons rfl ?_
      rw [h.1]
      exact ih h.2

end Introduces

variable {className : String} {kind : VariableKind}

theorem TypeName.typeName?_lexeme (type : TypeName) : type.lexeme.typeName? = some type.text := by
  cases type <;> rfl

theorem Declaration.introduces_tail (d : Declaration) :
    Introduces className (.type kind) d.tail [] .nothing := by
  have typed : (Reading.type kind).next d.type.lexeme = .name d.type.text kind := by
    rw [Reading.next, d.type.typeName?_lexeme]
    rfl
  have names : Introduces className (.more d.type.text kind) (moreLexemes d.more) []
      (.more d.type.text kind) :=
    .flatMap_nil fun name _ => .cons rfl (.cons rfl .nil)
  refine .cons rfl ?_
  rw [typed]
  exact .cons rfl (names.append (.cons rfl .nil))

theorem Parameter.introduces_rowOf (ps : List Parameter) :
    Introduces className .parameters (rowOf ps) [] .parameters := by
  have single (p : Parameter) : Introduces className .parameters p.lexemes [] .parameters := by
    refine .cons rfl ?_
    rw [Reading.next_of_typeName? p.type.typeName?_lexeme]
    exact .cons rfl .nil
  cases ps with
  | nil => exact .nil
  | cons first more =>
      exact (single first).append (.flatMap_nil fun p _ => .cons rfl (single p))

theorem statements_introduce_nothing :
    InStatements fun l => Reading.nothing.next l = .nothing where
  integer _ _ := rfl
  string _ := rfl
  constant word := by cases word <;> rfl
  identifier _ := rfl
  symbol _ := rfl
  word word inside := by cases word <;> first | rfl | simp at inside

theorem Subroutine.introduces_body (s : Subroutine) :
    Introduces className .nothing s.bodyLexemes [] .nothing := by
  have locals : Introduces className .nothing (s.locals.flatMap (Declaration.lexemes .varWord))
      [] .nothing :=
    .flatMap_nil fun d _ => .cons rfl d.introduces_tail
  have body : Introduces className .nothing (s.body.lexemes ++ [.symbol .closeBrace]) [] .nothing :=
    .of_quiet (List.forall_mem_append.mpr
      ⟨s.body.forall_mem_lexemes statements_introduce_nothing, by simp [Reading.next]⟩)
  refine .cons rfl ?_
  exact locals.append body

/-- A subroutine introduces itself. -/
theorem Subroutine.introduces (s : Subroutine) :
    Introduces className .nothing s.lexemes
      [.ofSubroutine s.kind (className ++ "." ++ s.name)] .nothing := by
  have opened : Reading.nothing.next (.keyword (keywordOf s.kind)) = .result s.kind := by
    cases s.kind <;> rfl
  refine .cons rfl ?_
  rw [opened]
  refine .cons rfl (.subroutine (.cons rfl ?_))
  exact (Parameter.introduces_rowOf s.parameters).append (.cons rfl s.introduces_body)

/-- The row of a class introduces the class and then its subroutines in order. -/
theorem Class.headings_lexemes (c : Class) :
    headings c.lexemes = .ofClass c.name ::
      c.subroutines.map fun s => .ofSubroutine s.kind (c.name ++ "." ++ s.name) := by
  have kept : Introduces c.name .nothing (c.declarations.flatMap ClassVariables.lexemes)
      [] .nothing := by
    refine .flatMap_nil fun v _ => .cons rfl ?_
    have opened : Reading.nothing.next (.keyword v.keeping.keyword) = .type v.keeping.kind := by
      cases v.keeping <;> rfl
    rw [opened]
    exact v.declaration.introduces_tail
  have written : Introduces c.name .nothing (c.subroutines.flatMap Subroutine.lexemes)
      (c.subroutines.flatMap fun s => [.ofSubroutine s.kind (c.name ++ "." ++ s.name)]) .nothing :=
    .flatMap fun s _ => s.introduces
  have closed : Introduces c.name .nothing [.symbol .closeBrace] [] .nothing :=
    .cons rfl .nil
  have members := kept.append (written.append closed)
  obtain ⟨found, -⟩ := members ⟨c.name, [], [], none, .nothing⟩ rfl rfl
  refine (congrArg (Heading.ofClass c.name :: ·) found).trans ?_
  simp [List.map_eq_flatMap]

end Tree

end Jack
