import Jack.Compiler.Template
import Jack.Proofs.Tables
import Mathlib.Data.List.Induction
import Mathlib.Data.List.Nodup

/-! # Declarations

Which variables are declared at some place of a class can be read off the lexemes before it, with
no goals and no tables. In a scope whose tables hold just these variables a name stands for the
variable that was declared for it last, first of all in the subroutine, and variables that are in
reach by different names never share a slot.
-/

namespace Jack

/-! ### Declarations in a row of lexemes -/

/-- What comes next where something is being declared. -/
inductive Reading where
  /-- Nothing is being declared. -/
  | nothing
  /-- The name of the class. -/
  | className
  /-- The type of variables of a kind. -/
  | type (kind : VariableKind)
  /-- The name of a variable. -/
  | name (type : String) (kind : VariableKind)
  /-- Another variable of the same type and kind, or the end of the declaration. -/
  | more (type : String) (kind : VariableKind)
  /-- The type of what a subroutine returns. -/
  | result (kind : SubroutineKind)
  /-- The name of a subroutine. -/
  | subroutine (kind : SubroutineKind)
  /-- The type of a parameter, or the end of all of them. -/
  | parameters
  /-- The name of a parameter. -/
  | parameter (type : String)
  deriving DecidableEq

namespace Reading

/-- What is declared behind a keyword that declares something. -/
def opened : Keyword → Reading
  | .classWord => .className
  | .staticWord => .type .static
  | .fieldWord => .type .field
  | .varWord => .type .localVar
  | .constructorWord => .result .constructor
  | .functionWord => .result .function
  | .methodWord => .result .method
  | _ => .nothing

/-- What comes next behind a lexeme. -/
def next (reading : Reading) (l : Lexeme) : Reading :=
  match reading with
  | .nothing =>
    match l with
    | .keyword word => opened word
    | _ => .nothing
  | .className => .nothing
  | .type kind => (l.typeName?.map (Reading.name · kind)).getD (.type kind)
  | .name typeName kind => .more typeName kind
  | .more typeName kind => if l = .symbol .comma then .name typeName kind else .nothing
  | .result kind => .subroutine kind
  | .subroutine _ => .parameters
  | .parameters =>
    if l = .symbol .closeParen then .nothing
    else (l.typeName?.map Reading.parameter).getD .parameters
  | .parameter _ => .parameters

/-- Whether a name comes next that is declared. -/
def isName : Reading → Bool
  | .className | .name _ _ | .subroutine _ | .parameter _ => true
  | _ => false

/-- Only a word that opens a declaration makes the name or the result of something come next. -/
theorem ne_of_next {reading : Reading} {l : Lexeme}
    (plain : reading = .nothing → ∀ word, l ≠ .keyword word) :
    reading.next l ≠ .className ∧ (∀ kind, reading.next l ≠ .result kind) ∧
      ∀ kind, reading.next l = .subroutine kind → reading = .result kind := by
  cases reading with
  | nothing =>
      cases l with
      | keyword word => exact absurd rfl (plain rfl word)
      | _ => simp [next]
  | type => cases found : l.typeName? <;> simp [next, found]
  | more => by_cases comma : l = .symbol .comma <;> simp [next, comma]
  | parameters =>
      by_cases close : l = .symbol .closeParen
      · simp [next, close]
      · cases found : l.typeName? <;> simp [next, close, found]
  | _ => simp [next]

theorem next_of_typeName? {l : Lexeme} {type : String} (found : l.typeName? = some type) :
    parameters.next l = .parameter type := by
  have other : l ≠ .symbol .closeParen := by
    rintro rfl
    cases found
  rw [next, if_neg other, found]
  rfl

end Reading

/-- What is declared at some place of a class. -/
structure Declared where
  className : String
  /-- The variables of the class. -/
  shared : List Definition
  /-- The variables of the subroutine, among them the receiver of a method. -/
  own : List Definition
  /-- The kind of the subroutine, once its name is read. -/
  kind : Option SubroutineKind
  reading : Reading

namespace Declared

/-- What is declared before a class starts. -/
def start : Declared :=
  ⟨"", [], [], none, .nothing⟩

/-- One more variable. -/
def add (d : Declared) (name type : String) (kind : VariableKind) : Declared :=
  match Scope.levelOf kind with
  | .classLevel => { d with shared := d.shared ++ [⟨name, type, kind⟩] }
  | .subroutineLevel => { d with own := d.own ++ [⟨name, type, kind⟩] }

/-- What is declared behind a name. The receiver of a method is its first argument. -/
def named (d : Declared) (name : String) : Declared :=
  match d.reading with
  | .className => { d with className := name }
  | .name type kind => d.add name type kind
  | .parameter type => d.add name type .argument
  | .subroutine .method => { d with kind := some .method }.add "this" d.className .argument
  | .subroutine kind => { d with kind := some kind }
  | _ => d

/-- What is declared behind a word that declares something. A subroutine starts without variables
of its own. -/
def opened (d : Declared) : Reading → Declared
  | .className => { d with kind := none }
  | .result _ => { d with own := [], kind := none }
  | _ => d

/-- What is declared behind a lexeme. -/
def read (d : Declared) (l : Lexeme) : Declared :=
  let changed :=
    match d.reading, l with
    | .nothing, .keyword word => d.opened (.opened word)
    | _, .identifier name => d.named name
    | _, _ => d
  { changed with reading := d.reading.next l }

end Declared

/-- What is declared behind a row of lexemes. -/
def declared (row : List Lexeme) : Declared :=
  row.foldl Declared.read .start

theorem declared_concat (row : List Lexeme) (l : Lexeme) :
    declared (row ++ [l]) = (declared row).read l := by
  rw [declared, List.foldl_append]
  rfl

/-- What holds of everything that can be declared. -/
structure Declared.Regular (d : Declared) : Prop where
  shared : ∀ made ∈ d.shared, made.kind = .static ∨ made.kind = .field
  own : ∀ made ∈ d.own, made.kind = .argument ∨ made.kind = .localVar
  /-- A subroutine has no variables before it has a name. -/
  unnamed : ∀ kind, d.reading = .result kind ∨ d.reading = .subroutine kind → d.own = []
  outside : d.reading = .className → d.kind = none
  receiver : d.kind = some .method → d.own.head? = some ⟨"this", d.className, .argument⟩

namespace Declared

section Add

variable (d : Declared) (name type : String) (kind : VariableKind)

@[simp] theorem kind_add : (d.add name type kind).kind = d.kind := by
  cases kind <;> rfl

theorem read_identifier (name : String) :
    d.read (.identifier name) =
      { d.named name with reading := d.reading.next (.identifier name) } := by
  cases reads : d.reading <;> simp [read, reads]

theorem read_keyword (reads : d.reading = .nothing) (word : Keyword) :
    d.read (.keyword word) = { d.opened (.opened word) with reading := .opened word } := by
  simp [read, reads, Reading.next]

/-- Nothing is declared by a lexeme that is neither a name nor a word that opens a declaration. -/
theorem read_of_ne {l : Lexeme} (plain : d.reading = .nothing → d.reading.next l = .nothing)
    (unnamed : d.reading.isName = true → ∀ name, l ≠ .identifier name) :
    d.read l = { d with reading := d.reading.next l } := by
  cases reads : d.reading with
  | nothing =>
      cases l with
      | keyword word =>
          have quiet : Reading.opened word = .nothing := by simpa [reads, Reading.next] using plain
          rw [read_keyword d reads, quiet, Reading.next, quiet]
          rfl
      | _ => simp [read, reads, named]
  | className | name | subroutine | parameter =>
      cases l with
      | identifier name => exact absurd rfl (unnamed (by rw [reads]; rfl) name)
      | _ => simp [read, reads]
  | _ => cases l <;> simp [read, reads, named]

end Add

namespace Regular

variable {d : Declared}

theorem add (h : d.Regular) (name type : String) (kind : VariableKind) {later : Reading}
    (named : ∀ kind, later ≠ .result kind ∧ later ≠ .subroutine kind)
    (inside : later ≠ .className) : Regular { d.add name type kind with reading := later } where
  shared made found := by
    cases kind <;>
      simp only [Declared.add, Scope.levelOf, List.mem_append, List.mem_singleton] at found
    case static | field => obtain found | rfl := found; exacts [h.shared made found, by simp]
    case argument | localVar => exact h.shared made found
  own made found := by
    cases kind <;>
      simp only [Declared.add, Scope.levelOf, List.mem_append, List.mem_singleton] at found
    case static | field => exact h.own made found
    case argument | localVar => obtain found | rfl := found; exacts [h.own made found, by simp]
  unnamed kind reads := (reads.elim (named kind).1 (named kind).2).elim
  outside reads := absurd reads inside
  receiver method := by
    have first := h.receiver ((kind_add ..).symm.trans method)
    cases kind
    case static | field => exact first
    all_goals
      simp only [Declared.add, Scope.levelOf]
      rw [List.head?_append, first, Option.some_or]

theorem moves (h : d.Regular) {l : Lexeme}
    (plain : d.reading = .nothing → ∀ word, l ≠ .keyword word) :
    Regular { d with reading := d.reading.next l } := by
  obtain ⟨notClass, notResult, subroutine⟩ := Reading.ne_of_next plain
  refine ⟨h.shared, h.own, fun kind reads => ?_, fun reads => absurd reads notClass, h.receiver⟩
  exact h.unnamed kind (.inl (subroutine kind (reads.resolve_left (notResult kind))))

theorem opened (h : d.Regular) (word : Keyword) :
    Regular { d.opened (.opened word) with reading := .opened word } := by
  have unnamed (kind : SubroutineKind) : Reading.opened word ≠ .subroutine kind := by
    cases word <;> simp [Reading.opened]
  generalize Reading.opened word = later at *
  cases later with
  | className =>
      simp only [Declared.opened]
      exact ⟨h.shared, h.own, by simp, by simp, by simp⟩
  | result kind =>
      simp only [Declared.opened]
      exact ⟨h.shared, by simp, by simp, by simp, by simp⟩
  | subroutine kind => exact absurd rfl (unnamed kind)
  | _ => exact ⟨h.shared, h.own, by simp, by simp, h.receiver⟩

/-- Behind a name, wherever one comes. -/
theorem named (h : d.Regular) (name : String) :
    Regular { d.named name with reading := d.reading.next (.identifier name) } := by
  cases reads : d.reading with
  | className =>
      have none := h.outside reads
      simp only [Declared.named, reads, Reading.next]
      exact ⟨h.shared, h.own, by simp, by simp, by simp [none]⟩
  | name type kind =>
      simp only [Declared.named, reads, Reading.next]
      exact h.add name type kind (by simp) (by simp)
  | parameter type =>
      simp only [Declared.named, reads, Reading.next]
      exact h.add name type .argument (by simp) (by simp)
  | subroutine kind =>
      have none := h.unnamed kind (.inr reads)
      cases kind
      case method =>
        simp only [Declared.named, reads, Reading.next]
        refine ⟨h.shared, ?_, by simp, by simp, ?_⟩ <;> simp [Declared.add, Scope.levelOf, none]
      all_goals
        simp only [Declared.named, reads, Reading.next]
        exact ⟨h.shared, h.own, by simp, by simp, by simp⟩
  | _ =>
      have moved : Regular { d with reading := d.reading.next (.identifier name) } :=
        h.moves (by simp)
      rw [reads] at moved
      simp only [Declared.named, reads]
      exact moved

/-- Whatever is read, all that is declared is regular. -/
theorem read (h : d.Regular) (l : Lexeme) : (d.read l).Regular := by
  by_cases isName : ∃ name, l = .identifier name
  · obtain ⟨name, rfl⟩ := isName
    rw [read_identifier]
    exact h.named name
  · rw [not_exists] at isName
    by_cases opening : d.reading = .nothing ∧ ∃ word, l = .keyword word
    · obtain ⟨nothing, word, rfl⟩ := opening
      simp only [Declared.read, nothing, Reading.next]
      exact h.opened word
    · have plain (nothing : d.reading = .nothing) : ∀ word, l ≠ .keyword word :=
        not_exists.mp fun word => opening ⟨nothing, word⟩
      have quiet (nothing : d.reading = .nothing) : d.reading.next l = .nothing := by
        rw [nothing]
        cases l with
        | keyword word => exact absurd rfl (plain nothing word)
        | _ => rfl
      rw [read_of_ne d quiet fun _ => isName]
      exact h.moves plain

end Regular

end Declared

theorem declared_regular (row : List Lexeme) : (declared row).Regular := by
  induction row using List.reverseRecOn with
  | nil =>
      rw [declared, List.foldl_nil, Declared.start]
      exact ⟨by simp, by simp, by simp, by simp, by simp⟩
  | append_singleton row l ih =>
      rw [declared_concat]
      exact ih.read l

/-- In a method of class `A`, behind the name of its parameter. -/
example :
    (declared [.keyword .classWord, .identifier "A", .symbol .openBrace, .keyword .methodWord,
      .keyword .voidWord, .identifier "f", .symbol .openParen, .keyword .intWord,
      .identifier "x"]).own = [⟨"this", "A", .argument⟩, ⟨"x", "int", .argument⟩] := by
  decide

/-! ### Scopes that hold what is declared -/

namespace Scope

/-- A scope holds what is declared and nothing else. -/
structure Keeps (s : Scope) (d : Declared) : Prop where
  className : s.className = d.className
  shared : s.classTable.Holds d.shared
  own : s.subroutineTable.Holds d.own

/-- A scope resolves names as they are declared: its tables have the variables that are declared for
them, a name stands for the last one that has it, in the subroutine or else in the class, and no two
names stand for the same slot. -/
structure Faithful (s : Scope) (d : Declared) : Prop where
  shared : s.classTable.Holds d.shared ∧
    ∀ entry ∈ s.classTable.entries, entry.kind = .static ∨ entry.kind = .field
  own : s.subroutineTable.Holds d.own ∧
    ∀ entry ∈ s.subroutineTable.entries, entry.kind = .argument ∨ entry.kind = .localVar
  receiver : d.kind = some .method →
    s.subroutineTable.entries.head? = some ⟨"this", d.className, .argument, 0⟩
  resolves : ∀ name,
    s.resolve? name = (s.subroutineTable.last? name).or (s.classTable.last? name)
  apart : ∀ name name' entry entry', name ≠ name' → s.resolve? name = some entry →
    s.resolve? name' = some entry' →
    (entry.kind.segment, entry.index) ≠ (entry'.kind.segment, entry'.index) ∧
      Template.popVariable entry ≠ Template.popVariable entry'

end Scope

namespace SymbolTable.Holds

variable {t : SymbolTable} {made : List Definition} {entry entry' : SymbolEntry}

theorem mem_made (h : t.Holds made) (inside : entry ∈ t.entries) : entry.definition ∈ made :=
  h.entries ▸ List.mem_map_of_mem inside

/-- Entries of a table with the same kind and index are the same. -/
theorem eq_of_index (h : t.Holds made) (inside : entry ∈ t.entries) (inside' : entry' ∈ t.entries)
    (kind : entry.kind = entry'.kind) (index : entry.index = entry'.index) : entry = entry' := by
  have numbered : ((t.entries.filter (·.kind == entry.kind)).map (·.index)).Nodup := by
    have range := h.indices entry.kind
    rw [SymbolTable.indices] at range
    rw [range]
    exact List.nodup_range
  exact List.inj_on_of_nodup_map numbered (by simp [inside]) (by simp [inside', kind]) index

/-- The first entry has the number zero. -/
theorem head?_eq (h : t.Holds made) {first : Definition} (found : made.head? = some first) :
    t.entries.head? = some ⟨first.name, first.type, first.kind, 0⟩ := by
  have numbered := h.indices first.kind
  rw [← h.entries, List.head?_map, Option.map_eq_some_iff] at found
  obtain ⟨entry, front, rfl⟩ := found
  obtain ⟨rest, whole⟩ := List.head?_eq_some_iff.mp front
  have index := congrArg List.head? numbered
  rw [SymbolTable.indices, whole, List.filter_cons_of_pos (by simp [SymbolEntry.definition]),
    List.map_cons, List.head?_cons, List.head?_range] at index
  have zero : entry.index = 0 := by
    split at index
    · cases index
    · exact Option.some.inj index
  rw [front, ← zero]
  rfl

end SymbolTable.Holds

theorem SymbolTable.mem_of_last? {t : SymbolTable} {name : String} {entry : SymbolEntry}
    (h : t.last? name = some entry) : entry ∈ t.entries ∧ entry.name = name := by
  simpa using List.mem_filter.mp (List.mem_of_getLast? h)

theorem VariableKind.segment_injective : Function.Injective segment := by
  intro kind kind' same
  cases kind <;> cases kind' <;> first | rfl | cases same

namespace Scope

variable {s : Scope} {d : Declared}

/-- A name stands for a variable of its own name, from one of the tables. -/
theorem mem_of_resolve? {name : String} {entry : SymbolEntry}
    (h : s.resolve? name = some entry) :
    entry.name = name ∧ (entry ∈ s.subroutineTable.entries ∨ entry ∈ s.classTable.entries) := by
  rw [resolve?, SymbolTable.lookup?_eq_last?, SymbolTable.lookup?_eq_last?,
    Option.or_eq_some_iff] at h
  obtain found | ⟨-, found⟩ := h
  · obtain ⟨inside, named⟩ := SymbolTable.mem_of_last? found
    exact ⟨named, .inl inside⟩
  · obtain ⟨inside, named⟩ := SymbolTable.mem_of_last? found
    exact ⟨named, .inr inside⟩

namespace Keeps

theorem faithful (h : s.Keeps d) (regular : d.Regular) : s.Faithful d := by
  have shared : ∀ entry ∈ s.classTable.entries, entry.kind = .static ∨ entry.kind = .field :=
    fun entry inside => regular.shared _ (h.shared.mem_made inside)
  have own : ∀ entry ∈ s.subroutineTable.entries, entry.kind = .argument ∨ entry.kind = .localVar :=
    fun entry inside => regular.own _ (h.own.mem_made inside)
  refine ⟨⟨h.shared, shared⟩, ⟨h.own, own⟩, fun method => h.own.head?_eq (regular.receiver method),
    fun name => ?_, fun name name' entry entry' apart found found' => ?_⟩
  · rw [resolve?, SymbolTable.lookup?_eq_last?, SymbolTable.lookup?_eq_last?]
  · have slots : (entry.kind.segment, entry.index) ≠ (entry'.kind.segment, entry'.index) := by
      intro same
      obtain ⟨segment, index⟩ := Prod.mk.inj same
      have kind := VariableKind.segment_injective segment
      obtain ⟨rfl, inside⟩ := mem_of_resolve? found
      obtain ⟨rfl, inside'⟩ := mem_of_resolve? found'
      obtain inside | inside := inside <;> obtain inside' | inside' := inside'
      · exact apart (congrArg SymbolEntry.name (h.own.eq_of_index inside inside' kind index))
      · have first := own entry inside
        have second := shared entry' inside'
        rw [kind] at first
        obtain same | same := first <;> simp [same] at second
      · have first := shared entry inside
        have second := own entry' inside'
        rw [kind] at first
        obtain same | same := first <;> simp [same] at second
      · exact apart (congrArg SymbolEntry.name (h.shared.eq_of_index inside inside' kind index))
    refine ⟨slots, fun same => slots ?_⟩
    obtain ⟨segment, index⟩ := Instruction.pop.inj same
    rw [segment, index]

theorem with_reading (h : s.Keeps d) (reading : Reading) : s.Keeps { d with reading } :=
  ⟨h.className, h.shared, h.own⟩

theorem counts (h : s.Keeps d) (branches loops : Nat) : Keeps { s with branches, loops } d :=
  ⟨h.className, h.shared, h.own⟩

end Keeps

end Scope

end Jack
