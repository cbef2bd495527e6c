import Jack.SymbolTable
import Mathlib.Data.List.Basic

/-! # Runs of symbol tables

What a table answers behind any calls, told by the calls alone. Its entries are the definitions that
were carried out since the last reset; a call that names no kind leaves no trace. The variables of a
kind are numbered from zero, and a name stands for the last entry it has.
-/

namespace Jack

/-- What a call to a table defines. -/
structure Definition where
  name : String
  type : String
  kind : VariableKind
  deriving Repr, DecidableEq

/-- The definition that an entry was made for. -/
def SymbolEntry.definition (entry : SymbolEntry) : Definition :=
  ⟨entry.name, entry.type, entry.kind⟩

namespace VariableKind

theorem ofLiteral_text (kind : VariableKind) : ofLiteral (.text kind.text) = .ok kind := by
  cases kind <;> rfl

theorem ofLiteral_of_ne {literal : Literal} (h : ∀ kind : VariableKind, literal ≠ .text kind.text) :
    ofLiteral literal = .error (.notVariableKind literal) := by
  cases found : literal.member? all text with
  | none => rw [ofLiteral, found]
  | some kind => exact absurd (Literal.eq_of_member? found) (h kind)

/-- The kind that a literal spells. -/
def spelled? (literal : Literal) : Option VariableKind :=
  all.find? fun kind => literal = .text kind.text

theorem spelled?_text (kind : VariableKind) : spelled? (.text kind.text) = some kind := by
  cases kind <;> rfl

theorem spelled?_of_ne {literal : Literal} (h : ∀ kind : VariableKind, literal ≠ .text kind.text) :
    spelled? literal = none := by
  simpa [spelled?] using fun kind _ => h kind

end VariableKind

namespace SymbolTable

/-- The definitions that are there behind a call, where a literal that spells no kind defines
nothing. -/
def Call.leave (made : List Definition) : Call → List Definition
  | .define name type literal =>
    made ++ ((VariableKind.spelled? literal).map fun kind => ⟨name, type, kind⟩).toList
  | .reset => []
  | .lookup _ | .kindOf _ | .typeOf _ | .indexOf _ | .contains _ | .count _ | .entries => made

/-- The definitions of calls since the last reset. -/
def definitions (calls : List Call) : List Definition :=
  calls.foldl Call.leave []

/-- Carry out calls in order, whatever is answered. -/
def performAll (calls : List Call) (t : SymbolTable) : SymbolTable :=
  calls.foldl (fun t call => (t.perform call).2) t

/-- The last entry with a name. -/
def last? (t : SymbolTable) (name : String) : Option SymbolEntry :=
  (t.entries.filter (·.name == name)).getLast?

/-- The indices of the entries of a kind, in order. -/
def indices (t : SymbolTable) (kind : VariableKind) : List Nat :=
  (t.entries.filter (·.kind == kind)).map (·.index)

/-- Whether the entries of a table are those of definitions, numbered for each kind. -/
structure Holds (t : SymbolTable) (made : List Definition) : Prop where
  entries : t.entries.map SymbolEntry.definition = made
  indices : ∀ kind, t.indices kind = List.range (t.count kind)

section Holds

variable {t : SymbolTable} {made : List Definition}

theorem holds_empty : empty.Holds [] where
  entries := rfl
  indices kind := by cases kind <;> rfl

theorem Holds.define (h : t.Holds made) (name type : String) (kind : VariableKind) :
    (t.define name type kind).Holds (made ++ [⟨name, type, kind⟩]) where
  entries := by
    rw [entries_define, List.map_append, h.entries]
    rfl
  indices other := by
    have before := h.indices other
    rw [SymbolTable.indices] at before ⊢
    rw [entries_define, List.filter_append, List.map_append, before, count_define]
    by_cases same : kind = other
    · -- The new index is the number of entries of the kind so far.
      subst same
      simp [newEntry, List.range_succ]
    · simp [newEntry, same]

/-- A call does to a table what it does to the definitions. -/
theorem Holds.perform (h : t.Holds made) (call : Call) :
    (t.perform call).2.Holds (call.leave made) := by
  cases call with
  | define name type literal =>
      by_cases spelled : ∃ kind : VariableKind, literal = .text kind.text
      · obtain ⟨kind, rfl⟩ := spelled
        rw [SymbolTable.perform, VariableKind.ofLiteral_text, Call.leave,
          VariableKind.spelled?_text]
        exact h.define name type kind
      · have refused (kind : VariableKind) : literal ≠ .text kind.text :=
          fun same => spelled ⟨kind, same⟩
        rw [SymbolTable.perform, VariableKind.ofLiteral_of_ne refused, Call.leave,
          VariableKind.spelled?_of_ne refused, Option.map_none, Option.toList_none,
          List.append_nil]
        exact h
  | reset => exact holds_empty
  | lookup | kindOf | typeOf | indexOf | contains | count | entries => exact h

theorem Holds.performAll (h : t.Holds made) (calls : List Call) :
    (t.performAll calls).Holds (calls.foldl Call.leave made) := by
  induction calls generalizing t made with
  | nil => exact h
  | cons call calls ih => exact ih (h.perform call)

end Holds

/-! ### Agreement of the three ways -/

theorem lookup?_eq_last? (t : SymbolTable) (name : String) : t.lookup? name = t.last? name := by
  rw [lookup?, t.newest_eq, last?, entries, List.filter_reverse, List.getLast?_reverse,
    List.head?_filter]

theorem length_eq_countP (entries : List SymbolEntry) :
    entries.length =
      entries.countP (·.kind == .static) + entries.countP (·.kind == .field) +
        entries.countP (·.kind == .argument) + entries.countP (·.kind == .localVar) := by
  induction entries with
  | nil => rfl
  | cons entry entries ih =>
      simp only [List.countP_cons, List.length_cons, ih]
      cases entry.kind <;> simp <;> omega

theorem size_eq_count (t : SymbolTable) :
    t.size = t.count .static + t.count .field + t.count .argument + t.count .localVar := by
  simp only [count, t.counts_eq]
  exact length_eq_countP t.declared

/-- Behind any calls the entries of a table are the definitions since the last reset, and all it
answers agrees with them: the variables of each kind are numbered as they come, a name stands for
its last entry, and a call with a literal that is no kind is refused and changes nothing. -/
theorem tables_agree_with_definitions (calls : List Call) :
    let t := performAll calls empty
    t.perform .entries = (.ok (.entries t.entries), t) ∧
    t.entries.map SymbolEntry.definition = definitions calls ∧
    t.size = t.entries.length ∧
    t.size = t.count .static + t.count .field + t.count .argument + t.count .localVar ∧
    (∀ kind, t.perform (.count (.text kind.text)) = (.ok (.number (t.count kind)), t) ∧
      t.indices kind = List.range (t.count kind)) ∧
    (∀ name type kind, (t.perform (.define name type (.text kind.text))).1 =
        .ok (.number (t.count kind)) ∧
      (t.perform (.define name type (.text kind.text))).2.entries =
        t.entries ++ [⟨name, type, kind, t.count kind⟩]) ∧
    (∀ name, t.perform (.lookup name) = (.ok (.entry (t.last? name)), t) ∧
      t.perform (.kindOf name) = (.ok (.text ((t.last? name).map (·.kind.text))), t) ∧
      t.perform (.typeOf name) = (.ok (.text ((t.last? name).map (·.type))), t) ∧
      t.perform (.indexOf name) = (.ok (.number ((t.last? name).map (·.index))), t) ∧
      t.perform (.contains name) = (.ok (.truth (t.last? name).isSome), t)) ∧
    ∀ literal, (∀ kind : VariableKind, literal ≠ .text kind.text) →
      (∀ name type, t.perform (.define name type literal) =
        (.error (.notVariableKind literal), t)) ∧
      t.perform (.count literal) = (.error (.notVariableKind literal), t) := by
  intro t
  have holds : t.Holds (definitions calls) := holds_empty.performAll calls
  refine ⟨rfl, holds.entries, List.length_reverse.symm, t.size_eq_count, fun kind => ⟨?_, ?_⟩,
    fun name type kind => ?_, fun name => ?_, fun literal refused => ?_⟩
  · rw [perform, VariableKind.ofLiteral_text]
    rfl
  · exact holds.indices kind
  · rw [perform, VariableKind.ofLiteral_text]
    exact ⟨rfl, t.entries_define name type kind⟩
  · simp only [perform, SymbolTable.contains, lookup?_eq_last?, and_self]
  · refine ⟨fun name type => ?_, ?_⟩
    · rw [perform, VariableKind.ofLiteral_of_ne refused]
    · rw [perform, VariableKind.ofLiteral_of_ne refused]
      rfl

example :
    definitions [.define "x" "int" (.text "static"), .reset, .define "y" "int" (.text "local"),
      .define "y" "A" .null, .count (.text "var"), .define "y" "A" (.text "field")] =
      [⟨"y", "int", .localVar⟩, ⟨"y", "A", .field⟩] := by
  decide

end SymbolTable

end Jack
