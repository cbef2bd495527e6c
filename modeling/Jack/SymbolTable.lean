import Jack.Failure

/-! # Symbol tables

One scope of declared variables. A declaration takes the next index of its kind, so
that the variables of a kind are numbered from zero in the order of their
declarations; declaring a name again adds an entry, and the newest one counts.
-/

namespace Jack

/-- Where a variable is kept. -/
inductive VariableKind where
  /-- Once per class. -/
  | static
  /-- Once per object. -/
  | field
  /-- Passed in by the caller. -/
  | argument
  /-- Owned by one run of a subroutine. -/
  | localVar
  deriving Repr, DecidableEq

namespace VariableKind

/-- Every kind of variable. -/
def all : List VariableKind :=
  [static, field, argument, localVar]

/-- The name of a kind. -/
def text : VariableKind → String
  | static => "static"
  | field => "field"
  | argument => "argument"
  | localVar => "local"

/-- The kind that a literal names. -/
def ofLiteral (literal : Literal) : Except Failure VariableKind :=
  match literal.member? all text with
  | some kind => .ok kind
  | none => .error (.notVariableKind literal)

end VariableKind

/-- A declared variable. -/
structure SymbolEntry where
  name : String
  type : String
  kind : VariableKind
  index : Nat
  deriving Repr, DecidableEq

/-- How many variables of each kind there are. -/
structure Counts where
  static : Nat
  field : Nat
  argument : Nat
  localVar : Nat
  deriving Repr, DecidableEq

namespace Counts

/-- No variables. -/
def zero : Counts := ⟨0, 0, 0, 0⟩

/-- The number of variables of a kind. -/
def of (c : Counts) : VariableKind → Nat
  | .static => c.static
  | .field => c.field
  | .argument => c.argument
  | .localVar => c.localVar

/-- One more variable of a kind. -/
def next (c : Counts) : VariableKind → Counts
  | .static => { c with static := c.static + 1 }
  | .field => { c with field := c.field + 1 }
  | .argument => { c with argument := c.argument + 1 }
  | .localVar => { c with localVar := c.localVar + 1 }

@[simp] theorem of_zero (kind : VariableKind) : zero.of kind = 0 := by
  cases kind <;> rfl

theorem of_next (c : Counts) (kind other : VariableKind) :
    (c.next kind).of other = c.of other + if kind = other then 1 else 0 := by
  cases kind <;> cases other <;> rfl

end Counts

namespace SymbolTable

/-- Keep an entry for a name instead of the one before. -/
def keep (name : String) (entry : SymbolEntry) (kept : List (String × SymbolEntry)) :
    List (String × SymbolEntry) :=
  (name, entry) :: kept.filter (·.1 != name)

theorem lookup_keep (name other : String) (entry : SymbolEntry)
    (kept : List (String × SymbolEntry)) :
    (keep name entry kept).lookup other =
      if name = other then some entry else kept.lookup other := by
  by_cases same : name = other
  · simp [keep, same]
  · have apart : other ≠ name := Ne.symm same
    have others : (kept.filter (·.1 != name)).lookup other = kept.lookup other := by
      induction kept with
      | nil => rfl
      | cons item kept ih =>
          obtain ⟨key, value⟩ := item
          by_cases found : other = key
          · simp [← found, apart]
          · have passed : (other == key) = false := beq_eq_false_iff_ne.mpr found
            by_cases replaced : key = name
            · subst replaced
              simp [List.lookup_cons, passed, ih]
            · simp [List.lookup_cons, passed, replaced, ih]
    rw [keep, List.lookup_cons, beq_eq_false_iff_ne.mpr apart, if_neg same]
    exact others

end SymbolTable

/-- The variables of one scope. They are kept in three ways: in order, by name and counted by
kind. -/
structure SymbolTable where
  /-- The declarations, the newest one first. -/
  declared : List SymbolEntry
  /-- The newest declaration of each name. -/
  newest : List (String × SymbolEntry)
  /-- The numbers of declarations. -/
  counts : Counts
  newest_eq : ∀ name, newest.lookup name = declared.find? (·.name == name)
  counts_eq : ∀ kind, counts.of kind = declared.countP (·.kind == kind)
  deriving Repr, DecidableEq

namespace SymbolTable

/-- A scope without variables. -/
def empty : SymbolTable where
  declared := []
  newest := []
  counts := .zero
  newest_eq _ := rfl
  counts_eq := Counts.of_zero

/-- The declarations in order. -/
def entries (t : SymbolTable) : List SymbolEntry :=
  t.declared.reverse

/-- How many variables are declared. -/
def size (t : SymbolTable) : Nat :=
  t.declared.length

/-- How many variables of a kind are declared. -/
def count (kind : VariableKind) (t : SymbolTable) : Nat :=
  t.counts.of kind

/-- The entry that a declaration adds. -/
def newEntry (t : SymbolTable) (name type : String) (kind : VariableKind) : SymbolEntry :=
  ⟨name, type, kind, t.count kind⟩

/-- Declare a variable. -/
def define (t : SymbolTable) (name type : String) (kind : VariableKind) : SymbolTable where
  declared := t.newEntry name type kind :: t.declared
  newest := keep name (t.newEntry name type kind) t.newest
  counts := t.counts.next kind
  newest_eq other := by
    have named : (t.newEntry name type kind).name = name := rfl
    rw [lookup_keep, t.newest_eq, List.find?_cons, named]
    by_cases same : name = other
    · rw [if_pos same, beq_iff_eq.mpr same]
    · rw [if_neg same, beq_eq_false_iff_ne.mpr same]
  counts_eq other := by
    rw [Counts.of_next, t.counts_eq, List.countP_cons]
    simp [newEntry]

/-- The newest declaration of a name. -/
def lookup? (t : SymbolTable) (name : String) : Option SymbolEntry :=
  t.newest.lookup name

/-- Whether a name is declared. -/
def contains (t : SymbolTable) (name : String) : Bool :=
  (t.lookup? name).isSome

/-- The short form of a table. -/
def summary (t : SymbolTable) : String :=
  "SymbolTable(" ++ toString t.size ++ " entries)"

theorem entries_define (t : SymbolTable) (name type : String) (kind : VariableKind) :
    (t.define name type kind).entries = t.entries ++ [t.newEntry name type kind] := by
  simp [entries, define]

theorem lookup?_define (t : SymbolTable) (name other type : String) (kind : VariableKind) :
    (t.define name type kind).lookup? other =
      if name = other then some (t.newEntry name type kind) else t.lookup? other := by
  rw [lookup?, define, lookup_keep]
  rfl

theorem count_define (t : SymbolTable) (name type : String) (kind other : VariableKind) :
    (t.define name type kind).count other = t.count other + if kind = other then 1 else 0 := by
  rw [count, define, Counts.of_next]
  rfl

/-- What a table can be asked to do. Kinds are named by literals. -/
inductive Call where
  | define (name type : String) (kind : Literal)
  | lookup (name : String)
  | kindOf (name : String)
  | typeOf (name : String)
  | indexOf (name : String)
  | contains (name : String)
  | count (kind : Literal)
  | entries
  | reset
  deriving Repr

/-- What a table answers. -/
inductive Answer where
  | done
  | truth (value : Bool)
  | number (value : Option Nat)
  | text (value : Option String)
  | entry (found : Option SymbolEntry)
  | entries (all : List SymbolEntry)
  deriving Repr

/-- Carry out a call. -/
def perform (call : Call) (t : SymbolTable) : Except Failure Answer × SymbolTable :=
  match call with
  | .define name type kind =>
    match VariableKind.ofLiteral kind with
    | .ok kind => (.ok (.number (t.count kind)), t.define name type kind)
    | .error failure => (.error failure, t)
  | .lookup name => (.ok (.entry (t.lookup? name)), t)
  | .kindOf name => (.ok (.text ((t.lookup? name).map (·.kind.text))), t)
  | .typeOf name => (.ok (.text ((t.lookup? name).map (·.type))), t)
  | .indexOf name => (.ok (.number ((t.lookup? name).map (·.index))), t)
  | .contains name => (.ok (.truth (t.contains name)), t)
  | .count kind => ((VariableKind.ofLiteral kind).map fun kind => .number (t.count kind), t)
  | .entries => (.ok (.entries t.entries), t)
  | .reset => (.ok .done, empty)

end SymbolTable

end Jack
