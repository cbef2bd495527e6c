import Jack.Proofs.Language
import Jack.Proofs.Places

/-! # Slots of variables

Where compiled code keeps variables. A table numbers the variables of each kind in the order
of their declarations, so the index of a variable is the position of its declaration, and no
code reaches a word that nothing was declared for: not in the frame of a subroutine, not
among the static variables and not in an object.
-/

namespace Jack

open Jack.Tree

namespace SymbolTable

/-- The variables of a kind with their indices, in the order of their declarations. -/
def slots (t : SymbolTable) (kind : VariableKind) : List (String × Nat) :=
  (t.entries.filter (·.kind == kind)).map fun entry => (entry.name, entry.index)

/-- The variables of a kind are numbered from zero in the order of the given names. -/
def Numbers (t : SymbolTable) (kind : VariableKind) (names : List String) : Prop :=
  t.slots kind = names.zipIdx

section Numbers

variable {t : SymbolTable} {kind : VariableKind} {names : List String}

theorem length_slots (t : SymbolTable) (kind : VariableKind) :
    (t.slots kind).length = t.count kind := by
  simp [slots, entries, count, t.counts_eq, List.countP_eq_length_filter]

theorem numbers_empty (kind : VariableKind) : empty.Numbers kind [] := rfl

theorem Numbers.count (h : t.Numbers kind names) : t.count kind = names.length := by
  rw [← length_slots, h, List.length_zipIdx]

theorem Numbers.define (h : t.Numbers kind names) (name type : String) (other : VariableKind) :
    (t.define name type other).Numbers kind (names ++ if other = kind then [name] else []) := by
  have slots : (t.define name type other).slots kind =
      t.slots kind ++ if other = kind then [(name, t.count kind)] else [] := by
    rw [SymbolTable.slots, entries_define, List.filter_append, List.map_append]
    by_cases same : other = kind
    · simp [same, newEntry, SymbolTable.slots]
    · simp [same, newEntry, SymbolTable.slots]
  rw [Numbers, slots, h, h.count, List.zipIdx_append]
  split <;> simp

theorem Numbers.defineAll (h : t.Numbers kind names) (more : List String) (type : String)
    (other : VariableKind) :
    (t.defineAll more type other).Numbers kind (names ++ if other = kind then more else []) := by
  unfold SymbolTable.defineAll
  induction more generalizing t names with
  | nil => simpa using h
  | cons name more ih =>
      have first := ih (h.define name type other)
      rw [List.append_assoc] at first
      rw [List.foldl_cons]
      split at first <;> simp_all

theorem Numbers.foldl {α : Type} {declare : SymbolTable → α → SymbolTable}
    {more : α → List String}
    (step : ∀ t names a, t.Numbers kind names → (declare t a).Numbers kind (names ++ more a))
    (h : t.Numbers kind names) (items : List α) :
    (items.foldl declare t).Numbers kind (names ++ items.flatMap more) := by
  induction items generalizing t names with
  | nil => simpa using h
  | cons item items ih =>
      rw [List.foldl_cons, List.flatMap_cons, ← List.append_assoc]
      exact ih (step t names item h)

/-- A variable has the index of its declaration. -/
theorem Numbers.getElem?_index {name : String} {entry : SymbolEntry}
    (h : t.Numbers entry.kind names) (found : t.lookup? name = some entry) :
    names[entry.index]? = some name := by
  rw [lookup?, t.newest_eq] at found
  have named : entry.name = name := by simpa using List.find?_some found
  have inside : (name, entry.index) ∈ t.slots entry.kind := by
    rw [slots, ← named]
    refine List.mem_map_of_mem (List.mem_filter.mpr ⟨?_, by simp⟩)
    exact List.mem_reverse.mpr (List.mem_of_find?_eq_some found)
  rw [h] at inside
  exact List.mem_zipIdx_iff_getElem?.mp inside

end Numbers

end SymbolTable

namespace Tree

/-! ### Declared names -/

/-- The variables that are kept once for the class. -/
def ClassVariables.statics (v : ClassVariables) : List String :=
  if v.keeping = .static then v.declaration.names else []

/-- The variables of a class, by kind and in the order of their declarations. -/
def Class.declared (c : Class) : VariableKind → List String
  | .static => c.declarations.flatMap ClassVariables.statics
  | .field => c.declarations.flatMap ClassVariables.fields
  | .argument | .localVar => []

namespace Subroutine

/-- What is passed to a subroutine: a method has the object it is called on in front of its
parameters. -/
def arguments (s : Subroutine) : List String :=
  match s.kind with
  | .method => "this" :: s.parameters.map Parameter.name
  | .constructor | .function => s.parameters.map Parameter.name

/-- The variables of a subroutine, by kind and in the order of their declarations. -/
def declared (s : Subroutine) : VariableKind → List String
  | .static | .field => []
  | .argument => s.arguments
  | .localVar => s.locals.flatMap Declaration.names

/-- The names that have the slots of a kind when a subroutine of a class runs. Either the class or
the subroutine has none of them. -/
def slotNames (c : Class) (s : Subroutine) (kind : VariableKind) : List String :=
  c.declared kind ++ s.declared kind

end Subroutine

theorem Class.declared_eq (c : Class) (kind : VariableKind) :
    c.declared kind = c.declarations.flatMap fun v =>
      if v.keeping.kind = kind then v.declaration.names else [] := by
  have never {kind : VariableKind} (h : ∀ keeping : Keeping, keeping.kind ≠ kind) :
      [] = c.declarations.flatMap fun v =>
        if v.keeping.kind = kind then v.declaration.names else [] := by
    simp [h]
  cases kind with
  | static =>
      refine List.flatMap_congr fun v _ => ?_
      rw [ClassVariables.statics]
      cases v.keeping <;> rfl
  | field =>
      refine List.flatMap_congr fun v _ => ?_
      rw [ClassVariables.fields]
      cases v.keeping <;> rfl
  | argument | localVar => exact never fun keeping => by cases keeping <;> decide

theorem numbers_class_table (c : Class) (kind : VariableKind) :
    c.table.Numbers kind (c.declared kind) := by
  rw [Class.declared_eq]
  exact (SymbolTable.numbers_empty kind).foldl
    (fun _ _ v h => h.defineAll v.declaration.names v.declaration.type.text v.keeping.kind) _

theorem Subroutine.declared_eq (s : Subroutine) (kind : VariableKind) :
    s.declared kind = (if s.kind = .method ∧ .argument = kind then ["this"] else []) ++
      s.parameters.flatMap (fun p => if .argument = kind then [p.name] else []) ++
      s.locals.flatMap fun d => if .localVar = kind then d.names else [] := by
  have none {α : Type} (items : List α) : items.flatMap (fun _ => ([] : List String)) = [] := by
    simp
  cases kind with
  | static | field => simp [Subroutine.declared, none]
  | argument =>
      rw [Subroutine.declared, Subroutine.arguments, List.map_eq_flatMap]
      cases s.kind <;> simp [none]
  | localVar => simp [Subroutine.declared, none]

theorem numbers_subroutine_table (s : Subroutine) (className : String) (kind : VariableKind) :
    (s.table className).Numbers kind (s.declared kind) := by
  have receiver : (s.receiver className).Numbers kind
      (if s.kind = .method ∧ .argument = kind then ["this"] else []) := by
    unfold Subroutine.receiver
    cases s.kind with
    | method =>
        have passed := (SymbolTable.numbers_empty kind).define "this" className .argument
        simpa using passed
    | constructor | function => exact SymbolTable.numbers_empty kind
  rw [Subroutine.declared_eq]
  exact (receiver.foldl (fun _ _ p h => h.define p.name p.type.text .argument) s.parameters).foldl
    (fun _ _ d h => h.defineAll d.names d.type.text .localVar) s.locals

/-- A name in a subroutine stands for a variable in the slot of one of its declarations. -/
theorem getElem?_slotNames {c : Class} {s : Subroutine} {name : String} {entry : SymbolEntry}
    (found : (s.frame c).resolve? name = some entry) :
    (s.slotNames c entry.kind)[entry.index]? = some name := by
  rcases Option.or_eq_some_iff.mp found with own | ⟨-, shared⟩
  · have slot := (numbers_subroutine_table s c.name entry.kind).getElem?_index own
    rw [Subroutine.slotNames]
    cases kind : entry.kind with
    | static | field => rw [kind] at slot; cases slot
    | argument | localVar => rwa [kind] at slot
  · have slot := (numbers_class_table c entry.kind).getElem?_index shared
    rw [Subroutine.slotNames]
    cases kind : entry.kind with
    | static | field => rw [kind] at slot; rwa [Subroutine.declared, List.append_nil]
    | argument | localVar => rw [kind] at slot; cases slot

/-! ### Words of a subroutine -/

/-- The number of static variables that a class declares. -/
def Class.staticCount (c : Class) : Nat :=
  (c.declarations.flatMap ClassVariables.statics).length

namespace Subroutine

/-- The number of its parameters, and one more for the object that a method is called on. -/
def argumentCount (s : Subroutine) : Nat :=
  s.parameters.length + if s.kind = .method then 1 else 0

theorem length_arguments (s : Subroutine) : s.arguments.length = s.argumentCount := by
  unfold arguments argumentCount
  cases s.kind <;> simp

/-- The words that a subroutine of a class has. -/
def Owns (c : Class) (s : Subroutine) : Segment → Nat → Prop
  | .constant, _ => True
  | .argument, i => i < s.argumentCount
  | .localVar, i => i < s.localCount
  | .static, i => i < c.staticCount
  | .this, i => i < c.fieldCount
  | .pointer, i => i < 2
  | .that, i | .temp, i => i = 0

theorem owns_variable {c : Class} {s : Subroutine} {name : String} {entry : SymbolEntry}
    (found : (s.frame c).resolve? name = some entry) :
    s.Owns c entry.kind.segment entry.index := by
  obtain ⟨below, -⟩ := List.getElem?_eq_some_iff.mp (getElem?_slotNames found)
  rw [slotNames, List.length_append] at below
  cases kind : entry.kind with
  | argument =>
      rw [kind, declared, length_arguments] at below
      exact below.trans_eq (Nat.zero_add _)
  | localVar =>
      rw [kind] at below
      exact below.trans_eq (Nat.zero_add _)
  | static | field =>
      rw [kind] at below
      exact below

end Subroutine

end Tree

/-- Whether an instruction keeps to the given words. -/
def Code.Within (owned : Segment → Nat → Prop) : Code → Prop
  | .push segment i | .pop segment i => owned segment i
  | _ => True

section Within

variable {c : Tree.Class} {s : Tree.Subroutine}

theorem Tree.Frame.Emits.within {i : Code} (h : (s.frame c).Emits i) : i.Within (s.Owns c) := by
  cases h with
  | pushVariable found | popVariable found => exact Subroutine.owns_variable found
  | pushThis => exact Nat.two_pos
  | popPointer => exact Nat.one_lt_two
  | _ => trivial

theorem Tree.Subroutine.within_prologue (c : Tree.Class) (s : Tree.Subroutine) :
    ∀ i ∈ s.prologue c, i.Within (s.Owns c) := by
  have receiver (h : s.kind = .method) : s.Owns c .argument 0 := by
    rw [Subroutine.Owns, Subroutine.argumentCount, if_pos h]
    exact Nat.succ_pos _
  unfold Subroutine.prologue
  cases kind : s.kind with
  | constructor => simp [Code.Within, Subroutine.Owns]
  | function => simp
  | method =>
      rw [List.forall_mem_cons, List.forall_mem_singleton]
      exact ⟨receiver kind, Nat.two_pos⟩

/-- The code of a subroutine keeps to the words of the subroutine. -/
theorem Tree.Subroutine.within_code (c : Tree.Class) (s : Tree.Subroutine) (b l : Nat) :
    ∀ i ∈ s.code c b l, i.Within (s.Owns c) := by
  rw [Subroutine.code, List.forall_mem_cons, List.forall_mem_append]
  refine ⟨trivial, s.within_prologue c, fun i inside => ?_⟩
  rcases s.body.emits b l i inside with emitted | steers
  · exact emitted.within
  · cases i with
    | push segment k | pop segment k => cases steers
    | _ => trivial

theorem Tree.Subroutine.header_code (c : Tree.Class) (s : Tree.Subroutine) (b l : Nat) :
    (s.code c b l).filter Code.isHeader = [.function (c.name ++ "." ++ s.name) s.localCount] := by
  have behind : (s.prologue c ++ s.body.code (s.frame c) b l).filter Code.isHeader = [] :=
    List.filter_eq_nil_iff.mpr fun i inside => by simp [s.noHeader c b l i inside]
  rw [Subroutine.code, List.filter_cons, behind]
  rfl

/-- The headers of a class are those of its subroutines in order. -/
theorem Tree.Class.headers_code (c : Tree.Class) :
    c.code.filter Code.isHeader =
      c.subroutines.map fun s => .function (c.name ++ "." ++ s.name) s.localCount := by
  have headers (b l : Nat) (subs : List Tree.Subroutine) :
      (c.codeFrom b l subs).filter Code.isHeader =
        subs.map fun s => .function (c.name ++ "." ++ s.name) s.localCount := by
    induction subs generalizing b l with
    | nil => rfl
    | cons s subs ih =>
        rw [Class.codeFrom, List.filter_append, s.header_code, ih]
        rfl
  exact headers 0 0 c.subroutines

end Within

/-- Every function of a class that was compiled has one header, with the number of its local
variables, and keeps to the words that were declared for it. An object has as many words as its
class has fields, a method makes its first argument the current object, and a name is found in the
slot of one of its declarations. -/
theorem slots_are_declared (source : Source) (filename : Option String) (strict : Bool)
    (chunkSize : Int) (code : List Code)
    (compiled : compileSource source filename strict chunkSize = .ok code) :
    ∃ (tokens : List Token) (c : Tree.Class),
      Lexer.tokensOf source chunkSize filename = .ok tokens ∧
      c.lexemes = tokens.map Token.lexeme ∧ code = c.code ∧
      List.Forall₂ (fun block s =>
          block.filter Code.isHeader = [.function (c.name ++ "." ++ s.name) s.localCount] ∧
          (∀ i ∈ block, i.Within (s.Owns c)) ∧
          (s.kind = .constructor → [.push .constant c.fieldCount, .call "Memory.alloc" 1,
            .pop .pointer 0] <+: block.tail) ∧
          (s.kind = .method → [.push .argument 0, .pop .pointer 0] <+: block.tail) ∧
          ∀ name entry, (s.frame c).resolve? name = some entry →
            (s.slotNames c entry.kind)[entry.index]? = some name)
        (Code.blocks code) c.subroutines := by
  obtain ⟨tokens, c, read, spelled, -, whole, functions⟩ :=
    exists_members_of_compileSource compiled
  refine ⟨tokens, c, read, spelled, whole, ?_⟩
  rw [functions, ← c.subroutines_members, List.forall₂_map_left_iff, List.forall₂_map_right_iff,
    List.forall₂_same]
  intro m _
  refine ⟨m.subroutine.header_code c _ _, m.subroutine.within_code c _ _, ?_, ?_,
    fun name entry => getElem?_slotNames⟩
  · intro kind
    rw [Member.code, Subroutine.code, Subroutine.prologue, kind]
    exact List.prefix_append _ _
  · intro kind
    rw [Member.code, Subroutine.code, Subroutine.prologue, kind]
    exact List.prefix_append _ _

/-- A class with variables of all kinds, where a local variable has the name of a parameter. -/
def Tree.point : Tree.Class where
  name := "P"
  declarations := [⟨.static, ⟨.int, "n", []⟩⟩, ⟨.field, ⟨.int, "x", ["y"]⟩⟩]
  subroutines :=
    [{ kind := .constructor
       result := some (.object "P")
       name := "new"
       parameters := [⟨.int, "a"⟩]
       locals := []
       body :=
        .cons (.assign "x" (.of (.var "a") .nil))
        (.cons (.assign "n" (.of (.var "n") (.cons .add (.integer "1" 1) .nil)))
        (.cons (.ret (some (.of (.constant .thisWord) .nil))) .nil)) },
     { kind := .method
       result := some .int
       name := "f"
       parameters := [⟨.int, "x"⟩, ⟨.int, "k"⟩]
       locals := [⟨.int, "x", ["z"]⟩]
       body :=
        .cons (.assign "z" (.of (.var "x") (.cons .add (.var "k") .nil)))
        (.cons (.ret (some (.of (.var "z") (.cons .add (.var "y") .nil)))) .nil) }]

theorem slots_are_declared_at_point :
    let source : Source :=
      .text ("class P\x7bstatic int n;field int x,y;" ++
        "constructor P new(int a)\x7blet x=a;let n=n+1;return this;\x7d" ++
        "method int f(int x,int k)\x7bvar int x,z;let z=x+k;return z+y;\x7d\x7d")
    let first : List Code :=
      [.function "P.new" 0, .push .constant 2, .call "Memory.alloc" 1, .pop .pointer 0,
        .push .argument 0, .pop .this 0, .push .static 0, .push .constant 1, .arithmetic .add,
        .pop .static 0, .push .pointer 0, .ret]
    let second : List Code :=
      [.function "P.f" 2, .push .argument 0, .pop .pointer 0, .push .localVar 0,
        .push .argument 2, .arithmetic .add, .pop .localVar 1, .push .localVar 1, .push .this 1,
        .arithmetic .add, .ret]
    compileSource source none false 64 = .ok (first ++ second) ∧
      List.Forall₂ (fun block s => ∀ i ∈ block, i.Within (s.Owns point)) [first, second]
        point.subroutines := by
  intro source first second
  have compiled : compileSource source none false 64 = .ok (first ++ second) := by decide +kernel
  have read : (Lexer.tokensOf source 64 none).toOption.map (·.map Token.lexeme) =
      some point.lexemes := by
    decide +kernel
  obtain ⟨tokens, c, found, spelled, -, functions⟩ :=
    slots_are_declared source none false 64 (first ++ second) compiled
  rw [found] at read
  obtain rfl : c = point := Tree.Class.lexemes_inj (spelled.trans (Option.some.inj read))
  have blocks : Code.blocks (first ++ second) = [first, second] := by decide +kernel
  rw [blocks] at functions
  exact ⟨compiled, functions.imp fun block s owned => owned.2.1⟩

end Jack
