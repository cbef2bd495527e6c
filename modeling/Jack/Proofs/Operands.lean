import Jack.Proofs.Places

/-! # Operands

Where the operands of compiled code come from. The types in the tables of a class are words of its
row or its name, and what its subroutines write comes from the row; so every callee is a word behind
a word, and a constant that no lexeme of the row bounds is the length of a string constant or the
number of fields.
-/

namespace Jack

open Jack.Tree

/-! ### Types in tables -/

/-- The types of the variables that are found in a table are of one sort. -/
def SymbolTable.Typed (sort : String → Prop) (t : SymbolTable) : Prop :=
  ∀ name entry, t.lookup? name = some entry → sort entry.type

namespace SymbolTable

variable {sort : String → Prop} {t : SymbolTable}

theorem typed_empty : empty.Typed sort := by
  intro name entry found
  cases found

theorem Typed.define (h : t.Typed sort) {type : String} (known : sort type) (name : String)
    (kind : VariableKind) : (t.define name type kind).Typed sort := by
  intro other entry found
  rw [lookup?_define] at found
  split at found
  · cases found
    exact known
  · exact h other entry found

theorem Typed.foldl {α : Type} {declare : SymbolTable → α → SymbolTable} {items : List α}
    (step : ∀ item ∈ items, ∀ t, t.Typed sort → (declare t item).Typed sort) (h : t.Typed sort) :
    (items.foldl declare t).Typed sort := by
  induction items generalizing t with
  | nil => exact h
  | cons item items ih =>
      rw [List.forall_mem_cons] at step
      exact ih step.2 (step.1 t h)

theorem Typed.defineAll (h : t.Typed sort) {type : String} (known : sort type)
    (names : List String) (kind : VariableKind) : (t.defineAll names type kind).Typed sort :=
  h.foldl fun name _ _ typed => typed.define known name kind

end SymbolTable

namespace Tree

variable {sort : String → Prop} {c : Class} {sub : Subroutine}

theorem typed_class_table (h : ∀ v ∈ c.declarations, sort v.declaration.type.text) :
    c.table.Typed sort :=
  SymbolTable.typed_empty.foldl fun v inside _ typed => typed.defineAll (h v inside) _ _

theorem typed_subroutine_table {className : String} (own : sort className)
    (parameters : ∀ p ∈ sub.parameters, sort p.type.text)
    (locals : ∀ d ∈ sub.locals, sort d.type.text) : (sub.table className).Typed sort := by
  have receiver : (sub.receiver className).Typed sort := by
    unfold Subroutine.receiver
    cases sub.kind with
    | method => exact SymbolTable.typed_empty.define own _ _
    | constructor | function => exact SymbolTable.typed_empty
  exact (receiver.foldl fun p inside _ typed => typed.define (parameters p inside) _ _).foldl
    fun d inside _ typed => typed.defineAll (locals d inside) _ _

/-! ### Parts of a row -/

theorem Parameter.mem_rowOf {p : Parameter} {ps : List Parameter} (h : p ∈ ps) :
    p.type.lexeme ∈ Parameter.rowOf ps := by
  cases ps with
  | nil => cases h
  | cons first more =>
      rcases List.mem_cons.mp h with rfl | inside
      · exact List.mem_cons_self ..
      · refine List.mem_append_right _ (List.mem_flatMap.mpr ⟨p, inside, ?_⟩)
        simp [Parameter.lexemes]

theorem Subroutine.subset_lexemes (inside : sub ∈ c.subroutines) : sub.lexemes ⊆ c.lexemes := by
  intro l among
  have here := List.mem_flatMap.mpr ⟨sub, inside, among⟩
  simp [Class.lexemes, here]

theorem Subroutine.body_subset : sub.body.lexemes ⊆ sub.lexemes := by
  intro l inside
  simp [Subroutine.lexemes, Subroutine.tail, Subroutine.bodyLexemes, inside]

theorem Subroutine.mem_of_parameter {p : Parameter} (h : p ∈ sub.parameters) :
    p.type.lexeme ∈ sub.lexemes := by
  simp [Subroutine.lexemes, Subroutine.tail, Parameter.mem_rowOf h]

theorem Subroutine.mem_of_local {d : Declaration} (h : d ∈ sub.locals) :
    d.type.lexeme ∈ sub.lexemes := by
  have here : d.type.lexeme ∈ sub.locals.flatMap (Declaration.lexemes .varWord) :=
    List.mem_flatMap.mpr ⟨d, h, by simp [Declaration.lexemes, Declaration.tail]⟩
  simp [Subroutine.lexemes, Subroutine.tail, Subroutine.bodyLexemes, here]

theorem Class.mem_of_declaration {v : ClassVariables} (h : v ∈ c.declarations) :
    v.declaration.type.lexeme ∈ c.lexemes := by
  have here : v.declaration.type.lexeme ∈ c.declarations.flatMap ClassVariables.lexemes :=
    List.mem_flatMap.mpr
      ⟨v, h, by simp [ClassVariables.lexemes, Declaration.lexemes, Declaration.tail]⟩
  simp [Class.lexemes, here]

/-! ### Words -/

theorem TypeName.isWord_text {type : TypeName} (h : type.lexeme.Proper) :
    IsWord type.text.toList := by
  cases type with
  | int | char | boolean => exact Jack.isWord_text _
  | object name => exact h.1

variable (proper : ∀ l ∈ c.lexemes, l.Proper)

include proper

theorem Class.isWord_name : IsWord c.name.toList :=
  (proper (.identifier c.name) (by simp [Class.lexemes])).1

theorem Subroutine.isWord_name (inside : sub ∈ c.subroutines) : IsWord sub.name.toList :=
  (proper (.identifier sub.name) (sub.subset_lexemes inside (by
    simp [Subroutine.lexemes, Subroutine.tail]))).1

/-- The type of a variable is a word. -/
theorem Subroutine.isWord_type (inside : sub ∈ c.subroutines) {name : String} {entry : SymbolEntry}
    (found : (sub.frame c).resolve? name = some entry) : IsWord entry.type.toList := by
  have among := Subroutine.subset_lexemes inside
  rcases Option.or_eq_some_iff.mp found with own | ⟨-, shared⟩
  · have typed : (sub.table c.name).Typed fun type => IsWord type.toList :=
      typed_subroutine_table (c.isWord_name proper)
        (fun p h => TypeName.isWord_text (proper _ (among (sub.mem_of_parameter h))))
        (fun d h => TypeName.isWord_text (proper _ (among (sub.mem_of_local h))))
    exact typed name entry own
  · have typed : c.table.Typed fun type => IsWord type.toList :=
      typed_class_table fun v h => TypeName.isWord_text (proper _ (c.mem_of_declaration h))
    exact typed name entry shared

end Tree

/-! ### The instructions of a class -/

/-- The code of a class is that of its members. -/
theorem Tree.Class.mem_code_iff {c : Tree.Class} {i : Code} :
    i ∈ c.code ↔ ∃ m ∈ c.members, i ∈ m.code c := by
  rw [← flatten_blocks c.code, c.blocks_code, List.mem_flatten]
  simp

/-- What holds of headers, of prologues and of what statements write, holds of the code of a
class. -/
theorem Tree.Class.forall_mem_code {c : Tree.Class} {P : Code → Prop}
    (header : ∀ sub ∈ c.subroutines, P (.function (c.name ++ "." ++ sub.name) sub.localCount))
    (prologue : ∀ sub ∈ c.subroutines, ∀ i ∈ sub.prologue c, P i)
    (body : ∀ sub ∈ c.subroutines, ∀ i, (sub.frame c).Writes c.lexemes i → P i)
    (steers : ∀ i : Code, i.Steers → P i) : ∀ i ∈ c.code, P i := by
  suffices each : ∀ m ∈ c.members, ∀ i ∈ m.code c, P i by
    intro i inside
    obtain ⟨m, member, inside⟩ := mem_code_iff.mp inside
    exact each m member i inside
  intro m member
  have among := Tree.Class.mem_subroutines member
  have within : m.subroutine.body.lexemes ⊆ c.lexemes :=
    List.Subset.trans Subroutine.body_subset (Subroutine.subset_lexemes among)
  rw [Member.code, Subroutine.code, List.forall_mem_cons, List.forall_mem_append]
  refine ⟨header _ among, prologue _ among, fun i inside => ?_⟩
  rcases m.subroutine.body.writes within _ _ i inside with written | steering
  · exact body _ among i written
  · exact steers i steering

/-- The code of a subroutine, with the branches and loops before it in its class, is part of the
code of the class. -/
theorem Tree.Class.exists_code {c : Tree.Class} {sub : Subroutine} (inside : sub ∈ c.subroutines) :
    ∃ b l, ∀ i ∈ sub.code c b l, i ∈ c.code := by
  rw [← c.subroutines_members] at inside
  obtain ⟨m, member, rfl⟩ := List.mem_map.mp inside
  exact ⟨_, _, fun i among => mem_code_iff.mpr ⟨m, member, among⟩⟩

/-- Two words with a dot between them. -/
def Qualified (name : String) : Prop :=
  ∃ front back : String, IsWord front.toList ∧ IsWord back.toList ∧ name = front ++ "." ++ back

/-- Whether an instruction stores into no constant and names a function by two words. -/
def Code.Spelled : Code → Prop
  | .pop segment _ => segment ≠ .constant
  | .call name _ | .function name _ => Qualified name
  | _ => True

theorem qualified_library {callee : String} (h : callee ∈ library) : Qualified callee := by
  simp only [library, List.mem_cons, List.not_mem_nil, or_false] at h
  rcases h with rfl | rfl | rfl | rfl
  · exact ⟨"Math", "multiply", by decide, by decide, rfl⟩
  · exact ⟨"Math", "divide", by decide, by decide, rfl⟩
  · exact ⟨"String", "new", by decide, by decide, rfl⟩
  · exact ⟨"String", "appendChar", by decide, by decide, rfl⟩

theorem Tree.Class.spelled {c : Tree.Class} (proper : ∀ l ∈ c.lexemes, l.Proper) :
    ∀ i ∈ c.code, i.Spelled := by
  refine c.forall_mem_code ?_ ?_ ?_ ?_
  · exact fun sub inside =>
      ⟨_, _, c.isWord_name proper, sub.isWord_name proper inside, rfl⟩
  · intro sub _
    have alloc : Qualified "Memory.alloc" := ⟨"Memory", "alloc", by decide, by decide, rfl⟩
    unfold Subroutine.prologue
    cases sub.kind <;> simp [Code.Spelled, alloc]
  · intro sub inside i written
    have word {name : String} (read : .identifier name ∈ c.lexemes) : IsWord name.toList :=
      (proper (.identifier name) read).1
    cases written with
    | @popVariable name entry found =>
        cases kind : entry.kind <;> simp [Code.Spelled, VariableKind.segment]
    | callLibrary known count => exact qualified_library known
    | callOwn read count => exact ⟨_, _, c.isWord_name proper, word read, rfl⟩
    | callOn found read count =>
        exact ⟨_, _, sub.isWord_type proper inside found, word read, rfl⟩
    | callIn qualified read count => exact ⟨_, _, word qualified, word read, rfl⟩
    | popPointer | popThat | popTemp => simp [Code.Spelled]
    | _ => trivial
  · intro i steers
    cases i with
    | pop | call | function => cases steers
    | _ => trivial

end Jack
