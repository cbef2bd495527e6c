import Jack.Proofs.Generation
import Jack.Proofs.StackMachine
import Mathlib.Data.List.Nodup
import Mathlib.Data.List.SplitBy

/-! # The layout of code

Which instructions the code of a tree has where. Expressions neither set labels nor jump,
and reach no words but those of declared names and of a few fixed places; the constants and
the callees of a tree come from the row it is written as; the labels of
statements have the numbers of their branches and loops, none is set twice, and each is
jumped to once; a header stands at the start of each block of a class and nowhere else.
-/

namespace Jack

open Jack.Tree

/-- Whether an instruction only works on the stack and the segments. -/
def Code.Plain : Code → Prop
  | .push _ _ | .pop _ _ | .arithmetic _ | .call _ _ => True
  | _ => False

/-- Whether an instruction is the header of a function. -/
def Code.isHeader : Code → Bool
  | .function _ _ => true
  | _ => false

/-- Whether an instruction is a label, or leads away from the next instruction. -/
def Code.Steers : Code → Prop
  | .label _ | .goto _ | .ifGoto _ | .ret => True
  | _ => False

/-- Where an instruction may jump to. -/
def Code.target? : Code → Option Label
  | .goto name | .ifGoto name => some name
  | _ => none

/-- The labels that code jumps to. -/
def Code.targets (code : List Code) : List Label :=
  code.filterMap Code.target?

/-- The instructions that only work on the stack and the segments, where names stand for what they
do in a frame: variables are the entries of names, and beside them no code uses more than the two
pointers, one temporary word and the word that `that` points to. -/
inductive Tree.Frame.Emits (f : Frame) : Code → Prop
  | constant (value : Nat) : Emits f (.push .constant value)
  | pushVariable {name : String} {entry : SymbolEntry} (found : f.resolve? name = some entry) :
      Emits f (.push entry.kind.segment entry.index)
  | popVariable {name : String} {entry : SymbolEntry} (found : f.resolve? name = some entry) :
      Emits f (.pop entry.kind.segment entry.index)
  | pushThis : Emits f (.push .pointer 0)
  | popPointer : Emits f (.pop .pointer 1)
  | pushThat : Emits f (.push .that 0)
  | popThat : Emits f (.pop .that 0)
  | pushTemp : Emits f (.push .temp 0)
  | popTemp : Emits f (.pop .temp 0)
  | arithmetic (command : Command) : Emits f (.arithmetic command)
  | call (callee : String) (count : Nat) : Emits f (.call callee count)

/-- The functions that operators and string constants call. -/
def library : List String :=
  ["Math.multiply", "Math.divide", "String.new", "String.appendChar"]

/-- The instructions that a tree writes which stands in a row of lexemes, without those that steer.
Constants are those of the row or no larger than one, and beside the library a callee has a name of
the row behind the name of the class, the type of a variable or another name of the row. -/
inductive Tree.Frame.Writes (f : Frame) (row : List Lexeme) : Code → Prop
  | integer {digits : String} {value : Nat} (read : .integer digits value ∈ row) :
      Writes f row (.push .constant value)
  | length {content : String} (read : .string content ∈ row) :
      Writes f row (.push .constant content.length)
  | character {content : String} {c : Char} (read : .string content ∈ row)
      (inside : c ∈ content.toList) : Writes f row (.push .constant c.toNat)
  | fixed {value : Nat} (small : value ≤ 1) : Writes f row (.push .constant value)
  | pushVariable {name : String} {entry : SymbolEntry} (found : f.resolve? name = some entry) :
      Writes f row (.push entry.kind.segment entry.index)
  | popVariable {name : String} {entry : SymbolEntry} (found : f.resolve? name = some entry) :
      Writes f row (.pop entry.kind.segment entry.index)
  | pushThis : Writes f row (.push .pointer 0)
  | popPointer : Writes f row (.pop .pointer 1)
  | pushThat : Writes f row (.push .that 0)
  | popThat : Writes f row (.pop .that 0)
  | pushTemp : Writes f row (.push .temp 0)
  | popTemp : Writes f row (.pop .temp 0)
  | arithmetic (command : Command) : Writes f row (.arithmetic command)
  | callLibrary {callee : String} (known : callee ∈ library) (count : Nat) :
      Writes f row (.call callee count)
  | callOwn {name : String} (read : .identifier name ∈ row) (count : Nat) :
      Writes f row (.call (f.className ++ "." ++ name) count)
  | callOn {receiver name : String} {entry : SymbolEntry} (found : f.resolve? receiver = some entry)
      (read : .identifier name ∈ row) (count : Nat) :
      Writes f row (.call (entry.type ++ "." ++ name) count)
  | callIn {qualifier name : String} (qualified : .identifier qualifier ∈ row)
      (read : .identifier name ∈ row) (count : Nat) :
      Writes f row (.call (qualifier ++ "." ++ name) count)

section Emitted

variable {f : Frame} {row : List Lexeme}

theorem Tree.Frame.Emits.plain {i : Code} (h : f.Emits i) : i.Plain := by
  cases h <;> trivial

theorem Tree.Frame.Writes.emits {i : Code} (h : f.Writes row i) : f.Emits i := by
  cases h with
  | pushVariable found => exact .pushVariable found
  | popVariable found => exact .popVariable found
  | _ => constructor

theorem writes_push (name : String) : ∀ i ∈ f.push name, f.Writes row i := by
  unfold Frame.push
  cases found : f.resolve? name with
  | some entry => simpa using .pushVariable found
  | none => simp

theorem writes_pop (name : String) : ∀ i ∈ f.pop name, f.Writes row i := by
  unfold Frame.pop
  cases found : f.resolve? name with
  | some entry => simpa using .popVariable found
  | none => simp

theorem writes_string {content : String} (read : .string content ∈ row) :
    ∀ i ∈ stringCode content, f.Writes row i := by
  intro i inside
  simp only [stringCode, List.mem_cons, List.mem_flatMap, List.not_mem_nil, or_false] at inside
  obtain rfl | rfl | ⟨c, inside, rfl | rfl⟩ := inside
  · exact .length read
  · exact .callLibrary (by simp [library]) 1
  · exact .character read inside
  · exact .callLibrary (by simp [library]) 2

theorem writes_constant (word : Constant) : ∀ i ∈ word.code, f.Writes row i := by
  cases word with
  | trueWord =>
      rw [Constant.code, List.forall_mem_cons, List.forall_mem_singleton]
      exact ⟨.fixed (Nat.le_refl 1), .arithmetic .neg⟩
  | falseWord | nullWord =>
      rw [Constant.code, List.forall_mem_singleton]
      exact .fixed (Nat.zero_le 1)
  | thisWord =>
      rw [Constant.code, List.forall_mem_singleton]
      exact .pushThis

theorem writes_binary (op : BinaryOp) : f.Writes row (binaryCode op) := by
  cases op with
  | multiply | divide => exact .callLibrary (by simp [library]) 2
  | _ => exact .arithmetic _

theorem Tree.Arguments.lexemes_subset (arguments : Arguments) :
    arguments.lexemes ⊆ arguments.moreLexemes := by
  cases arguments with
  | nil => exact List.Subset.refl _
  | cons first rest => exact List.subset_cons_self ..

mutual

theorem Tree.Term.writes (t : Term) (within : t.lexemes ⊆ row) :
    ∀ i ∈ t.code f, f.Writes row i := by
  cases t with
  | integer digits value =>
      rw [Term.code, List.forall_mem_singleton]
      exact .integer (within (List.mem_singleton_self _))
  | string content => exact writes_string (within (List.mem_singleton_self _))
  | constant word => exact writes_constant word
  | var name => exact writes_push name
  | element base index =>
      rw [Term.lexemes, List.cons_subset, List.cons_subset, List.append_subset] at within
      rw [Term.code, List.forall_mem_append, List.forall_mem_append, List.forall_mem_cons,
        List.forall_mem_cons, List.forall_mem_singleton]
      exact ⟨writes_push base, index.writes within.2.2.1, .arithmetic .add, .popPointer, .pushThat⟩
  | call call => exact call.writes within
  | group inner =>
      rw [Term.lexemes, List.cons_subset, List.append_subset] at within
      exact inner.writes within.2.1
  | unary op operand =>
      rw [Term.lexemes, List.cons_subset] at within
      rw [Term.code, List.forall_mem_append, List.forall_mem_singleton]
      exact ⟨operand.writes within.2, by cases op <;> exact .arithmetic _⟩
termination_by structural t

theorem Tree.Expression.writes (e : Expression) (within : e.lexemes ⊆ row) :
    ∀ i ∈ e.code f, f.Writes row i := by
  cases e with
  | of first rest =>
      rw [Expression.lexemes, List.append_subset] at within
      rw [Expression.code, List.forall_mem_append]
      exact ⟨first.writes within.1, rest.writes within.2⟩
termination_by structural e

theorem Tree.Operations.writes (rest : Operations) (within : rest.lexemes ⊆ row) :
    ∀ i ∈ rest.code f, f.Writes row i := by
  cases rest with
  | nil => simp [Operations.code]
  | cons op operand rest =>
      rw [Operations.lexemes, List.cons_subset, List.append_subset] at within
      rw [Operations.code, List.forall_mem_append, List.forall_mem_cons]
      exact ⟨operand.writes within.2.1, writes_binary op, rest.writes within.2.2⟩
termination_by structural rest

theorem Tree.Call.writes (call : Tree.Call) (within : call.lexemes ⊆ row) :
    ∀ i ∈ call.code f, f.Writes row i := by
  cases call with
  | own name arguments =>
      rw [Call.lexemes, List.cons_subset, List.cons_subset, List.append_subset] at within
      obtain ⟨read, -, inner, -⟩ := within
      rw [Call.code, List.forall_mem_cons, List.forall_mem_append, List.forall_mem_singleton]
      exact ⟨.pushThis, arguments.writes inner, .callOwn read _⟩
  | qualified qualifier name arguments =>
      rw [Call.lexemes, List.cons_subset, List.cons_subset, List.cons_subset, List.cons_subset,
        List.append_subset] at within
      obtain ⟨qualified, -, read, -, inner, -⟩ := within
      cases found : f.resolve? qualifier with
      | some receiver =>
          simp only [Call.code, found]
          rw [List.forall_mem_cons, List.forall_mem_append, List.forall_mem_singleton]
          exact ⟨.pushVariable found, arguments.writes inner, .callOn found read _⟩
      | none =>
          simp only [Call.code, found]
          rw [List.forall_mem_append, List.forall_mem_singleton]
          exact ⟨arguments.writes inner, .callIn qualified read _⟩
termination_by structural call

theorem Tree.Arguments.writes (arguments : Arguments) (within : arguments.lexemes ⊆ row) :
    ∀ i ∈ arguments.code f, f.Writes row i := by
  cases arguments with
  | nil => simp [Arguments.code]
  | cons first rest =>
      rw [Arguments.lexemes, List.append_subset] at within
      rw [Arguments.code, List.forall_mem_append]
      exact ⟨first.writes within.1, rest.writes (List.Subset.trans rest.lexemes_subset within.2)⟩
termination_by structural arguments

end

mutual

theorem Tree.Statement.writes (st : Statement) (within : st.lexemes ⊆ row) (b l : Nat) :
    ∀ i ∈ st.code f b l, f.Writes row i ∨ i.Steers := by
  have only {code : List Code} (h : ∀ i ∈ code, f.Writes row i) :
      ∀ i ∈ code, f.Writes row i ∨ i.Steers :=
    fun i inside => .inl (h i inside)
  have negated : f.Writes row (.arithmetic .not) := .arithmetic .not
  cases st with
  | assign target value =>
      simp only [Statement.lexemes, List.cons_subset, List.append_subset] at within
      obtain ⟨-, -, -, inner, -⟩ := within
      rw [Statement.code, List.forall_mem_append]
      exact ⟨only (value.writes inner), only (writes_pop target)⟩
  | store base index value =>
      simp only [Statement.lexemes, List.cons_subset, List.append_subset] at within
      obtain ⟨-, -, -, place, -, -, inner, -⟩ := within
      rw [Statement.code, List.forall_mem_append, List.forall_mem_append, List.forall_mem_cons,
        List.forall_mem_append, List.forall_mem_cons, List.forall_mem_cons, List.forall_mem_cons,
        List.forall_mem_singleton]
      exact ⟨only (writes_push base), only (index.writes place), .inl (.arithmetic .add),
        only (value.writes inner), .inl .popTemp, .inl .popPointer, .inl .pushTemp, .inl .popThat⟩
  | branch condition body =>
      simp only [Statement.lexemes, List.cons_subset, List.append_subset] at within
      obtain ⟨-, -, test, -, -, inner, -⟩ := within
      rw [Statement.code, List.forall_mem_append, List.forall_mem_cons, List.forall_mem_cons,
        List.forall_mem_append]
      exact ⟨only (condition.writes test), .inl negated, .inr trivial, body.writes inner _ _,
        by simp [Code.Steers]⟩
  | branchElse condition body other =>
      simp only [Statement.lexemes, List.cons_subset, List.append_subset] at within
      obtain ⟨-, -, test, -, -, inner, -, -, -, last, -⟩ := within
      rw [Statement.code, List.forall_mem_append, List.forall_mem_cons, List.forall_mem_cons,
        List.forall_mem_append, List.forall_mem_cons, List.forall_mem_cons, List.forall_mem_append]
      exact ⟨only (condition.writes test), .inl negated, .inr trivial, body.writes inner _ _,
        .inr trivial, .inr trivial, other.writes last _ _, by simp [Code.Steers]⟩
  | loop condition body =>
      simp only [Statement.lexemes, List.cons_subset, List.append_subset] at within
      obtain ⟨-, -, test, -, -, inner, -⟩ := within
      rw [Statement.code, List.forall_mem_cons, List.forall_mem_append, List.forall_mem_cons,
        List.forall_mem_cons, List.forall_mem_append]
      exact ⟨.inr trivial, only (condition.writes test), .inl negated, .inr trivial,
        body.writes inner _ _, by simp [Code.Steers]⟩
  | perform call =>
      simp only [Statement.lexemes, List.cons_subset, List.append_subset] at within
      rw [Statement.code, List.forall_mem_append, List.forall_mem_singleton]
      exact ⟨only (call.writes within.2.1), .inl .popTemp⟩
  | ret value =>
      cases value with
      | none =>
          rw [Statement.code, List.forall_mem_cons, List.forall_mem_singleton]
          exact ⟨.inl (.fixed (Nat.zero_le 1)), .inr trivial⟩
      | some value =>
          simp only [Statement.lexemes, List.cons_subset, List.append_subset] at within
          rw [Statement.code, List.forall_mem_append, List.forall_mem_singleton]
          exact ⟨only (value.writes within.2.1), .inr trivial⟩
termination_by structural st

/-- The instructions of statements. -/
theorem Tree.Statements.writes (ss : Statements) (within : ss.lexemes ⊆ row) (b l : Nat) :
    ∀ i ∈ ss.code f b l, f.Writes row i ∨ i.Steers := by
  cases ss with
  | nil => simp [Statements.code]
  | cons first rest =>
      rw [Statements.lexemes, List.append_subset] at within
      rw [Statements.code, List.forall_mem_append]
      exact ⟨first.writes within.1 _ _, rest.writes within.2 _ _⟩
termination_by structural ss

end

theorem emits_push (name : String) : ∀ i ∈ f.push name, f.Emits i :=
  fun i inside => (writes_push name i inside : f.Writes [] i).emits

theorem emits_pop (name : String) : ∀ i ∈ f.pop name, f.Emits i :=
  fun i inside => (writes_pop name i inside : f.Writes [] i).emits

theorem emits_string (content : String) : ∀ i ∈ stringCode content, f.Emits i :=
  fun i inside => (writes_string (List.mem_singleton_self _) i inside : f.Writes _ i).emits

theorem Tree.Expression.emits (e : Expression) : ∀ i ∈ e.code f, f.Emits i :=
  fun i inside => (e.writes (List.Subset.refl _) i inside).emits

theorem Tree.Call.emits (call : Tree.Call) : ∀ i ∈ call.code f, f.Emits i :=
  fun i inside => (call.writes (List.Subset.refl _) i inside).emits

theorem Tree.Statements.emits (ss : Statements) (b l : Nat) :
    ∀ i ∈ ss.code f b l, f.Emits i ∨ i.Steers :=
  fun i inside => (ss.writes (List.Subset.refl _) b l i inside).imp_left Tree.Frame.Writes.emits

theorem labels_of_emits {code : List Code} (h : ∀ i ∈ code, f.Emits i) :
    Code.labels code = [] := by
  refine List.filterMap_eq_nil_iff.mpr fun i inside => ?_
  have plain := (h i inside).plain
  cases i with
  | label name => cases plain
  | _ => rfl

theorem targets_of_emits {code : List Code} (h : ∀ i ∈ code, f.Emits i) :
    Code.targets code = [] := by
  refine List.filterMap_eq_nil_iff.mpr fun i inside => ?_
  have plain := (h i inside).plain
  cases i with
  | goto name | ifGoto name => cases plain
  | _ => rfl

end Emitted

/-! ### Headers -/

section Headers

variable {f : Frame}

theorem Tree.Statements.noHeader (ss : Statements) (b l : Nat) :
    ∀ i ∈ ss.code f b l, Code.isHeader i = false := by
  intro i inside
  cases i with
  | function name count =>
      rcases ss.emits b l _ inside with emitted | steers
      · cases emitted.plain
      · cases steers
  | _ => rfl

/-- The functions of a program, each from its header up to the next one. -/
def Code.blocks (code : List Code) : List (List Code) :=
  code.splitBy fun _ next => !Code.isHeader next

theorem flatten_blocks (code : List Code) : (Code.blocks code).flatten = code :=
  List.flatten_splitBy _ code

theorem blocks_of_header (header : Code) {code : List Code}
    (h : ∀ i ∈ code, Code.isHeader i = false) :
    Code.blocks (header :: code) = [header :: code] := by
  refine List.splitBy_of_isChain (List.cons_ne_nil _ _) ?_
  induction code generalizing header with
  | nil => exact .singleton _
  | cons i code ih =>
      obtain ⟨first, rest⟩ := List.forall_mem_cons.mp h
      exact .cons_cons (by simp [first]) (ih i rest)

theorem Tree.Subroutine.noHeader (c : Tree.Class) (sub : Subroutine) (b l : Nat) :
    ∀ i ∈ sub.prologue c ++ sub.body.code (sub.frame c) b l, Code.isHeader i = false := by
  rw [List.forall_mem_append]
  refine ⟨?_, sub.body.noHeader b l⟩
  unfold Subroutine.prologue
  cases sub.kind <;> simp [Code.isHeader]

/-- The code of each subroutine, in order. -/
def Tree.Class.blocksFrom (c : Tree.Class) (b l : Nat) : List Subroutine → List (List Code)
  | [] => []
  | sub :: rest =>
    sub.code c b l :: c.blocksFrom (b + sub.body.branches) (l + sub.body.loops) rest

theorem Tree.Class.head?_codeFrom (c : Tree.Class) (b l : Nat) (subs : List Subroutine) :
    ∀ i ∈ (c.codeFrom b l subs).head?, Code.isHeader i = true := by
  intro i first
  cases subs with
  | nil => cases first
  | cons sub subs => cases first; rfl

/-- The functions of the code of a class are those of its subroutines. -/
theorem Tree.Class.blocks_codeFrom (c : Tree.Class) (b l : Nat) (subs : List Subroutine) :
    Code.blocks (c.codeFrom b l subs) = c.blocksFrom b l subs := by
  induction subs generalizing b l with
  | nil => rfl
  | cons sub subs ih =>
      have own := blocks_of_header (.function (c.name ++ "." ++ sub.name) sub.localCount)
        (sub.noHeader c b l)
      have apart : ∀ i ∈ (sub.code c b l).getLast?,
          ∀ next ∈ (c.codeFrom (b + sub.body.branches) (l + sub.body.loops) subs).head?,
            (!Code.isHeader next) = false := by
        intro i _ next first
        rw [c.head?_codeFrom _ _ subs next first]
        rfl
      rw [Tree.Class.codeFrom, Tree.Class.blocksFrom, ← ih, Code.blocks, List.splitBy_append apart]
      exact congrArg (· ++ _) own

end Headers

/-! ### Labels -/

section Labels

variable {f : Frame}

@[simp] theorem labels_nil : Code.labels [] = [] := rfl

@[simp] theorem labels_label (name : Label) (code : List Code) :
    Code.labels (.label name :: code) = name :: Code.labels code := rfl

@[simp] theorem labels_cons {i : Code} (h : ∀ name, i ≠ .label name) (code : List Code) :
    Code.labels (i :: code) = Code.labels code := by
  cases i with
  | label name => exact absurd rfl (h name)
  | _ => rfl

@[simp] theorem labels_push (name : String) : Code.labels (f.push name) = [] :=
  labels_of_emits (emits_push name)

@[simp] theorem labels_pop (name : String) : Code.labels (f.pop name) = [] :=
  labels_of_emits (emits_pop name)

@[simp] theorem labels_expression (e : Expression) : Code.labels (e.code f) = [] :=
  labels_of_emits e.emits

@[simp] theorem labels_call (call : Tree.Call) : Code.labels (call.code f) = [] :=
  labels_of_emits call.emits

/-- Whether the number of a label is one of those between two pairs of counts. -/
def Label.Between (b b' l l' : Nat) : Label → Prop
  | .branchNot id | .branchEnd id => b ≤ id ∧ id < b'
  | .loopStart id | .loopEnd id => l ≤ id ∧ id < l'

theorem Label.Between.mono {b b' l l' c c' k k' : Nat} {name : Label} (h : name.Between b b' l l')
    (hb : c ≤ b) (hb' : b' ≤ c') (hl : k ≤ l) (hl' : l' ≤ k') : name.Between c c' k k' := by
  cases name with
  | branchNot id | branchEnd id | loopStart id | loopEnd id =>
      obtain ⟨low, high⟩ := h
      constructor <;> omega

theorem labels_branch (condition : Expression) (body : Statements) (b l : Nat) :
    Code.labels ((Statement.branch condition body).code f b l) =
      Code.labels (body.code f (b + 1) l) ++ [.branchNot b, .branchEnd b] := by
  simp [Statement.code]

theorem labels_branchElse (condition : Expression) (body other : Statements) (b l : Nat) :
    Code.labels ((Statement.branchElse condition body other).code f b l) =
      Code.labels (body.code f (b + 1) l) ++ .branchNot b ::
        (Code.labels (other.code f (b + 1 + body.branches) (l + body.loops)) ++
          [.branchEnd b]) := by
  simp [Statement.code]

theorem labels_loop (condition : Expression) (body : Statements) (b l : Nat) :
    Code.labels ((Statement.loop condition body).code f b l) =
      .loopStart l :: (Code.labels (body.code f b (l + 1)) ++ [.loopEnd l]) := by
  simp [Statement.code]

/-- Only branches and loops set labels. -/
theorem labels_simple (st : Statement) (b l : Nat) (noBranch : st.branches = 0)
    (noLoop : ∀ condition body, st ≠ .loop condition body) :
    Code.labels (st.code f b l) = [] := by
  cases st with
  | assign target value => simp [Statement.code]
  | store base index value => simp [Statement.code]
  | branch condition body =>
      rw [Statement.branches] at noBranch
      omega
  | branchElse condition body other =>
      rw [Statement.branches] at noBranch
      omega
  | loop condition body => exact absurd rfl (noLoop condition body)
  | perform call => simp [Statement.code]
  | ret value => cases value <;> simp [Statement.code]

mutual

theorem Tree.Statement.labels_between (st : Statement) (b l : Nat) :
    ∀ name ∈ Code.labels (st.code f b l),
      name.Between b (b + st.branches) l (l + st.loops) := by
  intro name inside
  cases st with
  | branch condition body =>
      rw [labels_branch] at inside
      rw [Statement.branches, Statement.loops]
      rcases List.mem_append.mp inside with inside | own
      · exact (body.labels_between (b + 1) l name inside).mono (by omega) (by omega) (by omega)
          (by omega)
      · simp only [List.mem_cons, List.not_mem_nil, or_false] at own
        rcases own with rfl | rfl
        · exact ⟨by omega, by omega⟩
        · exact ⟨by omega, by omega⟩
  | branchElse condition body other =>
      rw [labels_branchElse] at inside
      rw [Statement.branches, Statement.loops]
      rcases List.mem_append.mp inside with inside | inside
      · exact (body.labels_between (b + 1) l name inside).mono (by omega) (by omega) (by omega)
          (by omega)
      · rcases List.mem_cons.mp inside with rfl | inside
        · exact ⟨by omega, by omega⟩
        · rcases List.mem_append.mp inside with inside | own
          · exact (other.labels_between _ _ name inside).mono (by omega) (by omega) (by omega)
              (by omega)
          · rw [List.mem_singleton.mp own]
            exact ⟨by omega, by omega⟩
  | loop condition body =>
      rw [labels_loop] at inside
      rw [Statement.branches, Statement.loops]
      rcases List.mem_cons.mp inside with rfl | inside
      · exact ⟨by omega, by omega⟩
      · rcases List.mem_append.mp inside with inside | own
        · exact (body.labels_between b (l + 1) name inside).mono (by omega) (by omega) (by omega)
            (by omega)
        · rw [List.mem_singleton.mp own]
          exact ⟨by omega, by omega⟩
  | _ => rw [labels_simple _ _ _ rfl (by simp)] at inside; cases inside
termination_by structural st

theorem Tree.Statements.labels_between (ss : Statements) (b l : Nat) :
    ∀ name ∈ Code.labels (ss.code f b l),
      name.Between b (b + ss.branches) l (l + ss.loops) := by
  intro name inside
  cases ss with
  | nil => cases inside
  | cons first rest =>
      rw [Statements.code, Code.labels_append] at inside
      rw [Statements.branches, Statements.loops]
      rcases List.mem_append.mp inside with inside | inside
      · exact (first.labels_between b l name inside).mono (by omega) (by omega) (by omega)
          (by omega)
      · exact (rest.labels_between _ _ name inside).mono (by omega) (by omega) (by omega)
          (by omega)
termination_by structural ss

end

/-- Labels with numbers in different places are different. -/
theorem nodup_append_of_between {names more : List Label} {b b' b'' l l' l'' : Nat}
    (once : names.Nodup) (once' : more.Nodup) (h : ∀ name ∈ names, name.Between b b' l l')
    (h' : ∀ name ∈ more, name.Between b' b'' l' l'') : (names ++ more).Nodup := by
  refine List.nodup_append.mpr ⟨once, once', ?_⟩
  rintro name inside _ inside' rfl
  have low := h name inside
  have high := h' name inside'
  cases name with
  | branchNot id | branchEnd id | loopStart id | loopEnd id =>
      obtain ⟨-, below⟩ := low
      obtain ⟨above, -⟩ := high
      omega

mutual

theorem Tree.Statement.nodup_labels (st : Statement) (b l : Nat) :
    (Code.labels (st.code f b l)).Nodup := by
  cases st with
  | branch condition body =>
      have own : ∀ name ∈ [Label.branchNot b, .branchEnd b], name.Between b (b + 1) l l := by
        simp [Label.Between]
      rw [labels_branch, List.nodup_append_comm]
      exact nodup_append_of_between (by simp) (body.nodup_labels _ _) own
        (body.labels_between (b + 1) l)
  | branchElse condition body other =>
      have own : ∀ name ∈ [Label.branchNot b, .branchEnd b], name.Between b (b + 1) l l := by
        simp [Label.Between]
      have inner := nodup_append_of_between (body.nodup_labels (b + 1) l)
        (other.nodup_labels _ _) (body.labels_between (b + 1) l) (other.labels_between _ _)
      have later : ∀ name ∈ Code.labels (body.code f (b + 1) l) ++
          Code.labels (other.code f (b + 1 + body.branches) (l + body.loops)),
          name.Between (b + 1) (b + 1 + body.branches + other.branches) l
            (l + body.loops + other.loops) := by
        intro name inside
        rcases List.mem_append.mp inside with inside | inside
        · exact (body.labels_between (b + 1) l name inside).mono (by omega) (by omega) (by omega)
            (by omega)
        · exact (other.labels_between _ _ name inside).mono (by omega) (by omega) (by omega)
            (by omega)
      have whole := nodup_append_of_between (by simp) inner own later
      rw [labels_branchElse, List.perm_middle.nodup_iff, ← List.append_assoc]
      exact ((List.perm_append_singleton _ _).cons _).nodup_iff.mpr whole
  | loop condition body =>
      have own : ∀ name ∈ [Label.loopStart l, .loopEnd l], name.Between b b l (l + 1) := by
        simp [Label.Between]
      have whole := nodup_append_of_between (by simp) (body.nodup_labels b (l + 1)) own
        (body.labels_between b (l + 1))
      rw [labels_loop]
      exact ((List.perm_append_singleton _ _).cons _).nodup_iff.mpr whole
  | _ => rw [labels_simple _ _ _ rfl (by simp)]; exact List.nodup_nil
termination_by structural st

theorem Tree.Statements.nodup_labels (ss : Statements) (b l : Nat) :
    (Code.labels (ss.code f b l)).Nodup := by
  cases ss with
  | nil => exact List.nodup_nil
  | cons first rest =>
      rw [Statements.code, Code.labels_append]
      exact nodup_append_of_between (first.nodup_labels b l) (rest.nodup_labels _ _)
        (first.labels_between b l) (rest.labels_between _ _)
termination_by structural ss

end

/-- The labels of a subroutine are those of its statements. -/
theorem Tree.Subroutine.labels_code (c : Tree.Class) (sub : Subroutine) (b l : Nat) :
    Code.labels (sub.code c b l) = Code.labels (sub.body.code (sub.frame c) b l) := by
  have own : Code.labels (sub.prologue c) = [] := by
    unfold Subroutine.prologue
    cases sub.kind <;> rfl
  rw [Subroutine.code, labels_cons (by simp), Code.labels_append, own]
  rfl

/-- No label of a subroutine is set twice. -/
theorem Tree.Subroutine.nodup_labels (c : Tree.Class) (sub : Subroutine) (b l : Nat) :
    (Code.labels (sub.code c b l)).Nodup := by
  rw [Subroutine.labels_code]
  exact sub.body.nodup_labels b l

end Labels

/-! ### Jumps -/

section Jumps

variable {f : Frame}

@[simp] theorem targets_append (code more : List Code) :
    Code.targets (code ++ more) = Code.targets code ++ Code.targets more :=
  List.filterMap_append

@[simp] theorem targets_goto (name : Label) (code : List Code) :
    Code.targets (.goto name :: code) = name :: Code.targets code := rfl

@[simp] theorem targets_ifGoto (name : Label) (code : List Code) :
    Code.targets (.ifGoto name :: code) = name :: Code.targets code := rfl

@[simp] theorem targets_cons {i : Code} (h : ∀ name, i ≠ .goto name) (h' : ∀ name, i ≠ .ifGoto name)
    (code : List Code) : Code.targets (i :: code) = Code.targets code := by
  cases i with
  | goto name => exact absurd rfl (h name)
  | ifGoto name => exact absurd rfl (h' name)
  | _ => rfl

@[simp] theorem targets_nil : Code.targets [] = [] := rfl

@[simp] theorem targets_push (name : String) : Code.targets (f.push name) = [] :=
  targets_of_emits (emits_push name)

@[simp] theorem targets_pop (name : String) : Code.targets (f.pop name) = [] :=
  targets_of_emits (emits_pop name)

@[simp] theorem targets_expression (e : Expression) : Code.targets (e.code f) = [] :=
  targets_of_emits e.emits

@[simp] theorem targets_call (call : Tree.Call) : Code.targets (call.code f) = [] :=
  targets_of_emits call.emits

theorem targets_branch (condition : Expression) (body : Statements) (b l : Nat) :
    Code.targets ((Statement.branch condition body).code f b l) =
      .branchNot b :: (Code.targets (body.code f (b + 1) l) ++ [.branchEnd b]) := by
  simp [Statement.code]

theorem targets_branchElse (condition : Expression) (body other : Statements) (b l : Nat) :
    Code.targets ((Statement.branchElse condition body other).code f b l) =
      .branchNot b :: (Code.targets (body.code f (b + 1) l) ++ .branchEnd b ::
        Code.targets (other.code f (b + 1 + body.branches) (l + body.loops))) := by
  simp [Statement.code]

theorem targets_loop (condition : Expression) (body : Statements) (b l : Nat) :
    Code.targets ((Statement.loop condition body).code f b l) =
      .loopEnd l :: (Code.targets (body.code f b (l + 1)) ++ [.loopStart l]) := by
  simp [Statement.code]

mutual

theorem Tree.Statement.targets_perm (st : Statement) (b l : Nat) :
    (Code.targets (st.code f b l)).Perm (Code.labels (st.code f b l)) := by
  refine List.perm_iff_count.mpr fun name => ?_
  cases st with
  | assign target value => simp [Statement.code]
  | store base index value => simp [Statement.code]
  | branch condition body =>
      have inner := (body.targets_perm (b + 1) l).count_eq name
      rw [targets_branch, labels_branch]
      simp only [List.count_append, List.count_cons, List.count_nil, inner]
      omega
  | branchElse condition body other =>
      have inner := (body.targets_perm (b + 1) l).count_eq name
      have last := (other.targets_perm (b + 1 + body.branches) (l + body.loops)).count_eq name
      rw [targets_branchElse, labels_branchElse]
      simp only [List.count_append, List.count_cons, List.count_nil, inner, last]
      omega
  | loop condition body =>
      have inner := (body.targets_perm b (l + 1)).count_eq name
      rw [targets_loop, labels_loop]
      simp only [List.count_append, List.count_cons, List.count_nil, inner]
      omega
  | perform call => simp [Statement.code]
  | ret value => cases value <;> simp [Statement.code]
termination_by structural st

/-- Every label of statements is jumped to once from one of them, and nothing else is. -/
theorem Tree.Statements.targets_perm (ss : Statements) (b l : Nat) :
    (Code.targets (ss.code f b l)).Perm (Code.labels (ss.code f b l)) := by
  cases ss with
  | nil => exact .refl _
  | cons first rest =>
      rw [Statements.code, targets_append, Code.labels_append]
      exact (first.targets_perm _ _).append (rest.targets_perm _ _)
termination_by structural ss

end

theorem Tree.Subroutine.targets_perm (c : Tree.Class) (sub : Subroutine) (b l : Nat) :
    (Code.targets (sub.code c b l)).Perm (Code.labels (sub.code c b l)) := by
  have own : Code.targets (sub.prologue c) = [] := by
    unfold Subroutine.prologue
    cases sub.kind <;> rfl
  rw [Subroutine.labels_code, Subroutine.code, targets_cons (by simp) (by simp), targets_append,
    own]
  exact sub.body.targets_perm b l

end Jumps

end Jack
