import Jack.Proofs.Language
import Jack.Proofs.Places

/-! # Subroutines on their own

A subroutine is compiled as if it were the only one of its class. What it declares is gone when the
next one starts, and the class variables are the same for all of them; only the numbers of labels go
on, so the code of a subroutine is the one it has on its own with these numbers raised by the
branches and loops before it.
-/

namespace Jack

open Jack.Tree

/-! ### Raising the numbers of labels -/

/-- A label with its number raised, by `b` that of a branch and by `l` that of a loop. -/
def Label.raise (b l : Nat) : Label → Label
  | .branchNot id => .branchNot (b + id)
  | .branchEnd id => .branchEnd (b + id)
  | .loopStart id => .loopStart (l + id)
  | .loopEnd id => .loopEnd (l + id)

/-- Code with the numbers of its labels raised. -/
def Code.raise (b l : Nat) (code : List Code) : List Code :=
  code.map (Instruction.mapLabel (Label.raise b l))

section Raise

variable {f : Frame} {b l : Nat}

@[simp] theorem raise_nil : Code.raise b l [] = [] := rfl

@[simp] theorem raise_cons (i : Code) (code : List Code) :
    Code.raise b l (i :: code) = i.mapLabel (Label.raise b l) :: Code.raise b l code := rfl

@[simp] theorem raise_append (code more : List Code) :
    Code.raise b l (code ++ more) = Code.raise b l code ++ Code.raise b l more :=
  List.map_append

theorem raise_of_emits {code : List Code} (h : ∀ i ∈ code, f.Emits i) :
    Code.raise b l code = code := by
  have unchanged : ∀ i ∈ code, i.mapLabel (Label.raise b l) = i := by
    intro i inside
    have plain := (h i inside).plain
    cases i with
    | label name | goto name | ifGoto name => cases plain
    | _ => rfl
  exact (List.map_congr_left unchanged).trans (List.map_id' code)

@[simp] theorem raise_push (name : String) : Code.raise b l (f.push name) = f.push name :=
  raise_of_emits (emits_push name)

@[simp] theorem raise_pop (name : String) : Code.raise b l (f.pop name) = f.pop name :=
  raise_of_emits (emits_pop name)

@[simp] theorem raise_expression (e : Expression) : Code.raise b l (e.code f) = e.code f :=
  raise_of_emits e.emits

@[simp] theorem raise_call (call : Tree.Call) : Code.raise b l (call.code f) = call.code f :=
  raise_of_emits call.emits

mutual

/-- Where a statement stands in its class shows in the numbers of its labels only. -/
theorem Tree.Statement.raise_code (st : Statement) (b' l' : Nat) :
    Code.raise b l (st.code f b' l') = st.code f (b + b') (l + l') := by
  cases st with
  | assign target value => simp [Statement.code]
  | store base index value => simp [Statement.code, Instruction.mapLabel]
  | branch condition body =>
      simp [Statement.code, Instruction.mapLabel, Label.raise, body.raise_code, Nat.add_assoc]
  | branchElse condition body other =>
      simp [Statement.code, Instruction.mapLabel, Label.raise, body.raise_code, other.raise_code,
        Nat.add_assoc]
  | loop condition body =>
      simp [Statement.code, Instruction.mapLabel, Label.raise, body.raise_code, Nat.add_assoc]
  | perform call => simp [Statement.code, Instruction.mapLabel]
  | ret value => cases value <;> simp [Statement.code, Instruction.mapLabel]
termination_by structural st

theorem Tree.Statements.raise_code (ss : Statements) (b' l' : Nat) :
    Code.raise b l (ss.code f b' l') = ss.code f (b + b') (l + l') := by
  cases ss with
  | nil => rfl
  | cons first rest =>
      simp [Statements.code, first.raise_code, rest.raise_code, Nat.add_assoc]
termination_by structural ss

end

theorem Tree.Subroutine.raise_code (c : Tree.Class) (sub : Subroutine) :
    Code.raise b l (sub.code c 0 0) = sub.code c b l := by
  have own : Code.raise b l (sub.prologue c) = sub.prologue c := by
    unfold Subroutine.prologue
    cases sub.kind <;> rfl
  rw [Subroutine.code, raise_cons, raise_append, own, sub.body.raise_code]
  rfl

end Raise

/-! ### Classes with one subroutine -/

namespace Tree.Class

/-- The class with one subroutine alone. -/
def only (c : Class) (sub : Subroutine) : Class :=
  { c with subroutines := [sub] }

/-- How many times a word is in the subroutines in front of the one at an index. -/
def wordsBefore (c : Class) (word : Keyword) (index : Nat) : Nat :=
  ((c.subroutines.take index).flatMap Subroutine.lexemes).count (.keyword word)

variable {c : Class}

theorem wellScoped_iff_only :
    c.WellScoped ↔ ∀ sub ∈ c.subroutines, (c.only sub).WellScoped := by
  constructor
  · intro declared sub inside
    exact List.forall_mem_singleton.mpr (declared sub inside)
  · intro alone sub inside
    exact List.forall_mem_singleton.mp (alone sub inside)

theorem distinct_iff_only (nonempty : c.subroutines ≠ []) :
    c.Distinct ↔ ∀ sub ∈ c.subroutines, (c.only sub).Distinct := by
  obtain ⟨first, inside⟩ := List.exists_mem_of_ne_nil _ nonempty
  constructor
  · rintro ⟨shared, own⟩ sub inside
    exact ⟨shared, List.forall_mem_singleton.mpr (own sub inside)⟩
  · intro alone
    refine ⟨(alone first inside).1, fun sub inside => ?_⟩
    exact List.forall_mem_singleton.mp (alone sub inside).2

theorem code_only (sub : Subroutine) : (c.only sub).code = sub.code c 0 0 :=
  List.append_nil _

theorem codeFrom_eq (b l : Nat) (subs : List Subroutine) :
    c.codeFrom b l subs = (List.range subs.length).flatMap fun i =>
      Code.raise (b + ((subs.take i).flatMap Subroutine.lexemes).count (.keyword .ifWord))
        (l + ((subs.take i).flatMap Subroutine.lexemes).count (.keyword .whileWord))
        (subs[i]?.elim [] fun sub => (c.only sub).code) := by
  induction subs generalizing b l with
  | nil => rfl
  | cons sub subs ih =>
      rw [codeFrom, ih, List.length_cons, List.range_succ_eq_map, List.flatMap_cons,
        List.flatMap_map]
      simp [code_only, sub.raise_code, sub.count_ifWord, sub.count_whileWord, Nat.add_assoc]

/-- The code of a class is put together from the codes that its subroutines have on their own. -/
theorem code_eq_raise {code : Nat → List Code}
    (own : ∀ i (h : i < c.subroutines.length), code i = (c.only c.subroutines[i]).code) :
    c.code = (List.range c.subroutines.length).flatMap fun i =>
      Code.raise (c.wordsBefore .ifWord i) (c.wordsBefore .whileWord i) (code i) := by
  rw [Class.code, codeFrom_eq]
  refine List.flatMap_congr fun i inside => ?_
  have bound := List.mem_range.mp inside
  rw [own i bound, List.getElem?_eq_getElem bound, Nat.zero_add, Nat.zero_add]
  rfl

end Tree.Class

/-- Whether the tokens of a source are those of a class. -/
def Source.Spells (source : Source) (filename : Option String) (chunkSize : Int) (c : Tree.Class) :
    Prop :=
  ∃ tokens, Lexer.tokensOf source chunkSize filename = .ok tokens ∧
    tokens.map Token.lexeme = c.lexemes

namespace Source.Spells

variable {source : Source} {filename : Option String} {chunkSize : Int} {c : Tree.Class}
  {strict : Bool} {code : List Code}

theorem of_tokensOf (h : (Lexer.tokensOf source chunkSize filename).toOption.map
    (·.map Token.lexeme) = some c.lexemes) : source.Spells filename chunkSize c := by
  obtain ⟨tokens, read, spelled⟩ := Option.map_eq_some_iff.mp h
  refine ⟨tokens, ?_, spelled⟩
  cases found : Lexer.tokensOf source chunkSize filename with
  | error failure => rw [found] at read; cases read
  | ok tokens' => rw [found] at read; exact congrArg _ (Option.some.inj read)

theorem positive (h : source.Spells filename chunkSize c) : 0 < chunkSize := by
  obtain ⟨tokens, read, -⟩ := h
  by_contra small
  rw [Lexer.tokensOf, Lexer.ofSource, if_pos (by omega)] at read
  cases read

/-- A class compiles if all names it uses are declared and, in strict mode, none is declared
twice. -/
theorem compileSource_eq_ok_iff (h : source.Spells filename chunkSize c) :
    compileSource source filename strict chunkSize = .ok code ↔
      c.WellScoped ∧ (strict = true → c.Distinct) ∧ code = c.code := by
  obtain ⟨tokens, read, spelled⟩ := h
  have positive := positive ⟨tokens, read, spelled⟩
  constructor
  · intro compiled
    obtain ⟨tokens', c', read', spelled', declared, rfl⟩ :=
      exists_tree_of_compileSource positive compiled
    obtain rfl := Except.ok.inj (read.symm.trans read')
    obtain rfl := Tree.Class.lexemes_inj (spelled.symm.trans spelled')
    obtain ⟨_, s, read', driven⟩ := drive_of_compileSource positive compiled
    obtain rfl := Except.ok.inj (read.symm.trans read')
    obtain ⟨s', driven'⟩ := drive_class_in strict c (resolves_of_wellScoped declared)
    rw [rowOfTokens, spelled, driven'] at driven
    refine ⟨declared, ?_, rfl⟩
    by_contra twice
    rw [if_neg twice] at driven
    cases driven
  · rintro ⟨declared, distinct, rfl⟩
    obtain ⟨s, driven⟩ := drive_class_in strict c (resolves_of_wellScoped declared)
    rw [if_pos distinct, ← spelled] at driven
    exact compileSource_of_drive positive read driven

theorem compiles_iff (h : source.Spells filename chunkSize c) :
    (∃ text, compileText source filename strict chunkSize = .ok text) ↔
      c.WellScoped ∧ (strict = true → c.Distinct) := by
  simp only [compileText_eq_ok_iff, h.compileSource_eq_ok_iff]
  constructor
  · rintro ⟨text, code, ⟨declared, distinct, -⟩, -⟩
    exact ⟨declared, distinct⟩
  · rintro ⟨declared, distinct⟩
    exact ⟨_, c.code, ⟨declared, distinct, rfl⟩, rfl⟩

end Source.Spells

theorem program_flatMap {α : Type} (items : List α) (code : α → List Code) :
    Code.program (items.flatMap code) = String.join (items.map fun i => Code.program (code i)) := by
  induction items with
  | nil => rfl
  | cons i items ih =>
      rw [List.map_cons, String.join_cons, ← ih, List.flatMap_cons, Code.program, Code.program,
        Code.program, Instruction.program, Instruction.program, Instruction.program,
        List.map_append, List.map_append, String.join_append]

/-- Subroutines are compiled independently. A class compiles if the classes do that have one of its
subroutines each, and its text is put together from theirs: only the labels of a subroutine have
their numbers raised, by the words for branches and loops in the subroutines before it. -/
theorem subroutines_compile_independently (c : Tree.Class) (nonempty : c.subroutines ≠ [])
    (source : Source) (alone : Nat → Source) (filename : Option String) (strict : Bool)
    (chunkSize : Int) (spelled : source.Spells filename chunkSize c)
    (apart : ∀ i (h : i < c.subroutines.length),
      (alone i).Spells filename chunkSize (c.only c.subroutines[i])) :
    ((∃ text, compileText source filename strict chunkSize = .ok text) ↔
      ∀ i < c.subroutines.length,
        ∃ text, compileText (alone i) filename strict chunkSize = .ok text) ∧
    ∀ code : Nat → List Code,
      (∀ i < c.subroutines.length,
        compileSource (alone i) filename strict chunkSize = .ok (code i)) →
      compileText source filename strict chunkSize =
        .ok (String.join ((List.range c.subroutines.length).map fun i =>
          Code.program (Code.raise (c.wordsBefore .ifWord i) (c.wordsBefore .whileWord i)
            (code i)))) := by
  have together : (∃ text, compileText source filename strict chunkSize = .ok text) ↔
      ∀ i < c.subroutines.length,
        ∃ text, compileText (alone i) filename strict chunkSize = .ok text := by
    -- Names are looked up in one subroutine and in the class, never in another subroutine, so what
    -- is asked of the class is asked of each subroutine on its own.
    rw [spelled.compiles_iff, c.wellScoped_iff_only, c.distinct_iff_only nonempty]
    constructor
    · rintro ⟨declared, distinct⟩ i bound
      have inside := List.getElem_mem bound
      exact (apart i bound).compiles_iff.mpr
        ⟨declared _ inside, fun strictly => distinct strictly _ inside⟩
    · intro compiled
      have each := fun i bound => (apart i bound).compiles_iff.mp (compiled i bound)
      constructor
      · intro sub inside
        obtain ⟨i, bound, rfl⟩ := List.getElem_of_mem inside
        exact (each i bound).1
      · intro strictly sub inside
        obtain ⟨i, bound, rfl⟩ := List.getElem_of_mem inside
        exact (each i bound).2 strictly
  refine ⟨together, fun code compiled => ?_⟩
  have own : ∀ i (h : i < c.subroutines.length), code i = (c.only c.subroutines[i]).code :=
    fun i bound => ((apart i bound).compileSource_eq_ok_iff.mp (compiled i bound)).2.2
  have whole := together.mpr fun i bound =>
    ⟨_, compileText_eq_ok_iff.mpr ⟨code i, compiled i bound, rfl⟩⟩
  obtain ⟨declared, distinct⟩ := spelled.compiles_iff.mp whole
  rw [← program_flatMap, ← Tree.Class.code_eq_raise own, compileText_eq_ok_iff]
  exact ⟨c.code, spelled.compileSource_eq_ok_iff.mpr ⟨declared, distinct, rfl⟩, rfl⟩

/-- A class with a function and a method that use the same names. -/
def Tree.pair : Tree.Class where
  name := "A"
  declarations := [⟨.field, ⟨.int, "x", []⟩⟩]
  subroutines :=
    [{ kind := .function
       result := none
       name := "f"
       parameters := [⟨.int, "n"⟩]
       locals := []
       body :=
        .cons (.branch (.of (.var "n") .nil) (.cons (.ret none) .nil)) (.cons (.ret none) .nil) },
     { kind := .method
       result := some .int
       name := "g"
       parameters := [⟨.int, "n"⟩]
       locals := []
       body :=
        .cons (.branch (.of (.var "n") .nil) .nil)
        (.cons (.ret (some (.of (.var "x") .nil))) .nil) }]

theorem subroutines_compile_independently_at_pair :
    let source : Source := .text ("class A\x7bfield int x;function void f(int n)\x7bif(n)" ++
      "\x7breturn;\x7dreturn;\x7dmethod int g(int n)\x7bif(n)\x7b\x7dreturn x;\x7d\x7d")
    let alone (i : Nat) : Source := if i = 0 then
        .text "class A\x7bfield int x;function void f(int n)\x7bif(n)\x7breturn;\x7dreturn;\x7d\x7d"
      else .text "class A\x7bfield int x;method int g(int n)\x7bif(n)\x7b\x7dreturn x;\x7d\x7d"
    pair.subroutines ≠ [] ∧ source.Spells none 16 pair ∧
      (∀ i (h : i < pair.subroutines.length),
        (alone i).Spells none 16 (pair.only pair.subroutines[i])) ∧
      (∀ i < 2, ∃ text, compileText (alone i) none true 16 = .ok text) ∧
      compileText source none true 16 = .ok
        ("function A.f 0\npush argument 0\nnot\nif-goto IF_GOTO_NOT_0\npush constant 0\n" ++
          "return\ngoto IF_GOTO_END_0\nlabel IF_GOTO_NOT_0\nlabel IF_GOTO_END_0\n" ++
          "push constant 0\nreturn\nfunction A.g 0\npush argument 0\npop pointer 0\n" ++
          "push argument 1\nnot\nif-goto IF_GOTO_NOT_1\ngoto IF_GOTO_END_1\n" ++
          "label IF_GOTO_NOT_1\nlabel IF_GOTO_END_1\npush this 0\nreturn\n") := by
  intro source alone
  have spelled : source.Spells none 16 pair := .of_tokensOf (by decide +kernel)
  have first : (alone 0).Spells none 16 (pair.only pair.subroutines[0]) :=
    .of_tokensOf (by decide +kernel)
  have second : (alone 1).Spells none 16 (pair.only pair.subroutines[1]) :=
    .of_tokensOf (by decide +kernel)
  have apart : ∀ i (h : i < pair.subroutines.length),
      (alone i).Spells none 16 (pair.only pair.subroutines[i])
    | 0, _ => first
    | 1, _ => second
  have declared : pair.WellScoped := by
    intro sub inside name
    rcases List.mem_cons.mp inside with rfl | inside
    · decide +revert
    · obtain rfl := List.mem_singleton.mp inside
      decide +revert
  have compiled : ∃ text, compileText source none true 16 = .ok text :=
    spelled.compiles_iff.mpr ⟨declared, by decide⟩
  obtain ⟨together, joined⟩ := subroutines_compile_independently pair (by decide) source alone none
    true 16 spelled apart
  have each := together.mp compiled
  refine ⟨by decide, spelled, apart, each, ?_⟩
  let code (i : Nat) : List Code := pair.subroutines[i]?.elim [] fun sub => (pair.only sub).code
  have text := joined code fun i bound => by
    obtain ⟨declared, distinct⟩ := (apart i bound).compiles_iff.mp (each i bound)
    refine (apart i bound).compileSource_eq_ok_iff.mpr ⟨declared, distinct, ?_⟩
    simp only [code, List.getElem?_eq_getElem bound]
    rfl
  rw [text]
  decide +kernel

end Jack
