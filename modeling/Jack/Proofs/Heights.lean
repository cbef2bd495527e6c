import Jack.Proofs.Places
import Jack.Proofs.Recognizing
import Jack.Proofs.StackMachine

/-! # Stack heights

How many words compiled code has on the stack at each of its instructions. Expressions leave
one word on top of what was there, and statements start and end without any. Labels, jumps and
returns stand between these, where the height is known without knowing the way to it: so one
height for each instruction is right on every way through a function.
-/

namespace Jack

open Jack.Tree

namespace Code

/-- The number of words that an instruction takes from the stack. -/
def takes : Code → Nat
  | .push _ _ | .label _ | .goto _ | .function _ _ => 0
  | .pop _ _ | .ifGoto _ | .ret => 1
  | .arithmetic .neg | .arithmetic .not => 1
  | .arithmetic _ => 2
  | .call _ count => count

/-- The number of words that an instruction puts on the stack after that. -/
def leaves : Code → Nat
  | .push _ _ | .arithmetic _ | .call _ _ => 1
  | _ => 0

/-- The height of the stack behind an instruction. -/
def after (i : Code) (height : Nat) : Nat :=
  height - i.takes + i.leaves

/-- Whether the next instruction can be the one behind. -/
def goesOn : Code → Bool
  | .goto _ | .ret => false
  | _ => true

/-- A height for each place of a block that is right on every way through it. -/
structure Balanced (block : List Code) (height : Nat → Nat) : Prop where
  start : height 0 = 0
  /-- No instruction takes more words than there are. -/
  enough : ∀ (pc : Nat) (i : Code), block[pc]? = some i → i.takes ≤ height pc
  /-- The heights agree where an instruction goes on with the one behind. -/
  next : ∀ (pc : Nat) (i : Code), block[pc]? = some i → i.goesOn →
    height (pc + 1) = i.after (height pc)
  /-- The heights agree where an instruction jumps to a label. -/
  jump : ∀ (pc place : Nat) (i : Code) (name : Label), block[pc]? = some i →
    i.target? = some name → block[place]? = some (.label name) → height place = i.after (height pc)
  label : ∀ (pc : Nat) (name : Label), block[pc]? = some (.label name) → height pc = 0
  ret : ∀ pc : Nat, block[pc]? = some .ret → height pc = 1

/-! ### Walking along code -/

/-- Code that starts with one height of the stack and ends with another one. An instruction that
does not only work on the stack finds no words there but its own. -/
inductive Walks : Nat → List Code → Nat → Prop
  | nil (height : Nat) : Walks height [] height
  | cons {height last : Nat} {i : Code} {code : List Code} (enough : i.takes ≤ height)
      (alone : i.Plain ∨ height = i.takes) (rest : Walks (i.after height) code last) :
      Walks height (i :: code) last

namespace Walks

variable {height middle last n : Nat} {code rest : List Code} {i : Code}

theorem append (h : Walks height code middle) (h' : Walks middle rest last) :
    Walks height (code ++ rest) last := by
  induction h with
  | nil => exact h'
  | cons enough alone _ ih => exact .cons enough alone (ih h')

/-- An instruction that only works on the stack, with `n` words below its own. -/
theorem work (n : Nat) (plain : i.Plain) (h : Walks (n + i.leaves) code last) :
    Walks (n + i.takes) (i :: code) last := by
  refine .cons (Nat.le_add_left _ _) (.inl plain) ?_
  rw [after, Nat.add_sub_cancel]
  exact h

theorem push {segment : Segment} {k : Nat} (h : Walks (n + 1) code last) :
    Walks n (.push segment k :: code) last :=
  work (i := .push segment k) n trivial h

theorem pop {segment : Segment} {k : Nat} (h : Walks n code last) :
    Walks (n + 1) (.pop segment k :: code) last :=
  work (i := .pop segment k) n trivial h

theorem unary {command : Command} (h : Walks (n + 1) code last)
    (takes : takes (.arithmetic command) = 1) :
    Walks (n + 1) (.arithmetic command :: code) last := by
  have walks := work (i := .arithmetic command) n trivial h
  rwa [takes] at walks

theorem binary {command : Command} (h : Walks (n + 1) code last)
    (takes : takes (.arithmetic command) = 2) :
    Walks (n + 2) (.arithmetic command :: code) last := by
  have walks := work (i := .arithmetic command) n trivial h
  rwa [takes] at walks

theorem call {callee : String} {count : Nat} (h : Walks (n + 1) code last) :
    Walks (n + count) (.call callee count :: code) last :=
  work (i := .call callee count) n trivial h

/-- An instruction that takes all words of the stack and leaves none. -/
theorem alone (leaves : i.leaves = 0) (h : Walks 0 code last) :
    Walks i.takes (i :: code) last := by
  refine .cons (Nat.le_refl _) (.inr rfl) ?_
  rw [after, leaves, Nat.sub_self]
  exact h

theorem label {name : Label} (h : Walks 0 code last) : Walks 0 (.label name :: code) last :=
  alone (i := .label name) rfl h

theorem goto {name : Label} (h : Walks 0 code last) : Walks 0 (.goto name :: code) last :=
  alone (i := .goto name) rfl h

theorem ifGoto {name : Label} (h : Walks 0 code last) : Walks 1 (.ifGoto name :: code) last :=
  alone (i := .ifGoto name) rfl h

theorem function {name : String} {count : Nat} (h : Walks 0 code last) :
    Walks 0 (.function name count :: code) last :=
  alone (i := .function name count) rfl h

theorem ret (h : Walks 0 code last) : Walks 1 (.ret :: code) last :=
  alone (i := .ret) rfl h

end Walks

/-- The height of the stack at a place of a block, as the instructions before it make it. -/
def heightAt (block : List Code) (pc : Nat) : Nat :=
  (block.take pc).foldl (fun height i => i.after height) 0

theorem heightAt_succ {block : List Code} {pc : Nat} {i : Code} (found : block[pc]? = some i) :
    heightAt block (pc + 1) = i.after (heightAt block pc) := by
  rw [heightAt, List.take_add_one, found, List.foldl_append]
  rfl

namespace Walks

variable {height last : Nat} {code rest block : List Code} {i : Code}

theorem eq_foldl (h : Walks height code last) :
    last = code.foldl (fun height i => i.after height) height := by
  induction h with
  | nil => rfl
  | cons _ _ _ ih => exact ih

theorem right (h : Walks height (code ++ rest) last) :
    Walks (code.foldl (fun height i => i.after height) height) rest last := by
  induction code generalizing height with
  | nil => exact h
  | cons i code ih =>
      cases h with
      | cons _ _ walks => exact ih walks

theorem finds (h : Walks 0 block last) {pc : Nat} (found : block[pc]? = some i) :
    i.takes ≤ heightAt block pc ∧ (i.Plain ∨ heightAt block pc = i.takes) := by
  obtain ⟨inside, rfl⟩ := List.getElem?_eq_some_iff.mp found
  rw [← List.take_append_drop pc block, List.drop_eq_getElem_cons inside] at h
  cases h.right with
  | cons enough alone _ => exact ⟨enough, alone⟩

/-- Code that can be walked along has a height at each place. -/
theorem balanced (h : Walks 0 block last) : Balanced block (heightAt block) where
  start := rfl
  enough pc i found := (h.finds found).1
  next pc i found _ := heightAt_succ found
  jump pc place i name found target set := by
    have before := (h.finds found).2
    have there := (h.finds set).2.resolve_left id
    cases i with
    | goto other | ifGoto other =>
        rw [there, after, before.resolve_left id, Nat.sub_self]
        rfl
    | _ => cases target
  label pc name found := (h.finds found).2.resolve_left id
  ret pc found := (h.finds found).2.resolve_left id

end Walks

end Code

/-! ### Heights of runs -/

section Runs

open Code

variable {W : Type} {p : Platform W} {block : List Code} {height : Nat → Nat} {m m' : Machine W}

theorem length_of_compute {command : Command} {stack stack' : List Word}
    (h : command.compute stack = some stack') :
    takes (.arithmetic command) ≤ stack.length ∧
      stack'.length = after (.arithmetic command) stack.length := by
  unfold Command.compute at h
  split at h
  all_goals cases h
  all_goals exact ⟨by simp [takes], by simp [after, takes, leaves]⟩

theorem stays_of_put {v : Word} {segment : Segment} {k : Nat} (h : m.put v segment k = some m') :
    m'.pc = m.pc ∧ m'.stack = m.stack := by
  unfold Machine.put at h
  split at h
  all_goals cases h
  all_goals exact ⟨rfl, rfl⟩

theorem stays_of_jump {name : Label} (h : m.jump block name = some m') :
    block[m'.pc]? = some (.label name) ∧ m'.stack = m.stack := by
  unfold Machine.jump at h
  split at h
  · next inside =>
    cases h
    exact ⟨List.getElem?_idxOf inside, rfl⟩
  · cases h

/-- What a step does to the stack, and where it leads. -/
theorem effect_of_step (h : m.step p block = some m') :
    ∃ i, block[m.pc]? = some i ∧ i.takes ≤ m.stack.length ∧
      m'.stack.length = i.after m.stack.length ∧
      (i.goesOn ∧ m'.pc = m.pc + 1 ∨
        ∃ name, i.target? = some name ∧ block[m'.pc]? = some (.label name)) := by
  unfold Machine.step at h
  cases found : block[m.pc]? with
  | none => rw [found] at h; cases h
  | some i =>
      rw [found] at h
      refine ⟨i, rfl, ?_⟩
      cases i with
      | push segment k =>
          obtain ⟨v, -, rfl⟩ := Option.map_eq_some_iff.mp h
          exact ⟨Nat.zero_le _, rfl, .inl ⟨rfl, rfl⟩⟩
      | pop segment k =>
          cases stack : m.stack with
          | nil => simp [stack] at h
          | cons v rest =>
              simp only [stack] at h
              obtain ⟨pc, same⟩ := stays_of_put h
              exact ⟨Nat.le_add_left _ _, by simp [same, after, takes, leaves], .inl ⟨rfl, pc⟩⟩
      | arithmetic command =>
          obtain ⟨stack, computed, rfl⟩ := Option.map_eq_some_iff.mp h
          obtain ⟨enough, length⟩ := length_of_compute computed
          exact ⟨enough, length, .inl ⟨rfl, rfl⟩⟩
      | label name =>
          cases h
          exact ⟨Nat.zero_le _, rfl, .inl ⟨rfl, rfl⟩⟩
      | goto name =>
          obtain ⟨there, same⟩ := stays_of_jump h
          exact ⟨Nat.zero_le _, congrArg List.length same, .inr ⟨name, rfl, there⟩⟩
      | ifGoto name =>
          cases stack : m.stack with
          | nil => simp [stack] at h
          | cons v rest =>
              simp only [stack] at h
              split at h
              · cases h
                exact ⟨Nat.le_add_left _ _, rfl, .inl ⟨rfl, rfl⟩⟩
              · obtain ⟨there, same⟩ := stays_of_jump h
                exact ⟨Nat.le_add_left _ _, by simp [same, after, takes, leaves],
                  .inr ⟨name, rfl, there⟩⟩
      | call callee count =>
          simp only at h
          split at h
          · next enough =>
            cases h
            exact ⟨enough, by simp [after, takes, leaves], .inl ⟨rfl, rfl⟩⟩
          · cases h
      | function name count =>
          cases h
          exact ⟨Nat.zero_le _, rfl, .inl ⟨rfl, rfl⟩⟩
      | ret => cases h

theorem Code.Balanced.step (h : Balanced block height) {n : Nat}
    (before : m.stack.length = n + height m.pc) (step : m.step p block = some m') :
    m'.stack.length = n + height m'.pc := by
  obtain ⟨i, found, -, length, leads⟩ := effect_of_step step
  have enough := h.enough m.pc i found
  have behind : m'.stack.length = n + i.after (height m.pc) := by
    rw [length, before, after, after]
    omega
  rcases leads with ⟨goesOn, pc⟩ | ⟨name, target, there⟩
  · rw [behind, pc, h.next m.pc i found goesOn]
  · rw [behind, h.jump m.pc m'.pc i name found target there]

/-- The heights of a block are those that every run of it has on the stack, above what was there
before. -/
theorem Code.Balanced.reaches (h : Balanced block height) {n : Nat}
    (before : m.stack.length = n + height m.pc) (reached : Machine.Reaches p block m m') :
    m'.stack.length = n + height m'.pc := by
  induction reached with
  | refl => exact before
  | tail _ step ih => exact h.step ih step

end Runs

/-! ### Heights of trees -/

section Trees

open Code

variable {f : Frame} {b l n : Nat}

theorem walks_push {name : String} (h : (f.resolve? name).isSome) :
    Walks n (f.push name) (n + 1) := by
  obtain ⟨entry, found⟩ := Option.isSome_iff_exists.mp h
  rw [Frame.push, found]
  exact (Walks.nil _).push

theorem walks_pop {name : String} (h : (f.resolve? name).isSome) :
    Walks (n + 1) (f.pop name) n := by
  obtain ⟨entry, found⟩ := Option.isSome_iff_exists.mp h
  rw [Frame.pop, found]
  exact (Walks.nil _).pop

theorem walks_string (content : String) : Walks n (stringCode content) (n + 1) := by
  have characters (cs : List Char) : Walks (n + 1)
      (cs.flatMap fun c => [.push .constant c.toNat, .call "String.appendChar" 2]) (n + 1) := by
    induction cs with
    | nil => exact .nil _
    | cons c cs ih => exact (ih.call : Walks (n + 2) _ _).push
  exact (characters _).call.push

theorem walks_unary (op : UnaryOp) : Walks (n + 1) [unaryCode op] (n + 1) := by
  cases op with
  | negate | not => exact (Walks.nil _).unary rfl

theorem walks_binary (op : BinaryOp) : Walks (n + 2) [binaryCode op] (n + 1) := by
  cases op with
  | multiply | divide => exact (Walks.nil _).call
  | _ => exact (Walks.nil _).binary rfl

mutual

/-- A term leaves one word. -/
theorem Tree.Term.walks (t : Term) (h : f.Resolves t.uses) (n : Nat) :
    Walks n (t.code f) (n + 1) := by
  cases t with
  | integer digits value => exact (Walks.nil _).push
  | string content => exact walks_string content
  | constant word =>
      cases word with
      | trueWord => exact ((Walks.nil _).unary rfl).push
      | falseWord | nullWord | thisWord => exact (Walks.nil _).push
  | var name => exact walks_push (h name (List.mem_singleton_self _))
  | element base index =>
      have reads : Walks (n + 2) [.arithmetic .add, .pop .pointer 1, .push .that 0] (n + 1) :=
        (Walks.nil _).push.pop.binary rfl
      have known := h base (List.mem_cons_self ..)
      exact (walks_push known).append ((index.walks h.tail (n + 1)).append reads)
  | call call => exact call.walks h n
  | group inner => exact inner.walks h n
  | unary op operand => exact (operand.walks h n).append (walks_unary op)
termination_by structural t

theorem Tree.Expression.walks (e : Expression) (h : f.Resolves e.uses) (n : Nat) :
    Walks n (e.code f) (n + 1) := by
  cases e with
  | of first rest => exact (first.walks h.left n).append (rest.walks h.right n)
termination_by structural e

theorem Tree.Operations.walks (rest : Operations) (h : f.Resolves rest.uses) (n : Nat) :
    Walks (n + 1) (rest.code f) (n + 1) := by
  cases rest with
  | nil => exact .nil _
  | cons op operand rest =>
      have last := (walks_binary op).append (rest.walks h.right n)
      exact (operand.walks h.left (n + 1)).append last
termination_by structural rest

theorem Tree.Call.walks (call : Tree.Call) (h : f.Resolves call.uses) (n : Nat) :
    Walks n (call.code f) (n + 1) := by
  have on (arguments : Arguments) (h : f.Resolves arguments.uses)
      (walks : Walks (n + 1) (arguments.code f) (n + 1 + arguments.count)) (callee : String) :
      Walks (n + 1) (arguments.code f ++ [.call callee (arguments.count + 1)]) (n + 1) := by
    rw [Nat.add_assoc, Nat.add_comm 1] at walks
    exact walks.append (Walks.nil _).call
  cases call with
  | own name arguments => exact (on arguments h (arguments.walks h (n + 1)) _).push
  | qualified qualifier name arguments =>
      cases found : f.resolve? qualifier with
      | some receiver =>
          simp only [Call.code, found]
          exact (on arguments h (arguments.walks h (n + 1)) _).push
      | none =>
          simp only [Call.code, found]
          exact (arguments.walks h n).append (Walks.nil _).call
termination_by structural call

/-- Arguments leave one word each. -/
theorem Tree.Arguments.walks (arguments : Arguments) (h : f.Resolves arguments.uses) (n : Nat) :
    Walks n (arguments.code f) (n + arguments.count) := by
  cases arguments with
  | nil => exact .nil _
  | cons first rest =>
      have later := rest.walks h.right (n + 1)
      rw [Nat.add_assoc, Nat.add_comm 1] at later
      exact (first.walks h.left n).append later
termination_by structural arguments

end

mutual

/-- A statement starts and ends without words. -/
theorem Tree.Statement.walks (st : Statement) (h : f.Resolves st.uses) (b l : Nat) :
    Walks 0 (st.code f b l) 0 := by
  cases st with
  | assign target value =>
      exact (value.walks h.tail 0).append (walks_pop (h target (List.mem_cons_self ..)))
  | store base index value =>
      have writes : Walks 2 [.pop .temp 0, .pop .pointer 1, .push .temp 0, .pop .that 0] 0 :=
        (Walks.nil _).pop.push.pop.pop
      have known := h base (List.mem_cons_self ..)
      exact (walks_push known).append ((index.walks h.tail.left 1).append
        (((value.walks h.tail.right 1).append writes).binary rfl))
  | branch condition body =>
      have ends : Walks 0 [.goto (.branchEnd b), .label (.branchNot b), .label (.branchEnd b)] 0 :=
        (Walks.nil _).label.label.goto
      exact (condition.walks h.left 0).append
        (((body.walks h.right (b + 1) l).append ends).ifGoto.unary rfl)
  | branchElse condition body other =>
      have meets : Walks 0 [.label (.branchEnd b)] 0 := (Walks.nil _).label
      have second := (other.walks h.right.right (b + 1 + body.branches) (l + body.loops)).append
        meets
      exact (condition.walks h.left 0).append
        (((body.walks h.right.left (b + 1) l).append second.label.goto).ifGoto.unary rfl)
  | loop condition body =>
      have ends : Walks 0 [.goto (.loopStart l), .label (.loopEnd l)] 0 :=
        (Walks.nil _).label.goto
      exact ((condition.walks h.left 0).append
        (((body.walks h.right b (l + 1)).append ends).ifGoto.unary rfl)).label
  | perform call => exact (call.walks h 0).append (Walks.nil _).pop
  | ret value =>
      cases value with
      | none => exact (Walks.nil _).ret.push
      | some value => exact (value.walks h 0).append (Walks.nil _).ret
termination_by structural st

theorem Tree.Statements.walks (ss : Statements) (h : f.Resolves ss.uses) (b l : Nat) :
    Walks 0 (ss.code f b l) 0 := by
  cases ss with
  | nil => exact .nil _
  | cons first rest => exact (first.walks h.left b l).append (rest.walks h.right _ _)
termination_by structural ss

end

/-! At the places inside a statement there is nothing on the stack, as there is none in front of
it. -/

section Places

variable {p : Tree.Place}

theorem walks_inBranch (h : Walks 0 p.code 0) (condition : Expression)
    (known : f.Resolves condition.uses) : Walks 0 (p.inBranch f condition).code 0 :=
  h.append ((condition.walks known 0).append ((Walks.nil _).ifGoto.unary rfl))

theorem walks_inElse (h : Walks 0 p.code 0) (condition : Expression) (body : Statements)
    (known : f.Resolves condition.uses) (known' : f.Resolves body.uses) :
    Walks 0 (p.inElse f condition body).code 0 :=
  (walks_inBranch h condition known).append ((body.walks known' _ _).append
    (Walks.nil _).label.goto)

theorem walks_inLoop (h : Walks 0 p.code 0) (condition : Expression)
    (known : f.Resolves condition.uses) : Walks 0 (p.inLoop f condition).code 0 :=
  h.append ((condition.walks known 0).append ((Walks.nil _).ifGoto.unary rfl)).label

mutual

theorem Tree.Statement.walks_sites (st : Statement) (known : f.Resolves st.uses) {p : Tree.Place}
    (h : Walks 0 p.code 0) : ∀ site ∈ st.sites f p, Walks 0 site.code 0 := by
  cases st with
  | branch condition body =>
      rw [Statement.sites, List.forall_mem_cons]
      exact ⟨h, body.walks_sites known.right (walks_inBranch h condition known.left)⟩
  | branchElse condition body other =>
      rw [Statement.sites, List.forall_mem_cons, List.forall_mem_append]
      exact ⟨h, body.walks_sites known.right.left (walks_inBranch h condition known.left),
        other.walks_sites known.right.right
          (walks_inElse h condition body known.left known.right.left)⟩
  | loop condition body =>
      rw [Statement.sites, List.forall_mem_cons]
      exact ⟨h, body.walks_sites known.right (walks_inLoop h condition known.left)⟩
  | _ =>
      rw [Statement.sites, List.forall_mem_singleton]
      exact h
termination_by structural st

theorem Tree.Statements.walks_sites (ss : Statements) (known : f.Resolves ss.uses) {p : Tree.Place}
    (h : Walks 0 p.code 0) : ∀ site ∈ ss.sites f p, Walks 0 site.code 0 := by
  cases ss with
  | nil => simp [Statements.sites]
  | cons first rest =>
      rw [Statements.sites, List.forall_mem_append]
      exact ⟨first.walks_sites known.left h,
        rest.walks_sites known.right (h.append (first.walks known.left _ _))⟩
termination_by structural ss

end

end Places

end Trees

/-! ### Heights of functions -/

section Functions

open Code

variable {c : Tree.Class} {m : Member}

theorem walks_start (c : Tree.Class) (m : Member) : Walks 0 (m.start c).code 0 := by
  have prologue : Walks 0 (m.subroutine.prologue c) 0 := by
    unfold Subroutine.prologue
    cases m.subroutine.kind with
    | constructor => exact ((Walks.nil 0).pop.call : Walks (0 + 1) _ 0).push
    | function => exact .nil _
    | method => exact (Walks.nil _).pop.push
  exact prologue.function

theorem walks_code (known : (m.subroutine.frame c).Resolves m.subroutine.body.uses) :
    Walks 0 (m.code c) 0 := by
  rw [Member.code_eq]
  exact (walks_start c m).append (m.subroutine.body.walks known _ _)

/-- There is nothing on the stack where a statement starts. -/
theorem heightAt_site (known : (m.subroutine.frame c).Resolves m.subroutine.body.uses) :
    ∀ site ∈ m.sites c, heightAt (m.code c) site.code.length = 0 := by
  intro site inside
  obtain ⟨behind, whole⟩ := (m.sites_stand c site inside).code
  have before := m.subroutine.body.walks_sites known (walks_start c m) site inside
  rw [heightAt, ← whole, List.append_assoc, List.take_left]
  exact before.eq_foldl.symm

end Functions

/-- Every function of a class that was compiled has a height of the stack for each of its
instructions. Wherever the class has the word of a statement, the code of one starts in its
function, and there is nothing on the stack. -/
theorem stack_is_balanced (source : Source) (filename : Option String) (strict : Bool)
    (chunkSize : Int) (code : List Code)
    (compiled : compileSource source filename strict chunkSize = .ok code) :
    ∃ (tokens : List Token) (c : Tree.Class),
      Lexer.tokensOf source chunkSize filename = .ok tokens ∧
      c.lexemes = tokens.map Token.lexeme ∧
      (c.members.flatMap (Member.sites c)).map (·.row) = openings [] c.lexemes ∧
      List.Forall₂ (fun block m => ∃ height, Code.Balanced block height ∧
          ∀ site ∈ m.sites c, site.Stands (m.subroutine.frame c) c.lexemes block ∧
            height site.code.length = 0)
        (Code.blocks code) c.members := by
  obtain ⟨tokens, c, read, spelled, known, -, functions⟩ := exists_members_of_compileSource compiled
  refine ⟨tokens, c, read, spelled, c.rows_sites, ?_⟩
  rw [functions, List.forall₂_map_left_iff, List.forall₂_same]
  intro m inside
  refine ⟨Code.heightAt (m.code c), (walks_code (known m inside)).balanced, ?_⟩
  intro site there
  exact ⟨(m.sites_stand c site there).mono (c.prefix_members m inside) List.prefix_rfl,
    heightAt_site (known m inside) site there⟩

/-- In front of the call, the address of the element is below the two arguments. -/
theorem stack_is_balanced_at_store :
    let source : Source :=
      .text ("class A\x7bfunction int f(Array a,int i)\x7b" ++
        "if(i<1)\x7blet a[i]=A.g(i,2);\x7dreturn i;\x7d\x7d")
    let block : List Code :=
      [.function "A.f" 0, .push .argument 1, .push .constant 1, .arithmetic .lt,
        .arithmetic .not, .ifGoto (.branchNot 0), .push .argument 0, .push .argument 1,
        .arithmetic .add, .push .argument 1, .push .constant 2, .call "A.g" 2, .pop .temp 0,
        .pop .pointer 1, .push .temp 0, .pop .that 0, .goto (.branchEnd 0),
        .label (.branchNot 0), .label (.branchEnd 0), .push .argument 1, .ret]
    compileSource source none false 64 = .ok block ∧
      ∃ height, Code.Balanced block height ∧ height 11 = 3 := by
  intro source block
  have compiled : compileSource source none false 64 = .ok block := by decide +kernel
  refine ⟨compiled, ?_⟩
  obtain ⟨tokens, c, -, -, -, functions⟩ := stack_is_balanced source none false 64 block compiled
  have single : Code.blocks block = [block] := by decide +kernel
  rw [single] at functions
  obtain ⟨m, rest, ⟨height, balanced, -⟩, -, -⟩ := List.forall₂_cons_left_iff.mp functions
  refine ⟨height, balanced, ?_⟩
  have front : height 5 = 1 := by
    rw [balanced.next 4 _ rfl rfl, balanced.next 3 _ rfl rfl, balanced.next 2 _ rfl rfl,
      balanced.next 1 _ rfl rfl, balanced.next 0 _ rfl rfl, balanced.start]
    rfl
  rw [balanced.next 10 _ rfl rfl, balanced.next 9 _ rfl rfl, balanced.next 8 _ rfl rfl,
    balanced.next 7 _ rfl rfl, balanced.next 6 _ rfl rfl, balanced.next 5 _ rfl rfl, front]
  rfl

end Jack
