import Jack.Machine.Label
import Mathlib.Logic.Function.Basic
import Mathlib.Logic.Relation

/-! # The stack machine

One run of a subroutine on the machine that classes are compiled to. Words have 16 bits.
The variables of a subroutine are kept apart from the heap, which is reached through the
two pointers. A call is answered by the platform: it may change the heap and the static
variables, and it leaves everything else of its caller alone but the temporary words.
-/

namespace Jack

/-- A word of the machine. -/
abbrev Word := BitVec 16

/-- A truth value: all bits set, or none. -/
def Word.ofBool (b : Bool) : Word :=
  if b then BitVec.allOnes 16 else 0

/-- What a call can read and change. The world is anything that is neither the heap nor a static
variable. -/
structure Memory (W : Type) where
  heap : Word → Word
  statics : Nat → Word
  world : W

/-- What the variables of a running subroutine and its current object are. -/
structure Store (W : Type) where
  memory : Memory W
  locals : Nat → Word
  arguments : Nat → Word
  this : Word

namespace Store

variable {W : Type}

/-- The word of a variable. -/
def read (s : Store W) : VariableKind → Nat → Word
  | .static, i => s.memory.statics i
  | .field, i => s.memory.heap (s.this + BitVec.ofNat 16 i)
  | .argument, i => s.arguments i
  | .localVar, i => s.locals i

/-- Replace a word of the heap. -/
def setHeap (s : Store W) (address v : Word) : Store W :=
  { s with memory := { s.memory with heap := Function.update s.memory.heap address v } }

/-- Replace the word of a variable. -/
def write (s : Store W) (v : Word) : VariableKind → Nat → Store W
  | .static, i =>
    { s with memory := { s.memory with statics := Function.update s.memory.statics i v } }
  | .field, i => s.setHeap (s.this + BitVec.ofNat 16 i) v
  | .argument, i => { s with arguments := Function.update s.arguments i v }
  | .localVar, i => { s with locals := Function.update s.locals i v }

end Store

/-- What the machine does not decide. -/
structure Platform (W : Type) where
  /-- The result of a call and the memory behind it. -/
  answer : String → List Word → Memory W → Word × Memory W
  /-- The temporary words behind a call. -/
  scratch : String → List Word → Memory W → (Nat → Word) → Nat → Word
  /-- The local variables that a subroutine with so many of them starts with. -/
  enter : Nat → (Nat → Word) → Nat → Word

/-- The result of a call and the store behind it. -/
def Platform.call {W : Type} (p : Platform W) (callee : String) (arguments : List Word)
    (s : Store W) : Word × Store W :=
  let (v, memory) := p.answer callee arguments s.memory
  (v, { s with memory })

/-- A machine in the middle of a block of code. -/
structure Machine (W : Type) where
  /-- The place of the next instruction in the block. -/
  pc : Nat
  /-- The working stack, its top first. -/
  stack : List Word
  store : Store W
  that : Word
  temp : Nat → Word

/-- What a command makes of the stack. -/
def Command.compute : Command → List Word → Option (List Word)
  | .neg, v :: stack => some (-v :: stack)
  | .not, v :: stack => some (~~~v :: stack)
  | .add, w :: v :: stack => some ((v + w) :: stack)
  | .sub, w :: v :: stack => some ((v - w) :: stack)
  | .and, w :: v :: stack => some ((v &&& w) :: stack)
  | .or, w :: v :: stack => some ((v ||| w) :: stack)
  | .eq, w :: v :: stack => some (.ofBool (v == w) :: stack)
  | .lt, w :: v :: stack => some (.ofBool (v.slt w) :: stack)
  | .gt, w :: v :: stack => some (.ofBool (w.slt v) :: stack)
  | _, _ => none

namespace Machine

variable {W : Type}

/-- Go on with the next instruction. -/
def next (m : Machine W) : Machine W :=
  { m with pc := m.pc + 1 }

/-- The word at an index of a segment. -/
def fetch (m : Machine W) : Segment → Nat → Option Word
  | .constant, i => some (BitVec.ofNat 16 i)
  | .argument, i => some (m.store.arguments i)
  | .localVar, i => some (m.store.locals i)
  | .static, i => some (m.store.memory.statics i)
  | .this, i => some (m.store.memory.heap (m.store.this + BitVec.ofNat 16 i))
  | .that, i => some (m.store.memory.heap (m.that + BitVec.ofNat 16 i))
  | .pointer, 0 => some m.store.this
  | .pointer, 1 => some m.that
  | .pointer, _ => none
  | .temp, i => some (m.temp i)

/-- Replace the word at an index of a segment. -/
def put (m : Machine W) (v : Word) : Segment → Nat → Option (Machine W)
  | .constant, _ => none
  | .argument, i => some { m with store := m.store.write v .argument i }
  | .localVar, i => some { m with store := m.store.write v .localVar i }
  | .static, i => some { m with store := m.store.write v .static i }
  | .this, i => some { m with store := m.store.write v .field i }
  | .that, i => some { m with store := m.store.setHeap (m.that + BitVec.ofNat 16 i) v }
  | .pointer, 0 => some { m with store := { m.store with this := v } }
  | .pointer, 1 => some { m with that := v }
  | .pointer, _ => none
  | .temp, i => some { m with temp := Function.update m.temp i v }

/-- Go on at a label of a block. -/
def jump (block : List Code) (m : Machine W) (name : Label) : Option (Machine W) :=
  if .label name ∈ block then some { m with pc := block.idxOf (.label name) } else none

/-- Carry out the next instruction of a block. A machine stops in front of a return. -/
def step (p : Platform W) (block : List Code) (m : Machine W) : Option (Machine W) :=
  match block[m.pc]? with
  | some (.push segment i) =>
    (m.fetch segment i).map fun v => { m.next with stack := v :: m.stack }
  | some (.pop segment i) =>
    match m.stack with
    | v :: stack => { m.next with stack }.put v segment i
    | [] => none
  | some (.arithmetic command) =>
    (command.compute m.stack).map fun stack => { m.next with stack }
  | some (.label _) => some m.next
  | some (.goto name) => m.jump block name
  | some (.ifGoto name) =>
    match m.stack with
    | v :: stack => if v = 0 then some { m.next with stack } else { m with stack }.jump block name
    | [] => none
  | some (.call callee count) =>
    if count ≤ m.stack.length then
      let arguments := (m.stack.take count).reverse
      let (v, store) := p.call callee arguments m.store
      some { m.next with
        stack := v :: m.stack.drop count
        store
        temp := p.scratch callee arguments m.store.memory m.temp }
    else none
  | some (.function _ count) =>
    some { m.next with
      store := { m.store with locals := p.enter count m.store.locals } }
  | some .ret => none
  | none => none

/-- One machine is reached from another one. -/
def Reaches (p : Platform W) (block : List Code) : Machine W → Machine W → Prop :=
  Relation.ReflTransGen fun m m' => m.step p block = some m'

end Machine

/-! ### Configurations -/

/-- A machine by what is ahead of it, without the words that no code leaves a value in. -/
structure Config (W : Type) where
  /-- The rest of the block. -/
  ahead : List Code
  stack : List Word
  store : Store W

namespace Config

variable {W : Type}

/-- Whether a machine in a block has a configuration. -/
structure Shows (block : List Code) (m : Machine W) (c : Config W) : Prop where
  ahead : block.drop m.pc = c.ahead
  stack : m.stack = c.stack
  store : m.store = c.store

/-- Whether every machine of the first configuration reaches one of the second. -/
def Leads (p : Platform W) (block : List Code) (c c' : Config W) : Prop :=
  ∀ m, c.Shows block m → ∃ m', Machine.Reaches p block m m' ∧ c'.Shows block m'

section Shows

variable {block rest : List Code} {i : Code} {m : Machine W} {stack : List Word} {s : Store W}

theorem Shows.instruction (h : Shows block m ⟨i :: rest, stack, s⟩) : block[m.pc]? = some i := by
  rw [← Nat.add_zero m.pc, ← List.getElem?_drop, h.ahead]
  rfl

theorem Shows.behind (h : Shows block m ⟨i :: rest, stack, s⟩) : block.drop (m.pc + 1) = rest := by
  rw [← List.tail_drop, h.ahead]
  rfl

theorem Shows.step_push {p : Platform W} {segment : Segment} {n : Nat} {v : Word}
    (h : Shows block m ⟨.push segment n :: rest, stack, s⟩) (fetch : m.fetch segment n = some v) :
    m.step p block = some { m.next with stack := v :: m.stack } := by
  rw [Machine.step, h.instruction, Option.map_eq_some_iff]
  exact ⟨v, fetch, rfl⟩

theorem Shows.step_pop {p : Platform W} {segment : Segment} {n : Nat} {v : Word} {m' : Machine W}
    (h : Shows block m ⟨.pop segment n :: rest, v :: stack, s⟩)
    (put : { m.next with stack }.put v segment n = some m') : m.step p block = some m' := by
  simp only [Machine.step, h.instruction, h.stack]
  exact put

end Shows

/-! ### Single instructions -/

section Leads

variable {p : Platform W} {block rest : List Code} {stack : List Word} {s : Store W}

theorem Leads.refl (c : Config W) : Leads p block c c := by
  intro m shows
  exact ⟨m, .refl, shows⟩

theorem Leads.trans {c c' c'' : Config W} (h : Leads p block c c') (h' : Leads p block c' c'') :
    Leads p block c c'' := by
  intro m shows
  obtain ⟨m', reached, shows'⟩ := h m shows
  obtain ⟨m'', reached', shows''⟩ := h' m' shows'
  exact ⟨m'', Relation.ReflTransGen.trans reached reached', shows''⟩

theorem leads_of_step {c c' : Config W}
    (h : ∀ m, c.Shows block m → ∃ m', m.step p block = some m' ∧ c'.Shows block m') :
    Leads p block c c' := by
  intro m shows
  obtain ⟨m', step, shows'⟩ := h m shows
  exact ⟨m', .single step, shows'⟩

theorem leads_push {segment : Segment} {i : Nat} {v : Word}
    (h : ∀ m : Machine W, m.store = s → m.fetch segment i = some v) :
    Leads p block ⟨.push segment i :: rest, stack, s⟩ ⟨rest, v :: stack, s⟩ := by
  apply leads_of_step
  intro m shows
  exact ⟨_, shows.step_push (h m shows.store), shows.behind, congrArg (v :: ·) shows.stack,
    shows.store⟩

theorem leads_push_constant (n : Nat) :
    Leads p block ⟨.push .constant n :: rest, stack, s⟩ ⟨rest, BitVec.ofNat 16 n :: stack, s⟩ :=
  leads_push fun _ _ => rfl

theorem leads_push_this :
    Leads p block ⟨.push .pointer 0 :: rest, stack, s⟩ ⟨rest, s.this :: stack, s⟩ := by
  apply leads_push
  rintro m rfl
  rfl

theorem leads_push_variable (kind : VariableKind) (i : Nat) :
    Leads p block ⟨.push kind.segment i :: rest, stack, s⟩ ⟨rest, s.read kind i :: stack, s⟩ := by
  apply leads_push
  rintro m rfl
  cases kind <;> rfl

theorem leads_pop {segment : Segment} {i : Nat} {v : Word} {s' : Store W}
    (h : ∀ m : Machine W, m.store = s → ∃ m', m.put v segment i = some m' ∧ m'.store = s' ∧
      m'.pc = m.pc ∧ m'.stack = m.stack) :
    Leads p block ⟨.pop segment i :: rest, v :: stack, s⟩ ⟨rest, stack, s'⟩ := by
  apply leads_of_step
  intro m shows
  obtain ⟨m', put, store, pc, kept⟩ := h { m.next with stack } shows.store
  refine ⟨m', shows.step_pop put, ?_, kept, store⟩
  rw [pc]
  exact shows.behind

theorem leads_pop_variable (kind : VariableKind) (i : Nat) (v : Word) :
    Leads p block ⟨.pop kind.segment i :: rest, v :: stack, s⟩ ⟨rest, stack, s.write v kind i⟩ := by
  apply leads_pop
  rintro m rfl
  cases kind <;> exact ⟨_, rfl, rfl, rfl, rfl⟩

theorem leads_pop_this (v : Word) :
    Leads p block ⟨.pop .pointer 0 :: rest, v :: stack, s⟩
      ⟨rest, stack, { s with this := v }⟩ := by
  apply leads_pop
  rintro m rfl
  exact ⟨_, rfl, rfl, rfl, rfl⟩

theorem leads_pop_temp (v : Word) :
    Leads p block ⟨.pop .temp 0 :: rest, v :: stack, s⟩ ⟨rest, stack, s⟩ := by
  apply leads_pop
  rintro m rfl
  exact ⟨_, rfl, rfl, rfl, rfl⟩

theorem leads_arithmetic {command : Command} {stack' : List Word}
    (h : command.compute stack = some stack') :
    Leads p block ⟨.arithmetic command :: rest, stack, s⟩ ⟨rest, stack', s⟩ := by
  apply leads_of_step
  intro m shows
  refine ⟨{ m.next with stack := stack' }, ?_, shows.behind, rfl, shows.store⟩
  rw [Machine.step, shows.instruction, Option.map_eq_some_iff]
  exact ⟨stack', by rw [shows.stack]; exact h, rfl⟩

theorem leads_call (callee : String) (arguments : List Word) {v : Word} {s' : Store W}
    (called : p.call callee arguments s = (v, s')) :
    Leads p block ⟨.call callee arguments.length :: rest, arguments.reverse ++ stack, s⟩
      ⟨rest, v :: stack, s'⟩ := by
  apply leads_of_step
  intro m shows
  have enough : arguments.length ≤ m.stack.length := by
    rw [shows.stack]
    simp
  have taken : (m.stack.take arguments.length).reverse = arguments := by
    rw [shows.stack, List.take_left' (List.length_reverse ..), List.reverse_reverse]
  have left : m.stack.drop arguments.length = stack := by
    rw [shows.stack, List.drop_left' (List.length_reverse ..)]
  have answered : p.call callee arguments m.store = (v, s') := by
    rw [shows.store]
    exact called
  refine ⟨{ m.next with
      stack := v :: stack
      store := s'
      temp := p.scratch callee arguments m.store.memory m.temp }, ?_, shows.behind, rfl, rfl⟩
  simp only [Machine.step, shows.instruction, if_pos enough, taken, left, answered]

theorem leads_label (name : Label) :
    Leads p block ⟨.label name :: rest, stack, s⟩ ⟨rest, stack, s⟩ := by
  apply leads_of_step
  intro m shows
  refine ⟨m.next, ?_, shows.behind, shows.stack, shows.store⟩
  rw [Machine.step, shows.instruction]

theorem leads_function (name : String) (count : Nat) :
    Leads p block ⟨.function name count :: rest, stack, s⟩
      ⟨rest, stack, { s with locals := p.enter count s.locals }⟩ := by
  apply leads_of_step
  intro m shows
  have stored : m.store = s := shows.store
  subst stored
  refine ⟨{ m.next with store := { m.store with locals := p.enter count m.store.locals } }, ?_,
    shows.behind, shows.stack, rfl⟩
  rw [Machine.step, shows.instruction]

/-! ### Elements of the heap -/

theorem leads_readElement (address : Word) :
    Leads p block ⟨.pop .pointer 1 :: .push .that 0 :: rest, address :: stack, s⟩
      ⟨rest, s.memory.heap address :: stack, s⟩ := by
  intro m shows
  have stored : m.store = s := shows.store
  subst stored
  let pointed : Machine W := { m.next with stack, that := address }
  have first : m.step p block = some pointed := shows.step_pop rfl
  have shows' : Shows block pointed ⟨.push .that 0 :: rest, stack, m.store⟩ :=
    ⟨shows.behind, rfl, rfl⟩
  have found : pointed.fetch .that 0 = some (m.store.memory.heap address) := by
    simp [Machine.fetch, pointed, Machine.next]
  have second := shows'.step_push (p := p) found
  exact ⟨_, .head first (.single second), shows'.behind, rfl, rfl⟩

/-- The address stays below the value until the value is known. -/
theorem leads_writeElement (address v : Word) :
    Leads p block
      ⟨.pop .temp 0 :: .pop .pointer 1 :: .push .temp 0 :: .pop .that 0 :: rest,
        v :: address :: stack, s⟩
      ⟨rest, stack, s.setHeap address v⟩ := by
  intro m shows
  have stored : m.store = s := shows.store
  subst stored
  let kept : Machine W :=
    { m.next with stack := address :: stack, temp := Function.update m.temp 0 v }
  let pointed : Machine W := { kept.next with stack, that := address }
  let restored : Machine W := { pointed.next with stack := v :: stack }
  let written : Machine W :=
    { restored.next with stack, store := m.store.setHeap address v }
  have shows₁ : Shows block kept
      ⟨.pop .pointer 1 :: .push .temp 0 :: .pop .that 0 :: rest, address :: stack, m.store⟩ :=
    ⟨shows.behind, rfl, rfl⟩
  have shows₂ : Shows block pointed ⟨.push .temp 0 :: .pop .that 0 :: rest, stack, m.store⟩ :=
    ⟨shows₁.behind, rfl, rfl⟩
  have shows₃ : Shows block restored ⟨.pop .that 0 :: rest, v :: stack, m.store⟩ :=
    ⟨shows₂.behind, rfl, rfl⟩
  have found : pointed.fetch .temp 0 = some v := by
    simp [Machine.fetch, pointed, kept, Machine.next]
  have stored : { restored.next with stack }.put v .that 0 = some written := by
    simp [Machine.put, written, restored, pointed, kept, Machine.next]
  have first : m.step p block = some kept := shows.step_pop rfl
  have second : kept.step p block = some pointed := shows₁.step_pop rfl
  have third : pointed.step p block = some restored := shows₂.step_push found
  have fourth : restored.step p block = some written := shows₃.step_pop stored
  exact ⟨written, .head first (.head second (.head third (.single fourth))), shows₃.behind, rfl,
    rfl⟩

/-! ### Jumps -/

end Leads

end Config

/-- The labels that code sets. -/
def Code.labels (code : List Code) : List Label :=
  code.filterMap fun
    | .label name => some name
    | _ => none

section Labels

variable {block code more target : List Code} {name : Label}

@[simp] theorem Code.labels_append (code more : List Code) :
    labels (code ++ more) = labels code ++ labels more :=
  List.filterMap_append

theorem Code.mem_labels : name ∈ labels code ↔ .label name ∈ code := by
  simp only [labels, List.mem_filterMap]
  constructor
  · rintro ⟨i, inside, found⟩
    cases i with
    | label other => cases found; exact inside
    | _ => cases found
  · intro inside
    exact ⟨_, inside, rfl⟩

/-- What stands behind a label that is set once. -/
theorem drop_idxOf_label (once : (Code.labels block).Nodup)
    (h : .label name :: target <:+ block) :
    block.drop (block.idxOf (.label name)) = .label name :: target := by
  obtain ⟨before, rfl⟩ := h
  have fresh : .label name ∉ before := by
    intro inside
    rw [Code.labels_append] at once
    exact (List.nodup_append.mp once).2.2 _ (Code.mem_labels.mpr inside) _
      (Code.mem_labels.mpr (List.mem_cons_self ..)) rfl
  rw [List.idxOf_append, if_neg fresh, List.idxOf_cons_self, Nat.zero_add, List.drop_left]

end Labels

namespace Config

section Jumps

variable {W : Type} {p : Platform W} {block rest target : List Code} {stack : List Word}
  {s : Store W} {name : Label}

theorem leads_goto (once : (Code.labels block).Nodup) (h : .label name :: target <:+ block) :
    Leads p block ⟨.goto name :: rest, stack, s⟩ ⟨.label name :: target, stack, s⟩ := by
  have inside : .label name ∈ block := h.subset (List.mem_cons_self ..)
  apply leads_of_step
  intro m shows
  refine ⟨{ m with pc := block.idxOf (.label name) }, ?_, drop_idxOf_label once h, shows.stack,
    shows.store⟩
  simp only [Machine.step, shows.instruction, Machine.jump, if_pos inside]

/-- A condition that holds is not jumped on. -/
theorem leads_stay :
    Leads p block ⟨.arithmetic .not :: .ifGoto name :: rest, BitVec.allOnes 16 :: stack, s⟩
      ⟨rest, stack, s⟩ := by
  refine (leads_arithmetic rfl).trans (leads_of_step ?_)
  intro m shows
  refine ⟨{ m.next with stack }, ?_, shows.behind, rfl, shows.store⟩
  simp [Machine.step, shows.instruction, shows.stack]

theorem leads_skip {v : Word} (fails : v ≠ BitVec.allOnes 16) (once : (Code.labels block).Nodup)
    (h : .label name :: target <:+ block) :
    Leads p block ⟨.arithmetic .not :: .ifGoto name :: rest, v :: stack, s⟩
      ⟨.label name :: target, stack, s⟩ := by
  have inside : .label name ∈ block := h.subset (List.mem_cons_self ..)
  have jumps : ~~~v ≠ 0 := by
    intro zero
    apply fails
    rw [← BitVec.not_not (b := v), zero]
    rfl
  refine (leads_arithmetic rfl).trans (leads_of_step ?_)
  intro m shows
  refine ⟨{ m with pc := block.idxOf (.label name), stack }, ?_, drop_idxOf_label once h, rfl,
    shows.store⟩
  simp only [Machine.step, shows.instruction, shows.stack, if_neg jumps, Machine.jump,
    if_pos inside]

end Jumps

end Config

end Jack
