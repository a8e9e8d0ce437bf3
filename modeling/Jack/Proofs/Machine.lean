import Mathlib.Logic.Relation
import Jack.Vm.Instruction

/-! A stack machine that runs the code of one subroutine. What it calls is a fixed function of the
name, the arguments and the store; it pops its arguments and pushes one word. -/

namespace Jack

abbrev Word := UInt16

structure Store where
  heap : Word → Word
  statics : Word → Word

/-- What a subroutine has to itself: its locals, its arguments and its object. -/
structure Frame where
  locals : Word → Word
  arguments : Word → Word
  this : Word

abbrev Library := String → List Word → Store → Word × Store

/-- The machine before the instructions that are left to run; the top of the stack comes first.
`this` and `that` are the two words of the pointer segment. -/
structure Machine where
  rest : List Instruction
  stack : List Word
  frame : Frame
  store : Store
  that : Word
  temp : Word → Word

/-- True is the word of all ones, false is zero. -/
def truth (b : Bool) : Word := if b then 65535 else 0

def putWord (f : Word → Word) (index value : Word) : Word → Word :=
  fun i => if i = index then value else f i

namespace Machine

/-- A word of a segment. Objects lie in the heap from `this` and `that` on. -/
def read? (m : Machine) : Segment → Word → Option Word
  | .constant, i => some i
  | .argument, i => some (m.frame.arguments i)
  | .local_, i => some (m.frame.locals i)
  | .static, i => some (m.store.statics i)
  | .this, i => some (m.store.heap (m.frame.this + i))
  | .that, i => some (m.store.heap (m.that + i))
  | .pointer, i => if i = 0 then some m.frame.this else if i = 1 then some m.that else none
  | .temp, i => some (m.temp i)

def write? (m : Machine) (w : Word) : Segment → Word → Option Machine
  | .constant, _ => none
  | .argument, i => some { m with frame.arguments := putWord m.frame.arguments i w }
  | .local_, i => some { m with frame.locals := putWord m.frame.locals i w }
  | .static, i => some { m with store.statics := putWord m.store.statics i w }
  | .this, i => some { m with store.heap := putWord m.store.heap (m.frame.this + i) w }
  | .that, i => some { m with store.heap := putWord m.store.heap (m.that + i) w }
  | .pointer, i =>
    if i = 0 then some { m with frame.this := w }
    else if i = 1 then some { m with that := w }
    else none
  | .temp, i => some { m with temp := putWord m.temp i w }

end Machine

/-- A command replaces its operands, the last one on top, by its result. Words are compared as
numbers with a sign. -/
def Command.run? : Command → List Word → Option (List Word)
  | .neg, w :: stack => some ((-w) :: stack)
  | .not, w :: stack => some ((~~~w) :: stack)
  | .add, w :: v :: stack => some ((v + w) :: stack)
  | .sub, w :: v :: stack => some ((v - w) :: stack)
  | .and, w :: v :: stack => some ((v &&& w) :: stack)
  | .or, w :: v :: stack => some ((v ||| w) :: stack)
  | .eq, w :: v :: stack => some (truth (v = w) :: stack)
  | .gt, w :: v :: stack => some (truth (w.toInt16 < v.toInt16) :: stack)
  | .lt, w :: v :: stack => some (truth (v.toInt16 < w.toInt16) :: stack)
  | _, _ => none

theorem Command.run?_append {c : Command} {us ws : List Word} (h : c.run? us = some ws)
    (base : List Word) : c.run? (us ++ base) = some (ws ++ base) := by
  match us with
  | [] => cases c <;> cases h
  | [w] => cases c <;> cases h <;> rfl
  | w :: v :: us => cases c <;> cases h <;> rfl

/-- The instructions from the first label of this name on. -/
def fromLabel? (name : String) : List Instruction → Option (List Instruction)
  | [] => none
  | i :: rest => if i = .label name then some (i :: rest) else fromLabel? name rest

theorem fromLabel?_append {name : String} {before : List Instruction}
    (h : .label name ∉ before) (rest : List Instruction) :
    fromLabel? name (before ++ .label name :: rest) = some (.label name :: rest) := by
  induction before with
  | nil => exact if_pos rfl
  | cons i before ih =>
    rw [List.mem_cons, not_or] at h
    rw [List.cons_append, fromLabel?, if_neg (Ne.symm h.1)]
    exact ih h.2

/-- One step in the code of a subroutine. A header or a return ends the run. -/
def Machine.step? (library : Library) (code : List Instruction) (m : Machine) : Option Machine :=
  match m.rest, m.stack with
  | .push segment index :: rest, stack =>
    (m.read? segment index).map fun w => { m with rest := rest, stack := w :: stack }
  | .pop segment index :: rest, w :: stack =>
    { m with rest := rest, stack := stack }.write? w segment index
  | .arithmetic command :: rest, stack =>
    (command.run? stack).map fun stack => { m with rest := rest, stack := stack }
  | .label _ :: rest, _ => some { m with rest := rest }
  | .goto name :: _, _ => (fromLabel? name code).map fun rest => { m with rest := rest }
  | .ifGoto name :: rest, w :: stack =>
    if w = 0 then some { m with rest := rest, stack := stack }
    else (fromLabel? name code).map fun rest => { m with rest := rest, stack := stack }
  | .call name count :: rest, stack =>
    if count.toNat ≤ stack.length then
      let result := library name (stack.take count.toNat).reverse m.store
      some { m with
        rest := rest, stack := result.1 :: stack.drop count.toNat, store := result.2 }
    else none
  | _, _ => none

def Runs (library : Library) (code : List Instruction) : Machine → Machine → Prop :=
  Relation.ReflTransGen fun m n => m.step? library code = some n

namespace Runs

variable {library : Library} {code : List Instruction} {m n o : Machine}

theorem refl (m : Machine) : Runs library code m m := Relation.ReflTransGen.refl

theorem step (h : m.step? library code = some n) : Runs library code m n :=
  Relation.ReflTransGen.single h

theorem trans (h : Runs library code m n) (h' : Runs library code n o) : Runs library code m o :=
  Relation.ReflTransGen.trans h h'

end Runs

end Jack
