import Std.Data.TreeMap
import Jack.Vm.Instruction

/-!
The variables that a name may stand for. A class has statics and fields, the subroutine at hand
has arguments and locals. A name stands for the latest variable of the subroutine that bears it,
or else for the latest one of the class.
-/

namespace Jack

inductive Kind where
  | static | field | argument | var
  deriving DecidableEq, Repr

def Kind.all : List Kind := [.static, .field, .argument, .var]

def Kind.name : Kind → String
  | .static => "static"
  | .field => "field"
  | .argument => "argument"
  | .var => "var"

def Kind.segment : Kind → Segment
  | .static => .static
  | .field => .this
  | .argument => .argument
  | .var => .local_

/-- Statics and fields belong to the class, arguments and locals to the subroutine. -/
def Kind.ofClass : Kind → Bool
  | .static | .field => true
  | .argument | .var => false

/-- A declared variable. Its type is a primitive type or the name of a class. -/
structure Variable where
  name : String
  type : String
  kind : Kind
  index : UInt16
  deriving DecidableEq, Repr

/-- The latest variable of each name, of the class and of the subroutine, and how many variables of
each kind were declared. -/
structure Scope where
  ofClass : Std.TreeMap String Variable
  ofSubroutine : Std.TreeMap String Variable
  statics : UInt16
  fields : UInt16
  arguments : UInt16
  vars : UInt16

def Scope.empty : Scope := ⟨∅, ∅, 0, 0, 0, 0⟩

/-- How many variables of a kind were declared, repeated names counted. -/
def Scope.count (s : Scope) : Kind → UInt16
  | .static => s.statics
  | .field => s.fields
  | .argument => s.arguments
  | .var => s.vars

/-- Forgets the arguments and locals. -/
def Scope.startSubroutine (s : Scope) : Scope :=
  { s with ofSubroutine := ∅, arguments := 0, vars := 0 }

/-- Adds a variable of the class or of the subroutine, by its kind, and sets the kind's count. -/
def Scope.add (s : Scope) (v : Variable) (count : UInt16) : Scope :=
  match v.kind with
  | .static => { s with ofClass := s.ofClass.insert v.name v, statics := count }
  | .field => { s with ofClass := s.ofClass.insert v.name v, fields := count }
  | .argument => { s with ofSubroutine := s.ofSubroutine.insert v.name v, arguments := count }
  | .var => { s with ofSubroutine := s.ofSubroutine.insert v.name v, vars := count }

/-- Declares a variable under the next index of its kind. `none` when the kind is full. -/
def Scope.define? (s : Scope) (name type : String) (kind : Kind) : Option Scope :=
  match nextWord? (s.count kind) with
  | some n => some (s.add ⟨name, type, kind, s.count kind⟩ n)
  | none => none

/-- The variable that a name stands for. -/
def Scope.lookup (s : Scope) (name : String) : Option Variable :=
  s.ofSubroutine[name]?.or s.ofClass[name]?

theorem Scope.define?_eq_none_iff {s : Scope} {name type : String} {kind : Kind} :
    s.define? name type kind = none ↔ s.count kind = 65535 := by
  unfold Scope.define? nextWord?
  by_cases h : s.count kind = 65535 <;> simp [h]

/-- A declaration takes the next index of its kind and counts once. -/
theorem Scope.define?_eq_some {s t : Scope} {name type : String} {kind : Kind}
    (h : s.define? name type kind = some t) :
    ∃ n, nextWord? (s.count kind) = some n ∧ t = s.add ⟨name, type, kind, s.count kind⟩ n := by
  unfold Scope.define? at h
  split at h
  · rename_i n hn
    exact ⟨n, hn, (Option.some.inj h).symm⟩
  · cases h

@[simp] theorem Scope.count_add (s : Scope) (v : Variable) (n : UInt16) (kind : Kind) :
    (s.add v n).count kind = if v.kind = kind then n else s.count kind := by
  unfold Scope.add
  cases hv : v.kind <;> cases kind <;> simp [Scope.count]

@[simp] theorem Scope.count_startSubroutine (s : Scope) (kind : Kind) :
    s.startSubroutine.count kind = if kind.ofClass then s.count kind else 0 := by
  cases kind <;> rfl

@[simp] theorem Scope.lookup_startSubroutine (s : Scope) (name : String) :
    s.startSubroutine.lookup name = s.ofClass[name]? := by
  simp [Scope.lookup, Scope.startSubroutine]

/-- A variable of the subroutine hides every other one of its name. -/
theorem Scope.lookup_add_of_subroutine (s : Scope) (v : Variable) (n : UInt16) (name : String)
    (h : v.kind.ofClass = false) :
    (s.add v n).lookup name = if v.name = name then some v else s.lookup name := by
  unfold Scope.add
  cases hv : v.kind <;> simp [hv, Kind.ofClass] at h <;> by_cases hn : v.name = name <;>
    simp [Scope.lookup, Std.TreeMap.getElem?_insert, hn]

/-- A variable of the class hides the earlier ones of the class alone. -/
theorem Scope.lookup_add_of_class (s : Scope) (v : Variable) (n : UInt16) (name : String)
    (h : v.kind.ofClass = true) :
    (s.add v n).lookup name
      = s.ofSubroutine[name]?.or (if v.name = name then some v else s.ofClass[name]?) := by
  unfold Scope.add
  cases hv : v.kind <;> simp [hv, Kind.ofClass] at h <;> by_cases hn : v.name = name <;>
    simp [Scope.lookup, Std.TreeMap.getElem?_insert, hn]

end Jack
