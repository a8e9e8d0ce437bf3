/-!
The instructions of the stack machine and the text of each.
-/

namespace Jack

inductive Segment where
  | constant | argument | local_ | static | this | that | pointer | temp
  deriving DecidableEq, Repr

def Segment.all : List Segment :=
  [.constant, .argument, .local_, .static, .this, .that, .pointer, .temp]

def Segment.name : Segment → String
  | .constant => "constant"
  | .argument => "argument"
  | .local_ => "local"
  | .static => "static"
  | .this => "this"
  | .that => "that"
  | .pointer => "pointer"
  | .temp => "temp"

inductive Command where
  | add | sub | neg | eq | gt | lt | and | or | not
  deriving DecidableEq, Repr

def Command.all : List Command := [.add, .sub, .neg, .eq, .gt, .lt, .and, .or, .not]

def Command.name : Command → String
  | .add => "add"
  | .sub => "sub"
  | .neg => "neg"
  | .eq => "eq"
  | .gt => "gt"
  | .lt => "lt"
  | .and => "and"
  | .or => "or"
  | .not => "not"

/-- One instruction. Operands and counts are unsigned words of 16 bits. -/
inductive Instruction where
  | push (segment : Segment) (index : UInt16)
  | pop (segment : Segment) (index : UInt16)
  | arithmetic (command : Command)
  | label (name : String)
  | goto (name : String)
  | ifGoto (name : String)
  | call (name : String) (args : UInt16)
  | function (name : String) (locals : UInt16)
  | return_
  deriving DecidableEq, Repr

def Instruction.text : Instruction → String
  | .push segment index => "push " ++ segment.name ++ " " ++ toString index.toNat
  | .pop segment index => "pop " ++ segment.name ++ " " ++ toString index.toNat
  | .arithmetic command => command.name
  | .label name => "label " ++ name
  | .goto name => "goto " ++ name
  | .ifGoto name => "if-goto " ++ name
  | .call name args => "call " ++ name ++ " " ++ toString args.toNat
  | .function name locals => "function " ++ name ++ " " ++ toString locals.toNat
  | .return_ => "return"

/-- The name of the function that an instruction heads. -/
def Instruction.header? : Instruction → Option String
  | .function name _ => some name
  | _ => none

/-- The number after `n` that a 16-bit word holds, if there is one. -/
def nextWord? (n : UInt16) : Option UInt16 := if n = 65535 then none else some (n + 1)

/-- The sum of two numbers, if a 16-bit word holds it. -/
def addWords? (m n : UInt16) : Option UInt16 :=
  if m.toNat + n.toNat < 65536 then some (m + n) else none

theorem toNat_of_nextWord? {m n : UInt16} (h : nextWord? m = some n) : n.toNat = m.toNat + 1 := by
  unfold nextWord? at h
  split at h
  · exact absurd h (by simp)
  · rename_i hm
    have hlt : m.toNat < 65536 := m.toNat_lt
    have hne : m.toNat ≠ 65535 := fun e => hm (UInt16.toNat.inj (by simpa using e))
    cases h
    rw [UInt16.toNat_add]
    have : (1 : UInt16).toNat = 1 := rfl
    omega

theorem toNat_of_addWords? {k m n : UInt16} (h : addWords? k m = some n) :
    n.toNat = k.toNat + m.toNat := by
  unfold addWords? at h
  split at h
  · cases h
    rw [UInt16.toNat_add]
    omega
  · exact absurd h (by simp)

end Jack
