import Jack.Scope
import Jack.Token.Basic

/-!
What the parts of the language mean to the machine: the routines of the library that compiled
code relies on, the labels of branches, and the code of operators, constants and preambles.
-/

namespace Jack

/-- The name that stands for the current object inside a method. -/
def thisName : String := "this"

namespace Routine

/-- Multiplies two words. -/
def multiply : String := "Math.multiply"

/-- Divides a word by another. -/
def divide : String := "Math.divide"

/-- Allocates the storage of an object. -/
def alloc : String := "Memory.alloc"

/-- Makes an empty string of a given capacity. -/
def newString : String := "String.new"

/-- Appends a character to a string and returns the string. -/
def appendChar : String := "String.appendChar"

end Routine

inductive Label where
  | ifFalse | ifEnd | whileStart | whileEnd
  deriving DecidableEq, Repr

def Label.stem : Label → String
  | .ifFalse => "IF_FALSE"
  | .ifEnd => "IF_END"
  | .whileStart => "WHILE_EXP"
  | .whileEnd => "WHILE_END"

/-- The name of a label of the branching construct number `n`. -/
def Label.at (l : Label) (n : Nat) : String := l.stem ++ toString n

inductive BinaryOp where
  | add | subtract | multiply | divide | and | or | less | greater | equal
  deriving DecidableEq, Repr

def BinaryOp.ofMark? : Punctuation → Option BinaryOp
  | .plus => some .add
  | .minus => some .subtract
  | .star => some .multiply
  | .slash => some .divide
  | .ampersand => some .and
  | .bar => some .or
  | .less => some .less
  | .greater => some .greater
  | .equal => some .equal
  | _ => none

/-- Multiplication and division are calls of the library, all else is one command. -/
def BinaryOp.instruction : BinaryOp → Instruction
  | .add => .arithmetic .add
  | .subtract => .arithmetic .sub
  | .multiply => .call Routine.multiply 2
  | .divide => .call Routine.divide 2
  | .and => .arithmetic .and
  | .or => .arithmetic .or
  | .less => .arithmetic .lt
  | .greater => .arithmetic .gt
  | .equal => .arithmetic .eq

inductive UnaryOp where
  | negate | complement
  deriving DecidableEq, Repr

/-- The operator that a punctuation mark is, where an operand may start. -/
def UnaryOp.ofMark? : Punctuation → Option UnaryOp
  | .minus => some .negate
  | .tilde => some .complement
  | _ => none

def UnaryOp.command : UnaryOp → Command
  | .negate => .neg
  | .complement => .not

inductive KeywordConstant where
  | true_ | false_ | null | this
  deriving DecidableEq, Repr

def KeywordConstant.ofKeyword? : Keyword → Option KeywordConstant
  | .true_ => some .true_
  | .false_ => some .false_
  | .null => some .null
  | .this => some .this
  | _ => none

/-- True is the word of all ones, false and null are zero, `this` is the current object. -/
def KeywordConstant.code : KeywordConstant → List Instruction
  | .true_ => [.push .constant 0, .arithmetic .not]
  | .false_ | .null => [.push .constant 0]
  | .this => [.push .pointer 0]

/-- Appends one character to the string on the stack. -/
def appendCode (c : Char) : List Instruction :=
  [.push .constant (UInt16.ofNat c.toNat), .call Routine.appendChar 2]

/-- Builds a string, one character at a time. -/
def stringCode (text : String) : List Instruction :=
  .push .constant (UInt16.ofNat text.length) :: .call Routine.newString 1
    :: text.toList.flatMap appendCode

/-- Replaces the address on the stack by the word stored there. -/
def fetchCode : List Instruction :=
  [.arithmetic .add, .pop .pointer 1, .push .that 0]

/-- Stores the word on the stack at the address below it. -/
def assignCode : List Instruction :=
  [.pop .temp 0, .pop .pointer 1, .push .temp 0, .pop .that 0]

def Variable.pushCode (v : Variable) : Instruction := .push v.kind.segment v.index

def Variable.popCode (v : Variable) : Instruction := .pop v.kind.segment v.index

inductive Role where
  | constructor | function | method
  deriving DecidableEq, Repr

def Role.ofKeyword? : Keyword → Option Role
  | .constructor => some .constructor
  | .function => some .function
  | .method => some .method
  | _ => none

/-- What a subroutine does before its statements: a constructor allocates a word for each field,
a method finds its object in its first argument. -/
def Role.preamble (fields : UInt16) : Role → List Instruction
  | .constructor => [.push .constant fields, .call Routine.alloc 1, .pop .pointer 0]
  | .function => []
  | .method => [.push .argument 0, .pop .pointer 0]

def qualified (owner name : String) : String := owner ++ "." ++ name

end Jack
