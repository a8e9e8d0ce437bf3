import Jack.Proofs.Declarations

/-! The translation of derivation trees to instructions, by the structure of the tree alone. An
`if` or `while` is numbered by how many of them begin before it in the file. -/

namespace Jack

def Variable.read : Variable → Instruction
  | ⟨_, _, .static, index⟩ => .push .static index
  | ⟨_, _, .field, index⟩ => .push .this index
  | ⟨_, _, .argument, index⟩ => .push .argument index
  | ⟨_, _, .var, index⟩ => .push .local_ index

def Variable.write : Variable → Instruction
  | ⟨_, _, .static, index⟩ => .pop .static index
  | ⟨_, _, .field, index⟩ => .pop .this index
  | ⟨_, _, .argument, index⟩ => .pop .argument index
  | ⟨_, _, .var, index⟩ => .pop .local_ index

/-- Nothing is read for a name that stands for no variable. -/
def Context.read (k : Context) (name : String) : List Instruction :=
  (k.lookup name).toList.map Variable.read

def Context.write (k : Context) (name : String) : List Instruction :=
  (k.lookup name).toList.map Variable.write

def BinaryOp.code : BinaryOp → Instruction
  | .add => .arithmetic .add
  | .subtract => .arithmetic .sub
  | .multiply => .call "Math.multiply" 2
  | .divide => .call "Math.divide" 2
  | .and => .arithmetic .and
  | .or => .arithmetic .or
  | .less => .arithmetic .lt
  | .greater => .arithmetic .gt
  | .equal => .arithmetic .eq

def UnaryOp.code : UnaryOp → Instruction
  | .negate => .arithmetic .neg
  | .complement => .arithmetic .not

def KeywordConstant.value : KeywordConstant → List Instruction
  | .true_ => [.push .constant 0, .arithmetic .not]
  | .false_ | .null => [.push .constant 0]
  | .this => [.push .pointer 0]

def stringValue (text : String) : List Instruction :=
  .push .constant (UInt16.ofNat text.length) :: .call "String.new" 1
    :: text.toList.flatMap fun c =>
      [.push .constant (UInt16.ofNat c.toNat), .call "String.appendChar" 2]

mutual

def Term.code (k : Context) : Term → List Instruction
  | .integer value => [.push .constant value]
  | .string text => stringValue text
  | .constant word => word.value
  | .variable name => k.read name
  | .element name index =>
    k.read name ++ index.code k ++ [.arithmetic .add, .pop .pointer 1, .push .that 0]
  | .call call => call.code k
  | .group inner => inner.code k
  | .unary op operand => operand.code k ++ [op.code]

/-- Operands from left to right, then the operators from the last to the first. -/
def Expression.code (k : Context) : Expression → List Instruction
  | .term operand => operand.code k
  | .binary left op right => left.code k ++ right.code k ++ [op.code]

/-- A call without a dot is one of the current object. A name before the dot is an object if it
stands for a variable, and the object is passed first, or else a class. -/
def Call.code (k : Context) : Call → List Instruction
  | .own name args =>
    .push .pointer 0 :: argumentCode k args
      ++ [.call (k.className ++ "." ++ name) (UInt16.ofNat (args.length + 1))]
  | .member owner name args =>
    match k.lookup owner with
    | some v =>
      v.read :: argumentCode k args
        ++ [.call (v.type ++ "." ++ name) (UInt16.ofNat (args.length + 1))]
    | none =>
      argumentCode k args ++ [.call (owner ++ "." ++ name) (UInt16.ofNat args.length)]

def argumentCode (k : Context) : List Expression → List Instruction
  | [] => []
  | e :: es => e.code k ++ argumentCode k es

end

mutual

/-- The code of a statement whose first construct has the number `n`. -/
def Statement.code (k : Context) (n : Nat) : Statement → List Instruction
  | .letVariable target value => value.code k ++ k.write target
  | .letElement target index value =>
    k.read target ++ index.code k ++ .arithmetic .add :: value.code k
      ++ [.pop .temp 0, .pop .pointer 1, .push .temp 0, .pop .that 0]
  | .if_ condition body otherwise =>
    condition.code k ++ [.arithmetic .not, .ifGoto ("IF_FALSE" ++ toString n)]
      ++ statementCode k (n + 1) body
      ++ [.goto ("IF_END" ++ toString n), .label ("IF_FALSE" ++ toString n)]
      ++ otherwiseCode k (n + 1 + constructsOf body) otherwise
      ++ [.label ("IF_END" ++ toString n)]
  | .while_ condition body =>
    .label ("WHILE_EXP" ++ toString n) :: condition.code k
      ++ [.arithmetic .not, .ifGoto ("WHILE_END" ++ toString n)]
      ++ statementCode k (n + 1) body
      ++ [.goto ("WHILE_EXP" ++ toString n), .label ("WHILE_END" ++ toString n)]
  | .do_ call => call.code k ++ [.pop .temp 0]
  | .return_ none => [.push .constant 0, .return_]
  | .return_ (some value) => value.code k ++ [.return_]

def statementCode (k : Context) (n : Nat) : List Statement → List Instruction
  | [] => []
  | s :: ss => s.code k n ++ statementCode k (n + s.constructs) ss

def otherwiseCode (k : Context) (n : Nat) : Option (List Statement) → List Instruction
  | none => []
  | some body => statementCode k n body

end

/-- What comes before the statements: a constructor allocates a word for each field, a method
finds its object in its first argument. -/
def Role.prologue (fields : Nat) : Role → List Instruction
  | .constructor =>
    [.push .constant (UInt16.ofNat fields), .call "Memory.alloc" 1, .pop .pointer 0]
  | .function => []
  | .method => [.push .argument 0, .pop .pointer 0]

def ClassDec.fieldCount (c : ClassDec) : Nat := c.declared.countP (·.kind = .field)

/-- The code of a subroutine after its header. -/
def ClassDec.bodyCode (c : ClassDec) (n : Nat) (d : SubroutineDec) : List Instruction :=
  d.role.prologue c.fieldCount ++ statementCode (c.context d) n d.body

def ClassDec.subroutineCode (c : ClassDec) (n : Nat) (d : SubroutineDec) : List Instruction :=
  .function (c.name ++ "." ++ d.name) (UInt16.ofNat d.localCount) :: c.bodyCode n d

def ClassDec.codeFrom (c : ClassDec) (n : Nat) : List SubroutineDec → List Instruction
  | [] => []
  | d :: ds => c.subroutineCode n d ++ c.codeFrom (n + constructsOf d.body) ds

def ClassDec.code (c : ClassDec) : List Instruction := c.codeFrom 0 c.subroutines

end Jack
