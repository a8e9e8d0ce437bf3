import Jack.Code

/-! The derivation trees of the grammar of a class, and the words that each of them spells.
A tree has no places: layout and comments do not show in it. -/

namespace Jack

def BinaryOp.mark : BinaryOp → Punctuation
  | .add => .plus
  | .subtract => .minus
  | .multiply => .star
  | .divide => .slash
  | .and => .ampersand
  | .or => .bar
  | .less => .less
  | .greater => .greater
  | .equal => .equal

def UnaryOp.mark : UnaryOp → Punctuation
  | .negate => .minus
  | .complement => .tilde

def KeywordConstant.keyword : KeywordConstant → Keyword
  | .true_ => .true_
  | .false_ => .false_
  | .null => .null
  | .this => .this

def Role.keyword : Role → Keyword
  | .constructor => .constructor
  | .function => .function
  | .method => .method

@[simp] theorem BinaryOp.ofMark?_mark (op : BinaryOp) : BinaryOp.ofMark? op.mark = some op := by
  cases op <;> rfl

theorem BinaryOp.mark_of_ofMark? {m : Punctuation} {op : BinaryOp}
    (h : BinaryOp.ofMark? m = some op) : op.mark = m := by
  cases m <;> cases h <;> rfl

theorem UnaryOp.mark_of_ofMark? {m : Punctuation} {op : UnaryOp}
    (h : UnaryOp.ofMark? m = some op) : op.mark = m := by
  cases m <;> cases h <;> rfl

theorem KeywordConstant.keyword_of_ofKeyword? {w : Keyword} {k : KeywordConstant}
    (h : KeywordConstant.ofKeyword? w = some k) : k.keyword = w := by
  cases w <;> cases h <;> rfl

theorem Role.keyword_of_ofKeyword? {w : Keyword} {r : Role} (h : Role.ofKeyword? w = some r) :
    r.keyword = w := by
  cases w <;> cases h <;> rfl

inductive TypeName where
  | int | char | boolean
  | class_ (name : String)
  deriving DecidableEq, Repr

def TypeName.lexeme : TypeName → Lexeme
  | .int => .keyword .int
  | .char => .keyword .char
  | .boolean => .keyword .boolean
  | .class_ name => .identifier name

/-- The spelling of a type, by which variables keep it. -/
def TypeName.spelling (t : TypeName) : String := t.lexeme.text

mutual

inductive Term where
  | integer (value : UInt16)
  | string (text : String)
  | constant (word : KeywordConstant)
  | variable (name : String)
  | element (name : String) (index : Expression)
  | call (call : Call)
  | group (inner : Expression)
  | unary (op : UnaryOp) (operand : Term)

/-- The right operand of an operator is all that follows it. -/
inductive Expression where
  | term (operand : Term)
  | binary (left : Term) (op : BinaryOp) (right : Expression)

inductive Call where
  | own (name : String) (args : List Expression)
  | member (owner name : String) (args : List Expression)

end

inductive Statement where
  | letVariable (target : String) (value : Expression)
  | letElement (target : String) (index value : Expression)
  | if_ (condition : Expression) (body : List Statement) (otherwise : Option (List Statement))
  | while_ (condition : Expression) (body : List Statement)
  | do_ (call : Call)
  | return_ (value : Option Expression)

structure ClassVarDec where
  kind : Kind
  ofClass : kind.ofClass = true
  type : TypeName
  first : String
  more : List String

structure Parameter where
  type : TypeName
  name : String

structure VarDec where
  type : TypeName
  first : String
  more : List String

/-- A subroutine; without a result type it is declared with `void`. -/
structure SubroutineDec where
  role : Role
  result : Option TypeName
  name : String
  parameters : List Parameter
  vars : List VarDec
  body : List Statement

structure ClassDec where
  name : String
  vars : List ClassVarDec
  subroutines : List SubroutineDec

def ClassVarDec.names (d : ClassVarDec) : List String := d.first :: d.more

def VarDec.names (d : VarDec) : List String := d.first :: d.more

def Call.args : Call → List Expression
  | .own _ args | .member _ _ args => args

/-! ### The words of a tree -/

mutual

def Term.lexemes : Term → List Lexeme
  | .integer value => [.integer value]
  | .string text => [.string text]
  | .constant word => [.keyword word.keyword]
  | .variable name => [.identifier name]
  | .element name index =>
    .identifier name :: .symbol .leftBracket :: index.lexemes ++ [.symbol .rightBracket]
  | .call call => call.lexemes
  | .group inner => .symbol .leftParen :: inner.lexemes ++ [.symbol .rightParen]
  | .unary op operand => .symbol op.mark :: operand.lexemes

def Expression.lexemes : Expression → List Lexeme
  | .term operand => operand.lexemes
  | .binary left op right => left.lexemes ++ .symbol op.mark :: right.lexemes

def Call.lexemes : Call → List Lexeme
  | .own name args =>
    .identifier name :: .symbol .leftParen :: argumentLexemes args ++ [.symbol .rightParen]
  | .member owner name args =>
    .identifier owner :: .symbol .dot :: .identifier name :: .symbol .leftParen
      :: argumentLexemes args ++ [.symbol .rightParen]

def argumentLexemes : List Expression → List Lexeme
  | [] => []
  | e :: es => e.lexemes ++ moreArgumentLexemes es

/-- The arguments after the first one, each after a comma. -/
def moreArgumentLexemes : List Expression → List Lexeme
  | [] => []
  | e :: es => .symbol .comma :: e.lexemes ++ moreArgumentLexemes es

end

def Expression.conditionLexemes (e : Expression) : List Lexeme :=
  .symbol .leftParen :: e.lexemes ++ [.symbol .rightParen]

def inBraces (ls : List Lexeme) : List Lexeme := .symbol .leftBrace :: ls ++ [.symbol .rightBrace]

mutual

def Statement.lexemes : Statement → List Lexeme
  | .letVariable target value =>
    .keyword .let_ :: .identifier target :: .symbol .equal :: value.lexemes
      ++ [.symbol .semicolon]
  | .letElement target index value =>
    .keyword .let_ :: .identifier target :: .symbol .leftBracket :: index.lexemes
      ++ .symbol .rightBracket :: .symbol .equal :: value.lexemes ++ [.symbol .semicolon]
  | .if_ condition body otherwise =>
    .keyword .if_ :: condition.conditionLexemes ++ inBraces (statementLexemes body)
      ++ otherwiseLexemes otherwise
  | .while_ condition body =>
    .keyword .while_ :: condition.conditionLexemes ++ inBraces (statementLexemes body)
  | .do_ call => .keyword .do_ :: call.lexemes ++ [.symbol .semicolon]
  | .return_ none => [.keyword .return_, .symbol .semicolon]
  | .return_ (some value) => .keyword .return_ :: value.lexemes ++ [.symbol .semicolon]

def statementLexemes : List Statement → List Lexeme
  | [] => []
  | s :: ss => s.lexemes ++ statementLexemes ss

def otherwiseLexemes : Option (List Statement) → List Lexeme
  | none => []
  | some body => .keyword .else_ :: inBraces (statementLexemes body)

end

def nameLexemes (first : String) (more : List String) : List Lexeme :=
  .identifier first :: more.flatMap fun name => [.symbol .comma, .identifier name]

/-- The word that statics or fields are declared with. -/
def Kind.keyword : Kind → Keyword
  | .static => .static
  | _ => .field

def ClassVarDec.lexemes (d : ClassVarDec) : List Lexeme :=
  .keyword d.kind.keyword :: d.type.lexeme :: nameLexemes d.first d.more ++ [.symbol .semicolon]

def VarDec.lexemes (d : VarDec) : List Lexeme :=
  .keyword .var :: d.type.lexeme :: nameLexemes d.first d.more ++ [.symbol .semicolon]

def Parameter.lexemes (p : Parameter) : List Lexeme := [p.type.lexeme, .identifier p.name]

def parameterLexemes : List Parameter → List Lexeme
  | [] => []
  | p :: ps => p.lexemes ++ ps.flatMap fun p => .symbol .comma :: p.lexemes

def resultLexeme : Option TypeName → Lexeme
  | none => .keyword .void
  | some type => type.lexeme

def SubroutineDec.lexemes (d : SubroutineDec) : List Lexeme :=
  .keyword d.role.keyword :: resultLexeme d.result :: .identifier d.name :: .symbol .leftParen
    :: parameterLexemes d.parameters ++ .symbol .rightParen
    :: inBraces (d.vars.flatMap VarDec.lexemes ++ statementLexemes d.body)

def ClassDec.lexemes (c : ClassDec) : List Lexeme :=
  .keyword .class_ :: .identifier c.name
    :: inBraces (c.vars.flatMap ClassVarDec.lexemes
      ++ c.subroutines.flatMap SubroutineDec.lexemes)

/-! ### The words of the declarations are words of the class -/

theorem ClassDec.mem_lexemes_of_var {c : ClassDec} {v : ClassVarDec} {l : Lexeme}
    (hv : v ∈ c.vars) (hl : l ∈ v.lexemes) : l ∈ c.lexemes := by
  have hmem : l ∈ c.vars.flatMap ClassVarDec.lexemes := List.mem_flatMap.2 ⟨v, hv, hl⟩
  simp [-List.mem_flatMap, ClassDec.lexemes, inBraces, hmem]

theorem ClassDec.mem_lexemes_of_subroutine {c : ClassDec} {d : SubroutineDec} {l : Lexeme}
    (hd : d ∈ c.subroutines) (hl : l ∈ d.lexemes) : l ∈ c.lexemes := by
  have hmem : l ∈ c.subroutines.flatMap SubroutineDec.lexemes := List.mem_flatMap.2 ⟨d, hd, hl⟩
  simp [-List.mem_flatMap, ClassDec.lexemes, inBraces, hmem]

theorem SubroutineDec.mem_lexemes_of_var {d : SubroutineDec} {v : VarDec} {l : Lexeme}
    (hv : v ∈ d.vars) (hl : l ∈ v.lexemes) : l ∈ d.lexemes := by
  have hmem : l ∈ d.vars.flatMap VarDec.lexemes := List.mem_flatMap.2 ⟨v, hv, hl⟩
  simp [-List.mem_flatMap, SubroutineDec.lexemes, inBraces, hmem]

theorem SubroutineDec.mem_lexemes_of_parameter {d : SubroutineDec} {p : Parameter} {l : Lexeme}
    (hp : p ∈ d.parameters) (hl : l ∈ p.lexemes) : l ∈ d.lexemes := by
  have hmem : l ∈ parameterLexemes d.parameters := by
    cases hps : d.parameters with
    | nil =>
      rw [hps] at hp
      cases hp
    | cons q qs =>
      rw [hps] at hp
      rcases List.mem_cons.1 hp with rfl | hp
      · exact List.mem_append_left _ hl
      · exact List.mem_append_right _ (List.mem_flatMap.2 ⟨p, hp, List.mem_cons_of_mem _ hl⟩)
  simp [SubroutineDec.lexemes, hmem]

/-! ### Where a tree ends

An expression goes on as far as it can, so what follows it must not belong to it. -/

/-- The words begin with no mark that a name can go on with. -/
def EndName (rest : List Lexeme) : Prop :=
  ∀ m ls, rest = .symbol m :: ls → m ≠ .leftBracket ∧ m ≠ .leftParen ∧ m ≠ .dot

/-- The words begin with no operator. -/
def EndOperands (rest : List Lexeme) : Prop := ∀ (op : BinaryOp) ls, rest ≠ .symbol op.mark :: ls

/-- A term is complete before the words. -/
def Term.EndedBy (rest : List Lexeme) : Term → Prop
  | .variable _ => EndName rest
  | .unary _ operand => operand.EndedBy rest
  | .integer _ | .string _ | .constant _ | .element _ _ | .call _ | .group _ => True

def Expression.EndedBy (rest : List Lexeme) : Expression → Prop
  | .term operand => operand.EndedBy rest ∧ EndOperands rest
  | .binary _ _ right => right.EndedBy rest

/-! ### What a tree uses, and its branching constructs -/

/-- What needs a declaration or a bound: a name that should stand for a variable, or a call. -/
inductive Use where
  | variable (name : String)
  | call (call : Call)

mutual

/-- The variables and calls of a term, nested ones too. -/
def Term.uses : Term → List Use
  | .integer _ | .string _ | .constant _ => []
  | .variable name => [.variable name]
  | .element name index => .variable name :: index.uses
  | .call call => call.uses
  | .group inner => inner.uses
  | .unary _ operand => operand.uses

def Expression.uses : Expression → List Use
  | .term operand => operand.uses
  | .binary left _ right => left.uses ++ right.uses

def Call.uses : Call → List Use
  | .own name args => usesOf args ++ [.call (.own name args)]
  | .member owner name args => usesOf args ++ [.call (.member owner name args)]

def usesOf : List Expression → List Use
  | [] => []
  | e :: es => e.uses ++ usesOf es

end

mutual

def Statement.uses : Statement → List Use
  | .letVariable target value => .variable target :: value.uses
  | .letElement target index value => .variable target :: (index.uses ++ value.uses)
  | .if_ condition body otherwise =>
    condition.uses ++ statementUses body ++ otherwiseUses otherwise
  | .while_ condition body => condition.uses ++ statementUses body
  | .do_ call => call.uses
  | .return_ none => []
  | .return_ (some value) => value.uses

def statementUses : List Statement → List Use
  | [] => []
  | s :: ss => s.uses ++ statementUses ss

def otherwiseUses : Option (List Statement) → List Use
  | none => []
  | some body => statementUses body

end

mutual

/-- How many `if` and `while` a statement holds, itself included. -/
def Statement.constructs : Statement → Nat
  | .letVariable _ _ | .letElement _ _ _ | .do_ _ | .return_ _ => 0
  | .if_ _ body otherwise => 1 + constructsOf body + constructsOfOtherwise otherwise
  | .while_ _ body => 1 + constructsOf body

def constructsOf : List Statement → Nat
  | [] => 0
  | s :: ss => s.constructs + constructsOf ss

def constructsOfOtherwise : Option (List Statement) → Nat
  | none => 0
  | some body => constructsOf body

end

end Jack
