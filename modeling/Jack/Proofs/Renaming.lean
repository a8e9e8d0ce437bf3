import Jack.Proofs.Layout
import Jack.Proofs.Syntax
import Mathlib.Logic.Equiv.Basic

/-! Other identifiers for those of a text. A renaming changes the identifiers among the words, and
the same names in the derivation tree; keywords, and with them the primitive types, stay. -/

namespace Jack

/-! ### Renamings -/

/-- The word is an identifier: no keyword, and written with the characters of a word. -/
def isIdentifier (name : String) : Bool :=
  match name.toList with
  | [] => false
  | c :: cs => !c.isDigit && (c :: cs).all isWordChar && (Keyword.ofSpelling? name).isNone

theorem isIdentifier_iff {name : String} :
    isIdentifier name = true ↔ (Lexeme.identifier name).Valid := by
  have hkeyword : (Keyword.ofSpelling? name).isNone = true ↔ ∀ k : Keyword, name ≠ k.spelling := by
    rw [Option.isNone_iff_eq_none, Option.eq_none_iff_forall_ne_some]
    refine forall_congr' fun k => ?_
    rw [ne_eq, ne_eq, Keyword.ofSpelling?_eq_some_iff, eq_comm]
  rw [isIdentifier, Lexeme.Valid]
  cases name.toList with
  | nil => simp
  | cons c cs =>
    rw [Bool.and_eq_true, hkeyword, Bool.and_eq_true, List.all_eq_true, Bool.not_eq_true']
    refine and_congr_left fun _ => ⟨fun h => ⟨c, cs, rfl, h⟩, ?_⟩
    rintro ⟨d, ds, heq, h⟩
    cases heq
    exact h

/-- The words that can name a class, a variable or a subroutine. -/
def Identifier : Type := { name : String // isIdentifier name = true }
  deriving DecidableEq

/-- The names of the library that compiled code calls. -/
def libraryNames : List String :=
  ["Math", "multiply", "divide", "Memory", "alloc", "String", "new", "appendChar"]

/-- Identifiers for identifiers, different ones for different ones, that leaves the library be. -/
structure Renaming where
  image : Identifier → Identifier
  injective : Function.Injective image
  fixes : ∀ x : Identifier, x.val ∈ libraryNames → image x = x

/-- The new name. What is no identifier stays as it is. -/
def Renaming.name (ρ : Renaming) (x : String) : String :=
  if h : isIdentifier x = true then (ρ.image ⟨x, h⟩).val else x

namespace Renaming

/-- Two names that are not the library's change places. -/
def exchange (x y : Identifier) (hx : x.val ∉ libraryNames) (hy : y.val ∉ libraryNames) :
    Renaming where
  image := Equiv.swap x y
  injective := (Equiv.swap x y).injective
  fixes := by
    intro z hz
    have hzx : z ≠ x := fun h => hx (h ▸ hz)
    have hzy : z ≠ y := fun h => hy (h ▸ hz)
    exact Equiv.swap_apply_of_ne_of_ne hzx hzy

variable (ρ : Renaming)

theorem name_of_identifier {x : String} (h : isIdentifier x = true) :
    ρ.name x = (ρ.image ⟨x, h⟩).val := dif_pos h

theorem name_of_not_identifier {x : String} (h : isIdentifier x = false) : ρ.name x = x :=
  dif_neg (by rw [h]; exact Bool.false_ne_true)

theorem isIdentifier_name (x : String) : isIdentifier (ρ.name x) = isIdentifier x := by
  cases h : isIdentifier x with
  | false => rw [ρ.name_of_not_identifier h, h]
  | true => rw [ρ.name_of_identifier h, (ρ.image ⟨x, h⟩).property]

theorem name_injective : Function.Injective ρ.name := by
  intro x y hxy
  have hkind : isIdentifier x = isIdentifier y := by
    rw [← ρ.isIdentifier_name x, hxy, ρ.isIdentifier_name]
  cases hx : isIdentifier x with
  | false =>
    rwa [ρ.name_of_not_identifier hx, ρ.name_of_not_identifier (hkind.symm.trans hx)] at hxy
  | true =>
    rw [ρ.name_of_identifier hx, ρ.name_of_identifier (hkind.symm.trans hx)] at hxy
    exact congrArg Subtype.val (ρ.injective (Subtype.ext hxy))

@[simp] theorem name_keyword (k : Keyword) : ρ.name k.spelling = k.spelling := by
  refine ρ.name_of_not_identifier (Bool.eq_false_iff.2 fun h => ?_)
  exact (isIdentifier_iff.1 h).2 k rfl

theorem name_library {x : String} (h : x ∈ libraryNames) : ρ.name x = x := by
  cases hx : isIdentifier x with
  | false => exact ρ.name_of_not_identifier hx
  | true => rw [ρ.name_of_identifier hx, ρ.fixes ⟨x, hx⟩ h]

end Renaming

/-! ### Renamed words and trees -/

variable (f : String → String)

def Lexeme.rename : Lexeme → Lexeme
  | .identifier name => .identifier (f name)
  | .keyword word => .keyword word
  | .symbol mark => .symbol mark
  | .integer value => .integer value
  | .string text => .string text

/-- Names that were renamed can be renamed back. -/
theorem Lexeme.rename_leftInverse {f g : String → String} (h : Function.LeftInverse g f) :
    Function.LeftInverse (Lexeme.rename g) (Lexeme.rename f) := by
  intro l
  cases l with
  | identifier name => exact congrArg Lexeme.identifier (h name)
  | _ => rfl

def TypeName.rename : TypeName → TypeName
  | .int => .int
  | .char => .char
  | .boolean => .boolean
  | .class_ name => .class_ (f name)

mutual

def Term.rename : Term → Term
  | .integer value => .integer value
  | .string text => .string text
  | .constant word => .constant word
  | .variable name => .variable (f name)
  | .element name index => .element (f name) index.rename
  | .call call => .call call.rename
  | .group inner => .group inner.rename
  | .unary op operand => .unary op operand.rename

def Expression.rename : Expression → Expression
  | .term operand => .term operand.rename
  | .binary left op right => .binary left.rename op right.rename

def Call.rename : Call → Call
  | .own name args => .own (f name) (renameArguments args)
  | .member owner name args => .member (f owner) (f name) (renameArguments args)

def renameArguments : List Expression → List Expression
  | [] => []
  | e :: es => e.rename :: renameArguments es

end

mutual

def Statement.rename : Statement → Statement
  | .letVariable target value => .letVariable (f target) (value.rename f)
  | .letElement target index value => .letElement (f target) (index.rename f) (value.rename f)
  | .if_ condition body otherwise =>
    .if_ (condition.rename f) (renameStatements body) (renameOtherwise otherwise)
  | .while_ condition body => .while_ (condition.rename f) (renameStatements body)
  | .do_ call => .do_ (call.rename f)
  | .return_ none => .return_ none
  | .return_ (some value) => .return_ (some (value.rename f))

def renameStatements : List Statement → List Statement
  | [] => []
  | s :: ss => s.rename :: renameStatements ss

def renameOtherwise : Option (List Statement) → Option (List Statement)
  | none => none
  | some body => some (renameStatements body)

end

def ClassVarDec.rename (d : ClassVarDec) : ClassVarDec :=
  { d with type := d.type.rename f, first := f d.first, more := d.more.map f }

def Parameter.rename (p : Parameter) : Parameter := ⟨p.type.rename f, f p.name⟩

def VarDec.rename (d : VarDec) : VarDec := ⟨d.type.rename f, f d.first, d.more.map f⟩

def SubroutineDec.rename (d : SubroutineDec) : SubroutineDec where
  role := d.role
  result := d.result.map (TypeName.rename f)
  name := f d.name
  parameters := d.parameters.map (Parameter.rename f)
  vars := d.vars.map (VarDec.rename f)
  body := renameStatements f d.body

def ClassDec.rename (c : ClassDec) : ClassDec :=
  ⟨f c.name, c.vars.map (ClassVarDec.rename f), c.subroutines.map (SubroutineDec.rename f)⟩

/-! ### The words of a renamed tree -/

@[simp] theorem TypeName.lexeme_rename (t : TypeName) :
    (t.rename f).lexeme = t.lexeme.rename f := by
  cases t <;> rfl

@[simp] theorem length_renameArguments (es : List Expression) :
    (renameArguments f es).length = es.length := by
  induction es with
  | nil => rfl
  | cons e es ih => rw [renameArguments, List.length_cons, List.length_cons, ih]

mutual

@[simp] theorem Term.lexemes_rename (t : Term) :
    (t.rename f).lexemes = t.lexemes.map (Lexeme.rename f) := by
  match t with
  | .integer _ | .string _ | .constant _ | .variable _ => rfl
  | .element name index =>
    simp [Term.rename, Term.lexemes, Lexeme.rename, index.lexemes_rename]
  | .call call => simp only [Term.rename, Term.lexemes, call.lexemes_rename]
  | .group inner => simp [Term.rename, Term.lexemes, Lexeme.rename, inner.lexemes_rename]
  | .unary op operand => simp [Term.rename, Term.lexemes, Lexeme.rename, operand.lexemes_rename]

@[simp] theorem Expression.lexemes_rename (e : Expression) :
    (e.rename f).lexemes = e.lexemes.map (Lexeme.rename f) := by
  match e with
  | .term operand => simp only [Expression.rename, Expression.lexemes, operand.lexemes_rename]
  | .binary left op right =>
    simp [Expression.rename, Expression.lexemes, Lexeme.rename, left.lexemes_rename,
      right.lexemes_rename]

@[simp] theorem Call.lexemes_rename (call : Call) :
    (call.rename f).lexemes = call.lexemes.map (Lexeme.rename f) := by
  match call with
  | .own name args => simp [Call.rename, Call.lexemes, Lexeme.rename, argumentLexemes_rename args]
  | .member owner name args =>
    simp [Call.rename, Call.lexemes, Lexeme.rename, argumentLexemes_rename args]

theorem argumentLexemes_rename (es : List Expression) :
    argumentLexemes (renameArguments f es) = (argumentLexemes es).map (Lexeme.rename f) := by
  match es with
  | [] => rfl
  | e :: es =>
    rw [renameArguments, argumentLexemes, argumentLexemes, e.lexemes_rename,
      moreArgumentLexemes_rename es, List.map_append]

theorem moreArgumentLexemes_rename (es : List Expression) :
    moreArgumentLexemes (renameArguments f es)
      = (moreArgumentLexemes es).map (Lexeme.rename f) := by
  match es with
  | [] => rfl
  | e :: es =>
    simp [renameArguments, moreArgumentLexemes, Lexeme.rename, e.lexemes_rename,
      moreArgumentLexemes_rename es]

end

@[simp] theorem Expression.conditionLexemes_rename (e : Expression) :
    (e.rename f).conditionLexemes = e.conditionLexemes.map (Lexeme.rename f) := by
  simp [Expression.conditionLexemes, Lexeme.rename]

@[simp] theorem inBraces_map (ls : List Lexeme) :
    inBraces (ls.map (Lexeme.rename f)) = (inBraces ls).map (Lexeme.rename f) := by
  simp [inBraces, Lexeme.rename]

mutual

theorem Statement.lexemes_rename (s : Statement) :
    (s.rename f).lexemes = s.lexemes.map (Lexeme.rename f) := by
  match s with
  | .letVariable target value => simp [Statement.rename, Statement.lexemes, Lexeme.rename]
  | .letElement target index value => simp [Statement.rename, Statement.lexemes, Lexeme.rename]
  | .if_ condition body otherwise =>
    simp [Statement.rename, Statement.lexemes, Lexeme.rename, statementLexemes_rename body,
      otherwiseLexemes_rename otherwise]
  | .while_ condition body =>
    simp [Statement.rename, Statement.lexemes, Lexeme.rename, statementLexemes_rename body]
  | .do_ call => simp [Statement.rename, Statement.lexemes, Lexeme.rename]
  | .return_ none => rfl
  | .return_ (some value) => simp [Statement.rename, Statement.lexemes, Lexeme.rename]

theorem statementLexemes_rename (ss : List Statement) :
    statementLexemes (renameStatements f ss) = (statementLexemes ss).map (Lexeme.rename f) := by
  match ss with
  | [] => rfl
  | s :: ss =>
    rw [renameStatements, statementLexemes, statementLexemes, s.lexemes_rename,
      statementLexemes_rename ss, List.map_append]

theorem otherwiseLexemes_rename (o : Option (List Statement)) :
    otherwiseLexemes (renameOtherwise f o) = (otherwiseLexemes o).map (Lexeme.rename f) := by
  match o with
  | none => rfl
  | some body =>
    simp [renameOtherwise, otherwiseLexemes, Lexeme.rename, statementLexemes_rename body]

end

@[simp] theorem nameLexemes_rename (first : String) (more : List String) :
    nameLexemes (f first) (more.map f) = (nameLexemes first more).map (Lexeme.rename f) := by
  simp [nameLexemes, List.map_flatMap, List.flatMap_map, Lexeme.rename]

theorem ClassVarDec.lexemes_rename (d : ClassVarDec) :
    (d.rename f).lexemes = d.lexemes.map (Lexeme.rename f) := by
  simp [ClassVarDec.rename, ClassVarDec.lexemes, Lexeme.rename]

theorem VarDec.lexemes_rename (d : VarDec) :
    (d.rename f).lexemes = d.lexemes.map (Lexeme.rename f) := by
  simp [VarDec.rename, VarDec.lexemes, Lexeme.rename]

@[simp] theorem Parameter.lexemes_rename (p : Parameter) :
    (p.rename f).lexemes = p.lexemes.map (Lexeme.rename f) := by
  simp [Parameter.rename, Parameter.lexemes, Lexeme.rename]

@[simp] theorem parameterLexemes_rename (ps : List Parameter) :
    parameterLexemes (ps.map (Parameter.rename f))
      = (parameterLexemes ps).map (Lexeme.rename f) := by
  cases ps with
  | nil => rfl
  | cons p ps =>
    simp [parameterLexemes, List.map_flatMap, List.flatMap_map, Lexeme.rename]

@[simp] theorem resultLexeme_rename (result : Option TypeName) :
    resultLexeme (result.map (TypeName.rename f)) = (resultLexeme result).rename f := by
  cases result with
  | none => rfl
  | some type => exact type.lexeme_rename f

theorem SubroutineDec.lexemes_rename (d : SubroutineDec) :
    (d.rename f).lexemes = d.lexemes.map (Lexeme.rename f) := by
  have hvars : (d.vars.map (VarDec.rename f)).flatMap VarDec.lexemes
      = (d.vars.flatMap VarDec.lexemes).map (Lexeme.rename f) := by
    simp only [List.flatMap_map, List.map_flatMap, VarDec.lexemes_rename]
  have hbody : inBraces ((d.vars.map (VarDec.rename f)).flatMap VarDec.lexemes
        ++ statementLexemes (renameStatements f d.body))
      = (inBraces (d.vars.flatMap VarDec.lexemes ++ statementLexemes d.body)).map
        (Lexeme.rename f) := by
    rw [hvars, statementLexemes_rename, ← List.map_append, inBraces_map]
  simp [SubroutineDec.rename, SubroutineDec.lexemes, Lexeme.rename, hbody]

theorem ClassDec.lexemes_rename (c : ClassDec) :
    (c.rename f).lexemes = c.lexemes.map (Lexeme.rename f) := by
  have hvars : (c.vars.map (ClassVarDec.rename f)).flatMap ClassVarDec.lexemes
      = (c.vars.flatMap ClassVarDec.lexemes).map (Lexeme.rename f) := by
    simp only [List.flatMap_map, List.map_flatMap, ClassVarDec.lexemes_rename]
  have hsubroutines : (c.subroutines.map (SubroutineDec.rename f)).flatMap SubroutineDec.lexemes
      = (c.subroutines.flatMap SubroutineDec.lexemes).map (Lexeme.rename f) := by
    simp only [List.flatMap_map, List.map_flatMap, SubroutineDec.lexemes_rename]
  rw [ClassDec.rename, ClassDec.lexemes, hvars, hsubroutines, ← List.map_append, inBraces_map]
  rfl

/-! ### What a renamed tree uses -/

def Use.rename : Use → Use
  | .variable name => .variable (f name)
  | .call c => .call (c.rename f)

mutual

@[simp] theorem Term.uses_rename (t : Term) : (t.rename f).uses = t.uses.map (Use.rename f) := by
  match t with
  | .integer _ | .string _ | .constant _ | .variable _ => rfl
  | .element name index => simp [Term.rename, Term.uses, Use.rename, index.uses_rename]
  | .call call => simp only [Term.rename, Term.uses, call.uses_rename]
  | .group inner => simp only [Term.rename, Term.uses, inner.uses_rename]
  | .unary op operand => simp only [Term.rename, Term.uses, operand.uses_rename]

@[simp] theorem Expression.uses_rename (e : Expression) :
    (e.rename f).uses = e.uses.map (Use.rename f) := by
  match e with
  | .term operand => simp only [Expression.rename, Expression.uses, operand.uses_rename]
  | .binary left op right =>
    simp only [Expression.rename, Expression.uses, left.uses_rename, right.uses_rename,
      List.map_append]

@[simp] theorem Call.uses_rename (call : Call) :
    (call.rename f).uses = call.uses.map (Use.rename f) := by
  match call with
  | .own name args =>
    simp [Call.rename, Call.uses, Use.rename, usesOf_rename args]
  | .member owner name args =>
    simp [Call.rename, Call.uses, Use.rename, usesOf_rename args]

theorem usesOf_rename (es : List Expression) :
    usesOf (renameArguments f es) = (usesOf es).map (Use.rename f) := by
  match es with
  | [] => rfl
  | e :: es =>
    rw [renameArguments, usesOf, usesOf, e.uses_rename, usesOf_rename es, List.map_append]

end

mutual

theorem Statement.uses_rename (s : Statement) :
    (s.rename f).uses = s.uses.map (Use.rename f) := by
  match s with
  | .letVariable target value => simp [Statement.rename, Statement.uses, Use.rename]
  | .letElement target index value => simp [Statement.rename, Statement.uses, Use.rename]
  | .if_ condition body otherwise =>
    simp [Statement.rename, Statement.uses, statementUses_rename body,
      otherwiseUses_rename otherwise]
  | .while_ condition body =>
    simp [Statement.rename, Statement.uses, statementUses_rename body]
  | .do_ call => simp [Statement.rename, Statement.uses]
  | .return_ none => rfl
  | .return_ (some value) => simp [Statement.rename, Statement.uses]

theorem statementUses_rename (ss : List Statement) :
    statementUses (renameStatements f ss) = (statementUses ss).map (Use.rename f) := by
  match ss with
  | [] => rfl
  | s :: ss =>
    rw [renameStatements, statementUses, statementUses, s.uses_rename, statementUses_rename ss,
      List.map_append]

theorem otherwiseUses_rename (o : Option (List Statement)) :
    otherwiseUses (renameOtherwise f o) = (otherwiseUses o).map (Use.rename f) := by
  match o with
  | none => rfl
  | some body => exact statementUses_rename body

end

mutual

@[simp] theorem Statement.constructs_rename (s : Statement) :
    (s.rename f).constructs = s.constructs := by
  match s with
  | .letVariable _ _ | .letElement _ _ _ | .do_ _ | .return_ none | .return_ (some _) => rfl
  | .if_ condition body otherwise =>
    rw [Statement.rename, Statement.constructs, Statement.constructs, constructsOf_rename body,
      constructsOfOtherwise_rename otherwise]
  | .while_ condition body =>
    rw [Statement.rename, Statement.constructs, Statement.constructs, constructsOf_rename body]

@[simp] theorem constructsOf_rename (ss : List Statement) :
    constructsOf (renameStatements f ss) = constructsOf ss := by
  match ss with
  | [] => rfl
  | s :: ss =>
    rw [renameStatements, constructsOf, constructsOf, s.constructs_rename, constructsOf_rename ss]

theorem constructsOfOtherwise_rename (o : Option (List Statement)) :
    constructsOfOtherwise (renameOtherwise f o) = constructsOfOtherwise o := by
  match o with
  | none => rfl
  | some body => exact constructsOf_rename body

end

end Jack
