import Jack.Outline
import Jack.Production
import Jack.Proofs.Declarations

/-! The elements of a derivation tree: one for each production, around the words that it reads. A
whole chain of operators is one expression. Of an identifier the tree says what it is there for. -/

namespace Jack

/-- What an identifier is in a derivation, where it declares no variable: the name of a class, a
type, a subroutine, or a name that is used. -/
inductive NamePart where
  | class_ | type | subroutine | value | base | target | receiver | callee
  deriving DecidableEq, Repr

/-- A word of a derivation. -/
inductive Sign where
  | word (lexeme : Lexeme)
  | identifier (part : NamePart) (name : String)
  | declared (declaration : Declared)

def Sign.lexeme : Sign → Lexeme
  | .word lexeme => lexeme
  | .identifier _ name => .identifier name
  | .declared d => .identifier d.name

inductive Element where
  | inner (production : Production) (children : List Element)
  | leaf (sign : Sign)

/-! ### The text of elements -/

/-- The word in the tags of an element. -/
def Production.tag : Production → String
  | .class_ => "class"
  | .classVarDec => "classVarDec"
  | .subroutineDec => "subroutineDec"
  | .parameterList => "parameterList"
  | .subroutineBody => "subroutineBody"
  | .varDec => "varDec"
  | .statements => "statements"
  | .letStatement => "letStatement"
  | .ifStatement => "ifStatement"
  | .whileStatement => "whileStatement"
  | .doStatement => "doStatement"
  | .returnStatement => "returnStatement"
  | .expression => "expression"
  | .term => "term"
  | .expressionList => "expressionList"

/-- The word in the tags around a word of the source. -/
def Lexeme.tag : Lexeme → String
  | .keyword _ => "keyword"
  | .symbol _ => "symbol"
  | .integer _ => "integerConstant"
  | .string _ => "stringConstant"
  | .identifier _ => "identifier"

/-- A text between tags, where no character can be taken for one of a tag. -/
def betweenTags : List Char → String
  | [] => ""
  | '<' :: cs => "&lt;" ++ betweenTags cs
  | '>' :: cs => "&gt;" ++ betweenTags cs
  | '&' :: cs => "&amp;" ++ betweenTags cs
  | c :: cs => c.toString ++ betweenTags cs

/-- A line with this many elements around it, two spaces for each. -/
def nestedLine : Nat → String → String
  | 0, line => line ++ "\n"
  | depth + 1, line => "  " ++ nestedLine depth line

mutual

/-- The text of an element with this many elements around it. -/
def Element.text (depth : Nat) : Element → String
  | .inner p children =>
    nestedLine depth ("<" ++ p.tag ++ ">") ++ elementsText (depth + 1) children
      ++ nestedLine depth ("</" ++ p.tag ++ ">")
  | .leaf s =>
    nestedLine depth ("<" ++ s.lexeme.tag ++ "> " ++ betweenTags s.lexeme.text.toList
      ++ " </" ++ s.lexeme.tag ++ ">")

def elementsText (depth : Nat) : List Element → String
  | [] => ""
  | e :: es => e.text depth ++ elementsText depth es

end

/-! ### The marks of elements -/

/-- A place in a tree, as it is passed from left to right. -/
inductive Mark where
  | enter (production : Production)
  | leave (production : Production)
  | sign (sign : Sign)

mutual

def Element.marks : Element → List Mark
  | .inner p children => .enter p :: marksOf children ++ [.leave p]
  | .leaf s => [.sign s]

def marksOf : List Element → List Mark
  | [] => []
  | e :: es => e.marks ++ marksOf es

end

def Mark.sign? : Mark → Option Sign
  | .sign s => some s
  | .enter _ | .leave _ => none

@[simp] theorem Mark.sign?_enter (p : Production) : (Mark.enter p).sign? = none := rfl

@[simp] theorem Mark.sign?_leave (p : Production) : (Mark.leave p).sign? = none := rfl

@[simp] theorem Mark.sign?_sign (s : Sign) : (Mark.sign s).sign? = some s := rfl

/-- The words of an element, from left to right. -/
def Element.signs (e : Element) : List Sign := e.marks.filterMap Mark.sign?

def signsOf (es : List Element) : List Sign := (marksOf es).filterMap Mark.sign?

@[simp] theorem marksOf_nil : marksOf [] = [] := rfl

@[simp] theorem marksOf_cons (e : Element) (es : List Element) :
    marksOf (e :: es) = e.marks ++ marksOf es := rfl

@[simp] theorem marksOf_append (es more : List Element) :
    marksOf (es ++ more) = marksOf es ++ marksOf more := by
  induction es with
  | nil => rfl
  | cons e es ih => simp [ih]

@[simp] theorem Element.marks_inner (p : Production) (children : List Element) :
    (Element.inner p children).marks = .enter p :: marksOf children ++ [.leave p] := rfl

@[simp] theorem Element.marks_leaf (s : Sign) : (Element.leaf s).marks = [.sign s] := rfl

@[simp] theorem signsOf_nil : signsOf [] = [] := rfl

@[simp] theorem signsOf_cons (e : Element) (es : List Element) :
    signsOf (e :: es) = e.signs ++ signsOf es := by
  simp [signsOf, Element.signs]

@[simp] theorem signsOf_append (es more : List Element) :
    signsOf (es ++ more) = signsOf es ++ signsOf more := by
  simp [signsOf]

@[simp] theorem Element.signs_inner (p : Production) (children : List Element) :
    (Element.inner p children).signs = signsOf children := by
  simp [Element.signs, signsOf, List.filterMap_cons]

@[simp] theorem Element.signs_leaf (s : Sign) : (Element.leaf s).signs = [s] := rfl

/-! ### The elements of a class -/

def markLeaf (m : Punctuation) : Element := .leaf (.word (.symbol m))

def keywordLeaf (k : Keyword) : Element := .leaf (.word (.keyword k))

mutual

/-- What stands in the element of a term. -/
def Term.elements : Term → List Element
  | .integer value => [.leaf (.word (.integer value))]
  | .string text => [.leaf (.word (.string text))]
  | .constant word => [keywordLeaf word.keyword]
  | .variable name => [.leaf (.identifier .value name)]
  | .element name index =>
    [.leaf (.identifier .base name), markLeaf .leftBracket, .inner .expression index.elements,
      markLeaf .rightBracket]
  | .call call => call.elements
  | .group inner =>
    [markLeaf .leftParen, .inner .expression inner.elements, markLeaf .rightParen]
  | .unary op operand => [markLeaf op.mark, .inner .term operand.elements]

/-- What stands in the element of an expression: its operands, with the operators between them. -/
def Expression.elements : Expression → List Element
  | .term operand => [.inner .term operand.elements]
  | .binary left op right => .inner .term left.elements :: markLeaf op.mark :: right.elements

def Call.elements : Call → List Element
  | .own name args =>
    [.leaf (.identifier .callee name), markLeaf .leftParen,
      .inner .expressionList (argumentElements args), markLeaf .rightParen]
  | .member owner name args =>
    [.leaf (.identifier .receiver owner), markLeaf .dot, .leaf (.identifier .subroutine name),
      markLeaf .leftParen, .inner .expressionList (argumentElements args), markLeaf .rightParen]

def argumentElements : List Expression → List Element
  | [] => []
  | e :: es => .inner .expression e.elements :: moreArgumentElements es

def moreArgumentElements : List Expression → List Element
  | [] => []
  | e :: es => markLeaf .comma :: .inner .expression e.elements :: moreArgumentElements es

end

def Expression.element (e : Expression) : Element := .inner .expression e.elements

def Expression.conditionElements (e : Expression) : List Element :=
  [markLeaf .leftParen, e.element, markLeaf .rightParen]

/-- A block of statements, given their elements. -/
def blockElements (es : List Element) : List Element :=
  [markLeaf .leftBrace, .inner .statements es, markLeaf .rightBrace]

mutual

def Statement.element : Statement → Element
  | .letVariable target value =>
    .inner .letStatement [keywordLeaf .let_, .leaf (.identifier .target target), markLeaf .equal,
      value.element, markLeaf .semicolon]
  | .letElement target index value =>
    .inner .letStatement [keywordLeaf .let_, .leaf (.identifier .target target),
      markLeaf .leftBracket, index.element, markLeaf .rightBracket, markLeaf .equal, value.element,
      markLeaf .semicolon]
  | .if_ condition body otherwise =>
    .inner .ifStatement (keywordLeaf .if_ :: condition.conditionElements
      ++ blockElements (statementElements body) ++ otherwiseElements otherwise)
  | .while_ condition body =>
    .inner .whileStatement (keywordLeaf .while_ :: condition.conditionElements
      ++ blockElements (statementElements body))
  | .do_ call =>
    .inner .doStatement (keywordLeaf .do_ :: call.elements ++ [markLeaf .semicolon])
  | .return_ none => .inner .returnStatement [keywordLeaf .return_, markLeaf .semicolon]
  | .return_ (some value) =>
    .inner .returnStatement [keywordLeaf .return_, value.element, markLeaf .semicolon]

def statementElements : List Statement → List Element
  | [] => []
  | s :: ss => s.element :: statementElements ss

def otherwiseElements : Option (List Statement) → List Element
  | none => []
  | some body => keywordLeaf .else_ :: blockElements (statementElements body)

end

def TypeName.sign : TypeName → Sign
  | .int => .word (.keyword .int)
  | .char => .word (.keyword .char)
  | .boolean => .word (.keyword .boolean)
  | .class_ name => .identifier .type name

def resultSign : Option TypeName → Sign
  | none => .word (.keyword .void)
  | some type => type.sign

def nameElements (type : String) (kind : Kind) (first : String) (more : List String) :
    List Element :=
  .leaf (.declared ⟨first, type, kind⟩)
    :: more.flatMap fun name => [markLeaf .comma, .leaf (.declared ⟨name, type, kind⟩)]

def ClassVarDec.element (d : ClassVarDec) : Element :=
  .inner .classVarDec (keywordLeaf d.kind.keyword :: .leaf d.type.sign
    :: nameElements d.type.spelling d.kind d.first d.more ++ [markLeaf .semicolon])

def VarDec.element (d : VarDec) : Element :=
  .inner .varDec (keywordLeaf .var :: .leaf d.type.sign
    :: nameElements d.type.spelling .var d.first d.more ++ [markLeaf .semicolon])

def Parameter.elements (p : Parameter) : List Element :=
  [.leaf p.type.sign, .leaf (.declared p.declared)]

def parameterElements : List Parameter → List Element
  | [] => []
  | p :: ps => p.elements ++ ps.flatMap fun p => markLeaf .comma :: p.elements

def SubroutineDec.element (d : SubroutineDec) : Element :=
  .inner .subroutineDec [keywordLeaf d.role.keyword, .leaf (resultSign d.result),
    .leaf (.identifier .subroutine d.name), markLeaf .leftParen,
    .inner .parameterList (parameterElements d.parameters), markLeaf .rightParen,
    .inner .subroutineBody (markLeaf .leftBrace :: d.vars.map VarDec.element
      ++ [.inner .statements (statementElements d.body), markLeaf .rightBrace])]

def ClassDec.element (c : ClassDec) : Element :=
  .inner .class_ (keywordLeaf .class_ :: .leaf (.identifier .class_ c.name) :: markLeaf .leftBrace
    :: c.vars.map ClassVarDec.element ++ c.subroutines.map SubroutineDec.element
    ++ [markLeaf .rightBrace])

/-! ### The words of the elements -/

@[simp] theorem signs_markLeaf (m : Punctuation) : (markLeaf m).signs = [.word (.symbol m)] := rfl

@[simp] theorem signs_keywordLeaf (k : Keyword) :
    (keywordLeaf k).signs = [.word (.keyword k)] := rfl

@[simp] theorem Sign.lexeme_word (l : Lexeme) : (Sign.word l).lexeme = l := rfl

@[simp] theorem Sign.lexeme_identifier (part : NamePart) (name : String) :
    (Sign.identifier part name).lexeme = .identifier name := rfl

@[simp] theorem Sign.lexeme_declared (d : Declared) :
    (Sign.declared d).lexeme = .identifier d.name := rfl

mutual

theorem Term.lexemes_elements (t : Term) : (signsOf t.elements).map Sign.lexeme = t.lexemes := by
  match t with
  | .integer value | .string text | .constant word | .variable name => rfl
  | .element name index => simp [Term.elements, Term.lexemes, index.lexemes_elements]
  | .call call => exact call.lexemes_elements
  | .group inner => simp [Term.elements, Term.lexemes, inner.lexemes_elements]
  | .unary op operand => simp [Term.elements, Term.lexemes, operand.lexemes_elements]

theorem Expression.lexemes_elements (e : Expression) :
    (signsOf e.elements).map Sign.lexeme = e.lexemes := by
  match e with
  | .term operand => simp [Expression.elements, Expression.lexemes, operand.lexemes_elements]
  | .binary left op right =>
    simp [Expression.elements, Expression.lexemes, left.lexemes_elements, right.lexemes_elements]

theorem Call.lexemes_elements (c : Call) : (signsOf c.elements).map Sign.lexeme = c.lexemes := by
  match c with
  | .own name args => simp [Call.elements, Call.lexemes, lexemes_argumentElements args]
  | .member owner name args => simp [Call.elements, Call.lexemes, lexemes_argumentElements args]

theorem lexemes_argumentElements (args : List Expression) :
    (signsOf (argumentElements args)).map Sign.lexeme = argumentLexemes args := by
  match args with
  | [] => rfl
  | e :: es =>
    simp [argumentElements, argumentLexemes, e.lexemes_elements, lexemes_moreArgumentElements es]

theorem lexemes_moreArgumentElements (args : List Expression) :
    (signsOf (moreArgumentElements args)).map Sign.lexeme = moreArgumentLexemes args := by
  match args with
  | [] => rfl
  | e :: es =>
    simp [moreArgumentElements, moreArgumentLexemes, e.lexemes_elements,
      lexemes_moreArgumentElements es]

end

@[simp] theorem Expression.lexemes_element (e : Expression) :
    e.element.signs.map Sign.lexeme = e.lexemes := by
  simp [Expression.element, e.lexemes_elements]

@[simp] theorem Expression.lexemes_conditionElements (e : Expression) :
    (signsOf e.conditionElements).map Sign.lexeme = e.conditionLexemes := by
  simp [Expression.conditionElements, Expression.conditionLexemes]

@[simp] theorem lexemes_blockElements (es : List Element) :
    (signsOf (blockElements es)).map Sign.lexeme = inBraces ((signsOf es).map Sign.lexeme) := by
  simp [blockElements, inBraces]

mutual

theorem Statement.lexemes_element (s : Statement) :
    s.element.signs.map Sign.lexeme = s.lexemes := by
  match s with
  | .letVariable target value => simp [Statement.element, Statement.lexemes]
  | .letElement target index value => simp [Statement.element, Statement.lexemes]
  | .if_ condition body otherwise =>
    simp [Statement.element, Statement.lexemes, lexemes_statementElements body,
      lexemes_otherwiseElements otherwise]
  | .while_ condition body =>
    simp [Statement.element, Statement.lexemes, lexemes_statementElements body]
  | .do_ call => simp [Statement.element, Statement.lexemes, call.lexemes_elements]
  | .return_ none => rfl
  | .return_ (some value) => simp [Statement.element, Statement.lexemes]

theorem lexemes_statementElements (ss : List Statement) :
    (signsOf (statementElements ss)).map Sign.lexeme = statementLexemes ss := by
  match ss with
  | [] => rfl
  | s :: ss =>
    simp [statementElements, statementLexemes, s.lexemes_element, lexemes_statementElements ss]

theorem lexemes_otherwiseElements (o : Option (List Statement)) :
    (signsOf (otherwiseElements o)).map Sign.lexeme = otherwiseLexemes o := by
  match o with
  | none => rfl
  | some body => simp [otherwiseElements, otherwiseLexemes, lexemes_statementElements body]

end

@[simp] theorem TypeName.lexeme_sign (t : TypeName) : t.sign.lexeme = t.lexeme := by
  cases t <;> rfl

@[simp] theorem lexeme_resultSign (result : Option TypeName) :
    (resultSign result).lexeme = resultLexeme result := by
  cases result with
  | none => rfl
  | some type => exact type.lexeme_sign

theorem signsOf_flatMap {α : Type} (f : α → List Element) (xs : List α) :
    signsOf (xs.flatMap f) = xs.flatMap fun x => signsOf (f x) := by
  induction xs with
  | nil => rfl
  | cons x xs ih => simp [ih]

theorem signsOf_map {α : Type} (f : α → Element) (xs : List α) :
    signsOf (xs.map f) = xs.flatMap fun x => (f x).signs := by
  induction xs with
  | nil => rfl
  | cons x xs ih => simp [ih]

theorem lexemes_nameElements (type : String) (kind : Kind) (first : String) (more : List String) :
    (signsOf (nameElements type kind first more)).map Sign.lexeme = nameLexemes first more := by
  simp [nameElements, nameLexemes, signsOf_flatMap, List.map_flatMap]

theorem ClassVarDec.lexemes_element (d : ClassVarDec) :
    d.element.signs.map Sign.lexeme = d.lexemes := by
  simp [ClassVarDec.element, ClassVarDec.lexemes, lexemes_nameElements]

theorem VarDec.lexemes_element (d : VarDec) : d.element.signs.map Sign.lexeme = d.lexemes := by
  simp [VarDec.element, VarDec.lexemes, lexemes_nameElements]

theorem Parameter.lexemes_elements (p : Parameter) :
    (signsOf p.elements).map Sign.lexeme = p.lexemes := by
  simp [Parameter.elements, Parameter.lexemes, Parameter.declared]

theorem lexemes_parameterElements (ps : List Parameter) :
    (signsOf (parameterElements ps)).map Sign.lexeme = parameterLexemes ps := by
  cases ps with
  | nil => rfl
  | cons p ps =>
    simp [parameterElements, parameterLexemes, signsOf_flatMap, List.map_flatMap,
      Parameter.lexemes_elements]

theorem SubroutineDec.lexemes_element (d : SubroutineDec) :
    d.element.signs.map Sign.lexeme = d.lexemes := by
  simp [SubroutineDec.element, SubroutineDec.lexemes, inBraces, lexemes_parameterElements,
    signsOf_map, List.map_flatMap, VarDec.lexemes_element, lexemes_statementElements]

/-- The words of the elements of a class are the words of the class. -/
theorem ClassDec.lexemes_element (c : ClassDec) : c.element.signs.map Sign.lexeme = c.lexemes := by
  simp [ClassDec.element, ClassDec.lexemes, inBraces, signsOf_map, List.map_flatMap,
    ClassVarDec.lexemes_element, SubroutineDec.lexemes_element]

/-! ### The words of statements -/

/-- A word of statements, which use variables and declare none. -/
def Sign.FoundIn (us : List Use) : Sign → Prop
  | .identifier .value name | .identifier .base name | .identifier .target name =>
    .variable name ∈ us
  | .identifier .type _ | .identifier .subroutine _ | .identifier .receiver _
  | .identifier .callee _ => True
  | .word l => l ≠ .keyword .method
  | .identifier .class_ _ | .declared _ => False

/-- A mark that statements with these uses can have. -/
def Mark.FoundIn (us : List Use) : Mark → Prop
  | .enter p | .leave p => p ≠ .subroutineDec
  | .sign s => s.FoundIn us

theorem Mark.FoundIn.mono {us more : List Use} {m : Mark} (h : m.FoundIn us) (hus : us ⊆ more) :
    m.FoundIn more := by
  match m, h with
  | .enter _, h | .leave _, h => exact h
  | .sign (.identifier .value _), h | .sign (.identifier .base _), h
  | .sign (.identifier .target _), h => exact hus h
  | .sign (.identifier .type _), _ | .sign (.identifier .subroutine _), _
  | .sign (.identifier .receiver _), _ | .sign (.identifier .callee _), _ => trivial
  | .sign (.word l), h => exact h

/-- Every mark of elements side by side has a property. -/
def Marked (P : Mark → Prop) (es : List Element) : Prop := ∀ m ∈ marksOf es, P m

namespace Marked

variable {P Q : Mark → Prop} {e : Element} {es fs : List Element}

theorem imp (h : Marked P es) (hPQ : ∀ m, P m → Q m) : Marked Q es := fun m hm => hPQ m (h m hm)

theorem nil : Marked P [] := by simp [Marked]

theorem append (h : Marked P es) (hs : Marked P fs) : Marked P (es ++ fs) := by
  intro m hm
  rw [marksOf_append] at hm
  rcases List.mem_append.1 hm with hm | hm
  · exact h m hm
  · exact hs m hm

theorem cons (h : Marked P [e]) (hs : Marked P es) : Marked P (e :: es) := h.append hs

theorem flatMap {α : Type} {f : α → List Element} (h : ∀ x, Marked P (f x)) (xs : List α) :
    Marked P (xs.flatMap f) := by
  induction xs with
  | nil => exact nil
  | cons x xs ih => exact (h x).append ih

theorem leaf {s : Sign} (h : P (.sign s)) : Marked P [.leaf s] := by
  intro m hm
  obtain rfl : m = .sign s := by simpa using hm
  exact h

theorem inner {p : Production} (he : P (.enter p)) (h : Marked P es) (hl : P (.leave p)) :
    Marked P [.inner p es] := by
  intro m hm
  simp only [marksOf_cons, marksOf_nil, Element.marks_inner, List.append_nil, List.cons_append,
    List.mem_cons, List.mem_append, List.not_mem_nil, or_false] at hm
  rcases hm with rfl | hm | rfl
  · exact he
  · exact h m hm
  · exact hl

end Marked

/-- The elements can be those of statements with these uses. -/
def FoundIn (us : List Use) (es : List Element) : Prop := Marked (Mark.FoundIn us) es

namespace FoundIn

variable {us more : List Use} {es : List Element} {p : Production}

theorem mono (h : FoundIn us es) (hus : us ⊆ more) : FoundIn more es :=
  h.imp fun _ hm => hm.mono hus

theorem nil : FoundIn us [] := Marked.nil

theorem cons {e : Element} (h : FoundIn us [e]) (hs : FoundIn us es) : FoundIn us (e :: es) :=
  Marked.cons h hs

theorem append {fs : List Element} (h : FoundIn us es) (hs : FoundIn us fs) :
    FoundIn us (es ++ fs) :=
  Marked.append h hs

theorem leaf {s : Sign} (h : s.FoundIn us) : FoundIn us [.leaf s] := Marked.leaf h

theorem inner (hp : p ≠ .subroutineDec) (h : FoundIn us es) : FoundIn us [.inner p es] :=
  Marked.inner hp h hp

theorem word {l : Lexeme} (h : l ≠ .keyword .method) : FoundIn us [.leaf (.word l)] := leaf h

theorem mark (m : Punctuation) : FoundIn us [markLeaf m] := word (by simp)

theorem keyword {k : Keyword} (h : k ≠ .method) : FoundIn us [keywordLeaf k] :=
  word (by simpa using h)

end FoundIn

mutual

theorem Term.foundIn (t : Term) : FoundIn t.uses t.elements := by
  match t with
  | .integer _ | .string _ => exact .word (by simp)
  | .constant word => exact .keyword (by cases word <;> decide)
  | .variable name => exact .leaf (List.mem_singleton.2 rfl)
  | .element name index =>
    have hindex := index.foundIn.mono (List.subset_cons_self (.variable name) _)
    exact .cons (.leaf (s := .identifier .base name) List.mem_cons_self) (.cons (.mark _)
      (.cons (.inner (by decide) hindex) (.mark _)))
  | .call call => exact call.foundIn
  | .group inner => exact .cons (.mark _) (.cons (.inner (by decide) inner.foundIn) (.mark _))
  | .unary op operand => exact .cons (.mark _) (.inner (by decide) operand.foundIn)

theorem Expression.foundIn (e : Expression) : FoundIn e.uses e.elements := by
  match e with
  | .term operand => exact .inner (by decide) operand.foundIn
  | .binary left op right =>
    have hleft := left.foundIn.mono (List.subset_append_left left.uses right.uses)
    have hright := right.foundIn.mono (List.subset_append_right left.uses right.uses)
    exact .cons (.inner (by decide) hleft) (.cons (.mark _) hright)

theorem Call.foundIn (c : Call) : FoundIn c.uses c.elements := by
  match c with
  | .own name args =>
    have hargs := (foundIn_argumentElements args).mono
      (List.subset_append_left _ [.call (.own name args)])
    exact .cons (.leaf trivial) (.cons (.mark _) (.cons (.inner (by decide) hargs) (.mark _)))
  | .member owner name args =>
    have hargs := (foundIn_argumentElements args).mono
      (List.subset_append_left _ [.call (.member owner name args)])
    exact .cons (.leaf trivial) (.cons (.mark _) (.cons (.leaf trivial) (.cons (.mark _)
      (.cons (.inner (by decide) hargs) (.mark _)))))

theorem foundIn_argumentElements (args : List Expression) :
    FoundIn (usesOf args) (argumentElements args) := by
  match args with
  | [] => exact .nil
  | e :: es =>
    have he := e.foundIn.mono (List.subset_append_left e.uses (usesOf es))
    have hes := (foundIn_moreArgumentElements es).mono (List.subset_append_right e.uses (usesOf es))
    exact .cons (.inner (by decide) he) hes

theorem foundIn_moreArgumentElements (args : List Expression) :
    FoundIn (usesOf args) (moreArgumentElements args) := by
  match args with
  | [] => exact .nil
  | e :: es =>
    have he := e.foundIn.mono (List.subset_append_left e.uses (usesOf es))
    have hes := (foundIn_moreArgumentElements es).mono (List.subset_append_right e.uses (usesOf es))
    exact .cons (.mark _) (.cons (.inner (by decide) he) hes)

end

theorem Expression.foundIn_element (e : Expression) : FoundIn e.uses [e.element] :=
  .inner (by decide) e.foundIn

theorem Expression.foundIn_conditionElements (e : Expression) :
    FoundIn e.uses e.conditionElements :=
  .cons (.mark _) (.cons e.foundIn_element (.mark _))

theorem FoundIn.block {us : List Use} {es : List Element} (h : FoundIn us es) :
    FoundIn us (blockElements es) :=
  .cons (.mark _) (.cons (.inner (by decide) h) (.mark _))

mutual

theorem Statement.foundIn (s : Statement) : FoundIn s.uses [s.element] := by
  match s with
  | .letVariable target value =>
    have htarget : FoundIn _ [.leaf (.identifier .target target)] :=
      .leaf (List.mem_cons_self (l := value.uses))
    have hvalue := value.foundIn_element.mono (List.subset_cons_self (.variable target) _)
    exact .inner (by decide) (.cons (.keyword (by decide)) (.cons htarget (.cons (.mark _)
      (.cons hvalue (.mark _)))))
  | .letElement target index value =>
    have htarget : FoundIn _ [.leaf (.identifier .target target)] :=
      .leaf (List.mem_cons_self (l := index.uses ++ value.uses))
    have hindex := index.foundIn_element.mono
      (List.Subset.trans (List.subset_append_left _ value.uses)
        (List.subset_cons_self (.variable target) _))
    have hvalue := value.foundIn_element.mono
      (List.Subset.trans (List.subset_append_right index.uses _)
        (List.subset_cons_self (.variable target) _))
    exact .inner (by decide) (.cons (.keyword (by decide)) (.cons htarget (.cons (.mark _)
      (.cons hindex (.cons (.mark _) (.cons (.mark _) (.cons hvalue (.mark _))))))))
  | .if_ condition body otherwise =>
    have hcondition := condition.foundIn_conditionElements.mono
      (List.subset_append_left _ (statementUses body))
    have hbody := (foundIn_statementElements body).block.mono
      (List.subset_append_right condition.uses _)
    have hotherwise := (foundIn_otherwiseElements otherwise).mono
      (List.subset_append_right (condition.uses ++ statementUses body) _)
    have hthen := (FoundIn.cons (.keyword (k := .if_) (by decide)) hcondition).append hbody
    exact .inner (by decide) ((hthen.mono (List.subset_append_left _ _)).append hotherwise)
  | .while_ condition body =>
    have hcondition := condition.foundIn_conditionElements.mono
      (List.subset_append_left _ (statementUses body))
    have hbody := (foundIn_statementElements body).block.mono
      (List.subset_append_right condition.uses _)
    exact .inner (by decide) (.append (.cons (.keyword (by decide)) hcondition) hbody)
  | .do_ call =>
    exact .inner (by decide) (.append (.cons (.keyword (by decide)) call.foundIn) (.mark _))
  | .return_ none => exact .inner (by decide) (.cons (.keyword (by decide)) (.mark _))
  | .return_ (some value) =>
    exact .inner (by decide) (.cons (.keyword (by decide)) (.cons value.foundIn_element (.mark _)))

theorem foundIn_statementElements (ss : List Statement) :
    FoundIn (statementUses ss) (statementElements ss) := by
  match ss with
  | [] => exact .nil
  | s :: ss =>
    have hs := s.foundIn.mono (List.subset_append_left s.uses (statementUses ss))
    have hss := (foundIn_statementElements ss).mono
      (List.subset_append_right s.uses (statementUses ss))
    exact .cons hs hss

theorem foundIn_otherwiseElements (o : Option (List Statement)) :
    FoundIn (otherwiseUses o) (otherwiseElements o) := by
  match o with
  | none => exact .nil
  | some body => exact .cons (.keyword (by decide)) (foundIn_statementElements body).block

end

/-! ### The declarations among the words -/

def Sign.declared? : Sign → Option Declared
  | .declared d => some d
  | .word _ | .identifier _ _ => none

@[simp] theorem Sign.declared?_word (l : Lexeme) : (Sign.word l).declared? = none := rfl

@[simp] theorem Sign.declared?_identifier (part : NamePart) (name : String) :
    (Sign.identifier part name).declared? = none := rfl

@[simp] theorem Sign.declared?_declared (d : Declared) : (Sign.declared d).declared? = some d := rfl

@[simp] theorem TypeName.declared?_sign (t : TypeName) : t.sign.declared? = none := by
  cases t <;> rfl

@[simp] theorem declared?_resultSign (result : Option TypeName) :
    (resultSign result).declared? = none := by
  cases result with
  | none => rfl
  | some type => exact type.declared?_sign

/-- The declarations of elements side by side. -/
def declaredBy (es : List Element) : List Declared := (signsOf es).filterMap Sign.declared?

@[simp] theorem declaredBy_nil : declaredBy [] = [] := rfl

@[simp] theorem declaredBy_leaf (s : Sign) (es : List Element) :
    declaredBy (.leaf s :: es) = s.declared?.toList ++ declaredBy es := by
  cases hs : s.declared? <;> simp [declaredBy, hs]

@[simp] theorem declaredBy_mark (m : Punctuation) (es : List Element) :
    declaredBy (markLeaf m :: es) = declaredBy es := by
  simp [markLeaf]

@[simp] theorem declaredBy_keyword (k : Keyword) (es : List Element) :
    declaredBy (keywordLeaf k :: es) = declaredBy es := by
  simp [keywordLeaf]

@[simp] theorem declaredBy_inner (p : Production) (children es : List Element) :
    declaredBy (.inner p children :: es) = declaredBy children ++ declaredBy es := by
  simp [declaredBy]

@[simp] theorem declaredBy_append (es fs : List Element) :
    declaredBy (es ++ fs) = declaredBy es ++ declaredBy fs := by
  simp [declaredBy]

theorem declaredBy_flatMap {α : Type} (f : α → List Element) (xs : List α) :
    declaredBy (xs.flatMap f) = xs.flatMap fun x => declaredBy (f x) := by
  induction xs with
  | nil => rfl
  | cons x xs ih => simp [ih]

theorem declaredBy_map {α : Type} (f : α → Element) (xs : List α) :
    declaredBy (xs.map f) = xs.flatMap fun x => declaredBy [f x] := by
  rw [List.map_eq_flatMap, declaredBy_flatMap]

theorem declaredBy_nameElements (type : String) (kind : Kind) (first : String)
    (more : List String) :
    declaredBy (nameElements type kind first more)
      = (first :: more).map fun name => ⟨name, type, kind⟩ := by
  simp [nameElements, declaredBy_flatMap, ← List.map_eq_flatMap]

theorem ClassVarDec.declaredBy_element (d : ClassVarDec) : declaredBy [d.element] = d.declared := by
  simp [ClassVarDec.element, ClassVarDec.declared, ClassVarDec.names, declaredBy_nameElements]

theorem VarDec.declaredBy_element (d : VarDec) : declaredBy [d.element] = d.declared := by
  simp [VarDec.element, VarDec.declared, VarDec.names, declaredBy_nameElements]

theorem declaredBy_parameterElements (ps : List Parameter) :
    declaredBy (parameterElements ps) = ps.map Parameter.declared := by
  cases ps with
  | nil => rfl
  | cons p ps =>
    simp [parameterElements, Parameter.elements, declaredBy_flatMap, ← List.map_eq_flatMap]

theorem FoundIn.declaredBy {us : List Use} {es : List Element} (h : FoundIn us es) :
    declaredBy es = [] := by
  refine List.filterMap_eq_nil_iff.2 fun s hs => ?_
  obtain ⟨m, hm, hsign⟩ := List.mem_filterMap.1 hs
  have hfound := h m hm
  match m, hsign with
  | .sign (.word _), rfl => rfl
  | .sign (.identifier _ _), rfl => rfl
  | .sign (.declared d), rfl => exact absurd hfound id

theorem SubroutineDec.declaredBy_element (d : SubroutineDec) :
    declaredBy [d.element]
      = d.parameters.map Parameter.declared ++ d.vars.flatMap VarDec.declared := by
  simp [SubroutineDec.element, declaredBy_parameterElements, declaredBy_map,
    VarDec.declaredBy_element, (foundIn_statementElements d.body).declaredBy]

theorem ClassDec.declaredBy_element (c : ClassDec) :
    declaredBy [c.element] = c.declared ++ c.subroutines.flatMap fun d =>
      d.parameters.map Parameter.declared ++ d.vars.flatMap VarDec.declared := by
  simp [ClassDec.element, ClassDec.declared, declaredBy_map, ClassVarDec.declaredBy_element,
    SubroutineDec.declaredBy_element]

end Jack
