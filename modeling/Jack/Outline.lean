import Jack.Scope
import Jack.Token.Basic

/-!
An outline shows how a source was understood: an element for every production, a leaf for every
token, and for every variable name what it stands for. It is written as indented elements.
-/

namespace Jack

inductive OutlineEntry where
  | enter (tag : String)
  | leave (tag : String)
  | leaf (lexeme : Lexeme)
  | variable (name : String) (defines : Bool) (meaning : Option Variable)
  deriving DecidableEq, Repr

structure Outline where
  entries : Array OutlineEntry

def Outline.empty : Outline := ⟨#[]⟩

def Outline.add (o : Outline) (e : OutlineEntry) : Outline := ⟨o.entries.push e⟩

/-- Replaces the three characters that elements are made of. -/
def escapeChar : Char → List Char
  | '<' => ['&', 'l', 't', ';']
  | '>' => ['&', 'g', 't', ';']
  | '&' => ['&', 'a', 'm', 'p', ';']
  | c => [c]

/-- A text as it stands inside an element. -/
def escape (text : String) : String := String.ofList (text.toList.flatMap escapeChar)

/-- The depth of the line after an entry that stands at depth `depth`. -/
def OutlineEntry.depthAfter (depth : Nat) : OutlineEntry → Nat
  | .enter _ => depth + 1
  | .leave _ => depth - 1
  | .leaf _ | .variable _ _ _ => depth

/-- Two spaces for each level. -/
def indentation (depth : Nat) : String := String.ofList (List.replicate (2 * depth) ' ')

/-- What an outline says about a variable name. -/
def remark (defines : Bool) (meaning : Option Variable) : String :=
  let defined := "defined: " ++ (if defines then "true" else "false")
  match meaning with
  | some v =>
    defined ++ ", type: " ++ v.type ++ ", kind: " ++ v.kind.name ++ ", index: "
      ++ toString v.index.toNat
  | none => defined ++ ", kind: none"

/-- An element that holds one text. -/
def element (tag text : String) : String :=
  "<" ++ tag ++ "> " ++ escape text ++ " </" ++ tag ++ ">"

/-- The line of an entry that is met at depth `depth`. -/
def OutlineEntry.line (depth : Nat) : OutlineEntry → String
  | .enter tag => indentation depth ++ "<" ++ tag ++ ">\n"
  | .leave tag => indentation (depth - 1) ++ "</" ++ tag ++ ">\n"
  | .leaf lexeme => indentation depth ++ element lexeme.category.name lexeme.text ++ "\n"
  | .variable name defines meaning =>
    indentation depth ++ element Category.identifier.name name ++ " "
      ++ remark defines meaning ++ "\n"

/-- The text of entries that start at depth `depth`, after the text `before`. -/
def renderEntries (before : String) (depth : Nat) : List OutlineEntry → String
  | [] => before
  | e :: rest => renderEntries (before ++ e.line depth) (e.depthAfter depth) rest

theorem renderEntries_eq_append (before : String) (depth : Nat) (entries : List OutlineEntry) :
    renderEntries before depth entries = before ++ renderEntries "" depth entries := by
  induction entries generalizing before depth with
  | nil => simp [renderEntries]
  | cons e rest ih =>
    rw [renderEntries, renderEntries, ih, ih ("" ++ e.line depth)]
    simp [String.append_assoc]

theorem renderEntries_cons (depth : Nat) (e : OutlineEntry) (rest : List OutlineEntry) :
    renderEntries "" depth (e :: rest)
      = e.line depth ++ renderEntries "" (e.depthAfter depth) rest := by
  rw [renderEntries, renderEntries_eq_append]
  simp

def Outline.render (o : Outline) : String := renderEntries "" 0 o.entries.toList

end Jack
