import Jack.Text.Blank
import Jack.Token.Basic

/-!
The lexer reads a text one character at a time. Its state is what the last characters belong to:
a gap, a slash that may still open a comment, a word, a string or a comment. White space and
comments separate tokens and are dropped. The first fault ends the reading.
-/

namespace Jack

inductive LexFault where
  | invalidToken
  | unterminatedString
  | unterminatedComment
  deriving DecidableEq, Repr

def LexFault.describe : LexFault → String
  | .invalidToken => "invalid token"
  | .unterminatedString => "unterminated string constant"
  | .unterminatedComment => "unterminated block comment"

/-- A fault, the text it was found in and the place of that text. -/
structure LexError where
  fault : LexFault
  lexeme : String
  position : Position
  deriving DecidableEq, Repr

def LexError.message (e : LexError) : String :=
  "Lexer error at line " ++ toString e.position.line ++ ", column " ++ toString e.position.column
    ++ ": " ++ e.fault.describe ++ " '" ++ e.lexeme ++ "'"

/-- A character of words: an ASCII letter, a digit or an underscore. -/
def isWordChar (c : Char) : Bool := c.isAlphanum || c = '_'

/-- The value of a run of digits, where every value past the largest integer counts as the one
after it. -/
def cappedValue (digits : List Char) : Nat :=
  digits.foldl (fun v c => min (10 * v + (c.toNat - '0'.toNat)) (largestInteger + 1)) 0

theorem cappedValue_le (digits : List Char) : cappedValue digits ≤ largestInteger + 1 := by
  rcases List.eq_nil_or_concat digits with rfl | ⟨front, c, rfl⟩
  · exact Nat.zero_le _
  · rw [cappedValue, List.concat_eq_append, List.foldl_append]
    exact Nat.min_le_right _ _

/-- The token that a word is: a keyword, an integer, or an identifier if no digit leads it. -/
def Lexeme.ofWord? (word : List Char) : Option Lexeme :=
  match Keyword.ofSpelling? (String.ofList word) with
  | some k => some (.keyword k)
  | none =>
    if word.all Char.isDigit then
      if cappedValue word ≤ largestInteger then
        some (.integer (UInt16.ofNat (cappedValue word)))
      else none
    else if word.head?.all Char.isDigit then none
    else some (.identifier (String.ofList word))

/-- A string can be built from constants of the machine: its length and the code of every
character are integer constants. -/
def fitsConstants (text : List Char) : Bool :=
  text.length ≤ largestInteger && text.all fun c => c.toNat ≤ largestInteger

namespace Lexer

/-- What the characters read last belong to; words and strings are kept back to front. -/
inductive Mode where
  | gap
  | slash (start : Position)
  | word (start : Position) (reversed : List Char)
  | string (start : Position) (reversed : List Char)
  | lineComment
  | blockComment (start : Position) (starred : Bool)
  deriving DecidableEq, Repr

/-- A text partly read: the tokens so far, newest first, and the place of the next character. -/
structure State where
  mode : Mode
  position : Position
  tokens : List Token
  deriving DecidableEq, Repr

def State.initial : State := ⟨.gap, .start, []⟩

/-- The token of a word that is complete. -/
def closeWord (start : Position) (reversed : List Char) : Except LexError Token :=
  match Lexeme.ofWord? reversed.reverse with
  | some l => .ok ⟨l, start⟩
  | none => .error ⟨.invalidToken, String.ofList reversed.reverse, start⟩

/-- The token of a string whose closing quote has been read. -/
def closeString (start : Position) (reversed : List Char) : Except LexError Token :=
  if fitsConstants reversed.reverse then
    .ok ⟨.string (String.ofList reversed.reverse), start⟩
  else
    .error ⟨.invalidToken, String.ofList ('"' :: reversed.reverse ++ ['"']), start⟩

/-- The fault of a string that its line or the text ends. -/
def openString (start : Position) (reversed : List Char) : LexError :=
  ⟨.unterminatedString, String.ofList ('"' :: reversed.reverse), start⟩

/-- Reads a character that stands outside every word, string and comment. -/
def enter (tokens : List Token) (here : Position) (c : Char) : Except LexError State :=
  if isBlank c then .ok ⟨.gap, here.after c, tokens⟩
  else if c = '"' then .ok ⟨.string here [], here.after c, tokens⟩
  else if c = '/' then .ok ⟨.slash here, here.after c, tokens⟩
  else if isWordChar c then .ok ⟨.word here [c], here.after c, tokens⟩
  else
    match Punctuation.ofChar? c with
    | some s => .ok ⟨.gap, here.after c, ⟨.symbol s, here⟩ :: tokens⟩
    | none => .error ⟨.invalidToken, c.toString, here⟩

def State.read (s : State) (c : Char) : Except LexError State :=
  let next := s.position.after c
  match s.mode with
  | .gap => enter s.tokens s.position c
  | .slash start =>
    if c = '/' then .ok ⟨.lineComment, next, s.tokens⟩
    else if c = '*' then .ok ⟨.blockComment start false, next, s.tokens⟩
    else enter (⟨.symbol .slash, start⟩ :: s.tokens) s.position c
  | .word start reversed =>
    if isWordChar c then .ok ⟨.word start (c :: reversed), next, s.tokens⟩
    else
      match closeWord start reversed with
      | .ok t => enter (t :: s.tokens) s.position c
      | .error e => .error e
  | .string start reversed =>
    if c = '"' then
      match closeString start reversed with
      | .ok t => .ok ⟨.gap, next, t :: s.tokens⟩
      | .error e => .error e
    else if c = '\n' then .error (openString start reversed)
    else .ok ⟨.string start (c :: reversed), next, s.tokens⟩
  | .lineComment => .ok ⟨if c = '\n' then .gap else .lineComment, next, s.tokens⟩
  | .blockComment start starred =>
    if starred && c = '/' then .ok ⟨.gap, next, s.tokens⟩
    else .ok ⟨.blockComment start (c = '*'), next, s.tokens⟩

def State.finish (s : State) : Except LexError TokenStream :=
  match s.mode with
  | .gap | .lineComment => .ok ⟨s.tokens.reverse, s.position⟩
  | .slash start => .ok ⟨(⟨.symbol .slash, start⟩ :: s.tokens).reverse, s.position⟩
  | .word start reversed =>
    match closeWord start reversed with
    | .ok t => .ok ⟨(t :: s.tokens).reverse, s.position⟩
    | .error e => .error e
  | .string start reversed => .error (openString start reversed)
  | .blockComment start _ => .error ⟨.unterminatedComment, "/*", start⟩

def State.run (s : State) : List Char → Except LexError TokenStream
  | [] => s.finish
  | c :: cs =>
    match s.read c with
    | .ok t => t.run cs
    | .error e => .error e

end Lexer

/-- The tokens of a text, or its first fault. -/
def tokenize (source : String) : Except LexError TokenStream :=
  Lexer.State.initial.run source.toList

end Jack
