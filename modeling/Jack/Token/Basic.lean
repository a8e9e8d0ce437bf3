import Jack.Text.Position

/-!
The words of the Jack language: keywords, punctuation, integer and string constants and
identifiers, each with the place where it stands.
-/

namespace Jack

inductive Keyword where
  | class_ | constructor | function | method | field | static | var
  | int | char | boolean | void | true_ | false_ | null | this
  | let_ | do_ | if_ | else_ | while_ | return_
  deriving DecidableEq, Repr

def Keyword.all : List Keyword :=
  [.class_, .constructor, .function, .method, .field, .static, .var, .int, .char, .boolean, .void,
   .true_, .false_, .null, .this, .let_, .do_, .if_, .else_, .while_, .return_]

def Keyword.spelling : Keyword → String
  | .class_ => "class"
  | .constructor => "constructor"
  | .function => "function"
  | .method => "method"
  | .field => "field"
  | .static => "static"
  | .var => "var"
  | .int => "int"
  | .char => "char"
  | .boolean => "boolean"
  | .void => "void"
  | .true_ => "true"
  | .false_ => "false"
  | .null => "null"
  | .this => "this"
  | .let_ => "let"
  | .do_ => "do"
  | .if_ => "if"
  | .else_ => "else"
  | .while_ => "while"
  | .return_ => "return"

/-- The reserved word written as `word`, in exactly these letters. -/
def Keyword.ofSpelling? (word : String) : Option Keyword :=
  Keyword.all.find? fun k => k.spelling = word

theorem Keyword.mem_all (k : Keyword) : k ∈ Keyword.all := by
  cases k <;> decide

theorem Keyword.spelling_injective {j k : Keyword} (h : j.spelling = k.spelling) : j = k := by
  revert h; cases j <;> cases k <;> decide

theorem Keyword.ofSpelling?_eq_some_iff {word : String} {k : Keyword} :
    Keyword.ofSpelling? word = some k ↔ k.spelling = word := by
  constructor
  · intro h
    simpa using List.find?_some h
  · rintro rfl
    cases k <;> decide

/-- The characters that are tokens of their own. -/
inductive Punctuation where
  | leftBrace | rightBrace | leftParen | rightParen | leftBracket | rightBracket
  | dot | comma | semicolon | plus | minus | star | slash | ampersand | bar
  | less | greater | equal | tilde
  deriving DecidableEq, Repr

def Punctuation.all : List Punctuation :=
  [.leftBrace, .rightBrace, .leftParen, .rightParen, .leftBracket, .rightBracket, .dot, .comma,
   .semicolon, .plus, .minus, .star, .slash, .ampersand, .bar, .less, .greater, .equal, .tilde]

def Punctuation.char : Punctuation → Char
  | .leftBrace => '\x7b'
  | .rightBrace => '\x7d'
  | .leftParen => '('
  | .rightParen => ')'
  | .leftBracket => '['
  | .rightBracket => ']'
  | .dot => '.'
  | .comma => ','
  | .semicolon => ';'
  | .plus => '+'
  | .minus => '-'
  | .star => '*'
  | .slash => '/'
  | .ampersand => '&'
  | .bar => '|'
  | .less => '<'
  | .greater => '>'
  | .equal => '='
  | .tilde => '~'

def Punctuation.ofChar? (c : Char) : Option Punctuation :=
  Punctuation.all.find? fun s => s.char = c

theorem Punctuation.mem_all (s : Punctuation) : s ∈ Punctuation.all := by
  cases s <;> decide

theorem Punctuation.ofChar?_eq_some_iff {c : Char} {s : Punctuation} :
    Punctuation.ofChar? c = some s ↔ s.char = c := by
  constructor
  · intro h
    simpa using List.find?_some h
  · rintro rfl
    cases s <;> decide

/-- The largest integer constant: the machine's word is 16 bits with a sign. -/
def largestInteger : Nat := 32767

/-- A word of the language, wherever it stands. -/
inductive Lexeme where
  | keyword (word : Keyword)
  | symbol (mark : Punctuation)
  | integer (value : UInt16)
  | string (text : String)
  | identifier (name : String)
  deriving DecidableEq, Repr

/-- The categories of what a text may hold next. -/
inductive Category where
  | keyword | symbol | integerConstant | stringConstant | identifier | endOfFile
  deriving DecidableEq, Repr

/-- What a category is called in messages and outlines. -/
def Category.name : Category → String
  | .keyword => "keyword"
  | .symbol => "symbol"
  | .integerConstant => "integerConstant"
  | .stringConstant => "stringConstant"
  | .identifier => "identifier"
  | .endOfFile => "end of file"

def Lexeme.category : Lexeme → Category
  | .keyword _ => .keyword
  | .symbol _ => .symbol
  | .integer _ => .integerConstant
  | .string _ => .stringConstant
  | .identifier _ => .identifier

/-- The text of a word: a string constant without its quotes, an integer without leading zeros. -/
def Lexeme.text : Lexeme → String
  | .keyword k => k.spelling
  | .symbol s => s.char.toString
  | .integer n => toString n.toNat
  | .string text => text
  | .identifier name => name

/-- A word together with its category, as messages show it. -/
def Lexeme.describe : Lexeme → String
  | .keyword k => "keyword '" ++ k.spelling ++ "'"
  | .symbol s => "symbol '" ++ s.char.toString ++ "'"
  | .integer n => "integerConstant " ++ toString n.toNat
  | .string text => "stringConstant \"" ++ text ++ "\""
  | .identifier name => "identifier '" ++ name ++ "'"

/-- A word and the place of its first character. -/
structure Token where
  lexeme : Lexeme
  position : Position
  deriving DecidableEq, Repr

/-- The tokens of a text, and the place just past the text's last character. -/
structure TokenStream where
  tokens : List Token
  finish : Position
  deriving DecidableEq, Repr

/-- What stands at a place of a text: a word, or the text's end. -/
structure Found where
  lexeme? : Option Lexeme
  position : Position
  deriving DecidableEq, Repr

def Found.category (f : Found) : Category :=
  match f.lexeme? with
  | some l => l.category
  | none => .endOfFile

/-- The text of what stands there, empty at the end. -/
def Found.text (f : Found) : String :=
  match f.lexeme? with
  | some l => l.text
  | none => ""

/-- What stands there, as messages show it. -/
def Found.describe (f : Found) : String :=
  match f.lexeme? with
  | some l => l.describe
  | none => Category.endOfFile.name

/-- A token, seen as what stands at its place. -/
def Token.found (t : Token) : Found := ⟨some t.lexeme, t.position⟩

/-- Everything in a stream, the end of the text last. -/
def TokenStream.founds (s : TokenStream) : List Found :=
  s.tokens.map Token.found ++ [⟨none, s.finish⟩]

end Jack
