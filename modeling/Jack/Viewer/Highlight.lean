import Jack.Screen.Row
import Jack.Text.Blank
import Jack.Text.Letter
import Jack.Token.Basic
import Jack.Viewer.Theme

/-!
Highlighting of a source line. It looks at one line alone, so that unfinished lines and the lines
inside a long comment are shown too: a line that starts with a star is taken for a comment.
-/

namespace Jack

/-- A character of the words that are highlighted as a whole. -/
def isHighlightChar (c : Char) : Bool := isLetterOrDigit c || c = '_'

/-- The style of a word. `called` tells that a parenthesis follows it. -/
def wordStyle (word : List Char) (called : Bool) : Style :=
  match Keyword.ofSpelling? (String.ofList word) with
  | some .int | some .char | some .boolean | some .void => Style.ink Theme.typeName
  | some .true_ | some .false_ | some .null | some .this => Style.ink Theme.literal
  | some _ => (Style.ink Theme.keyword).strong
  | none =>
    if word.all Char.isDigit then Style.ink Theme.literal
    else if called then Style.ink Theme.accent
    else if word.head?.any Char.isUpper then Style.ink Theme.typeName
    else Style.ink Theme.text

/-- The style of a character that is no part of a word. -/
def markStyle (c : Char) : Style :=
  if ['\x7b', '\x7d', '(', ')', '[', ']'].contains c then Style.ink Theme.keyword
  else Style.ink Theme.text

/-- A line partly read: the spans so far, newest first, and what the last characters belong to,
back to front. In code, `blank` tells that the line holds only white space so far. -/
inductive Highlighter where
  | code (done : List Span) (blank : Bool) (word : List Char)
  | quoted (done : List Span) (text : List Char)

def closeHighlight (done : List Span) (word : List Char) (called : Bool) : List Span :=
  if word.isEmpty then done else ⟨word.reverse, wordStyle word.reverse called⟩ :: done

/-- A comment starts with the character `c` before `rest`. -/
def startsComment (blank : Bool) (c : Char) (rest : List Char) : Bool :=
  (c = '/' && (rest.head? = some '/' || rest.head? = some '*')) || (c = '*' && blank)

def Highlighter.run : Highlighter → List Char → List Span
  | .code done _ word, [] => (closeHighlight done word false).reverse
  | .quoted done text, [] => (⟨text.reverse, Style.ink Theme.literal⟩ :: done).reverse
  | .quoted done text, c :: rest =>
    if c = '"' then
      (Highlighter.code (⟨(c :: text).reverse, Style.ink Theme.literal⟩ :: done) false []).run rest
    else (Highlighter.quoted done (c :: text)).run rest
  | .code done blank word, c :: rest =>
    if startsComment blank c rest then
      (⟨c :: rest, Style.ink Theme.muted⟩ :: closeHighlight done word false).reverse
    else if c = '"' then (Highlighter.quoted (closeHighlight done word false) [c]).run rest
    else if isHighlightChar c then (Highlighter.code done false (c :: word)).run rest
    else
      (Highlighter.code (⟨[c], markStyle c⟩ :: closeHighlight done word (c = '('))
        (blank && isBlank c) []).run rest

def highlight (line : List Char) : List Span := (Highlighter.code [] true []).run line

end Jack
