/-!
The lines of a text. A line feed ends a line, a carriage return right before it is dropped, and
nothing after a final line feed is no line.
-/

namespace Jack

/-- A line read back to front, without the carriage return that stood before its line feed. -/
def closeLine : List Char → List Char
  | '\r' :: reversed => reversed.reverse
  | reversed => reversed.reverse

/-- The lines of a text whose present line is `reversed`, read back to front. -/
def splitLines (reversed : List Char) (done : List (List Char)) : List Char → List (List Char)
  | [] => (if reversed.isEmpty then done else reversed.reverse :: done).reverse
  | c :: cs =>
    if c = '\n' then splitLines [] (closeLine reversed :: done) cs
    else splitLines (c :: reversed) done cs

def linesOf (text : String) : List (List Char) := splitLines [] [] text.toList

end Jack
