/-!
Places in a source text. Lines and columns count from one, a column counts characters, and only
a line feed ends a line.
-/

namespace Jack

structure Position where
  line : Nat
  column : Nat
  deriving DecidableEq, Repr

/-- The place of a text's first character. -/
def Position.start : Position := ⟨1, 1⟩

/-- No place in any text: lines and columns of a text count from one. -/
def Position.nowhere : Position := ⟨0, 0⟩

/-- The place just past the character `c` that stands at `p`. -/
def Position.after (p : Position) (c : Char) : Position :=
  if c = '\n' then ⟨p.line + 1, 1⟩ else ⟨p.line, p.column + 1⟩

/-- The place just past the text `cs` that starts at `p`. -/
def Position.afterAll (p : Position) (cs : List Char) : Position :=
  cs.foldl Position.after p

theorem Position.afterAll_append (p : Position) (cs ds : List Char) :
    p.afterAll (cs ++ ds) = (p.afterAll cs).afterAll ds := by
  simp [Position.afterAll]

end Jack
