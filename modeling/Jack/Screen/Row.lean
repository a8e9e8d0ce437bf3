import Jack.Screen.Style
import Jack.Text.Width

/-!
Rows of a screen, as the drawing package documents them. A row is its cells from left to right. A
line of text is laid into a row at its left or right end and cut at the right edge; a wide character
takes two cells, of which the second is blank and without style, and ends the line when only one is
left.
-/

namespace Jack

structure Cell where
  char : Char
  style : Style
  deriving DecidableEq, Repr

/-- A cell that shows nothing, in a style. -/
def Cell.blank (s : Style) : Cell := ⟨' ', s⟩

/-- The cells of a row, from left to right. -/
abbrev Row := List Cell

/-- A piece of text in one style. -/
structure Span where
  text : List Char
  style : Style
  deriving DecidableEq, Repr

def Span.of (text : String) (style : Style) : Span := ⟨text.toList, style⟩

def textOf (spans : List Span) : List Char := spans.flatMap Span.text

def cellsOfText (text : List Char) : Nat := text.foldr (fun c n => cellsOf c + n) 0

/-- The characters of spans on an area, each in its style. -/
def glyphs (area : Style) (spans : List Span) : List (Char × Style) :=
  spans.flatMap fun span => span.text.map fun c => (c, area.under span.style)

/-- The cells of characters, as far as `room` cells hold them. A character that is not wide has a
cell of its own, so accents that join the character before them are not accounted for. -/
def fit (room : Nat) : List (Char × Style) → Row
  | [] => []
  | (c, s) :: rest =>
    if isWide c then
      if 2 ≤ room then ⟨c, s⟩ :: Cell.blank .plain :: fit (room - 2) rest else []
    else if 1 ≤ room then ⟨c, s⟩ :: fit (room - 1) rest
    else []

def blanks (area : Style) (n : Nat) : Row := List.replicate n (Cell.blank area)

/-- A row of an area with a line at its left end. -/
def leftRow (area : Style) (width : Nat) (spans : List Span) : Row :=
  let line := fit width (glyphs area spans)
  line ++ blanks area (width - line.length)

/-- A row of an area with a line at its right end. -/
def rightRow (area : Style) (width : Nat) (spans : List Span) : Row :=
  let line := fit width (glyphs area spans)
  let margin := width - cellsOfText (textOf spans)
  blanks area margin ++ line ++ blanks area (width - margin - line.length)

theorem length_fit_le (room : Nat) (cs : List (Char × Style)) : (fit room cs).length ≤ room := by
  induction cs generalizing room with
  | nil => simp [fit]
  | cons c rest ih =>
    obtain ⟨c, s⟩ := c
    unfold fit
    split
    · split
      · have := ih (room - 2)
        simp only [List.length_cons]
        omega
      · simp
    · split
      · have := ih (room - 1)
        simp only [List.length_cons]
        omega
      · simp

theorem length_leftRow (area : Style) (width : Nat) (spans : List Span) :
    (leftRow area width spans).length = width := by
  have := length_fit_le width (glyphs area spans)
  simp only [leftRow, blanks, List.length_append, List.length_replicate]
  omega

end Jack
