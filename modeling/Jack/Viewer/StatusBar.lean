import Jack.Screen.Row
import Jack.Viewer.Theme

/-!
The bar at the bottom: the position, the function at hand and a message at the left, the keys and
a badge at the right.
-/

namespace Jack

/-- What the bar shows. The selected instruction is counted from zero. -/
structure Status where
  message : String
  selected : Nat
  total : Nat
  function? : Option String
  failed : Bool

namespace Status

/-- The background of the whole bar. -/
def area : Style := Style.plain.on Theme.selection

/-- The style of text on the bar. -/
def ink (c : Color) : Style := (Style.ink c).on Theme.selection

/-- A badge: bold black on a color. -/
def badge (c : Color) : Style := ((Style.ink .black).on c).strong

/-- Which instruction is selected, out of how many. -/
def place (s : Status) : String :=
  if s.total = 0 then " 0/0 "
  else " " ++ toString (s.selected + 1) ++ "/" ++ toString s.total ++ " "

def left (s : Status) : List Span :=
  Span.of s.place (badge (if s.failed then Theme.error else Theme.keyword))
    :: (s.function?.map fun name => Span.of (" " ++ name ++ " ") (ink Theme.accent)).toList
    ++ [Span.of " | " (ink Theme.muted),
        Span.of (" " ++ s.message ++ " ") (ink (if s.failed then Theme.error else Theme.text))]

def hint (key what : String) : List Span :=
  [Span.of key ((Style.ink .black).on Theme.muted), Span.of what (ink Theme.text)]

def bar : Span := Span.of "│" (ink Theme.muted)

/-- What stands between two hints, with a blank after it. -/
def separator : List Span := [bar, Span.of " " (ink Theme.text)]

/-- The badge at the end, if there is one. -/
def badge? (s : Status) : Option Span :=
  if s.failed then some (Span.of " ERROR " (badge Theme.error))
  else if 0 < s.total ∧ s.total ≤ s.selected + 1 then some (Span.of " END " (badge Theme.marker))
  else if s.selected = 0 then some (Span.of " START " (badge Theme.ok))
  else none

def right (s : Status) : List Span :=
  hint " ←/→ " " step " ++ separator ++ hint " PgUp/PgDn " " function " ++ separator
    ++ hint " ↵ / ⌫ " " end/start " ++ separator ++ hint "q" " quit "
    ++ match s.badge? with
      | some b => [bar, b]
      | none => []

/-- A share of a width in percent, to the nearest whole cell, a half to the larger: the parts that
the drawing package cuts an area into. -/
def share (percent width : Nat) : Nat := (percent * width + 50) / 100

/-- Draws the bar. Text stands in its first row. -/
def draw (s : Status) (width height : Nat) : List Row :=
  let part := share 55 width
  match height with
  | 0 => []
  | more + 1 =>
    (leftRow area part s.left ++ rightRow area (width - part) s.right)
      :: List.replicate more (blanks area width)

end Status

end Jack
