import Jack.Screen.Pane
import Jack.Text.Lines
import Jack.Viewer.Highlight
import Jack.Viewer.Scroll

/-!
The pane that shows the source: numbered lines, the line of the selected instruction marked, and
the line of the error in its own colors.
-/

namespace Jack

/-- A number with blanks before it, at least `width` characters long. -/
def padded (width n : Nat) : String :=
  let digits := toString n
  String.ofList (List.replicate (width - digits.length) ' ') ++ digits

/-- The rows of content that a pane of this height shows; at least one counts for scrolling. -/
def visibleRows (height : Nat) : Nat := max (inside height) 1

inductive LineMark where
  | plain | current | error
  deriving DecidableEq, Repr

def LineMark.numberStyle : LineMark → Style
  | .plain => Style.ink Theme.muted
  | .current => (Style.ink Theme.marker).strong
  | .error => (Style.ink Theme.error).strong

/-- The style of a span of a line, given the style of its highlighting. -/
def LineMark.restyle : LineMark → Style → Style
  | .plain, s => s
  | .current, s => s.on Theme.selection
  | .error, _ => ((Style.ink .white).on Theme.error).strong

def lineMark (current : Nat) (error? : Option Nat) (number : Nat) : LineMark :=
  if error? = some number then .error
  else if number = current then .current
  else .plain

def sourceLine (mark : LineMark) (number : Nat) (line : List Char) : List Span :=
  Span.of (padded 4 number ++ " ") mark.numberStyle
    :: (highlight line).map fun span => { span with style := mark.restyle span.style }

/-- Scrolls to the current line, if there is one. Lines are counted from one. -/
def followLine (scroll : Scroll) (current total visible : Nat) : Scroll :=
  if 0 < current then scroll.follow (current - 1) total visible else scroll

/-- The lines that a source pane of this height shows, in their styles, once it is scrolled. -/
def shownLines (source : String) (current : Nat) (error? : Option Nat) (scroll : Scroll)
    (height : Nat) : Scroll × List (List Span) :=
  let lines := linesOf source
  let visible := visibleRows height
  let scroll := followLine scroll current lines.length visible
  let shown := ((lines.drop scroll.offset).take visible).zipIdx (scroll.offset + 1)
  (scroll, shown.map fun (line, number) =>
    sourceLine (lineMark current error? number) number line)

/-- Draws the source pane, and tells how it is scrolled. -/
def sourcePane (source : String) (current : Nat) (error? : Option Nat) (focused : Bool)
    (scroll : Scroll) (width height : Nat) : Scroll × List Row :=
  let shown := shownLines source current error? scroll height
  (shown.1, pane (Theme.border focused) " Source Code " width height shown.2)

end Jack
