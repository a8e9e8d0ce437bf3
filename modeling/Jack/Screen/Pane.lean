import Jack.Screen.Row

/-!
Panes with a border, as the drawing package documents them. The title stands in the border's top
row; lines go inside, as many as there is room for.
-/

namespace Jack

/-- The rows and columns that a border leaves inside. -/
def inside (extent : Nat) : Nat := extent - 2

/-- A row between two corners, with `middle` cut to the room between them. -/
def borderRow (style : Style) (width : Nat) (left right : Char) (middle : Row) : Row :=
  let row := ⟨left, style⟩ :: middle.take (inside width)
    ++ List.replicate (inside width - middle.length) ⟨'─', style⟩
  if width = 0 then [] else if width = 1 then [⟨left, style⟩] else row ++ [⟨right, style⟩]

def topRow (style : Style) (title : String) (width : Nat) : Row :=
  borderRow style width '┌' '┐' (fit (inside width) (glyphs style [Span.of title style]))

def bottomRow (style : Style) (width : Nat) : Row := borderRow style width '└' '┘' []

def innerRow (style : Style) (width : Nat) (spans : List Span) : Row :=
  borderRow style width '│' '│' (leftRow .plain (inside width) spans)

/-- A pane of `height` rows with a border, a title and lines inside. -/
def pane (style : Style) (title : String) (width height : Nat) (lines : List (List Span)) :
    List Row :=
  let shown := lines.take (inside height)
  let rows := shown ++ List.replicate (inside height - shown.length) []
  if height = 0 then []
  else if height = 1 then [topRow style title width]
  else topRow style title width :: rows.map (innerRow style width) ++ [bottomRow style width]

end Jack
