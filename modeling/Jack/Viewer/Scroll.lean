/-!
Scrolling that follows a highlighted row. The row is held at one height of the pane while the
selection moves, except near both ends of the content.
-/

namespace Jack

/-- How far a pane is scrolled, and the row of the pane where the highlighted one is held. -/
structure Scroll where
  offset : Nat
  target? : Option Nat
  deriving DecidableEq, Repr

/-- At the top; the first highlighted row will be held in the middle. -/
def Scroll.initial : Scroll := ⟨0, none⟩

/-- The largest row that can be asked for. -/
def Scroll.lastRow : Nat := 18446744073709551615

/-- The row where the highlighted one is held in a pane that shows `visible` rows. -/
def Scroll.targetIn (s : Scroll) (visible : Nat) : Nat :=
  min (s.target?.getD (visible / 2)) (visible - 1)

/-- Scrolls so that row `current` of `total` is seen at its place. -/
def Scroll.follow (s : Scroll) (current total visible : Nat) : Scroll :=
  ⟨if visible < total then min (current - s.targetIn visible) (total - visible) else 0,
   some (s.targetIn visible)⟩

/-- Holds the highlighted row one row lower. -/
def Scroll.up (s : Scroll) : Scroll :=
  { s with target? := s.target?.map fun row => min (row + 1) Scroll.lastRow }

/-- Holds the highlighted row one row higher. -/
def Scroll.down (s : Scroll) : Scroll := { s with target? := s.target?.map fun row => row - 1 }

end Jack
