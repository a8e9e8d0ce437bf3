/-!
The size of a screen, as the drawing package documents it. The number of cells is limited; a screen
that would have more is made smaller in both directions and keeps its shape, as far as whole cells
allow.
-/

namespace Jack

structure Extent where
  width : Nat
  height : Nat
  deriving DecidableEq, Repr

namespace Extent

/-- The largest number of cells of a screen. -/
def maxCells : Nat := 65535

/-- The sides of a screen with `maxCells` cells and the shape of the given one. Both come from the
ratio of the sides in double precision and are cut to whole cells. -/
def shrunk (e : Extent) : Extent :=
  let ratio := e.width.toFloat / e.height.toFloat
  let height := (maxCells.toFloat / ratio).sqrt
  ⟨(height * ratio).toUInt16.toNat, height.toUInt16.toNat⟩

/-- The size of the screen that is had when this width and height are asked for. -/
def ofSize (width height : Nat) : Extent :=
  if width * height ≤ maxCells then ⟨width, height⟩ else shrunk ⟨width, height⟩

example : ofSize 300 300 = ⟨255, 255⟩ := by decide +kernel

example : ofSize 65535 2 = ⟨46340, 1⟩ := by decide +kernel

end Extent

end Jack
