/-!
Colors and styles of a terminal screen.
-/

namespace Jack

/-- A color: one of the terminal's own, or a mixture of red, green and blue. -/
inductive Color where
  | black
  | white
  | rgb (red green blue : UInt8)
  deriving DecidableEq, Repr

/-- How a cell looks. A color that is not given shows what lies beneath. -/
structure Style where
  foreground : Option Color
  background : Option Color
  bold : Bool
  deriving DecidableEq, Repr

def Style.plain : Style := ⟨none, none, false⟩

def Style.ink (c : Color) : Style := { Style.plain with foreground := some c }

def Style.on (s : Style) (c : Color) : Style := { s with background := some c }

def Style.strong (s : Style) : Style := { s with bold := true }

/-- The style `top` laid over the style `s`. -/
def Style.under (s top : Style) : Style :=
  ⟨top.foreground.or s.foreground, top.background.or s.background, s.bold || top.bold⟩

@[simp] theorem Style.under_plain (s : Style) : s.under .plain = s := by
  simp [Style.under, Style.plain]

@[simp] theorem Style.plain_under (s : Style) : Style.plain.under s = s := by
  simp [Style.under, Style.plain]

end Jack
