import Jack.Viewer.SourcePane
import Jack.Vm.Listing

/-!
The pane that lists the instructions: numbered from zero, bodies indented under their headers, the
selected instruction marked.
-/

namespace Jack

def Instruction.style : Instruction → Style
  | .function _ _ => (Style.ink Theme.accent).strong
  | .return_ => Style.ink Theme.accent
  | .call _ _ => Style.ink Theme.keyword
  | .label _ | .goto _ | .ifGoto _ => Style.ink Theme.jump
  | .push _ _ => Style.ink Theme.ok
  | .pop _ _ => Style.ink Theme.marker
  | .arithmetic _ => Style.ink Theme.text

/-- What stands before an instruction in the listing. -/
def Instruction.indent (i : Instruction) : String := if i.header?.isSome then "" else "  "

def codeLine (selected : Bool) (number : Nat) (i : Instruction) : List Span :=
  let numberStyle :=
    if selected then (Style.ink Theme.marker).strong else Style.ink Theme.muted
  let style := if selected then i.style.on Theme.selection else i.style
  [Span.of (padded 5 number ++ " ") numberStyle, Span.of (i.indent ++ i.text) style]

/-- Draws the instructions, and tells how the pane is scrolled. -/
def codePane (instructions : List Emitted) (selected : Nat) (focused : Bool) (scroll : Scroll)
    (width height : Nat) : Scroll × List Row :=
  let visible := visibleRows height
  let scroll := scroll.follow selected instructions.length visible
  let shown := ((instructions.drop scroll.offset).take visible).zipIdx scroll.offset
  (scroll, pane (Theme.border focused)
    (" VM Code (" ++ toString instructions.length ++ ") ") width height
    (shown.map fun (e, number) => codeLine (number = selected) number e.instruction))

end Jack
