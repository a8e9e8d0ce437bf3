import Jack.Diagnostic
import Jack.Screen.Extent
import Jack.Viewer.CodePane
import Jack.Viewer.StatusBar

/-!
The viewer shows a source beside the instructions that were compiled from it. One instruction is
selected; keys move the selection, the focus between the panes and the row where a pane holds what
is selected.
-/

namespace Jack

inductive Focus where
  | source | code
  deriving DecidableEq, Repr

def Focus.other : Focus → Focus
  | .source => .code
  | .code => .source

/-- The keys that a terminal tells apart. -/
inductive Key where
  | char (c : Char)
  | tab | left | right | up | down | pageUp | pageDown | enter | backspace
  | other
  deriving DecidableEq, Repr

/-- The state of the viewer. The instructions are those up to the error, if there is one. -/
structure Viewer where
  source : String
  instructions : List Emitted
  error? : Option CompileError
  selected : Nat
  focus : Focus
  sourceScroll : Scroll
  codeScroll : Scroll
  quitting : Bool
  message : String

namespace Viewer

def initial (source : String) (instructions : List Emitted) (error? : Option CompileError) :
    Viewer where
  source := source
  instructions := instructions
  error? := error?
  selected := 0
  focus := .code
  sourceScroll := .initial
  codeScroll := .initial
  quitting := false
  message := match error? with
    | some e => e.message
    | none => "Ready!"

def errorLine? (v : Viewer) : Option Nat := (v.error?.bind CompileError.position?).map (·.line)

/-- The source line of the selected instruction; with none selected, the line of the error; and
zero when there is no such line. -/
def currentLine (v : Viewer) : Nat :=
  match v.instructions[v.selected]? with
  | some e => e.position.line
  | none => v.errorLine?.getD 0

/-- The function whose body holds the selection. -/
def function? (v : Viewer) : Option String :=
  (v.instructions.take (v.selected + 1)).reverse.findSome? fun e => e.instruction.header?

/-- The number of the last instruction, zero when there is none. -/
def last (v : Viewer) : Nat := v.instructions.length - 1

/-- Selects the instruction `n` further on, or the last one, and tells how many steps it went. -/
def forward (v : Viewer) (n : Nat) : Viewer × Nat :=
  let target := min (v.selected + n) v.last
  ({ v with selected := target }, target - v.selected)

/-- Selects the instruction `n` further back, or the first one, and tells how many steps it went. -/
def backward (v : Viewer) (n : Nat) : Viewer × Nat :=
  let target := v.selected - n
  ({ v with selected := target }, v.selected - target)

def toStart (v : Viewer) : Viewer := { v with selected := 0 }

def toEnd (v : Viewer) : Viewer := { v with selected := v.last }

/-- The first header after the selection. -/
def nextHeader? (v : Viewer) : Option Nat :=
  ((v.instructions.drop (v.selected + 1)).findIdx? fun e => e.instruction.header?.isSome).map
    fun i => v.selected + 1 + i

/-- The last header before the selection. -/
def previousHeader? (v : Viewer) : Option Nat :=
  let before := (v.instructions.take v.selected).reverse
  (before.findIdx? fun e => e.instruction.header?.isSome).map fun i => before.length - 1 - i

/-- Selects a header if there is one, and tells whether there is. -/
def select (v : Viewer) (header? : Option Nat) : Viewer × Bool :=
  match header? with
  | some i => ({ v with selected := i }, true)
  | none => (v, false)

def nextFunction (v : Viewer) : Viewer × Bool := v.select v.nextHeader?

def previousFunction (v : Viewer) : Viewer × Bool := v.select v.previousHeader?

def say (v : Viewer) (message : String) : Viewer := { v with message := message }

/-- Applies a change to the scrolling of the pane in focus. -/
def scrollFocused (v : Viewer) (f : Scroll → Scroll) : Viewer :=
  match v.focus with
  | .source => { v with sourceScroll := f v.sourceScroll }
  | .code => { v with codeScroll := f v.codeScroll }

/-- Answers a character key: `q` quits, a digit other than zero goes that many steps forward. -/
def typed (v : Viewer) (c : Char) : Viewer :=
  if c = 'q' ∨ c = 'Q' then { v with quitting := true }
  else if '1' ≤ c ∧ c ≤ '9' then
    let (w, steps) := v.forward (c.toNat - '0'.toNat)
    w.say ("Stepped forward " ++ toString steps ++ " step(s)")
  else v

def press (v : Viewer) : Key → Viewer
  | .char c => v.typed c
  | .tab => { v with focus := v.focus.other }
  | .left =>
    let (w, steps) := v.backward 1
    w.say (if steps = 0 then "Cannot step backward: at first instruction" else "Stepped backward")
  | .right =>
    let (w, steps) := v.forward 1
    w.say (if steps = 0 then "Cannot step forward: at last instruction" else "Stepped forward")
  | .up => v.scrollFocused .up
  | .down => v.scrollFocused .down
  | .pageUp =>
    let (w, found) := v.previousFunction
    w.say (if found then "Previous function" else "No earlier function")
  | .pageDown =>
    let (w, found) := v.nextFunction
    w.say (if found then "Next function" else "No later function")
  | .enter => v.toEnd.say "Jumped to end"
  | .backspace => v.toStart.say "Jumped to start"
  | .other => v

def status (v : Viewer) : Status :=
  ⟨v.message, v.selected, v.instructions.length, v.function?, v.error?.isSome⟩

/-- Draws the viewer: the panes side by side, the source in the larger part, and the status bar in
the last row. The panes scroll to what is selected. -/
def draw (v : Viewer) (screen : Extent) : Viewer × List Row :=
  let part := Status.share 60 screen.width
  let (sourceScroll, sourceRows) :=
    sourcePane v.source v.currentLine v.errorLine? (v.focus = .source) v.sourceScroll part
      (screen.height - 1)
  let (codeScroll, codeRows) :=
    codePane v.instructions v.selected (v.focus = .code) v.codeScroll (screen.width - part)
      (screen.height - 1)
  ({ v with sourceScroll := sourceScroll, codeScroll := codeScroll },
   List.zipWith (· ++ ·) sourceRows codeRows
    ++ v.status.draw screen.width (min screen.height 1))

end Viewer

end Jack
