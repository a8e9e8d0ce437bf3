import Jack.Text.Position
import Jack.Vm.Instruction

/-!
A listing: instructions in the order of their emission, each with the place it stands for.
Entries are never removed or moved. The one thing that changes after the emission is the local
count of a function header, through the slot that was handed out for it.
-/

namespace Jack

/-- An instruction and the place in the source that it stands for. -/
structure Emitted where
  instruction : Instruction
  position : Position
  deriving DecidableEq, Repr

/-- Where a function header stands whose local count is not known yet. -/
structure HeaderSlot where
  offset : Nat
  name : String
  deriving DecidableEq, Repr

/-- Instructions emitted so far, and the place that the next ones stand for. -/
structure Listing where
  lines : Array Emitted
  position : Position

/-- Nothing emitted, at no place. -/
def Listing.empty : Listing := ⟨#[], .nowhere⟩

def Listing.moveTo (l : Listing) (p : Position) : Listing := { l with position := p }

def Listing.emit (l : Listing) (i : Instruction) : Listing :=
  { l with lines := l.lines.push ⟨i, l.position⟩ }

def Listing.emitAll (l : Listing) (is : List Instruction) : Listing := is.foldl Listing.emit l

/-- The slot of the header that would be emitted next. -/
def Listing.slot (l : Listing) (name : String) : HeaderSlot := ⟨l.lines.size, name⟩

/-- Appends a function header, without locals for the time being. -/
def Listing.header (l : Listing) (name : String) : Listing := l.emit (.function name 0)

/-- A header of the slot's name stands where the slot says. -/
def Listing.holds (l : Listing) (slot : HeaderSlot) : Bool :=
  match l.lines[slot.offset]? with
  | some e => e.instruction.header? = some slot.name
  | none => false

/-- Sets the local count of the header in a slot, and tells whether the header stands there.
Nothing changes if it does not. -/
def Listing.patch (l : Listing) (slot : HeaderSlot) (locals : UInt16) : Listing × Bool :=
  if l.holds slot then
    ({ l with lines := l.lines.modify slot.offset fun e =>
        { e with instruction := .function slot.name locals } }, true)
  else (l, false)

/-- The text of instructions, each ended by a line feed. -/
def render (lines : List Emitted) : String :=
  lines.foldl (fun text e => text ++ e.instruction.text ++ "\n") ""

@[simp] theorem Listing.lines_moveTo (l : Listing) (p : Position) :
    (l.moveTo p).lines = l.lines := rfl

@[simp] theorem Listing.position_moveTo (l : Listing) (p : Position) :
    (l.moveTo p).position = p := rfl

@[simp] theorem Listing.toList_emit (l : Listing) (i : Instruction) :
    (l.emit i).lines.toList = l.lines.toList ++ [⟨i, l.position⟩] := by
  simp [Listing.emit]

@[simp] theorem Listing.position_emit (l : Listing) (i : Instruction) :
    (l.emit i).position = l.position := rfl

@[simp] theorem Listing.position_emitAll (l : Listing) (is : List Instruction) :
    (l.emitAll is).position = l.position := by
  induction is generalizing l with
  | nil => rfl
  | cons i is ih => simpa [Listing.emitAll] using ih (l.emit i)

@[simp] theorem Listing.toList_emitAll (l : Listing) (is : List Instruction) :
    (l.emitAll is).lines.toList = l.lines.toList ++ is.map fun i => ⟨i, l.position⟩ := by
  induction is generalizing l with
  | nil => simp [Listing.emitAll]
  | cons i is ih => simpa [Listing.emitAll] using ih (l.emit i)

@[simp] theorem Listing.snd_patch (l : Listing) (slot : HeaderSlot) (locals : UInt16) :
    (l.patch slot locals).2 = l.holds slot := by
  unfold Listing.patch
  split <;> simp_all

@[simp] theorem Listing.size_patch (l : Listing) (slot : HeaderSlot) (locals : UInt16) :
    (l.patch slot locals).1.lines.size = l.lines.size := by
  unfold Listing.patch
  split <;> simp

/-- A patch touches the line of its slot alone. -/
theorem Listing.getElem?_patch (l : Listing) (slot : HeaderSlot) (locals : UInt16) (n : Nat) :
    (l.patch slot locals).1.lines[n]?
      = if l.holds slot ∧ slot.offset = n then
          l.lines[n]?.map fun e => { e with instruction := .function slot.name locals }
        else l.lines[n]? := by
  unfold Listing.patch
  split <;> simp_all [Array.getElem?_modify]

theorem foldl_append_text (before : String) (lines : List Emitted) :
    lines.foldl (fun text e => text ++ e.instruction.text ++ "\n") before
      = before ++ render lines := by
  unfold render
  induction lines generalizing before with
  | nil => simp
  | cons e lines ih =>
    rw [List.foldl_cons, List.foldl_cons, ih, ih ("" ++ e.instruction.text ++ "\n")]
    simp [String.append_assoc]

@[simp] theorem render_nil : render [] = "" := rfl

@[simp] theorem render_cons (e : Emitted) (lines : List Emitted) :
    render (e :: lines) = e.instruction.text ++ "\n" ++ render lines := by
  rw [render, List.foldl_cons, foldl_append_text]
  simp

theorem render_append (lines more : List Emitted) :
    render (lines ++ more) = render lines ++ render more := by
  rw [render, List.foldl_append, foldl_append_text]
  rfl

end Jack
