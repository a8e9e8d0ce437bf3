/-!
Paths as they are written. A path names its steps between slashes; empty steps and single dots
lead nowhere. Its file name is the last step that leads somewhere, unless that one leads up. The
extension is what follows the last dot of the file name, unless the name starts with that dot.
-/

namespace Jack

structure Path where
  text : String
  deriving DecidableEq, Repr

/-- The pieces of a text between slashes, given the present piece back to front. -/
def splitSlashes (reversed : List Char) : List Char → List (List Char)
  | [] => [reversed.reverse]
  | c :: cs =>
    if c = '/' then reversed.reverse :: splitSlashes [] cs else splitSlashes (c :: reversed) cs

def Path.steps (p : Path) : List (List Char) := splitSlashes [] p.text.toList

/-- A step that leads nowhere. -/
def isIdle (step : List Char) : Bool := step.isEmpty || step = ['.']

/-- The steps of a path up to its last one that leads somewhere, back to front. -/
def Path.reversedSteps (p : Path) : List (List Char) := p.steps.reverse.dropWhile isIdle

def Path.fileName? (p : Path) : Option (List Char) :=
  match p.reversedSteps with
  | name :: _ => if name = ['.', '.'] then none else some name
  | [] => none

/-- A file name without its extension, and the extension. -/
def splitExtension (name : List Char) : List Char × Option (List Char) :=
  match name.reverse.dropWhile (· != '.') with
  | [] | [_] => (name, none)
  | _ :: stem => (stem.reverse, some (name.reverse.takeWhile (· != '.')).reverse)

def Path.extension? (p : Path) : Option String :=
  match p.fileName? with
  | some name => (splitExtension name).2.map String.ofList
  | none => none

/-- Steps, back to front, as a text with slashes between them. -/
def joinSteps : List (List Char) → List Char
  | [] => []
  | [step] => step
  | step :: before => joinSteps before ++ '/' :: step

/-- A stem with an extension; an empty extension brings no dot. -/
def extended (stem : List Char) (extension : String) : List Char :=
  if extension.isEmpty then stem else stem ++ '.' :: extension.toList

/-- The path with another extension for its file name; what follows the file name is dropped. A
path without a file name stays as it is. A name that is two dots and an extension keeps the dots
alone when the path ends with it. -/
def Path.withExtension (p : Path) (extension : String) : Path :=
  match p.fileName?, p.reversedSteps with
  | some name, _ :: before =>
    let stem := (splitExtension name).1
    if stem = ['.'] ∧ p.steps.getLast? = some name then
      ⟨String.ofList (joinSteps (['.', '.'] :: before))⟩
    else ⟨String.ofList (joinSteps (extended stem extension :: before))⟩
  | _, _ => p

/-- The path of a name inside a directory. -/
def Path.child (p : Path) (name : String) : Path :=
  if p.text.toList.getLast? = some '/' then ⟨p.text ++ name⟩ else ⟨p.text ++ "/" ++ name⟩

end Jack
