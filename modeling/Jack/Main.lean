import Jack.CommandLine

/-!
The program. It looks up what its arguments lead to, runs the command on that, and writes the files
that the command has changed.
-/

namespace Jack

/-- The path of a place in the real tree. -/
def realPath (place : Place) : String := "/" ++ "/".intercalate place

/-- The names of the steps of a path from the root. -/
def placeOf (path : String) : Place :=
  ((Path.steps ⟨path⟩).filter fun step => !isIdle step).map String.ofList

/-- Adds a file, which may be one that cannot be read. -/
def lookUpFile (w : Workspace) (place : Place) : IO Workspace := do
  match ← (IO.FS.readBinFile (realPath place)).toBaseIO with
  | .ok content => return w.putFile place content
  | .error _ =>
    let w := w.putFile place .empty
    return { w with refused := ((place, .read), .denied) :: w.refused }

/-- Adds what really is at a place. A link is added with what it leads to. -/
def lookUp (w : Workspace) (place : Place) : IO Workspace := do
  let path := (← IO.currentDir) / realPath place
  unless ← path.pathExists do return w
  let real ← IO.FS.realPath path
  let target := placeOf real.toString
  let w ← if ← path.isDir then pure (w.putDirectory target) else lookUpFile w target
  if target = place then return w
  return w.put place (.symbolicLink ⟨real.toString⟩)

/-- Adds what really is directly inside a place. -/
def lookInside (w : Workspace) (place : Place) : IO Workspace := do
  let mut w := w
  for child in ← ((← IO.currentDir) / realPath place).readDir do
    w ← lookUp w (place ++ [child.fileName])
  return w

/-- Adds what an argument leads to, what is on the way there, and what is beside or inside it. -/
def follow (w : Workspace) (argument : String) : IO Workspace := do
  let mut w := w
  let mut place : Place := if argument.toList.head? = some '/' then [] else w.here
  for step in Path.steps ⟨argument⟩ do
    w ← lookUp w (Workspace.enter place step)
    place := ((w.walk Workspace.mostLinks place [step]).toOption).getD place
  match w.lookup place with
  | some .directory => lookInside w place
  | some _ => lookInside w place.dropLast
  | none => return w

/-- The bytes of the arguments, the name of the program first, as the system lists them: each one
with a zero behind it. -/
def rawArguments : IO (List ByteArray) := do
  let listed ← IO.FS.readBinFile "/proc/self/cmdline"
  return ((listed.data.toList.splitOn 0).dropLast).map fun bytes => ⟨bytes.toArray⟩

end Jack

def main : IO UInt32 := do
  let arguments ← Jack.rawArguments
  let here := Jack.placeOf (← IO.currentDir).toString
  let texts := arguments.tail.filterMap String.fromUTF8?
  let before ← texts.foldlM Jack.follow (Jack.Workspace.empty here)
  let ending := Jack.run arguments before
  for (place, content) in ending.workspace.changesSince before do
    IO.FS.writeBinFile (Jack.realPath place) content
  match ending with
  | .report report => IO.eprint report.errorText
  | .panic _ _ => IO.eprintln "An argument is no text"
  return ending.exit.toUInt32
