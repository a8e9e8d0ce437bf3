import Jack.Compilation
import Jack.Workspace.Basic

/-!
Compiling files. A source is a file whose extension is `jack`; its instructions are written beside
it, and its outline too if one is wanted. The sources of a directory are compiled one after
another, and one that fails does not stop the others. A source that does not compile leaves
nothing behind.
-/

namespace Jack

def sourceExtension : String := "jack"

def codeExtension : String := "vm"

def outlineExtension : String := "xml"

inductive BatchError where
  /-- A file cannot be read or written. -/
  | file (path : Path) (fault : FileFault)
  /-- There are no sources where the path leads. -/
  | noSources (path : Path)
  /-- The source at the path does not compile. -/
  | source (path : Path) (error : CompileError)
  deriving DecidableEq, Repr

def BatchError.path : BatchError → Path
  | .file p _ | .noSources p | .source p _ => p

def BatchError.cause? : BatchError → Option String
  | .file _ fault => some fault.message
  | .noSources _ => none
  | .source _ e => some e.message

def BatchError.message (e : BatchError) : String :=
  e.path.text ++ ": " ++ e.cause?.getD ("no ." ++ sourceExtension ++ " files found")

structure FileReport where
  source : Path
  className : String
  instructions : Nat
  code : Path
  outline? : Option Path
  deriving DecidableEq, Repr

def Path.isSource (p : Path) : Bool := p.extension? = some sourceExtension

namespace Workspace

/-- The sources where a path leads: a file that is one, or the sources directly inside a
directory, in the order of their names. A name whose path finds no file is passed over, whatever
the reason. -/
def sources (w : Workspace) (input : Path) : Except BatchError (List Path) :=
  match w.locate input with
  | .error e => .error (.file input e)
  | .ok place =>
    match w.lookup place with
    | none => .error (.file input .notFound)
    | some .directory =>
      match w.refusal? place .read with
      | some fault => .error (.file input fault)
      | none =>
        match ((w.namesIn place).map input.child).filter fun p => w.hasFile p && p.isSource with
        | [] => .error (.noSources input)
        | found => .ok found
    | some _ => if input.isSource then .ok [input] else .error (.noSources input)

/-- Writes a file, or tells which one cannot be written. -/
def writeOutput (w : Workspace) (p : Path) (text : String) : Workspace × Except BatchError Unit :=
  match w.writeText p text with
  | (w, .ok ()) => (w, .ok ())
  | (w, .error e) => (w, .error (.file p e))

/-- Writes what a source was compiled to. The instructions are written first. -/
def writeOutputs (w : Workspace) (source : Path) (compiled : CompiledClass) :
    Workspace × Except BatchError FileReport :=
  let code := source.withExtension codeExtension
  match w.writeOutput code compiled.code with
  | (w, .error e) => (w, .error e)
  | (w, .ok ()) =>
    match compiled.outline? with
    | none => (w, .ok ⟨source, compiled.name, compiled.instructions.length, code, none⟩)
    | some text =>
      let outline := source.withExtension outlineExtension
      match w.writeOutput outline text with
      | (w, .error e) => (w, .error e)
      | (w, .ok ()) =>
        (w, .ok ⟨source, compiled.name, compiled.instructions.length, code, some outline⟩)

/-- Compiles one file, whatever its extension. -/
def compileFile (w : Workspace) (source : Path) (outlined : Bool) :
    Workspace × Except BatchError FileReport :=
  match w.readText source with
  | .error e => (w, .error (.file source e))
  | .ok text =>
    match compile text outlined with
    | .error e => (w, .error (.source source e))
    | .ok compiled => w.writeOutputs source compiled

/-- Compiles files in order, each in the workspace that the ones before it have left. -/
def compileFiles (w : Workspace) (outlined : Bool) :
    List Path → Workspace × List (Except BatchError FileReport)
  | [] => (w, [])
  | source :: rest =>
    let (w, outcome) := w.compileFile source outlined
    let (w, outcomes) := w.compileFiles outlined rest
    (w, outcome :: outcomes)

def compilePath (w : Workspace) (input : Path) (outlined : Bool) :
    Workspace × Except BatchError (List (Except BatchError FileReport)) :=
  match w.sources input with
  | .error e => (w, .error e)
  | .ok found =>
    let (w, outcomes) := w.compileFiles outlined found
    (w, .ok outcomes)

end Workspace

end Jack
