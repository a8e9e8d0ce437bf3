import Jack.Batch
import Jack.Text.Quoted

/-!
The command: it compiles a file or the sources of a directory and reports on the error stream.
With `--view` it compiles one file and opens the viewer, which needs a terminal; there is none
here, and the command says so. The system hands arguments over as bytes; one that is no text ends
the command in a panic.
-/

namespace Jack

structure Invocation where
  input : Path
  outlined : Bool
  view : Bool
  deriving DecidableEq, Repr

inductive UsageError where
  | unknownOption (argument : String)
  | extraArgument (argument : String)
  | noInput
  deriving DecidableEq, Repr

def UsageError.message : UsageError → String
  | .unknownOption a => "Unknown option '" ++ a ++ "'"
  | .extraArgument a => "Unexpected extra argument '" ++ a ++ "'"
  | .noInput => "No input file or directory provided"

/-- An argument that asks for an option. -/
def isOption (argument : String) : Bool := argument.toList.take 2 = ['-', '-']

/-- Reads arguments, after those that gave `input?`, `outlined` and `view`. -/
def readArguments (input? : Option Path) (outlined view : Bool) :
    List String → Except UsageError Invocation
  | [] =>
    match input? with
    | some input => .ok ⟨input, outlined, view⟩
    | none => .error .noInput
  | a :: rest =>
    if a = "--xml" then readArguments input? true view rest
    else if a = "--view" then readArguments input? outlined true rest
    else if isOption a then .error (.unknownOption a)
    else
      match input? with
      | some _ => .error (.extraArgument a)
      | none => readArguments (some ⟨a⟩) outlined view rest

def Invocation.ofArguments (arguments : List String) : Except UsageError Invocation :=
  readArguments none false false arguments

def usage (program : String) : List String :=
  ["Usage: " ++ program ++ " <file.jack | directory> [--xml] [--view]",
   "",
   "Options:",
   "  --xml     also write the parse trace to <Class>.xml",
   "  --view    browse the generated code next to the source (single file)",
   "",
   "Examples:",
   "  " ++ program ++ " Main.jack          # Compile one class",
   "  " ++ program ++ " Pong/              # Compile every class in a directory"]

/-- How the command ends: its exit status, the lines on its error stream, and the workspace. -/
structure CommandReport where
  exit : Nat
  errorLines : List String
  workspace : Workspace

def CommandReport.errorText (r : CommandReport) : String :=
  r.errorLines.foldl (fun text line => text ++ line ++ "\n") ""

def FileReport.lines (r : FileReport) : List String :=
  ("Compiled " ++ r.className ++ " (" ++ toString r.instructions ++ " instructions) -> "
    ++ r.code.text)
    :: (r.outline?.map fun p => "Parse trace -> " ++ p.text).toList

def outcomeLines : Except BatchError FileReport → List String
  | .ok report => report.lines
  | .error e => ["error: " ++ e.message]

def failures (outcomes : List (Except BatchError FileReport)) : List BatchError :=
  outcomes.filterMap fun outcome =>
    match outcome with
    | .ok _ => none
    | .error e => some e

/-- The closing lines, if some of `total` sources failed. -/
def summary (failed : List BatchError) (total : Nat) : List String :=
  if failed.isEmpty then []
  else
    (toString failed.length ++ " of " ++ toString total ++ " file(s) failed to compile:")
      :: failed.map fun e => "  " ++ e.path.text

/-- A fault with everything that is known about it. -/
def FileFault.details (f : FileFault) : String :=
  let rest := "kind: " ++ f.kind ++ ", message: " ++ quoted f.reason ++ " \x7d"
  match f.number? with
  | some n => "Os \x7b code: " ++ toString n ++ ", " ++ rest
  | none => "Error \x7b " ++ rest

/-- What is said of a file that cannot be written. -/
def fileDetails (p : Path) (f : FileFault) : String :=
  "Io \x7b path: " ++ quoted p.text ++ ", source: " ++ f.details ++ " \x7d"

/-- What is said of an error that ends the command before the viewer opens. -/
def BatchError.details : BatchError → String
  | .file p f => fileDetails p f
  | e => e.message

/-- What is said when there is no terminal to open. -/
def noTerminal : String :=
  "Error: Os \x7b code: 6, kind: Uncategorized, message: " ++ quoted "No such device or address"
    ++ " \x7d"

/-- Compiles one file, writes what compiled, and would open the viewer. -/
def view (w : Workspace) (input : Path) (outlined : Bool) : CommandReport :=
  match w.readText input with
  | .error e => ⟨1, ["Error: " ++ e.details], w⟩
  | .ok source =>
    let opening := "Compiling " ++ input.text ++ "..."
    match compile source outlined with
    | .error e =>
      ⟨1, [opening, "error: " ++ (BatchError.source input e).message,
        "Entering viewer with partial output...", noTerminal], w⟩
    | .ok compiled =>
      match w.writeOutputs input compiled with
      | (w, .error e) => ⟨1, [opening, "Error: " ++ e.details], w⟩
      | (w, .ok report) => ⟨1, opening :: report.lines ++ [noTerminal], w⟩

def batch (w : Workspace) (input : Path) (outlined : Bool) : CommandReport :=
  let opening := "Compiling " ++ input.text ++ "..."
  match w.compilePath input outlined with
  | (w, .error e) => ⟨1, [opening, "Error: " ++ e.message], w⟩
  | (w, .ok outcomes) =>
    let failed := failures outcomes
    ⟨if failed.isEmpty then 0 else 1,
     opening :: outcomes.flatMap outcomeLines ++ summary failed outcomes.length, w⟩

def command (program : String) (arguments : List String) (w : Workspace) : CommandReport :=
  match Invocation.ofArguments arguments with
  | .error e => ⟨1, ("Error: " ++ e.message) :: "" :: usage program, w⟩
  | .ok invocation =>
    if w.has invocation.input then
      if invocation.view then
        if w.hasFile invocation.input then view w invocation.input invocation.outlined
        else ⟨1, ["Error: --view needs a single source file"], w⟩
      else batch w invocation.input invocation.outlined
    else ⟨1, ("Error: '" ++ invocation.input.text ++ "' not found") :: usage program, w⟩

/-- The texts of arguments, or the first one that is no text. -/
def textsOf : List ByteArray → Except ByteArray (List String)
  | [] => .ok []
  | a :: rest =>
    match String.fromUTF8? a, textsOf rest with
    | none, _ => .error a
    | some _, .error b => .error b
    | some text, .ok texts => .ok (text :: texts)

/-- How a run of the command ends: with a report, or in a panic about an argument. What is said of
a panic is left to the runtime. -/
inductive Ending where
  | report (report : CommandReport)
  | panic (argument : ByteArray) (workspace : Workspace)

/-- The exit status. Panics have one of their own. -/
def Ending.exit : Ending → Nat
  | .report r => r.exit
  | .panic _ _ => 101

def Ending.workspace : Ending → Workspace
  | .report r => r.workspace
  | .panic _ w => w

/-- Runs the command. The first argument is the name of the program. -/
def run (arguments : List ByteArray) (w : Workspace) : Ending :=
  match textsOf arguments with
  | .error a => .panic a w
  | .ok texts => .report (command (texts.headD "jackc") texts.tail w)

end Jack
