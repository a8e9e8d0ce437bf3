import Jack.Workspace.Path

/-!
A workspace: files, directories and links in a tree, what the system refuses to do there, and the
directory where paths start. A step of a path leads on only from a directory that exists and that
may be searched; names and paths have a largest size in bytes, and a way has a largest number of
links. A file that is written is emptied first, so a write that is cut off leaves a part.
-/

namespace Jack

/-- The names of the steps from the root of the tree. -/
abbrev Place := List String

inductive Entry where
  | file (content : ByteArray)
  | directory
  /-- One more name of the file at a place. -/
  | hardLink (file : Place)
  /-- A path that is followed where the name is met. -/
  | symbolicLink (target : Path)

/-- Files are compared byte by byte. -/
instance : DecidableEq Entry
  | .file content, .file content' =>
    decidable_of_iff (content.data = content'.data)
      ⟨fun h => congrArg Entry.file (ByteArray.ext h), fun h => by cases h; rfl⟩
  | .directory, .directory => isTrue rfl
  | .hardLink file, .hardLink file' =>
    decidable_of_iff (file = file') ⟨congrArg Entry.hardLink, Entry.hardLink.inj⟩
  | .symbolicLink target, .symbolicLink target' =>
    decidable_of_iff (target = target') ⟨congrArg Entry.symbolicLink, Entry.symbolicLink.inj⟩
  | .file _, .directory | .file _, .hardLink _ | .file _, .symbolicLink _
  | .directory, .file _ | .directory, .hardLink _ | .directory, .symbolicLink _
  | .hardLink _, .file _ | .hardLink _, .directory | .hardLink _, .symbolicLink _
  | .symbolicLink _, .file _ | .symbolicLink _, .directory | .symbolicLink _, .hardLink _ =>
    isFalse Entry.noConfusion

inductive FileFault where
  | notFound
  | denied
  | notDirectory
  | isDirectory
  | nameTooLong
  | tooManyLinks
  | nulInName
  | notText
  /-- Any other fault of the system, with its number, its kind and its reason. -/
  | system (number : Nat) (kind reason : String)
  deriving DecidableEq, Repr

def FileFault.kind : FileFault → String
  | .notFound => "NotFound"
  | .denied => "PermissionDenied"
  | .notDirectory => "NotADirectory"
  | .isDirectory => "IsADirectory"
  | .nameTooLong => "InvalidFilename"
  | .tooManyLinks => "FilesystemLoop"
  | .nulInName => "InvalidInput"
  | .notText => "InvalidData"
  | .system _ kind _ => kind

/-- The message of a fault, without its number. -/
def FileFault.reason : FileFault → String
  | .notFound => "No such file or directory"
  | .denied => "Permission denied"
  | .notDirectory => "Not a directory"
  | .isDirectory => "Is a directory"
  | .nameTooLong => "File name too long"
  | .tooManyLinks => "Too many levels of symbolic links"
  | .nulInName => "file name contained an unexpected NUL byte"
  | .notText => "stream did not contain valid UTF-8"
  | .system _ _ reason => reason

def FileFault.number? : FileFault → Option Nat
  | .notFound => some 2
  | .denied => some 13
  | .notDirectory => some 20
  | .isDirectory => some 21
  | .nameTooLong => some 36
  | .tooManyLinks => some 40
  | .nulInName | .notText => none
  | .system number _ _ => some number

def FileFault.message (f : FileFault) : String :=
  match f.number? with
  | some n => f.reason ++ " (os error " ++ toString n ++ ")"
  | none => f.reason

/-- What can be done with a file or a directory: it is read, or written, which for a directory
means that files are made in it, or a directory is searched for a name. -/
inductive Right where
  | read | write | search
  deriving DecidableEq, Repr

/-- A write that is cut off: how many bytes were written before, and the fault. -/
structure Interruption where
  written : Nat
  fault : FileFault
  deriving DecidableEq, Repr

/-- Entries by place, each place once, and the place where relative paths start. The root is always
a directory. -/
structure Workspace where
  entries : List (Place × Entry)
  here : Place
  /-- What the system refuses, and with which fault. -/
  refused : List ((Place × Right) × FileFault) := []
  /-- What becomes of the writes to come, one after another; later ones are not cut off. -/
  interruptions : List (Option Interruption) := []

namespace Workspace

def lookup (w : Workspace) (place : Place) : Option Entry :=
  if place.isEmpty then some .directory
  else (w.entries.find? fun e => e.1 = place).map (·.2)

def refusal? (w : Workspace) (place : Place) (right : Right) : Option FileFault :=
  w.refused.lookup (place, right)

/-- Puts an entry at a place, instead of the one that is there. -/
def put (w : Workspace) (place : Place) (entry : Entry) : Workspace :=
  { w with entries := (place, entry) :: w.entries.filter fun e => e.1 ≠ place }

theorem lookup_put (w : Workspace) (place : Place) (entry : Entry) (q : Place)
    (hq : q.isEmpty = false) :
    (w.put place entry).lookup q = if q = place then some entry else w.lookup q := by
  simp only [lookup, put, hq, Bool.false_eq_true, if_false, List.find?_cons]
  by_cases h : place = q
  · simp [h]
  · have hne : q ≠ place := fun e => h e.symm
    simp only [h, hne, decide_false, if_false, List.find?_filter]
    congr 2
    funext e
    by_cases he : e.1 = q <;> simp [he, hne]

/-- Puts a directory at a place and at the places on the way there, where nothing is yet. -/
def putDirectory (w : Workspace) (place : Place) : Workspace :=
  (List.range (place.length + 1)).foldl
    (fun w n =>
      if (w.lookup (place.take n)).isSome then w else w.put (place.take n) .directory) w

/-- Puts a file at a place, and directories at the places on the way there. -/
def putFile (w : Workspace) (place : Place) (content : ByteArray) : Workspace :=
  (w.putDirectory place.dropLast).put place (.file content)

/-- No files, and one directory, where paths start. -/
def empty (here : Place) : Workspace := putDirectory { entries := [], here := here } here

/-! ### Ways -/

/-- Where a step leads from a place. Up from the root is the root. -/
def enter (place : Place) (step : List Char) : Place :=
  if isIdle step then place
  else if step = ['.', '.'] then place.dropLast
  else place ++ [String.ofList step]

/-- The size of the longest name in a directory. -/
def longestName : Nat := 255

/-- The size of the longest path that can be followed. -/
def longestPath : Nat := 4095

/-- The number of links that one way can have. -/
def mostLinks : Nat := 40

/-- Where the steps of a path start, if it is met in the directory at a place. -/
def startFrom (place : Place) (p : Path) : Place :=
  if p.text.toList.head? = some '/' then [] else place

/-- Where one step leads: to a place, or along a link, whose steps come next. -/
inductive Turn where
  | place (next : Place)
  | link (start : Place) (steps : List (List Char))

/-- Where the name at `next` leads from the directory at `place`. -/
def turnAt (w : Workspace) (place next : Place) : Except FileFault Turn :=
  match w.lookup next with
  | some (.hardLink file) => .ok (.place file)
  | some (.symbolicLink target) =>
    match w.refusal? next .read with
    | some fault => .error fault
    | none => .ok (.link (startFrom place target) target.steps)
  | _ => .ok (.place next)

/-- Goes one step. Between two slashes there is nothing to search for. -/
def advance (w : Workspace) (place : Place) (step : List Char) : Except FileFault Turn :=
  match w.lookup place with
  | some .directory =>
    if step.isEmpty then .ok (.place place)
    else
      match w.refusal? place .search with
      | some fault => .error fault
      | none =>
        if longestName < (String.ofList step).utf8ByteSize then .error .nameTooLong
        else w.turnAt place (enter place step)
  | some _ => .error .notDirectory
  | none => .error .notFound

/-- Where steps lead from a place, if `follow` tells where they lead from the first link on. The
last one may lead to nothing. -/
def walkWith (w : Workspace) (follow : Place → List (List Char) → Except FileFault Place)
    (place : Place) : List (List Char) → Except FileFault Place
  | [] => .ok place
  | step :: rest =>
    match w.advance place step with
    | .error e => .error e
    | .ok (.place next) => w.walkWith follow next rest
    | .ok (.link start steps) => follow start (steps ++ rest)

/-- Where steps lead from a place, with so many links on the way at most. -/
def walk (w : Workspace) : Nat → Place → List (List Char) → Except FileFault Place
  | 0 => w.walkWith fun _ _ => .error .tooManyLinks
  | links + 1 => w.walkWith (w.walk links)

/-- Where a path leads. The empty path leads nowhere, and a path that is too long as a whole is
not followed at all. -/
def locate (w : Workspace) (p : Path) : Except FileFault Place :=
  if p.text.toList.contains '\x00' then .error .nulInName
  else if p.text.isEmpty then .error .notFound
  else if longestPath < p.text.utf8ByteSize then .error .nameTooLong
  else w.walk mostLinks (startFrom w.here p) p.steps

def find (w : Workspace) (p : Path) : Except FileFault Entry :=
  match w.locate p with
  | .error e => .error e
  | .ok place =>
    match w.lookup place with
    | some entry => .ok entry
    | none => .error .notFound

def has (w : Workspace) (p : Path) : Bool := (w.find p).toOption.isSome

/-- Whether a file is found. Why there is none does not matter. -/
def hasFile (w : Workspace) (p : Path) : Bool :=
  match w.find p with
  | .ok (.file _) => true
  | _ => false

/-! ### Reading and writing -/

def readText (w : Workspace) (p : Path) : Except FileFault String :=
  match w.locate p with
  | .error e => .error e
  | .ok place =>
    match w.lookup place, w.refusal? place .read with
    | none, _ => .error .notFound
    | some _, some fault => .error fault
    | some (.file content), none =>
      match String.fromUTF8? content with
      | some text => .ok text
      | none => .error .notText
    | some _, none => .error .isDirectory

/-- Why no file can be opened for writing at a place. A new one is made in its directory. -/
def barrier? (w : Workspace) (place : Place) : Option FileFault :=
  match w.lookup place with
  | some (.file _) => w.refusal? place .write
  | none => w.refusal? place.dropLast .write
  | some _ => some .isDirectory

/-- The place of the file that a path opens for writing. -/
def target (w : Workspace) (p : Path) : Except FileFault Place :=
  match w.locate p with
  | .error e => .error e
  | .ok place =>
    match w.barrier? place with
    | some fault => .error fault
    | none => .ok place

/-- What cuts the next write off, if these bytes are to be written. -/
def cutOff? (w : Workspace) (bytes : ByteArray) : Option Interruption :=
  w.interruptions.head?.join.filter fun i => i.written < bytes.size

/-- What the next write leaves of these bytes. -/
def stored (w : Workspace) (bytes : ByteArray) : ByteArray :=
  match w.cutOff? bytes with
  | some i => bytes.extract 0 i.written
  | none => bytes

/-- Fills a file that is open, instead of what was in it. -/
def fill (w : Workspace) (place : Place) (bytes : ByteArray) : Workspace × Except FileFault Unit :=
  ({ w.put place (.file (w.stored bytes)) with interruptions := w.interruptions.tail },
    match w.cutOff? bytes with
    | some i => .error i.fault
    | none => .ok ())

/-- Writes a text into a file, a new one if there is none. -/
def writeText (w : Workspace) (p : Path) (text : String) : Workspace × Except FileFault Unit :=
  match w.target p with
  | .error e => (w, .error e)
  | .ok place => w.fill place text.toUTF8

/-- The names directly inside a place, in the order of their characters' codes. -/
def namesIn (w : Workspace) (place : Place) : List String :=
  (w.entries.filterMap fun e => if e.1.dropLast = place then e.1.getLast? else none).mergeSort
    fun a b => a ≤ b

/-- The files of a workspace that are not in the one before it, or not with the same content. -/
def changesSince (w before : Workspace) : List (Place × ByteArray) :=
  w.entries.filterMap fun e =>
    match e with
    | (p, .file content) =>
      if before.lookup p = some (.file content) then none else some (p, content)
    | _ => none

end Workspace

end Jack
