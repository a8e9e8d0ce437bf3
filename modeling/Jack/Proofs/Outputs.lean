import Jack.Proofs.Frames

/-! What compiling a source writes. In a directory without links the outputs stand beside the
source, under its stem; where they go and how the compilation ends is decided by the source and by
the directories alone, unless a write is cut off. -/

namespace Jack

theorem isExtension_code : Path.IsExtension codeExtension :=
  ⟨by decide, by decide, by decide⟩

theorem isExtension_outline : Path.IsExtension outlineExtension :=
  ⟨by decide, by decide, by decide⟩

theorem Path.isSource_of_steps {p : Path} {front : List (List Char)} {last : List Char}
    (h : p.steps = front ++ [last]) (hlast : IsStepName last) :
    p.isSource = true ↔ (splitExtension last).2 = some sourceExtension.toList := by
  rw [isSource, extension?_of_steps h hlast, decide_eq_true_iff]
  cases (splitExtension last).2 with
  | none => simp
  | some extension =>
    rw [Option.map_some, Option.some.injEq, Option.some.injEq]
    constructor
    · intro heq
      rw [← heq, String.toList_ofList]
    · intro heq
      rw [heq, String.ofList_toList]

namespace Workspace

variable {w w' : Workspace} {p p' source : Path} {front : List (List Char)} {last : List Char}
  {parent place q : Place} {content : ByteArray} {outlined : Bool} {extension : String}

/-! ### Where outputs belong -/

theorem startFrom_congr (h : p.FromRoot ↔ p'.FromRoot) (place : Place) :
    startFrom place p = startFrom place p' := by
  unfold startFrom
  exact if_congr h rfl rfl

/-- The path with another extension leads into the same directory. -/
theorem Leads.withExtension (h : w.Leads p front last parent) (hlast : Path.IsStepName last)
    (hextension : Path.IsExtension extension) :
    w.Leads (p.withExtension extension) front (Path.renamed last extension) parent := by
  have hsteps := Path.steps_withExtension h.steps hlast hextension
  have hroot : (p.withExtension extension).FromRoot ↔ p.FromRoot := by
    rw [Path.fromRoot_iff hsteps, Path.fromRoot_iff h.steps]
  refine ⟨hsteps, ?_, h.directory⟩
  rw [startFrom_congr hroot]
  exact h.walk

theorem renamed_ne_nil (hextension : Path.IsExtension extension) (last : List Char) :
    Path.renamed last extension ≠ [] := by
  unfold Path.renamed
  split
  · exact List.cons_ne_nil _ _
  · rw [Path.extended_eq hextension]
    simp

/-- In a directory without links, the path with another extension leads to a directory, or to the
name that has the stem of the file and that extension. -/
theorem Leads.locate_withExtension (h : w.Leads p front last parent) (hw : w.Tree)
    (hplain : w.Plain parent) (hlast : Path.IsStepName last)
    (hextension : Path.IsExtension extension)
    (hlocate : w.locate (p.withExtension extension) = .ok q) :
    w.lookup q = some .directory
      ∨ q = parent ++ [String.ofList (Path.renamed last extension)]
        ∧ IsName (String.ofList (Path.renamed last extension))
        ∧ splitExtension (Path.renamed last extension)
          = ((splitExtension last).1, some extension.toList) := by
  have hleads := h.withExtension hlast hextension
  have hfree := hplain.unlinked_enter hw h.directory (Path.renamed last extension)
  obtain ⟨hfault, rfl⟩ :=
    (hleads.locate_eq_ok_iff (renamed_ne_nil hextension last) hfree).1 hlocate
  by_cases hname : Path.IsStepName (Path.renamed last extension)
  · have hisName := isName_of_wayFault? hleads.steps hfault hname
    refine .inr ⟨enter_of_isStepName hname parent, hisName, ?_⟩
    rcases Path.renamed_cases hextension (ne_nil_of_isStepName hlast) with hup | hsplit
    · exact absurd hup hname.2
    · exact hsplit
  · exact .inl (hw.lookup_enter h.directory hname)

theorem not_directory_of_barrier? (h : w.barrier? place = none) :
    w.lookup place ≠ some .directory := by
  intro hdirectory
  rw [barrier?, hdirectory] at h
  cases h

/-- A place for a file: a name in a directory, where a file can be opened for writing. -/
structure Vacant (w : Workspace) (parent : Place) (name : String) : Prop where
  directory : w.lookup parent = some .directory
  isName : IsName name
  barrier : w.barrier? (parent ++ [name]) = none

theorem SameTargets.vacant {name : String} (h : w.SameTargets w') (hplace : w.Vacant parent name) :
    w'.Vacant parent name :=
  ⟨h.directory.2 hplace.directory, hplace.isName, (h.barrier _).trans hplace.barrier⟩

/-! ### Files and what stands beside them -/

theorem ofList_concat_inj {parent' : Place} {name name' : List Char}
    (h : parent ++ [String.ofList name] = parent' ++ [String.ofList name']) :
    parent = parent' ∧ name = name' := by
  obtain ⟨hparent, hname⟩ := List.append_inj' h rfl
  exact ⟨hparent, String.ofList_injective (List.singleton_inj.1 hname)⟩

/-- The path leads to a file of this name and content in the place, where there are no links. -/
structure Holds (w : Workspace) (p : Path) (front : List (List Char)) (last : List Char)
    (parent : Place) (content : ByteArray) : Prop extends w.Leads p front last parent where
  plain : w.Plain parent
  name : Path.IsStepName last
  fault : w.wayFault? p parent last = none
  file : w.lookup (parent ++ [String.ofList last]) = some (.file content)

theorem Holds.locate_eq_ok (h : w.Holds p front last parent content) :
    w.locate p = .ok (parent ++ [String.ofList last]) := by
  have henter := enter_of_isStepName h.name parent
  refine (h.locate_eq_ok_iff (ne_nil_of_isStepName h.name) ?_).2 ⟨h.fault, henter⟩
  rw [henter]
  exact h.plain.unlinked _

/-- What a path into a directory without links leads to is a directory, or a file there. -/
theorem Leads.exists_holds (h : w.Leads p front last parent) (hw : w.Tree)
    (hplain : w.Plain parent) (hlocate : w.locate p = .ok place) {entry : Entry}
    (hplace : w.lookup place = some entry) (hentry : entry ≠ .directory) :
    ∃ content, w.Holds p front last parent content
      ∧ place = parent ++ [String.ofList last] := by
  have hdirectory : w.lookup place ≠ some .directory := by
    rw [hplace]
    exact fun heq => hentry (Option.some.inj heq)
  have hlast : last ≠ [] := by
    rintro rfl
    obtain ⟨links, hfront⟩ := h.walk
    obtain ⟨-, -, -, hwalk⟩ := Workspace.locate_eq_ok_iff.1 hlocate
    rw [h.steps, hfront, walk_of_empty h.directory] at hwalk
    obtain rfl := Except.ok.inj hwalk
    exact hdirectory h.directory
  have hfree := hplain.unlinked_enter hw h.directory last
  obtain ⟨hfault, rfl⟩ := (h.locate_eq_ok_iff hlast hfree).1 hlocate
  have hname : Path.IsStepName last := Decidable.byContradiction fun hnot =>
    hdirectory (hw.lookup_enter h.directory hnot)
  have henter := enter_of_isStepName hname parent
  rw [henter] at hplace hdirectory
  have hlink := hplain.unlinked (String.ofList last) entry hplace
  cases entry with
  | file content => exact ⟨content, ⟨h, hplain, hname, hfault, hplace⟩, henter⟩
  | directory => exact absurd rfl hentry
  | hardLink file => cases hlink
  | symbolicLink target => cases hlink

theorem SameWays.holds (h : w.SameWays w') (hp : w.Holds p front last parent content)
    (hplain : w'.Plain parent)
    (hfile : w'.lookup (parent ++ [String.ofList last]) = some (.file content)) :
    w'.Holds p front last parent content :=
  ⟨h.leads hp.toLeads, hplain, hp.name, (h.wayFault? p parent last).trans hp.fault, hfile⟩

/-- What is written with another extension stands beside the file, under its stem. -/
theorem Holds.target_withExtension (hw : w.Tree) (hp : w.Holds p front last parent content)
    (hextension : Path.IsExtension extension)
    (h : w.target (p.withExtension extension) = .ok q) :
    q = parent ++ [String.ofList (Path.renamed last extension)]
      ∧ w.Vacant parent (String.ofList (Path.renamed last extension))
      ∧ splitExtension (Path.renamed last extension)
        = ((splitExtension last).1, some extension.toList) := by
  obtain ⟨hlocate, hbarrier⟩ := target_eq_ok_iff.1 h
  rcases hp.locate_withExtension hw hp.plain hp.name hextension hlocate with
    hdirectory | ⟨rfl, hname, hsplit⟩
  · exact absurd hdirectory (not_directory_of_barrier? hbarrier)
  · exact ⟨rfl, ⟨hp.directory, hname, hbarrier⟩, hsplit⟩

/-- Where the outputs of a file go is decided by the directories. -/
theorem SameTargets.target_withExtension (h : w.SameTargets w') (hw : w.Tree)
    (hp : w.Holds p front last parent content) (hextension : Path.IsExtension extension) :
    w'.target (p.withExtension extension) = w.target (p.withExtension extension) := by
  have hleads := hp.toLeads.withExtension hp.name hextension
  have hne := renamed_ne_nil hextension last
  have hfree := hp.plain.unlinked_enter hw hp.directory (Path.renamed last extension)
  unfold Workspace.target
  rw [(h.leads hleads).locate hne (h.unlinked hfree), hleads.locate hne hfree, h.wayFault?]
  simp only [h.barrier]

/-! ### The effect of compiling a source -/

/-- A tree where no write is cut off. -/
structure Sound (w : Workspace) : Prop extends w.Tree where
  whole : w.interruptions = []

/-- Files that are written, and how it ends. -/
structure Effect where
  writes : List (Place × String)
  outcome : Except BatchError FileReport

/-- What writing the outputs of a source does, seen from where it starts. -/
def outputEffect (w : Workspace) (source : Path) (compiled : CompiledClass) : Effect :=
  let code := source.withExtension codeExtension
  match w.target code with
  | .error e => ⟨[], .error (.file code e)⟩
  | .ok place =>
    match compiled.outline? with
    | none =>
      ⟨[(place, compiled.code)],
        .ok ⟨source, compiled.name, compiled.instructions.length, code, none⟩⟩
    | some text =>
      let outline := source.withExtension outlineExtension
      match w.target outline with
      | .error e => ⟨[(place, compiled.code)], .error (.file outline e)⟩
      | .ok place' =>
        ⟨[(place, compiled.code), (place', text)],
          .ok ⟨source, compiled.name, compiled.instructions.length, code, some outline⟩⟩

/-- What compiling a source does, seen from where it starts. -/
def effect (w : Workspace) (source : Path) (outlined : Bool) : Effect :=
  match w.readText source with
  | .error e => ⟨[], .error (.file source e)⟩
  | .ok text =>
    match compile text outlined with
    | .error e => ⟨[], .error (.source source e)⟩
    | .ok compiled => w.outputEffect source compiled

/-- Writes files one after another. -/
def putAll (w : Workspace) (writes : List (Place × String)) : Workspace :=
  writes.foldl (fun w e => w.put e.1 (.file e.2.toUTF8)) w

theorem fill_of_whole (h : w.interruptions = []) (place : Place) (bytes : ByteArray) :
    w.fill place bytes = (w.put place (.file bytes), .ok ()) := by
  have hcut := cutOff?_of_whole h bytes
  obtain ⟨entries, here, refused, interruptions⟩ := w
  obtain rfl : interruptions = [] := h
  simp only [fill, hcut, stored_of_not_cutOff hcut, put, List.tail_nil]

theorem writeText_of_whole (h : w.interruptions = []) (p : Path) (text : String) :
    w.writeText p text
      = match w.target p with
        | .error e => (w, .error e)
        | .ok place => (w.put place (.file text.toUTF8), .ok ()) := by
  unfold writeText
  cases w.target p with
  | error e => rfl
  | ok place => exact fill_of_whole h place _

/-- Compiling a source is its effect: what it finds after its first output is what it found
before. -/
theorem Holds.compileFile_eq (hw : w.Sound) (hp : w.Holds source front last parent content)
    (outlined : Bool) :
    w.compileFile source outlined
      = (w.putAll (w.effect source outlined).writes, (w.effect source outlined).outcome) := by
  unfold compileFile effect
  cases w.readText source with
  | error e => rfl
  | ok text =>
    dsimp only
    cases compile text outlined with
    | error e => rfl
    | ok compiled =>
      unfold writeOutputs outputEffect
      simp only [writeOutput_eq, writeText_of_whole hw.whole]
      cases hcode : w.target (source.withExtension codeExtension) with
      | error e => rfl
      | ok place =>
        dsimp only
        cases compiled.outline? with
        | none => rfl
        | some text =>
          have hsame := hw.sameTargets_put (target_eq_ok_iff.1 hcode).2 compiled.code.toUTF8
          have hwhole : (w.put place (.file compiled.code.toUTF8)).interruptions = [] := hw.whole
          dsimp only
          rw [writeText_of_whole hwhole,
            hsame.target_withExtension hw.toTree hp isExtension_outline]
          cases w.target (source.withExtension outlineExtension) with
          | error e => rfl
          | ok place' => rfl

end Workspace

end Jack
