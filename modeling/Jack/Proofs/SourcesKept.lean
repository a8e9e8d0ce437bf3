import Jack.CommandLine
import Jack.Proofs.FirstCharacters
import Jack.Proofs.Outputs

/-! Sources that the command reads and keeps. Whatever it changes is a file where an output of a
source belongs. Sources of a directory, and a file that is one, have the extension of no output;
so without links no output goes to them. A file that is viewed may have any extension, and is
written over when it has that of an output. -/

namespace Jack

namespace Workspace

variable {w w' : Workspace} {p source input : Path} {front : List (List Char)} {last : List Char}
  {parent place : Place} {content : ByteArray} {outlined : Bool} {extension text : String}
  {compiled : CompiledClass} {found : List Path}

/-! ### A file that is its own output -/

/-- The source compiles, and one of its outputs is written over it. The outline is written only
when the instructions were. -/
def OverwritesItself (w : Workspace) (p : Path) (outlined : Bool) : Prop :=
  ∃ text compiled place, w.readText p = .ok text ∧ compile text outlined = .ok compiled
    ∧ w.locate p = .ok place
    ∧ (w.target (p.withExtension codeExtension) = .ok place
      ∨ outlined = true ∧ ∃ between,
        w.writeText (p.withExtension codeExtension) compiled.code = (between, .ok ())
        ∧ between.target (p.withExtension outlineExtension) = .ok place)

/-- A write that is cut off leaves a part of the bytes. -/
theorem stored_part (w : Workspace) (bytes : ByteArray) :
    (w.stored bytes).data.toList <+: bytes.data.toList := by
  cases hcut : w.cutOff? bytes with
  | none =>
    simp only [stored_of_not_cutOff hcut, List.prefix_rfl]
  | some i =>
    rw [stored_of_cutOff hcut, ByteArray.data_extract, Array.toList_extract]
    exact List.take_prefix _ _

/-- A file stays as it is if it is not written, and only then, unless a part of the text could be
in it. -/
theorem lookup_writeText_iff {before : String} (h : ¬bytesOf before <+: bytesOf text) :
    (w.writeText p text).1.lookup place = some (.file before.toUTF8)
      ↔ w.lookup place = some (.file before.toUTF8) ∧ w.target p ≠ .ok place := by
  by_cases htarget : w.target p = .ok place
  · refine iff_of_false (fun hsame => h ?_) fun hboth => hboth.2 htarget
    rw [writeText_of_target htarget, lookup_fill_self (writable_of_target htarget)] at hsame
    have hstored : w.stored text.toUTF8 = before.toUTF8 := Entry.file.inj (Option.some.inj hsame)
    rw [bytesOf, ← hstored]
    exact w.stored_part text.toUTF8
  · rw [lookup_writeText_of_ne htarget, and_iff_left htarget]

theorem lookup_writeOutputs_iff (hcompile : compile text outlined = .ok compiled)
    (hfile : w.lookup place = some (.file text.toUTF8)) :
    (w.writeOutputs p compiled).1.lookup place = some (.file text.toUTF8)
      ↔ ¬(w.target (p.withExtension codeExtension) = .ok place
        ∨ outlined = true ∧ ∃ between,
          w.writeText (p.withExtension codeExtension) compiled.code = (between, .ok ())
          ∧ between.target (p.withExtension outlineExtension) = .ok place) := by
  have hcode : (w.writeText (p.withExtension codeExtension) compiled.code).1.lookup place
        = some (.file text.toUTF8)
      ↔ w.lookup place = some (.file text.toUTF8)
        ∧ w.target (p.withExtension codeExtension) ≠ .ok place :=
    lookup_writeText_iff (not_part_of_code hcompile)
  rw [and_iff_right hfile] at hcode
  cases hrun : w.writeOutputs p compiled with
  | mk w' outcome =>
    rcases writeOutputs_cases hrun with ⟨fault, hwrite, -⟩ | ⟨hwrite, hnone, -⟩ |
      ⟨between, outline, hwrite, hwanted, houtline⟩
    · rw [hwrite] at hcode
      refine hcode.trans ?_
      simp [hwrite]
    · have houtlined : outlined ≠ true := by
        rintro rfl
        obtain ⟨outline, hwanted⟩ := exists_outline_of_compile hcompile
        rw [hnone] at hwanted
        cases hwanted
      rw [hwrite] at hcode
      refine hcode.trans ?_
      simp [houtlined]
    · have hafter : (between.writeText (p.withExtension outlineExtension) outline).1 = w' := by
        rcases houtline with ⟨fault, houtline, -⟩ | ⟨houtline, -⟩
        · rw [houtline]
        · rw [houtline]
      have hlast : (between.writeText (p.withExtension outlineExtension) outline).1.lookup place
            = some (.file text.toUTF8)
          ↔ between.lookup place = some (.file text.toUTF8)
            ∧ between.target (p.withExtension outlineExtension) ≠ .ok place :=
        lookup_writeText_iff (not_part_of_outline hcompile hwanted)
      rw [hwrite] at hcode
      rw [hafter, hcode] at hlast
      refine hlast.trans ?_
      simp [hwrite, outlined_of_outline hcompile hwanted]

theorem fromUTF8?_toUTF8 (text : String) : String.fromUTF8? text.toUTF8 = some text := by
  unfold String.fromUTF8?
  exact dif_pos text.isValidUTF8

theorem eq_toUTF8_of_fromUTF8? (h : String.fromUTF8? content = some text) :
    content = text.toUTF8 := by
  unfold String.fromUTF8? at h
  split at h
  · rw [← Option.some.inj h]
    rfl
  · cases h

/-- A source is kept unless it is overwritten by its own output. -/
theorem find_compileFile_iff (w : Workspace) (p : Path) (outlined : Bool) :
    (w.compileFile p outlined).1.find p = w.find p ↔ ¬w.OverwritesItself p outlined := by
  by_cases hcompiles : w.Compiles p outlined
  · obtain ⟨text, compiled, htext, hcompile⟩ := hcompiles
    obtain ⟨place, content, hlocate, hfile, -, hread⟩ := readText_eq_ok_iff.1 htext
    obtain rfl := eq_toUTF8_of_fromUTF8? hread
    rw [(w.changesOnly_compileFile p outlined).find_eq_iff hlocate hfile,
      compileFile_eq_writeOutputs htext hcompile, lookup_writeOutputs_iff hcompile hfile,
      not_iff_not]
    constructor
    · intro hwritten
      exact ⟨text, compiled, place, htext, hcompile, hlocate, hwritten⟩
    · rintro ⟨text', compiled', place', htext', hcompile', hlocate', hwritten⟩
      obtain rfl := Except.ok.inj (htext.symm.trans htext')
      obtain rfl := Except.ok.inj (hcompile.symm.trans hcompile')
      obtain rfl := Except.ok.inj (hlocate.symm.trans hlocate')
      exact hwritten
  · refine iff_of_true ?_ ?_
    · cases hrun : w.compileFile p outlined with
      | mk w' outcome =>
        rcases compileFile_cases hrun with ⟨rfl, -⟩ | ⟨text, compiled, htext, hcompile, -⟩
        · rfl
        · exact absurd ⟨text, compiled, htext, hcompile⟩ hcompiles
    · rintro ⟨text, compiled, place, htext, hcompile, -⟩
      exact hcompiles ⟨text, compiled, htext, hcompile⟩

/-! ### Sources in directories without links -/

/-- The path leads to a name in a directory without links. -/
def PlainAt (w : Workspace) (p : Path) : Prop :=
  ∃ front last parent, w.Leads p front last parent ∧ w.Plain parent

/-- In directories without links, a file where the output of a source belongs has the stem of the
source and the extension of the output. -/
theorem Holds.eq_renamed {front' : List (List Char)} {last' : List Char} {parent' : Place}
    {content' : ByteArray} (hsource : w.Holds source front last parent content) (hw : w.Tree)
    (hp : w.Holds p front' last' parent' content') (h : w.OutputPlace source outlined place)
    (hlocate : w.locate p = .ok place) :
    ∃ extension, (extension = codeExtension ∨ outlined = true ∧ extension = outlineExtension)
      ∧ last' = Path.renamed last extension
      ∧ (splitExtension last').2 = some extension.toList := by
  obtain rfl := Except.ok.inj (hp.locate_eq_ok.symm.trans hlocate)
  have hdirectory : w.lookup (parent' ++ [String.ofList last']) ≠ some .directory := by
    rw [hp.file]
    exact fun heq => by cases heq
  obtain ⟨extension, hextension, hkind, houtput⟩ : ∃ extension, Path.IsExtension extension
      ∧ (extension = codeExtension ∨ outlined = true ∧ extension = outlineExtension)
      ∧ w.locate (source.withExtension extension) = .ok (parent' ++ [String.ofList last']) := by
    rcases h with hcode | ⟨houtlined, houtline⟩
    · exact ⟨_, isExtension_code, .inl rfl, hcode⟩
    · exact ⟨_, isExtension_outline, .inr ⟨houtlined, rfl⟩, houtline⟩
  refine ⟨extension, hkind, ?_⟩
  rcases hsource.locate_withExtension hw hsource.plain hsource.name hextension houtput with
    hplace | ⟨hplace, -, hsplit⟩
  · exact absurd hplace hdirectory
  · obtain ⟨-, rfl⟩ := ofList_concat_inj hplace
    exact ⟨rfl, by rw [hsplit]⟩

theorem PlainAt.exists_holds (h : w.PlainAt p) (hw : w.Tree) (hlocate : w.locate p = .ok place)
    {entry : Entry} (hplace : w.lookup place = some entry) (hentry : entry ≠ .directory) :
    ∃ front last parent content, w.Holds p front last parent content := by
  obtain ⟨front, last, parent, hleads, hplain⟩ := h
  obtain ⟨content, hholds, -⟩ := hleads.exists_holds hw hplain hlocate hplace hentry
  exact ⟨front, last, parent, content, hholds⟩

end Workspace

/-! ### The command -/

variable {w : Workspace} {arguments : List String} {invocation : Invocation}

theorem workspace_view (w : Workspace) (input : Path) (outlined : Bool) :
    (view w input outlined).workspace = (w.compileFile input outlined).1 := by
  unfold view Workspace.compileFile
  cases w.readText input with
  | error fault => rfl
  | ok source =>
    dsimp only
    cases compile source outlined with
    | error e => rfl
    | ok compiled =>
      dsimp only
      obtain ⟨w', outcome⟩ := w.writeOutputs input compiled
      cases outcome with
      | error e => rfl
      | ok report => rfl

theorem workspace_batch (w : Workspace) (input : Path) (outlined : Bool) :
    (batch w input outlined).workspace = (w.compilePath input outlined).1 := by
  unfold batch
  obtain ⟨w', outcome⟩ := w.compilePath input outlined
  cases outcome with
  | error e => rfl
  | ok outcomes => rfl

theorem Workspace.compilePath_of_find_error {input : Path} {fault : FileFault}
    (h : w.find input = .error fault) (outlined : Bool) :
    (w.compilePath input outlined).1 = w := by
  rw [compilePath_fst]
  cases hsources : w.sources input with
  | error e => rfl
  | ok found =>
    have hfound : ∃ entry, w.find input = .ok entry := by
      obtain ⟨place, hlocate, ⟨entry, hplace, -⟩ | ⟨hplace, -⟩⟩ := sources_cases hsources
      · exact ⟨entry, find_eq_ok_iff.2 ⟨place, hlocate, hplace⟩⟩
      · exact ⟨_, find_eq_ok_iff.2 ⟨place, hlocate, hplace⟩⟩
    obtain ⟨entry, hentry⟩ := hfound
    rw [h] at hentry
    cases hentry

/-- What the command leaves. -/
theorem workspace_command (program : String)
    (h : Invocation.ofArguments arguments = .ok invocation) :
    (command program arguments w).workspace
      = if invocation.view then
          if w.hasFile invocation.input then
            (w.compileFile invocation.input invocation.outlined).1
          else w
        else (w.compilePath invocation.input invocation.outlined).1 := by
  rw [command, h]
  dsimp only
  cases hfind : w.find invocation.input with
  | error fault =>
    have hhas : w.has invocation.input = false := by
      rw [Workspace.has, hfind]
      rfl
    have hfile : w.hasFile invocation.input = false := by
      rw [Workspace.hasFile, hfind]
    rw [hhas, hfile, Workspace.compilePath_of_find_error hfind, if_neg Bool.false_ne_true,
      if_neg Bool.false_ne_true, ite_self]
  | ok entry =>
    have hhas : w.has invocation.input = true := by
      rw [Workspace.has, hfind]
      rfl
    rw [hhas, if_pos rfl]
    split
    · split
      · exact workspace_view w _ _
      · rfl
    · exact workspace_batch w _ _

/-- What the arguments of a run ask for, if they are texts and can be read. -/
def invocation? (arguments : List ByteArray) : Option Invocation :=
  match textsOf arguments with
  | .error _ => none
  | .ok texts => (Invocation.ofArguments texts.tail).toOption

/-- The files that a run reads as sources. -/
def Workspace.sourcesRead (w : Workspace) (arguments : List ByteArray) : List Path :=
  match invocation? arguments with
  | none => []
  | some invocation =>
    if invocation.view then
      if w.hasFile invocation.input then [invocation.input] else []
    else
      match w.sources invocation.input with
      | .error _ => []
      | .ok found => found

/-- A run compiles the sources that it reads one after another, and changes nothing else. -/
theorem workspace_run (w : Workspace) (arguments : List ByteArray) :
    (run arguments w).workspace
      = match invocation? arguments with
        | none => w
        | some invocation => (w.compileFiles invocation.outlined (w.sourcesRead arguments)).1 := by
  unfold run Workspace.sourcesRead invocation?
  cases textsOf arguments with
  | error a => rfl
  | ok texts =>
    dsimp only
    cases hread : Invocation.ofArguments texts.tail with
    | error e =>
      change (command (texts.headD "jackc") texts.tail w).workspace = w
      rw [command, hread]
    | ok invocation =>
      refine (workspace_command _ hread).trans ?_
      dsimp only [Except.toOption]
      cases invocation.view with
      | true => cases w.hasFile invocation.input <;> rfl
      | false =>
        rw [if_neg Bool.false_ne_true, if_neg Bool.false_ne_true, Workspace.compilePath_fst]
        cases w.sources invocation.input <;> rfl

/-- All that a run changes is files where outputs of the sources that it reads belong. -/
theorem changesOnly_run (w : Workspace) (arguments : List ByteArray) :
    w.ChangesOnly (run arguments w).workspace fun q =>
      ∃ invocation, invocation? arguments = some invocation
        ∧ ∃ source ∈ w.sourcesRead arguments, w.OutputPlace source invocation.outlined q := by
  rw [workspace_run]
  cases invocation? arguments with
  | none => exact .refl w _
  | some invocation =>
    exact (w.changesOnly_compileFiles _ _).mono fun q hq => ⟨invocation, rfl, hq⟩

/-- A file that is read as a source is there, and it has the extension unless it is viewed. -/
theorem exists_of_mem_sourcesRead {arguments : List ByteArray} {p : Path}
    (hp : p ∈ w.sourcesRead arguments) :
    ∃ invocation, invocation? arguments = some invocation
      ∧ (invocation.view = true ∧ invocation.input = p
        ∨ invocation.view = false ∧ p.isSource = true)
      ∧ ∃ place entry, w.locate p = .ok place ∧ w.lookup place = some entry
        ∧ entry ≠ .directory := by
  unfold Workspace.sourcesRead at hp
  cases hread : invocation? arguments with
  | none =>
    rw [hread] at hp
    cases hp
  | some invocation =>
    refine ⟨invocation, rfl, ?_⟩
    simp only [hread] at hp
    split at hp
    · rename_i hview
      split at hp
      · rename_i hfile
        obtain rfl := List.mem_singleton.1 hp
        obtain ⟨content, hfind⟩ := Workspace.hasFile_eq_true_iff.1 hfile
        obtain ⟨place, hlocate, hplace⟩ := Workspace.find_eq_ok_iff.1 hfind
        exact ⟨.inl ⟨hview, rfl⟩, place, _, hlocate, hplace, Entry.noConfusion⟩
      · cases hp
    · rename_i hview
      cases hsources : w.sources invocation.input with
      | error e =>
        rw [hsources] at hp
        cases hp
      | ok found =>
        rw [hsources] at hp
        obtain ⟨hsource, hthere⟩ := Workspace.isSource_of_mem_sources hsources hp
        exact ⟨.inr ⟨by simpa using hview, hsource⟩, hthere⟩

/-- A file that is changed while it is read as a source stands where an output belongs. -/
theorem exists_output_of_changed {arguments : List ByteArray} {p : Path}
    (hp : p ∈ w.sourcesRead arguments) (hchanged : (run arguments w).workspace.find p ≠ w.find p) :
    ∃ invocation, invocation? arguments = some invocation
      ∧ ∃ source ∈ w.sourcesRead arguments, ∃ place,
        w.OutputPlace source invocation.outlined place ∧ w.locate p = .ok place := by
  obtain ⟨-, -, -, place, entry, hlocate, hplace, -⟩ := exists_of_mem_sourcesRead hp
  have hrun := changesOnly_run w arguments
  rw [ne_eq, hrun.find_eq_iff hlocate hplace, ← hplace] at hchanged
  obtain ⟨invocation, hread, source, hsource, houtput⟩ := hrun.frame place hchanged
  exact ⟨invocation, hread, source, hsource, place, houtput, hlocate⟩

/-- In directories without links, a file that is changed while it is read as a source is viewed, and
is its own output. -/
theorem viewed_of_changed {arguments : List ByteArray} {p : Path} (hw : w.Tree)
    (hplain : ∀ p ∈ w.sourcesRead arguments, w.PlainAt p) (hp : p ∈ w.sourcesRead arguments)
    (hchanged : (run arguments w).workspace.find p ≠ w.find p) :
    ∃ invocation, invocation? arguments = some invocation ∧ invocation.view = true
      ∧ (p.withExtension codeExtension = p
        ∨ invocation.outlined = true ∧ p.withExtension outlineExtension = p) := by
  obtain ⟨invocation, hread, source, hsource, place, houtput, hlocate⟩ :=
    exists_output_of_changed hp hchanged
  have hholds : ∀ q ∈ w.sourcesRead arguments,
      (invocation.view = true ∧ invocation.input = q ∨ invocation.view = false ∧ q.isSource = true)
        ∧ ∃ front last parent content, w.Holds q front last parent content := by
    intro q hq
    obtain ⟨invocation', hread', hkind, _, _, hlocate', hplace', hentry⟩ :=
      exists_of_mem_sourcesRead hq
    obtain rfl := Option.some.inj (hread.symm.trans hread')
    exact ⟨hkind, (hplain q hq).exists_holds hw hlocate' hplace' hentry⟩
  obtain ⟨hkind, front, last, parent, content, hholdsSource⟩ := hholds source hsource
  obtain ⟨hkind', front', last', parent', content', hholdsFile⟩ := hholds p hp
  obtain ⟨extension, hextension, hrenamed, hsplit⟩ :=
    hholdsSource.eq_renamed hw hholdsFile houtput hlocate
  rcases hkind' with ⟨hview, hinput⟩ | ⟨-, hjack⟩
  · -- one file is viewed, so the source is the file itself
    have hself : source = p := by
      rcases hkind with ⟨-, hinput'⟩ | ⟨hbatch, -⟩
      · exact hinput'.symm.trans hinput
      · rw [hview] at hbatch
        cases hbatch
    subst hself
    obtain ⟨-, hlast⟩ := List.append_inj' (hholdsFile.steps.symm.trans hholdsSource.steps) rfl
    obtain rfl := List.singleton_inj.1 hlast
    have hsame := Path.withExtension_eq_self hholdsFile.steps hholdsFile.name hrenamed.symm
    refine ⟨invocation, hread, hview, ?_⟩
    rcases hextension with rfl | ⟨houtlined, rfl⟩
    · exact .inl hsame
    · exact .inr ⟨houtlined, hsame⟩
  · rw [Path.isSource_of_steps hholdsFile.steps hholdsFile.name, hsplit] at hjack
    rcases hextension with rfl | ⟨-, rfl⟩
    · exact absurd hjack (by decide)
    · exact absurd hjack (by decide)

/-- The command changes a file that it reads as a source only where an output of a source belongs.
If it reads one source, it keeps it unless the source compiles and is overwritten by its own output.
In directories without links it keeps all sources, unless it views one that has the path of its own
output. -/
theorem run_keeps_sources (w : Workspace) (arguments : List ByteArray) :
    (∀ p ∈ w.sourcesRead arguments, (run arguments w).workspace.find p ≠ w.find p →
        ∃ invocation, invocation? arguments = some invocation
          ∧ ∃ source ∈ w.sourcesRead arguments, ∃ place,
            w.OutputPlace source invocation.outlined place ∧ w.locate p = .ok place)
      ∧ (∀ invocation p, invocation? arguments = some invocation → w.sourcesRead arguments = [p] →
          ((run arguments w).workspace.find p = w.find p
            ↔ ¬w.OverwritesItself p invocation.outlined))
      ∧ (w.Tree → (∀ p ∈ w.sourcesRead arguments, w.PlainAt p) →
          ∀ p ∈ w.sourcesRead arguments, (run arguments w).workspace.find p ≠ w.find p →
            ∃ invocation, invocation? arguments = some invocation ∧ invocation.view = true
              ∧ (p.withExtension codeExtension = p
                ∨ invocation.outlined = true ∧ p.withExtension outlineExtension = p)) := by
  refine ⟨fun p hp hchanged => exists_output_of_changed hp hchanged, ?_,
    fun hw hplain p hp hchanged => viewed_of_changed hw hplain hp hchanged⟩
  intro invocation p hread hone
  rw [workspace_run, hread]
  dsimp only
  rw [hone]
  exact w.find_compileFile_iff p invocation.outlined

/-- A file that compiles, with the extension of instructions. -/
def codeNamedSource : Workspace where
  entries := [(["A.vm"], .file "class A\x7b\x7d".toUTF8)]
  here := []

theorem viewed_source_overwritten :
    codeNamedSource.Tree
      ∧ (∀ p ∈ codeNamedSource.sourcesRead (["jackc", "--view", "A.vm"].map String.toUTF8),
          codeNamedSource.PlainAt p)
      ∧ codeNamedSource.sourcesRead (["jackc", "--view", "A.vm"].map String.toUTF8) = [⟨"A.vm"⟩]
      ∧ codeNamedSource.find ⟨"A.vm"⟩ = .ok (.file "class A\x7b\x7d".toUTF8)
      ∧ (run (["jackc", "--view", "A.vm"].map String.toUTF8) codeNamedSource).workspace.find
          ⟨"A.vm"⟩ = .ok (.file "".toUTF8)
      ∧ codeNamedSource.OverwritesItself ⟨"A.vm"⟩ false
      ∧ (Path.mk "A.vm").withExtension codeExtension = ⟨"A.vm"⟩ := by
  have htree : codeNamedSource.Tree := by decide
  have hread : invocation? (["jackc", "--view", "A.vm"].map String.toUTF8)
      = some ⟨⟨"A.vm"⟩, false, true⟩ := by decide +kernel
  have hone : codeNamedSource.sourcesRead (["jackc", "--view", "A.vm"].map String.toUTF8)
      = [⟨"A.vm"⟩] := by decide +kernel
  have hplain : ∀ p ∈ codeNamedSource.sourcesRead (["jackc", "--view", "A.vm"].map String.toUTF8),
      codeNamedSource.PlainAt p := by
    rw [hone]
    exact List.forall_mem_singleton.2
      ⟨[], "A.vm".toList, [], ⟨by decide, ⟨_, fun more => rfl⟩, rfl⟩, by decide⟩
  have hbefore : codeNamedSource.find ⟨"A.vm"⟩ = .ok (.file "class A\x7b\x7d".toUTF8) := by
    decide +kernel
  have hafter : (run (["jackc", "--view", "A.vm"].map String.toUTF8)
      codeNamedSource).workspace.find ⟨"A.vm"⟩ = .ok (.file "".toUTF8) := by decide +kernel
  have hchanged : (run (["jackc", "--view", "A.vm"].map String.toUTF8)
      codeNamedSource).workspace.find ⟨"A.vm"⟩ ≠ codeNamedSource.find ⟨"A.vm"⟩ := by
    rw [hafter, hbefore]
    decide
  obtain ⟨-, hsingle, hviewed⟩ :=
    run_keeps_sources codeNamedSource (["jackc", "--view", "A.vm"].map String.toUTF8)
  have hoverwrites : codeNamedSource.OverwritesItself ⟨"A.vm"⟩ false :=
    Classical.not_not.1 (mt (hsingle _ _ hread hone).2 hchanged)
  obtain ⟨invocation, hread', -, hsame⟩ :=
    hviewed htree hplain ⟨"A.vm"⟩ (by rw [hone]; exact .head _) hchanged
  obtain rfl := Option.some.inj (hread.symm.trans hread')
  have hpath := hsame.resolve_right fun h => by cases h.1
  exact ⟨htree, hplain, hone, hbefore, hafter, hoverwrites, hpath⟩

/-- A source, and a link to it where its instructions belong. -/
def sourceBehindLink : Workspace where
  entries := [(["A.jack"], .file "class A\x7b\x7d".toUTF8), (["A.vm"], .symbolicLink ⟨"A.jack"⟩)]
  here := []

example : (run (["jackc", "A.jack"].map String.toUTF8) sourceBehindLink).workspace.find ⟨"A.jack"⟩
    = .ok (.file "".toUTF8) := by
  decide +kernel

end Jack
