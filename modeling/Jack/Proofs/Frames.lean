import Jack.Batch
import Jack.Proofs.Independence
import Jack.Proofs.Trees

/-! What the compilation of sources leaves alone. To write a file changes that file and no way; so
all that compiling sources changes is files where their outputs belong, whatever links there are,
whatever is refused, and wherever a write is cut off. -/

namespace Jack

namespace Workspace

variable {w w' w'' : Workspace} {p source : Path} {place q : Place} {text : String}
  {bytes : ByteArray} {outlined : Bool} {sources : List Path}

/-! ### Files that are found -/

theorem find_eq_ok_iff {entry : Entry} :
    w.find p = .ok entry ↔ ∃ place, w.locate p = .ok place ∧ w.lookup place = some entry := by
  unfold find
  cases w.locate p with
  | error e => simp
  | ok place =>
    dsimp only
    cases hplace : w.lookup place with
    | none => simp [hplace]
    | some found => simp [hplace]

theorem hasFile_eq_true_iff :
    w.hasFile p = true ↔ ∃ content, w.find p = .ok (.file content) := by
  unfold hasFile
  cases w.find p with
  | error fault => simp
  | ok entry => cases entry <;> simp

theorem readText_eq_ok_iff :
    w.readText p = .ok text
      ↔ ∃ place content, w.locate p = .ok place ∧ w.lookup place = some (.file content)
        ∧ w.refusal? place .read = none ∧ String.fromUTF8? content = some text := by
  unfold readText
  cases w.locate p with
  | error e => simp
  | ok place =>
    cases hplace : w.lookup place with
    | none => simp [hplace]
    | some entry =>
      cases hread : w.refusal? place .read with
      | some fault => simp [hplace, hread]
      | none =>
        cases entry with
        | file content =>
          cases htext : String.fromUTF8? content with
          | none => simp [hplace, hread, htext]
          | some found => simp [hplace, hread, htext]
        | directory => simp [hplace, hread]
        | hardLink file => simp [hplace, hread]
        | symbolicLink target => simp [hplace, hread]

theorem SameWays.find_eq_iff (h : w.SameWays w') {entry : Entry} (hlocate : w.locate p = .ok place)
    (hplace : w.lookup place = some entry) :
    w'.find p = w.find p ↔ w'.lookup place = some entry := by
  rw [find_eq_ok_iff.2 ⟨place, hlocate, hplace⟩, find_eq_ok_iff, h.locate hlocate]
  simp

/-- Sources are a file with their extension, or files with it in a directory that can be read. -/
theorem sources_cases {input : Path} {found : List Path} (h : w.sources input = .ok found) :
    ∃ place, w.locate input = .ok place
      ∧ ((∃ entry, w.lookup place = some entry ∧ entry ≠ .directory ∧ input.isSource = true
          ∧ found = [input])
        ∨ w.lookup place = some .directory ∧ w.refusal? place .read = none ∧ found ≠ []
          ∧ found = ((w.namesIn place).map input.child).filter
            fun p => w.hasFile p && p.isSource) := by
  unfold sources at h
  cases hlocate : w.locate input with
  | error e =>
    rw [hlocate] at h
    cases h
  | ok place =>
    refine ⟨place, rfl, ?_⟩
    simp only [hlocate] at h
    split at h
    · cases h
    · rename_i hplace
      split at h
      · cases h
      · rename_i hread
        split at h
        · cases h
        · rename_i hsome
          obtain rfl := Except.ok.inj h
          exact .inr ⟨hplace, hread, hsome, rfl⟩
    · rename_i entry hdirectory hplace
      split at h
      · rename_i hsource
        obtain rfl := Except.ok.inj h
        exact .inl ⟨entry, hplace, hdirectory, hsource, rfl⟩
      · cases h

/-- A source that is found is no directory, and has the extension. -/
theorem isSource_of_mem_sources {input : Path} {found : List Path}
    (h : w.sources input = .ok found) (hp : p ∈ found) :
    p.isSource = true
      ∧ ∃ place entry, w.locate p = .ok place ∧ w.lookup place = some entry
        ∧ entry ≠ .directory := by
  obtain ⟨place, hlocate, ⟨entry, hplace, hentry, hsource, rfl⟩ | ⟨-, -, -, rfl⟩⟩ := sources_cases h
  · obtain rfl := List.mem_singleton.1 hp
    exact ⟨hsource, place, entry, hlocate, hplace, hentry⟩
  · have hboth := (List.mem_filter.1 hp).2
    rw [Bool.and_eq_true, hasFile_eq_true_iff] at hboth
    obtain ⟨⟨content, hfind⟩, hsource⟩ := hboth
    obtain ⟨place', hlocate', hfile⟩ := find_eq_ok_iff.1 hfind
    exact ⟨hsource, place', _, hlocate', hfile, Entry.noConfusion⟩

/-! ### Files that are written -/

theorem target_eq_ok_iff :
    w.target p = .ok place ↔ w.locate p = .ok place ∧ w.barrier? place = none := by
  unfold target
  cases w.locate p with
  | error e => simp
  | ok q =>
    dsimp only
    cases hbarrier : w.barrier? q with
    | some fault =>
      refine iff_of_false (fun h => by cases h) ?_
      rintro ⟨heq, hfree⟩
      obtain rfl := Except.ok.inj heq
      rw [hbarrier] at hfree
      cases hfree
    | none =>
      refine ⟨fun h => ?_, fun h => h.1⟩
      obtain rfl := Except.ok.inj h
      exact ⟨rfl, hbarrier⟩

theorem writable_of_target (h : w.target p = .ok place) : w.Writable place :=
  writable_of_barrier? (target_eq_ok_iff.1 h).2

theorem lookup_fill_self (h : w.Writable place) (bytes : ByteArray) :
    (w.fill place bytes).1.lookup place = some (.file (w.stored bytes)) :=
  lookup_put_self (w := w) h.ne_nil _

theorem lookup_fill_of_ne (h : q ≠ place) (bytes : ByteArray) :
    (w.fill place bytes).1.lookup q = w.lookup q :=
  lookup_put_of_ne (w := w) h _

theorem cutOff?_of_whole (h : w.interruptions = []) (bytes : ByteArray) :
    w.cutOff? bytes = none := by
  rw [cutOff?, h]
  rfl

theorem interruptions_fill (h : w.interruptions = []) (place : Place) (bytes : ByteArray) :
    (w.fill place bytes).1.interruptions = [] := by
  change w.interruptions.tail = []
  rw [h]
  rfl

theorem stored_of_cutOff {i : Interruption} (h : w.cutOff? bytes = some i) :
    w.stored bytes = bytes.extract 0 i.written := by
  rw [stored, h]

theorem stored_of_not_cutOff (h : w.cutOff? bytes = none) : w.stored bytes = bytes := by
  rw [stored, h]

theorem sameWays_fill (h : w.Writable place) (bytes : ByteArray) :
    w.SameWays (w.fill place bytes).1 :=
  have hput := sameWays_put h (w.stored bytes)
  ⟨hput.here, hput.refused, hput.entries⟩

/-- The ways are the same, and nothing else has changed but files at places like these. -/
structure ChangesOnly (w w' : Workspace) (changed : Place → Prop) : Prop extends w.SameWays w' where
  frame : ∀ q, w'.lookup q ≠ w.lookup q → changed q

section

variable {changed changed' : Place → Prop}

theorem ChangesOnly.refl (w : Workspace) (changed : Place → Prop) : w.ChangesOnly w changed :=
  ⟨.refl w, fun _ h => absurd rfl h⟩

theorem ChangesOnly.mono (h : w.ChangesOnly w' changed) (hsub : ∀ q, changed q → changed' q) :
    w.ChangesOnly w' changed' :=
  ⟨h.toSameWays, fun q hq => hsub q (h.frame q hq)⟩

theorem ChangesOnly.trans (h : w.ChangesOnly w' changed) (h' : w'.ChangesOnly w'' changed) :
    w.ChangesOnly w'' changed := by
  refine ⟨h.toSameWays.trans h'.toSameWays, fun q hq => ?_⟩
  by_cases hfirst : w'.lookup q = w.lookup q
  · rw [← hfirst] at hq
    exact h'.frame q hq
  · exact h.frame q hfirst

end

theorem writeText_of_target (h : w.target p = .ok place) (text : String) :
    w.writeText p text = w.fill place text.toUTF8 := by
  rw [writeText, h]

/-- A text is written as a whole, or its file cannot be opened, or its writing is cut off. -/
theorem writeText_eq_ok_iff :
    w.writeText p text = (w', .ok ())
      ↔ ∃ place, w.target p = .ok place ∧ w.cutOff? text.toUTF8 = none
        ∧ (w.fill place text.toUTF8).1 = w' := by
  unfold writeText
  generalize text.toUTF8 = bytes
  cases w.target p with
  | error e => simp
  | ok place => cases hcut : w.cutOff? bytes <;> simp [fill, hcut]

theorem writeText_eq_error_iff {fault : FileFault} :
    w.writeText p text = (w', .error fault)
      ↔ (w.target p = .error fault ∧ w = w')
        ∨ ∃ place i, w.target p = .ok place ∧ w.cutOff? text.toUTF8 = some i ∧ i.fault = fault
          ∧ (w.fill place text.toUTF8).1 = w' := by
  unfold writeText
  generalize text.toUTF8 = bytes
  cases w.target p with
  | error e => simp [and_comm]
  | ok place => cases hcut : w.cutOff? bytes <;> simp [fill, hcut, and_comm]

theorem lookup_writeText_of_ne (h : w.target p ≠ .ok q) (text : String) :
    (w.writeText p text).1.lookup q = w.lookup q := by
  cases htarget : w.target p with
  | error e => rw [writeText, htarget]
  | ok place =>
    rw [writeText_of_target htarget]
    refine lookup_fill_of_ne ?_ _
    rintro rfl
    exact h htarget

theorem changesOnly_of_writeText {written : Except FileFault Unit}
    (h : w.writeText p text = (w', written)) : w.ChangesOnly w' fun q => w.locate p = .ok q := by
  obtain rfl : (w.writeText p text).1 = w' := congrArg Prod.fst h
  refine ⟨?_, fun q hq => ?_⟩
  · cases htarget : w.target p with
    | error e =>
      rw [writeText, htarget]
      exact .refl w
    | ok place =>
      rw [writeText_of_target htarget]
      exact sameWays_fill (writable_of_target htarget) _
  · have htarget : w.target p = .ok q := Decidable.byContradiction fun hne =>
      hq (lookup_writeText_of_ne hne text)
    exact (target_eq_ok_iff.1 htarget).1

theorem writeOutput_eq (w : Workspace) (p : Path) (text : String) :
    w.writeOutput p text
      = match w.writeText p text with
        | (w', .ok ()) => (w', .ok ())
        | (w', .error e) => (w', .error (.file p e)) := rfl

/-! ### Sources that are compiled -/

/-- The source can be read, and compiles. -/
def Compiles (w : Workspace) (source : Path) (outlined : Bool) : Prop :=
  ∃ text compiled, w.readText source = .ok text ∧ compile text outlined = .ok compiled

/-- The places where outputs of a source belong. -/
def OutputPlace (w : Workspace) (source : Path) (outlined : Bool) (q : Place) : Prop :=
  w.locate (source.withExtension codeExtension) = .ok q
    ∨ outlined = true ∧ w.locate (source.withExtension outlineExtension) = .ok q

/-- What a source is compiled to is written in two steps: the instructions, and then the outline
if it is wanted. -/
theorem writeOutputs_cases {compiled : CompiledClass} {outcome : Except BatchError FileReport}
    (h : w.writeOutputs source compiled = (w', outcome)) :
    (∃ fault, w.writeText (source.withExtension codeExtension) compiled.code = (w', .error fault)
        ∧ outcome = .error (.file (source.withExtension codeExtension) fault))
      ∨ (w.writeText (source.withExtension codeExtension) compiled.code = (w', .ok ())
        ∧ compiled.outline? = none ∧ ∃ report, outcome = .ok report)
      ∨ ∃ between outline,
        w.writeText (source.withExtension codeExtension) compiled.code = (between, .ok ())
        ∧ compiled.outline? = some outline
        ∧ ((∃ fault, between.writeText (source.withExtension outlineExtension) outline
                = (w', .error fault)
              ∧ outcome = .error (.file (source.withExtension outlineExtension) fault))
          ∨ between.writeText (source.withExtension outlineExtension) outline = (w', .ok ())
            ∧ ∃ report, outcome = .ok report) := by
  unfold writeOutputs at h
  simp only [writeOutput_eq] at h
  cases hcode : w.writeText (source.withExtension codeExtension) compiled.code with
  | mk between written =>
    rw [hcode] at h
    cases written with
    | error fault =>
      obtain ⟨rfl, rfl⟩ := Prod.mk.inj h
      exact .inl ⟨fault, rfl, rfl⟩
    | ok done =>
      cases hwanted : compiled.outline? with
      | none =>
        simp only [hwanted] at h
        obtain ⟨rfl, rfl⟩ := Prod.mk.inj h
        exact .inr (.inl ⟨rfl, rfl, _, rfl⟩)
      | some outline =>
        simp only [hwanted] at h
        cases houtline : between.writeText (source.withExtension outlineExtension) outline with
        | mk after written =>
          rw [houtline] at h
          refine .inr (.inr ⟨between, outline, rfl, rfl, ?_⟩)
          cases written with
          | error fault =>
            obtain ⟨rfl, rfl⟩ := Prod.mk.inj h
            exact .inl ⟨fault, houtline, rfl⟩
          | ok done =>
            obtain ⟨rfl, rfl⟩ := Prod.mk.inj h
            exact .inr ⟨houtline, _, rfl⟩

/-- A source that is not read or does not compile changes nothing. -/
theorem compileFile_cases {outcome : Except BatchError FileReport}
    (h : w.compileFile source outlined = (w', outcome)) :
    (w = w' ∧ ∃ e, outcome = .error e)
      ∨ ∃ text compiled, w.readText source = .ok text ∧ compile text outlined = .ok compiled
        ∧ w.writeOutputs source compiled = (w', outcome) := by
  unfold compileFile at h
  cases htext : w.readText source with
  | error fault =>
    rw [htext] at h
    obtain ⟨rfl, rfl⟩ := Prod.mk.inj h
    exact .inl ⟨rfl, _, rfl⟩
  | ok text =>
    simp only [htext] at h
    cases hcompile : compile text outlined with
    | error e =>
      rw [hcompile] at h
      obtain ⟨rfl, rfl⟩ := Prod.mk.inj h
      exact .inl ⟨rfl, _, rfl⟩
    | ok compiled =>
      rw [hcompile] at h
      exact .inr ⟨text, compiled, rfl, hcompile, h⟩

theorem compileFile_eq_writeOutputs {compiled : CompiledClass}
    (htext : w.readText source = .ok text) (hcompile : compile text outlined = .ok compiled) :
    w.compileFile source outlined = w.writeOutputs source compiled := by
  rw [compileFile, htext]
  dsimp only
  rw [hcompile]

theorem changesOnly_of_writeOutputs {compiled : CompiledClass}
    {outcome : Except BatchError FileReport} (hcompile : compile text outlined = .ok compiled)
    (h : w.writeOutputs source compiled = (w', outcome)) :
    w.ChangesOnly w' (w.OutputPlace source outlined) := by
  have hcode : ∀ {between written},
      w.writeText (source.withExtension codeExtension) compiled.code = (between, written) →
      w.ChangesOnly between (w.OutputPlace source outlined) :=
    fun hwrite => (changesOnly_of_writeText hwrite).mono fun q => .inl
  rcases writeOutputs_cases h with ⟨fault, hwrite, -⟩ | ⟨hwrite, -⟩ |
    ⟨between, outline, hwrite, hwanted, houtline⟩
  · exact hcode hwrite
  · exact hcode hwrite
  refine (hcode hwrite).trans ?_
  have hchanges : ∀ {written},
      between.writeText (source.withExtension outlineExtension) outline = (w', written) →
      between.ChangesOnly w' (w.OutputPlace source outlined) :=
    fun hwrite' => (changesOnly_of_writeText hwrite').mono fun q hq =>
      .inr ⟨outlined_of_outline hcompile hwanted, (hcode hwrite).symm.locate hq⟩
  rcases houtline with ⟨fault, hwrite', -⟩ | ⟨hwrite', -⟩
  · exact hchanges hwrite'
  · exact hchanges hwrite'

theorem changesOnly_compileFile (w : Workspace) (source : Path) (outlined : Bool) :
    w.ChangesOnly (w.compileFile source outlined).1 fun q =>
      w.Compiles source outlined ∧ w.OutputPlace source outlined q := by
  cases hrun : w.compileFile source outlined with
  | mk w' outcome =>
    rcases compileFile_cases hrun with ⟨rfl, -⟩ | ⟨text, compiled, htext, hcompile, houtputs⟩
    · exact .refl w _
    · exact (changesOnly_of_writeOutputs hcompile houtputs).mono fun q hq =>
        ⟨⟨text, compiled, htext, hcompile⟩, hq⟩

theorem SameWays.outputPlace (h : w.SameWays w') (hq : w.OutputPlace source outlined q) :
    w'.OutputPlace source outlined q :=
  hq.imp h.locate fun ⟨houtlined, hlocate⟩ => ⟨houtlined, h.locate hlocate⟩

theorem changesOnly_compileFiles (w : Workspace) (sources : List Path) (outlined : Bool) :
    w.ChangesOnly (w.compileFiles outlined sources).1 fun q =>
      ∃ source ∈ sources, w.OutputPlace source outlined q := by
  induction sources generalizing w with
  | nil => exact .refl w _
  | cons source rest ih =>
    have hfirst := w.changesOnly_compileFile source outlined
    have hrest := ih (w.compileFile source outlined).1
    refine .trans (hfirst.mono fun q hq => ⟨source, .head _, hq.2⟩) (hrest.mono fun q hq => ?_)
    obtain ⟨other, hother, hplace⟩ := hq
    exact ⟨other, .tail _ hother, hfirst.symm.outputPlace hplace⟩

theorem compilePath_fst (w : Workspace) (input : Path) (outlined : Bool) :
    (w.compilePath input outlined).1
      = match w.sources input with
        | .error _ => w
        | .ok found => (w.compileFiles outlined found).1 := by
  unfold compilePath
  cases w.sources input with
  | error e => rfl
  | ok found => rfl

end Workspace

end Jack
