import Jack.Proofs.Batches
import Jack.Proofs.ByteOrder
import Jack.Proofs.Independence
import Mathlib.Data.List.Sort

/-! The sources of a directory without links: the files directly inside it whose names have the
extension, in the order of their bytes, if their paths can be followed. Each is compiled as if it
were alone, and the outputs are no new sources. -/

namespace Jack

/-- A path that leads to no more than the name of a file has one step. -/
theorem IsName.steps_mk {name : String} (h : IsName name) :
    (Path.mk name).steps = [] ++ [name.toList] :=
  splitSlashes_of_not_mem h.slashless []

namespace Workspace

variable {w w' : Workspace} {input : Path} {place q : Place} {name : String}
  {content : ByteArray} {outlined : Bool} {names : List String}

/-! ### The names in a directory -/

/-- The name of the entry, if it stands in the place. -/
def nameIn? (place : Place) (e : Place × Entry) : Option String :=
  if e.1.dropLast = place then e.1.getLast? else none

theorem namesIn_eq (w : Workspace) (place : Place) :
    w.namesIn place = (w.entries.filterMap (nameIn? place)).mergeSort fun a b => a ≤ b :=
  rfl

theorem nameIn?_eq_some_iff {e : Place × Entry} :
    nameIn? place e = some name ↔ e.1 = place ++ [name] := by
  rw [nameIn?, Option.ite_none_right_eq_some]
  constructor
  · rintro ⟨hparent, hlast⟩
    obtain ⟨front, hfront⟩ := List.getLast?_eq_some_iff.1 hlast
    rw [hfront, List.dropLast_concat] at hparent
    rw [hfront, hparent]
  · intro h
    rw [h]
    exact ⟨List.dropLast_concat, List.getLast?_concat⟩

theorem Tree.mem_namesIn (hw : w.Tree) :
    name ∈ w.namesIn place ↔ ∃ entry, w.lookup (place ++ [name]) = some entry := by
  have hplace : place ++ [name] ≠ [] := by simp
  rw [namesIn_eq, List.mem_mergeSort, List.mem_filterMap]
  constructor
  · rintro ⟨⟨q, entry⟩, he, hname⟩
    obtain rfl : q = place ++ [name] := nameIn?_eq_some_iff.1 hname
    exact ⟨entry, (hw.mem_entries_iff hplace).1 he⟩
  · rintro ⟨entry, hentry⟩
    exact ⟨_, (hw.mem_entries_iff hplace).2 hentry, nameIn?_eq_some_iff.2 rfl⟩

theorem Tree.pairwise_namesIn (hw : w.Tree) (place : Place) :
    (w.namesIn place).Pairwise (· < ·) := by
  have hentries : w.entries.Pairwise fun d e => d.1 ≠ e.1 := List.pairwise_map.1 hw.once
  have hdistinct : (w.entries.filterMap (nameIn? place)).Nodup := by
    apply List.pairwise_filterMap.2
    apply hentries.imp
    intro d e hplaces a ha b hb hab
    rw [nameIn?_eq_some_iff.1 ha, nameIn?_eq_some_iff.1 hb, hab] at hplaces
    exact hplaces rfl
  have hnodup : (w.namesIn place).Nodup :=
    (List.mergeSort_perm _ _).nodup_iff.2 hdistinct
  have hsorted : (w.namesIn place).Pairwise fun a b => decide (a ≤ b) = true := by
    apply List.pairwise_mergeSort
    · intro a b c hab hbc
      rw [decide_eq_true_iff] at hab hbc ⊢
      exact le_trans hab hbc
    · intro a b
      rw [Bool.or_eq_true, decide_eq_true_iff, decide_eq_true_iff]
      exact le_total a b
  exact hsorted.imp₂ (fun a b hle hne => lt_of_le_of_ne (decide_eq_true_iff.1 hle) hne) hnodup

/-! ### Paths to the names in a directory -/

theorem advance_of_empty (hplace : w.lookup place = some .directory) :
    w.advance place [] = .ok (.place place) := by
  rw [advance, hplace]
  rfl

/-- An empty last step stays where the steps before it lead. -/
theorem Goes.of_concat_empty {links : Nat} {front steps : List (List Char)}
    (h : w.Goes links place steps q) (hsteps : steps = front ++ [[]]) :
    w.Goes links place front q := by
  induction h generalizing front with
  | stay links place => simp at hsteps
  | @step links place next q step rest turn goes ih =>
    cases front with
    | nil =>
      obtain ⟨rfl, rfl⟩ := List.cons.inj hsteps
      rw [advance_of_empty (directory_of_advance turn)] at turn
      obtain rfl := Turn.place.inj (Except.ok.inj turn)
      exact goes
    | cons first front =>
      obtain ⟨rfl, hrest⟩ := List.cons.inj hsteps
      exact .step turn (ih hrest)
  | @link links place start q step steps rest turn goes ih =>
    cases front with
    | nil =>
      obtain ⟨rfl, rfl⟩ := List.cons.inj hsteps
      rw [advance_of_empty (directory_of_advance turn)] at turn
      cases turn
    | cons first front =>
      obtain ⟨rfl, hrest⟩ := List.cons.inj hsteps
      exact .link turn (ih (by rw [hrest, List.append_assoc]; rfl))

/-- The path leads to a directory without links. -/
structure LeadsInto (w : Workspace) (input : Path) (place : Place) : Prop where
  locate : w.locate input = .ok place
  directory : w.lookup place = some .directory
  plain : w.Plain place

theorem LeadsInto.exists_leads (h : w.LeadsInto input place) (hname : '/' ∉ name.toList) :
    ∃ front, w.Leads (input.child name) front name.toList place := by
  obtain ⟨front, hsteps, hinput⟩ := input.exists_steps_child hname
  obtain ⟨-, hempty, -, hwalk⟩ := locate_eq_ok_iff.1 h.locate
  have hgoes : w.Goes mostLinks (startFrom w.here input) front place := by
    rcases hinput with hsame | hslash
    · rw [← hsame]
      exact goes_of_walk hwalk
    · -- The input ends with a slash: its last step is empty.
      exact (goes_of_walk hwalk).of_concat_empty hslash
  refine ⟨front, hsteps, ?_, h.directory⟩
  rw [startFrom_congr (Path.fromRoot_child hempty name)]
  exact hgoes.exists_walk_append

theorem LeadsInto.wayFault?_eq_none_iff (h : w.LeadsInto input place) (hname : IsName name) :
    w.wayFault? (input.child name) place name.toList = none
      ↔ (input.child name).text.utf8ByteSize ≤ longestPath
        ∧ w.refusal? place .search = none := by
  obtain ⟨hnul, hempty, -, -⟩ := locate_eq_ok_iff.1 h.locate
  have hchild : '\x00' ∉ (input.child name).text.toList := by
    unfold Path.child
    split
    · simp [hnul, hname.nulless]
    · simp [hnul, hname.nulless]
  have hnonempty : (input.child name).text.isEmpty = false := by
    unfold Path.child
    split
    · simp at hempty ⊢
      simp [hempty]
    · simp
  rw [Workspace.wayFault?_eq_none_iff, String.ofList_toList]
  exact ⟨fun h => ⟨h.2.2.1, h.2.2.2.1⟩, fun h => ⟨hchild, hnonempty, h.1, h.2, hname.short⟩⟩

theorem LeadsInto.locate_eq_ok_iff (h : w.LeadsInto input place) (hname : IsName name) :
    w.locate (input.child name) = .ok q
      ↔ ((input.child name).text.utf8ByteSize ≤ longestPath ∧ w.refusal? place .search = none)
        ∧ place ++ [name] = q := by
  obtain ⟨front, hleads⟩ := h.exists_leads hname.slashless
  have henter := enter_of_isStepName hname.step place
  rw [String.ofList_toList] at henter
  rw [hleads.locate_eq_ok_iff (ne_nil_of_isStepName hname.step) (henter ▸ h.plain.unlinked name),
    h.wayFault?_eq_none_iff hname, henter]

theorem LeadsInto.exists_holds (h : w.LeadsInto input place) (hname : IsName name)
    (hfile : w.lookup (place ++ [name]) = some (.file content))
    (hshort : (input.child name).text.utf8ByteSize ≤ longestPath)
    (hsearch : w.refusal? place .search = none) :
    ∃ front, w.Holds (input.child name) front name.toList place content := by
  obtain ⟨front, hleads⟩ := h.exists_leads hname.slashless
  refine ⟨front, hleads, h.plain, hname.step,
    (h.wayFault?_eq_none_iff hname).2 ⟨hshort, hsearch⟩, ?_⟩
  rw [String.ofList_toList]
  exact hfile

theorem LeadsInto.isSource_child (h : w.LeadsInto input place) (hname : IsName name) :
    (input.child name).isSource = (Path.mk name).isSource := by
  obtain ⟨front, hleads⟩ := h.exists_leads hname.slashless
  rw [Bool.eq_iff_iff, Path.isSource_of_steps hleads.steps hname.step,
    Path.isSource_of_steps hname.steps_mk hname.step]

/-! ### The sources in a directory -/

/-- The names of the sources directly inside the place, where the input leads. -/
def sourceNames (w : Workspace) (input : Path) (place : Place) : List String :=
  (w.namesIn place).filter fun name =>
    w.hasFile (input.child name) && (input.child name).isSource

theorem LeadsInto.sources_eq (h : w.LeadsInto input place) (hread : w.refusal? place .read = none) :
    w.sources input
      = if w.sourceNames input place = [] then .error (.noSources input)
        else .ok ((w.sourceNames input place).map input.child) := by
  have hfilter : ((w.namesIn place).map input.child).filter (fun p => w.hasFile p && p.isSource)
      = (w.sourceNames input place).map input.child :=
    List.filter_map
  simp only [sources, h.locate, h.directory, hread, hfilter]
  cases w.sourceNames input place with
  | nil => rfl
  | cons name names => rfl

/-- A file directly inside the place whose name has the extension of sources. -/
def HasSource (w : Workspace) (place : Place) (name : String) : Prop :=
  (∃ content, w.lookup (place ++ [name]) = some (.file content)) ∧ (Path.mk name).isSource = true

theorem Tree.isName_of_hasSource (hw : w.Tree) (h : w.HasSource place name) : IsName name := by
  obtain ⟨⟨content, hfile⟩, -⟩ := h
  exact hw.isName hfile (List.mem_append_right _ (List.mem_singleton_self _))

theorem LeadsInto.mem_sourceNames (h : w.LeadsInto input place) (hw : w.Tree) :
    name ∈ w.sourceNames input place
      ↔ w.HasSource place name ∧ (input.child name).text.utf8ByteSize ≤ longestPath
        ∧ w.refusal? place .search = none := by
  rw [sourceNames, List.mem_filter, Bool.and_eq_true, hw.mem_namesIn, hasFile_eq_true_iff]
  constructor
  · rintro ⟨⟨entry, hentry⟩, ⟨content, hfind⟩, hsource⟩
    have hname : IsName name := hw.isName hentry (by simp)
    obtain ⟨q, hchild, hfile⟩ := find_eq_ok_iff.1 hfind
    obtain ⟨hway, rfl⟩ := (h.locate_eq_ok_iff hname).1 hchild
    rw [h.isSource_child hname] at hsource
    exact ⟨⟨⟨content, hfile⟩, hsource⟩, hway⟩
  · rintro ⟨hsource, hway⟩
    have hname := hw.isName_of_hasSource hsource
    obtain ⟨⟨content, hfile⟩, hextension⟩ := hsource
    have hchild := (h.locate_eq_ok_iff hname).2 ⟨hway, rfl⟩
    refine ⟨⟨_, hfile⟩, ⟨content, find_eq_ok_iff.2 ⟨_, hchild, hfile⟩⟩, ?_⟩
    rwa [h.isSource_child hname]

theorem Tree.pairwise_sourceNames (hw : w.Tree) (input : Path) (place : Place) :
    (w.sourceNames input place).Pairwise (· < ·) :=
  (hw.pairwise_namesIn place).sublist List.filter_sublist

theorem HasSource.extension (h : w.HasSource place name) (hname : IsName name) :
    (splitExtension name.toList).2 = some sourceExtension.toList :=
  (Path.isSource_of_steps hname.steps_mk hname.step).1 h.2

theorem LeadsInto.isSourceFile (h : w.LeadsInto input place) (hw : w.Tree)
    (hnames : w.sourceNames input place = names) :
    ∀ p ∈ names.map input.child, w.IsSourceFile p := by
  intro p hp
  obtain ⟨name, hmem, rfl⟩ := List.mem_map.1 hp
  rw [← hnames, h.mem_sourceNames hw] at hmem
  obtain ⟨hsource, hshort, hsearch⟩ := hmem
  have hname := hw.isName_of_hasSource hsource
  have hextension := hsource.extension hname
  obtain ⟨⟨content, hfile⟩, -⟩ := hsource
  exact ⟨_, _, content, h.exists_holds hname hfile hshort hsearch, hextension⟩

theorem LeadsInto.putAll (h : w.LeadsInto input place) {writes : List (Place × String)}
    (hsame : w.SameTargets (w.putAll writes)) : (w.putAll writes).LeadsInto input place :=
  ⟨hsame.locate h.locate, hsame.directory.2 h.directory, h.plain.putAll writes⟩

/-- The outputs of sources are no new sources. -/
theorem LeadsInto.sourceNames_putAll (h : w.LeadsInto input place) (hw : w.Sound)
    {sources : List Path} (hsources : ∀ p ∈ sources, w.IsSourceFile p) (outlined : Bool) :
    (w.putAll (w.batchWrites sources outlined)).sourceNames input place
      = w.sourceNames input place := by
  obtain ⟨hsound, hsame⟩ := hw.putAll_batchWrites hsources outlined
  apply (hsound.pairwise_sourceNames input place).eq_of_mem_iff
    (hw.pairwise_sourceNames input place)
  intro name
  rw [(h.putAll hsame).mem_sourceNames hsound.toTree, h.mem_sourceNames hw.toTree, hsame.refusal?]
  apply and_congr_left
  intro _
  have hkept : (Path.mk name).isSource = true → IsName name →
      (w.putAll (w.batchWrites sources outlined)).lookup (place ++ [name])
        = w.lookup (place ++ [name]) := by
    intro hsource hname
    have hextension := (Path.isSource_of_steps hname.steps_mk hname.step).1 hsource
    rw [← String.ofList_toList (s := name)]
    exact lookup_putAll_batchWrites hw.toTree hsources hextension
  constructor
  · intro hsource
    have hlookup := hkept hsource.2 (hsound.isName_of_hasSource hsource)
    rwa [HasSource, hlookup] at hsource
  · intro hsource
    have hlookup := hkept hsource.2 (hw.isName_of_hasSource hsource)
    rwa [HasSource, hlookup]

/-! ### Compiling the sources of a directory -/

theorem LeadsInto.compilePath_eq (h : w.LeadsInto input place) (hw : w.Sound)
    (hread : w.refusal? place .read = none) (hnames : w.sourceNames input place = names)
    (hsome : names ≠ []) (outlined : Bool) :
    w.compilePath input outlined
      = (w.putAll (w.batchWrites (names.map input.child) outlined),
          .ok (names.map fun name => (w.effect (input.child name) outlined).outcome)) := by
  rw [compilePath, h.sources_eq hread, hnames, if_neg hsome]
  dsimp only
  rw [compileFiles_eq hw (h.isSourceFile hw.toTree hnames), List.map_map]
  rfl

/-- A second time the sources are the same, and so is what is written for them. -/
theorem LeadsInto.compilePath_again (h : w.LeadsInto input place) (hw : w.Sound)
    (hread : w.refusal? place .read = none) (hnames : w.sourceNames input place = names)
    (hsome : names ≠ []) (outlined : Bool) :
    (w.putAll (w.batchWrites (names.map input.child) outlined)).compilePath input outlined
      = ((w.putAll (w.batchWrites (names.map input.child) outlined)).putAll
            (w.batchWrites (names.map input.child) outlined),
          .ok (names.map fun name => (w.effect (input.child name) outlined).outcome)) := by
  have hsources := h.isSourceFile hw.toTree hnames
  have hagain := (h.sourceNames_putAll hw hsources outlined).trans hnames
  obtain ⟨hsound, hsame⟩ := hw.putAll_batchWrites hsources outlined
  have hkept : ∀ p ∈ names.map input.child,
      (w.putAll (w.batchWrites (names.map input.child) outlined)).effect p outlined
        = w.effect p outlined := by
    intro p hp
    exact (effect_putAll_batchWrites hw hsources (hsources p hp)).2
  have houtcomes : (names.map fun name =>
        ((w.putAll (w.batchWrites (names.map input.child) outlined)).effect (input.child name)
          outlined).outcome)
      = names.map fun name => (w.effect (input.child name) outlined).outcome :=
    List.map_congr_left fun name hname => by rw [hkept _ (List.mem_map_of_mem hname)]
  rw [(h.putAll hsame).compilePath_eq hsound (hsame.refusal? place .read ▸ hread) hagain hsome,
    batchWrites_congr hkept, houtcomes]

theorem outputPlace_of_mem_writes {p : Path} {e : Place × String}
    (h : e ∈ (w.effect p outlined).writes) :
    w.Compiles p outlined ∧ w.OutputPlace p outlined e.1 := by
  obtain ⟨text, compiled, htext, hcompile, place, hcode, hkind⟩ := mem_writes_effect_iff.1 h
  refine ⟨⟨text, compiled, htext, hcompile⟩, ?_⟩
  rcases hkind with heq | ⟨htarget, houtline⟩
  · rw [heq]
    exact Or.inl (target_eq_ok_iff.1 hcode).1
  · exact Or.inr ⟨outlined_of_outline hcompile houtline, (target_eq_ok_iff.1 htarget).1⟩

/-- A directory that cannot be read is an error. Otherwise its sources whose paths can be followed
come in the order of the bytes of their names. Each has the outcome that it has alone, what changes
is at the places of their outputs, no order of the sources leaves other files, and to compile them
again changes nothing. -/
theorem directory_sources_compile_alone (hw : w.Sound) (h : w.LeadsInto input place)
    (outlined : Bool) :
    (∀ fault, w.refusal? place .read = some fault →
        w.compilePath input outlined = (w, .error (.file input fault)))
      ∧ (w.refusal? place .read = none → ∃ names : List String,
        names.Pairwise (fun a b => bytesOf a < bytesOf b)
        ∧ (∀ name, name ∈ names
            ↔ w.HasSource place name ∧ (input.child name).text.utf8ByteSize ≤ longestPath
              ∧ w.refusal? place .search = none)
        ∧ (names = [] → w.compilePath input outlined = (w, .error (.noSources input)))
        ∧ (names ≠ [] → ∃ w' outcomes,
            w.compilePath input outlined = (w', .ok outcomes)
            ∧ outcomes = names.map (fun name => (w.compileFile (input.child name) outlined).2)
            ∧ (∀ q, w'.lookup q ≠ w.lookup q → ∃ name ∈ names,
                w.Compiles (input.child name) outlined
                  ∧ w.OutputPlace (input.child name) outlined q)
            ∧ (∀ order : List String, order.Perm names → ∀ q,
                (w.compileFiles outlined (order.map input.child)).1.lookup q = w'.lookup q)
            ∧ ∃ w'', w'.compilePath input outlined = (w'', .ok outcomes)
                ∧ ∀ q, w''.lookup q = w'.lookup q)) := by
  refine ⟨fun fault hread => ?_, fun hread => ?_⟩
  · simp only [compilePath, sources, h.locate, h.directory, hread]
  obtain ⟨names, hnames⟩ : ∃ names, w.sourceNames input place = names := ⟨_, rfl⟩
  have hordered : names.Pairwise (· < ·) := hnames ▸ hw.pairwise_sourceNames input place
  have hsources := h.isSourceFile hw.toTree hnames
  have hwrites := unordered_batchWrites hw.toTree hsources outlined
  refine ⟨names, hordered.imp bytesOf_lt_of_lt, ?_, ?_, ?_⟩
  · intro name
    rw [← hnames]
    exact h.mem_sourceNames hw.toTree
  · intro hnone
    rw [compilePath, h.sources_eq hread, hnames, if_pos hnone]
  intro hsome
  refine ⟨_, _, h.compilePath_eq hw hread hnames hsome outlined, ?_, ?_, ?_, ?_⟩
  · refine List.map_congr_left fun name hname => ?_
    rw [(hsources _ (List.mem_map_of_mem hname)).compileFile_eq hw]
  · intro q hq
    by_contra hnot
    apply hq
    apply lookup_putAll_of_not_mem
    intro e he hplace'
    obtain ⟨p, hp, hwritten⟩ := mem_batchWrites.1 he
    obtain ⟨name, hname, rfl⟩ := List.mem_map.1 hp
    exact hnot ⟨name, hname, hplace' ▸ outputPlace_of_mem_writes hwritten⟩
  · intro order horder q
    have hsources' : ∀ p ∈ order.map input.child, w.IsSourceFile p := by
      intro p hp
      exact hsources p ((horder.map _).mem_iff.1 hp)
    rw [compileFiles_eq hw hsources']
    apply hwrites.lookup_putAll_congr
    · intro e
      rw [mem_batchWrites, mem_batchWrites]
      simp only [(horder.map input.child).mem_iff]
    · intro q _
      rfl
  · refine ⟨_, h.compilePath_again hw hread hnames hsome outlined, fun q => ?_⟩
    apply hwrites.lookup_putAll_congr
    · intro e
      rfl
    · intro q hq
      exact lookup_putAll_of_not_mem hq

/-- A source that compiles, one that does not, and a directory where an outline belongs. -/
def twoSources : Workspace where
  entries := [(["src"], .directory), (["src", "B.jack"], .file "class B\x7b\x7d".toUTF8),
    (["src", "A.jack"], .file "class A".toUTF8), (["src", "B.xml"], .directory)]
  here := []

theorem leadsInto_twoSources : twoSources.LeadsInto ⟨"src"⟩ ["src"] :=
  ⟨by decide, by decide, by decide⟩

theorem two_sources_compile_alone :
    twoSources.Sound ∧ twoSources.LeadsInto ⟨"src"⟩ ["src"]
      ∧ twoSources.refusal? ["src"] .read = none
      ∧ ∃ names : List String, ∃ w' outcomes,
          "A.jack" ∈ names ∧ "B.jack" ∈ names
          ∧ names.Pairwise (fun a b => bytesOf a < bytesOf b)
          ∧ twoSources.compilePath ⟨"src"⟩ true = (w', .ok outcomes)
          ∧ outcomes = names.map (fun name =>
              (twoSources.compileFile ((Path.mk "src").child name) true).2)
          ∧ (∀ q, w'.lookup q ≠ twoSources.lookup q → ∃ name ∈ names,
              twoSources.Compiles ((Path.mk "src").child name) true
                ∧ twoSources.OutputPlace ((Path.mk "src").child name) true q)
          ∧ ∃ w'', w'.compilePath ⟨"src"⟩ true = (w'', .ok outcomes)
              ∧ ∀ q, w''.lookup q = w'.lookup q := by
  have hsound : twoSources.Sound := ⟨by decide, rfl⟩
  have hread : twoSources.refusal? ["src"] .read = none := rfl
  obtain ⟨-, hrun⟩ := directory_sources_compile_alone hsound leadsInto_twoSources true
  obtain ⟨names, hordered, hnames, -, hrun⟩ := hrun hread
  have hfirst : "A.jack" ∈ names := (hnames _).2 ⟨⟨⟨_, rfl⟩, by decide⟩, by decide, rfl⟩
  have hsecond : "B.jack" ∈ names := (hnames _).2 ⟨⟨⟨_, rfl⟩, by decide⟩, by decide, rfl⟩
  obtain ⟨w', outcomes, hcompile, houtcomes, hframe, -, hagain⟩ :=
    hrun (List.ne_nil_of_mem hfirst)
  exact ⟨hsound, leadsInto_twoSources, hread, names, w', outcomes, hfirst, hsecond, hordered,
    hcompile, houtcomes, hframe, hagain⟩

/-! ### A directory whose path is too long -/

/-- A path that names the directory where paths start, over and over. -/
def hereAgain (n : Nat) : Path := ⟨String.ofList (List.replicate n ['.', '/']).flatten⟩

theorem steps_hereAgain (n : Nat) :
    (hereAgain n).steps = List.replicate n ['.'] ++ [[]] := by
  rw [Path.steps, hereAgain, String.toList_ofList]
  induction n with
  | zero => rfl
  | succ n ih =>
    rw [List.replicate_succ, List.replicate_succ, List.cons_append, ← ih]
    rfl

theorem utf8ByteSize_hereAgain (n : Nat) : (hereAgain n).text.utf8ByteSize = 2 * n := by
  unfold hereAgain
  induction n with
  | zero => rfl
  | succ n ih =>
    have hpair : (String.ofList ['.', '/']).utf8ByteSize = 2 := by rfl
    rw [List.replicate_succ, List.flatten_cons, String.ofList_append, String.utf8ByteSize_append, ih,
      hpair]
    omega

theorem walk_hereAgain (hplace : w.lookup place = some .directory)
    (hsearch : w.refusal? place .search = none) (n links : Nat) :
    w.walk links place (List.replicate n ['.'] ++ [[]]) = .ok place := by
  have hdot : w.advance place ['.'] = .ok (.place place) := by
    rw [advance, hplace]
    dsimp only
    rw [hsearch]
    exact turnAt_of_unlinked (unlinked_of_lookup hplace rfl)
  induction n with
  | zero => exact walk_of_empty hplace links
  | succ n ih =>
    rw [List.replicate_succ, List.cons_append, walk_cons, hdot]
    exact ih

theorem locate_hereAgain (hhere : w.lookup w.here = some .directory)
    (hsearch : w.refusal? w.here .search = none) {n : Nat} (hpos : 0 < n)
    (hshort : 2 * n ≤ longestPath) : w.locate (hereAgain n) = .ok w.here := by
  have htext : (hereAgain n).text.toList = (List.replicate n ['.', '/']).flatten :=
    String.toList_ofList
  have hnul : '\x00' ∉ (hereAgain n).text.toList := by
    rw [htext]
    intro hmem
    obtain ⟨cs, hcs, hc⟩ := List.mem_flatten.1 hmem
    rw [List.eq_of_mem_replicate hcs] at hc
    exact absurd hc (by decide)
  have hsize := utf8ByteSize_hereAgain n
  have hnonempty : (hereAgain n).text.isEmpty = false := by
    rw [← Bool.not_eq_true, String.isEmpty_iff]
    intro hempty
    rw [hempty, String.utf8ByteSize_empty] at hsize
    omega
  have hstart : startFrom w.here (hereAgain n) = w.here := by
    have hhead : ¬(hereAgain n).FromRoot := by
      obtain ⟨k, hk⟩ := Nat.exists_eq_add_of_lt hpos
      rw [Path.FromRoot, htext, hk, List.replicate_succ, List.flatten_cons]
      exact fun h => absurd (Option.some.inj h) (by decide)
    exact if_neg hhead
  refine locate_eq_ok_iff.2 ⟨hnul, hnonempty, hsize ▸ hshort, ?_⟩
  rw [steps_hereAgain, hstart]
  exact walk_hereAgain hhere hsearch n mostLinks

theorem utf8ByteSize_child_le (p : Path) (name : String) :
    p.text.utf8ByteSize + name.utf8ByteSize ≤ (p.child name).text.utf8ByteSize := by
  unfold Path.child
  split
  · rw [String.utf8ByteSize_append]
  · rw [String.utf8ByteSize_append, String.utf8ByteSize_append]
    omega

def oneSource : Workspace where
  entries := [(["A.jack"], .file "class A\x7b\x7d".toUTF8)]
  here := []

/-- The path leads to the directory, and a source is in it, but the path of the source is too long:
it is no source for the command. -/
theorem source_past_longest_path :
    oneSource.Sound ∧ oneSource.LeadsInto (hereAgain 2046) []
      ∧ oneSource.refused = [] ∧ oneSource.HasSource [] "A.jack"
      ∧ ∀ outlined, oneSource.compilePath (hereAgain 2046) outlined
          = (oneSource, .error (.noSources (hereAgain 2046))) := by
  have hsound : oneSource.Sound := ⟨by decide, rfl⟩
  have hinto : oneSource.LeadsInto (hereAgain 2046) [] :=
    ⟨locate_hereAgain rfl rfl (by decide) (by decide), rfl, by decide⟩
  refine ⟨hsound, hinto, rfl, ⟨⟨_, rfl⟩, by decide⟩, ?_⟩
  intro outlined
  have hnone : oneSource.sourceNames (hereAgain 2046) [] = [] := by
    apply List.eq_nil_iff_forall_not_mem.2
    intro name hname
    obtain ⟨⟨⟨content, hfile⟩, -⟩, hshort, -⟩ := (hinto.mem_sourceNames hsound.toTree).1 hname
    have hsize := utf8ByteSize_child_le (hereAgain 2046) name
    rw [utf8ByteSize_hereAgain] at hsize
    by_cases hsame : name = "A.jack"
    · subst hsame
      have hlong : "A.jack".utf8ByteSize = 6 := by rfl
      unfold longestPath at hshort
      omega
    · have hnot : oneSource.lookup ([] ++ [name]) = none := by
        simp [oneSource, lookup, Ne.symm hsame]
      rw [hnot] at hfile
      cases hfile
  rw [compilePath, hinto.sources_eq rfl, if_pos hnone]

end Workspace

end Jack
