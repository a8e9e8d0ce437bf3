import Mathlib
import Jack.Proofs.Directories
import Jack.Proofs.SourcesKept

/-! How the command ends. An argument that is no text ends it in a panic. Of texts it matters which
ones are no options, in their order, and which options there are. The command succeeds if there is
one path among them that leads to sources, and if every source is read and compiles in its turn,
and its outputs are written. -/

namespace Jack

/-! ### Arguments -/

section

variable {input? : Option Path} {outlined viewed : Bool} {rest arguments arguments' : List String}
  {invocation : Invocation} {input : String}

/-- The arguments that are paths. -/
def inputs (arguments : List String) : List String := arguments.filter fun a => !isOption a

theorem inputs_cons_option {a : String} (h : isOption a = true) (rest : List String) :
    inputs (a :: rest) = inputs rest := by
  simp only [inputs, List.filter_cons, h, Bool.not_true, Bool.false_eq_true, if_false]

theorem inputs_cons_path {a : String} (h : isOption a = false) (rest : List String) :
    inputs (a :: rest) = a :: inputs rest := by
  simp only [inputs, List.filter_cons, h, Bool.not_false, if_true]

/-- The options are known, there is one path besides those before, and every option counts that is
given at all. -/
structure ReadsAs (input? : Option Path) (outlined viewed : Bool) (rest : List String)
    (invocation : Invocation) : Prop where
  known : ∀ a ∈ rest, isOption a = true → a = "--xml" ∨ a = "--view"
  input : input?.toList ++ (inputs rest).map Path.mk = [invocation.input]
  outlined : invocation.outlined = (outlined || decide ("--xml" ∈ rest))
  view : invocation.view = (viewed || decide ("--view" ∈ rest))

theorem readsAs_cons_option {a : String} (ha : isOption a = true)
    (hknown : a = "--xml" ∨ a = "--view") :
    ReadsAs input? outlined viewed (a :: rest) invocation
      ↔ ReadsAs input? (outlined || decide (a = "--xml")) (viewed || decide (a = "--view")) rest
        invocation := by
  have hmem : ∀ b : String, decide (b ∈ a :: rest) = (decide (a = b) || decide (b ∈ rest)) := by
    intro b
    simp only [List.mem_cons, Bool.decide_or, @eq_comm _ b a]
  constructor
  · rintro ⟨hall, hinput, houtlined, hview⟩
    rw [inputs_cons_option ha] at hinput
    rw [hmem, ← Bool.or_assoc] at houtlined hview
    exact ⟨(List.forall_mem_cons.1 hall).2, hinput, houtlined, hview⟩
  · rintro ⟨hall, hinput, houtlined, hview⟩
    rw [Bool.or_assoc, ← hmem] at houtlined hview
    rw [← inputs_cons_option ha] at hinput
    exact ⟨List.forall_mem_cons.2 ⟨fun _ => hknown, hall⟩, hinput, houtlined, hview⟩

theorem readsAs_cons_path {a : String} (ha : isOption a = false) :
    ReadsAs none outlined viewed (a :: rest) invocation
      ↔ ReadsAs (some ⟨a⟩) outlined viewed rest invocation := by
  have hmem : ∀ b : String, isOption b = true → (b ∈ a :: rest ↔ b ∈ rest) := by
    intro b hb
    rw [List.mem_cons, or_iff_right]
    rintro rfl
    rw [hb] at ha
    cases ha
  have hxml := hmem "--xml" (by decide)
  have hview := hmem "--view" (by decide)
  constructor
  · rintro ⟨hall, hinput, houtlined, hviewed⟩
    rw [inputs_cons_path ha] at hinput
    simp only [hxml] at houtlined
    simp only [hview] at hviewed
    exact ⟨(List.forall_mem_cons.1 hall).2, hinput, houtlined, hviewed⟩
  · rintro ⟨hall, hinput, houtlined, hviewed⟩
    refine ⟨List.forall_mem_cons.2 ⟨?_, hall⟩, ?_, ?_, ?_⟩
    · intro h
      rw [ha] at h
      cases h
    · rw [inputs_cons_path ha]
      exact hinput
    · simp only [hxml, houtlined]
    · simp only [hview, hviewed]

/-- Arguments are read as an invocation just if they say so, in whatever order. -/
theorem readArguments_eq_ok_iff :
    readArguments input? outlined viewed rest = .ok invocation
      ↔ ReadsAs input? outlined viewed rest invocation := by
  induction rest generalizing input? outlined viewed with
  | nil =>
    cases input? with
    | none =>
      constructor
      · intro h
        cases h
      · intro h
        cases h.input
    | some p =>
      constructor
      · intro h
        cases h
        exact ⟨List.forall_mem_nil _, rfl, (Bool.or_false _).symm, (Bool.or_false _).symm⟩
      · rintro ⟨-, hinput, houtlined, hview⟩
        obtain ⟨input, outlined', viewed'⟩ := invocation
        obtain rfl : p = input := List.singleton_inj.1 hinput
        obtain rfl : outlined' = outlined := houtlined.trans (Bool.or_false _)
        obtain rfl : viewed' = viewed := hview.trans (Bool.or_false _)
        rfl
  | cons a rest ih =>
    rw [readArguments.eq_def]
    dsimp only
    by_cases hxml : a = "--xml"
    · subst hxml
      rw [if_pos rfl, ih, readsAs_cons_option (by decide) (.inl rfl)]
      simp
    · rw [if_neg hxml]
      by_cases hview : a = "--view"
      · subst hview
        rw [if_pos rfl, ih, readsAs_cons_option (by decide) (.inr rfl)]
        simp
      · rw [if_neg hview]
        cases ha : isOption a with
        | true =>
          rw [if_pos rfl]
          constructor
          · intro h
            cases h
          · intro h
            rcases h.known a (.head _) ha with heq | heq
            · exact absurd heq hxml
            · exact absurd heq hview
        | false =>
          rw [if_neg Bool.false_ne_true]
          cases input? with
          | none => rw [ih, readsAs_cons_path ha]
          | some p =>
            constructor
            · intro h
              cases h
            · intro h
              have hinput := congrArg List.length h.input
              rw [inputs_cons_path ha] at hinput
              simp at hinput

/-- Arguments without `--view` ask for a batch: they hold one path, and no option but `--xml`. -/
structure AsksFor (arguments : List String) (input : String) : Prop where
  input : inputs arguments = [input]
  options : ∀ a ∈ arguments, isOption a = true → a = "--xml"

theorem ofArguments_eq_ok_iff :
    Invocation.ofArguments arguments = .ok ⟨⟨input⟩, outlined, false⟩
      ↔ AsksFor arguments input ∧ outlined = decide ("--xml" ∈ arguments) := by
  rw [Invocation.ofArguments, readArguments_eq_ok_iff]
  constructor
  · rintro ⟨hknown, hinput, houtlined, hview⟩
    have hnone : "--view" ∉ arguments := of_decide_eq_false hview.symm
    obtain ⟨a, rest, hinputs, ha, hrest⟩ := List.map_eq_cons_iff.1 hinput
    obtain rfl := List.map_eq_nil_iff.1 hrest
    obtain rfl : a = input := congrArg Path.text ha
    refine ⟨⟨hinputs, ?_⟩, houtlined⟩
    intro b hb hoption
    refine (hknown b hb hoption).resolve_right ?_
    rintro rfl
    exact hnone hb
  · rintro ⟨⟨hinputs, hxml⟩, houtlined⟩
    have hnone : "--view" ∉ arguments := fun hmem =>
      absurd (hxml _ hmem (by decide)) (by decide)
    refine ⟨fun a ha hoption => .inl (hxml a ha hoption), ?_, houtlined,
      (decide_eq_false hnone).symm⟩
    rw [hinputs]
    rfl

/-- What is read of arguments without `--view` asks for no viewer. -/
theorem exists_asksFor (hview : "--view" ∉ arguments)
    (h : Invocation.ofArguments arguments = .ok invocation) :
    ∃ input, invocation = ⟨⟨input⟩, decide ("--xml" ∈ arguments), false⟩
      ∧ AsksFor arguments input := by
  obtain ⟨⟨input⟩, outlined, view⟩ := invocation
  have hreads := readArguments_eq_ok_iff.1 h
  obtain rfl : view = false := hreads.view.trans (decide_eq_false hview)
  obtain ⟨hasks, rfl⟩ := ofArguments_eq_ok_iff.1 h
  exact ⟨input, rfl, hasks⟩

/-- The arguments are the same in another order, with the option repeated or not. -/
structure Rearranges {α : Type} [DecidableEq α] (option : α) (arguments' arguments : List α) :
    Prop where
  others : (arguments'.filter (· ≠ option)).Perm (arguments.filter (· ≠ option))
  option : option ∈ arguments' ↔ option ∈ arguments

theorem Rearranges.symm {α : Type} [DecidableEq α] {option : α} {arguments' arguments : List α}
    (h : Rearranges option arguments' arguments) : Rearranges option arguments arguments' :=
  ⟨h.others.symm, h.option.symm⟩

theorem Rearranges.mem {α : Type} [DecidableEq α] {option : α} {arguments' arguments : List α}
    (h : Rearranges option arguments' arguments) {a : α} : a ∈ arguments' ↔ a ∈ arguments := by
  by_cases ha : a = option
  · rw [ha]
    exact h.option
  · have hmem := h.others.mem_iff (a := a)
    simpa [List.mem_filter, ha] using hmem

theorem inputs_filter (arguments : List String) :
    inputs (arguments.filter (· ≠ "--xml")) = inputs arguments := by
  rw [inputs, List.filter_filter, inputs]
  refine List.filter_congr ?_
  intro a _
  by_cases ha : a = "--xml"
  · subst ha
    rfl
  · rw [decide_eq_true ha, Bool.and_true]

theorem Rearranges.asksFor (h : Rearranges "--xml" arguments' arguments)
    (hasks : AsksFor arguments input) : AsksFor arguments' input := by
  constructor
  · have hinputs : (inputs arguments').Perm (inputs arguments) := by
      rw [← inputs_filter arguments', ← inputs_filter arguments]
      exact h.others.filter _
    rw [hasks.input] at hinputs
    exact List.perm_singleton.1 hinputs
  · intro a ha
    exact hasks.options a (h.mem.1 ha)

end

/-! ### Sources that fail -/

namespace Workspace

variable {w w' : Workspace} {p input : Path} {outlined : Bool} {found : List Path}

/-- The source is read and compiles, and all its outputs are written. -/
def Succeeds (w : Workspace) (outlined : Bool) (p : Path) : Prop :=
  ∃ text compiled between, w.readText p = .ok text ∧ compile text outlined = .ok compiled
    ∧ w.writeText (p.withExtension codeExtension) compiled.code = (between, .ok ())
    ∧ (outlined = true → ∃ outline w', compiled.outline? = some outline
      ∧ between.writeText (p.withExtension outlineExtension) outline = (w', .ok ()))

theorem succeeds_iff :
    w.Succeeds outlined p ↔ ∃ report, (w.compileFile p outlined).2 = .ok report := by
  constructor
  · rintro ⟨text, compiled, between, htext, hcompile, hcode, houtline⟩
    rw [compileFile_eq_writeOutputs htext hcompile]
    unfold writeOutputs
    simp only [writeOutput_eq, hcode]
    cases hwanted : compiled.outline? with
    | none => exact ⟨_, rfl⟩
    | some outline =>
      obtain ⟨outline', w', hwanted', hwrite⟩ := houtline (outlined_of_outline hcompile hwanted)
      obtain rfl := Option.some.inj (hwanted.symm.trans hwanted')
      simp only [hwrite]
      exact ⟨_, rfl⟩
  · rintro ⟨report, hreport⟩
    generalize hrun : w.compileFile p outlined = run at hreport
    obtain ⟨w', outcome⟩ := run
    obtain rfl : outcome = .ok report := hreport
    obtain ⟨-, e, he⟩ | ⟨text, compiled, htext, hcompile, houtputs⟩ := compileFile_cases hrun
    · cases he
    rcases writeOutputs_cases houtputs with ⟨fault, -, he⟩ | ⟨hcode, hnone, -⟩ |
      ⟨between, outline, hcode, hwanted, ⟨fault, -, he⟩ | ⟨houtline, -⟩⟩
    · cases he
    · refine ⟨text, compiled, w', htext, hcompile, hcode, ?_⟩
      rintro rfl
      obtain ⟨outline, hwanted⟩ := exists_outline_of_compile hcompile
      rw [hnone] at hwanted
      cases hwanted
    · cases he
    · exact ⟨text, compiled, between, htext, hcompile, hcode, fun _ =>
        ⟨outline, w', hwanted, houtline⟩⟩

/-- Why compiling the source fails, if it does. -/
def failure? (w : Workspace) (outlined : Bool) (p : Path) : Option BatchError :=
  match (w.compileFile p outlined).2 with
  | .ok _ => none
  | .error e => some e

theorem failure?_eq_none_iff : w.failure? outlined p = none ↔ w.Succeeds outlined p := by
  rw [succeeds_iff, failure?]
  cases (w.compileFile p outlined).2 with
  | error e => simp
  | ok report => simp

/-- The sources, each with the workspace that it finds in its turn. -/
def turns (w : Workspace) (outlined : Bool) : List Path → List (Workspace × Path)
  | [] => []
  | p :: rest => (w, p) :: (w.compileFile p outlined).1.turns outlined rest

theorem map_snd_turns (w : Workspace) (outlined : Bool) (found : List Path) :
    (w.turns outlined found).map Prod.snd = found := by
  induction found generalizing w with
  | nil => rfl
  | cons p rest ih => rw [turns, List.map_cons, ih]

theorem compileFiles_snd (w : Workspace) (outlined : Bool) (found : List Path) :
    (w.compileFiles outlined found).2
      = (w.turns outlined found).map fun turn => (turn.1.compileFile turn.2 outlined).2 := by
  induction found generalizing w with
  | nil => rfl
  | cons p rest ih =>
    rw [turns, List.map_cons, ← ih]
    rfl

/-- The errors of the sources that fail in their turn, in the order of the sources. -/
def failed (w : Workspace) (outlined : Bool) (found : List Path) : List BatchError :=
  (w.turns outlined found).filterMap fun turn => turn.1.failure? outlined turn.2

theorem failures_compileFiles (w : Workspace) (outlined : Bool) (found : List Path) :
    failures (w.compileFiles outlined found).2 = w.failed outlined found := by
  rw [compileFiles_snd, failures, List.filterMap_map]
  rfl

theorem failed_eq_nil_iff :
    w.failed outlined found = []
      ↔ ∀ turn ∈ w.turns outlined found, turn.1.Succeeds outlined turn.2 := by
  simp only [failed, List.filterMap_eq_nil_iff, failure?_eq_none_iff]

/-- A path that leads to sources leads somewhere, and there is a source. -/
theorem has_of_sources (h : w.sources input = .ok found) : w.has input = true ∧ found ≠ [] := by
  obtain ⟨place, hlocate, ⟨entry, hplace, -, -, rfl⟩ | ⟨hplace, -, hsome, -⟩⟩ := sources_cases h
  · rw [has, find_eq_ok_iff.2 ⟨place, hlocate, hplace⟩]
    exact ⟨rfl, List.cons_ne_nil _ _⟩
  · rw [has, find_eq_ok_iff.2 ⟨place, hlocate, hplace⟩]
    exact ⟨rfl, hsome⟩

end Workspace

/-! ### The command -/

variable {w : Workspace} {arguments arguments' : List String} {input : String} {found : List Path}

/-- The sources of a batch are compiled one after another. The batch succeeds if none fails. -/
theorem batch_eq {input : Path} (h : w.sources input = .ok found) (outlined : Bool) :
    batch w input outlined
      = ⟨if w.failed outlined found = [] then 0 else 1,
          ("Compiling " ++ input.text ++ "...")
            :: (w.turns outlined found).flatMap
                (fun turn => outcomeLines (turn.1.compileFile turn.2 outlined).2)
              ++ summary (w.failed outlined found) found.length,
          (w.compileFiles outlined found).1⟩ := by
  have hlength : (w.compileFiles outlined found).2.length = found.length := by
    rw [Workspace.compileFiles_snd, List.length_map, ← List.length_map Prod.snd,
      Workspace.map_snd_turns]
  have hlines : (w.compileFiles outlined found).2.flatMap outcomeLines
      = (w.turns outlined found).flatMap
        fun turn => outcomeLines (turn.1.compileFile turn.2 outlined).2 := by
    rw [Workspace.compileFiles_snd, List.flatMap_map]
  rw [batch, Workspace.compilePath, h]
  dsimp only
  rw [Workspace.failures_compileFiles, hlines, hlength]
  simp only [List.isEmpty_iff]

/-- The arguments ask for a batch of these sources. -/
structure Selects (w : Workspace) (arguments : List String) (input : String) (found : List Path) :
    Prop where
  asks : AsksFor arguments input
  sources : w.sources ⟨input⟩ = .ok found

theorem Selects.command_eq (h : Selects w arguments input found) (program : String) :
    command program arguments w = batch w ⟨input⟩ (decide ("--xml" ∈ arguments)) := by
  rw [command, ofArguments_eq_ok_iff.2 ⟨h.asks, rfl⟩]
  dsimp only
  rw [if_pos (Workspace.has_of_sources h.sources).1, if_neg Bool.false_ne_true]

/-- Without sources to compile the command fails, and leaves everything as it was. -/
theorem command_of_not_selects (hview : "--view" ∉ arguments)
    (h : ¬∃ input found, Selects w arguments input found) (program : String) :
    (command program arguments w).exit = 1 ∧ (command program arguments w).workspace = w := by
  rw [command]
  cases hread : Invocation.ofArguments arguments with
  | error e => exact ⟨rfl, rfl⟩
  | ok invocation =>
    obtain ⟨input, rfl, hasks⟩ := exists_asksFor hview hread
    dsimp only
    cases hsources : w.sources ⟨input⟩ with
    | ok found => exact absurd ⟨input, found, hasks, hsources⟩ h
    | error e =>
      split
      · rw [if_neg Bool.false_ne_true, batch, Workspace.compilePath, hsources]
        exact ⟨rfl, rfl⟩
      · exact ⟨rfl, rfl⟩

theorem Selects.exit_eq_zero_iff (h : Selects w arguments input found) (program : String) :
    (command program arguments w).exit = 0
      ↔ ∀ turn ∈ w.turns (decide ("--xml" ∈ arguments)) found,
          turn.1.Succeeds (decide ("--xml" ∈ arguments)) turn.2 := by
  rw [h.command_eq, batch_eq h.sources]
  dsimp only
  rw [← Workspace.failed_eq_nil_iff]
  split
  · exact iff_of_true rfl ‹_›
  · exact iff_of_false one_ne_zero ‹_›

theorem Rearranges.selects (h : Rearranges "--xml" arguments' arguments)
    (hselects : Selects w arguments input found) : Selects w arguments' input found :=
  ⟨h.asksFor hselects.asks, hselects.sources⟩

theorem Rearranges.command_eq (h : Rearranges "--xml" arguments' arguments)
    (hview : "--view" ∉ arguments) (program : String) :
    (command program arguments' w).exit = (command program arguments w).exit
      ∧ (command program arguments' w).workspace = (command program arguments w).workspace := by
  by_cases hselects : ∃ input found, Selects w arguments input found
  · obtain ⟨input, found, hselects⟩ := hselects
    rw [hselects.command_eq, (h.selects hselects).command_eq]
    simp only [h.option, and_self]
  · have hselects' : ¬∃ input found, Selects w arguments' input found := by
      rintro ⟨input, found, hselects'⟩
      exact hselects ⟨input, found, h.symm.selects hselects'⟩
    have hfails := command_of_not_selects hview hselects program
    have hfails' := command_of_not_selects (mt h.mem.1 hview) hselects' program
    exact ⟨hfails'.1.trans hfails.1.symm, hfails'.2.trans hfails.2.symm⟩

/-! ### Arguments as bytes -/

theorem toUTF8_injective : Function.Injective String.toUTF8 :=
  fun _ _ h => String.toByteArray_inj.1 h

theorem textsOf_map (texts : List String) : textsOf (texts.map String.toUTF8) = .ok texts := by
  induction texts with
  | nil => rfl
  | cons text rest ih => rw [List.map_cons, textsOf, Workspace.fromUTF8?_toUTF8, ih]

theorem eq_map_of_textsOf {arguments : List ByteArray} {texts : List String}
    (h : textsOf arguments = .ok texts) : arguments = texts.map String.toUTF8 := by
  induction arguments generalizing texts with
  | nil =>
    obtain rfl : [] = texts := Except.ok.inj h
    rfl
  | cons a rest ih =>
    rw [textsOf] at h
    split at h
    · cases h
    · cases h
    · rename_i text texts' htext hrest
      obtain rfl := Except.ok.inj h
      rw [List.map_cons, ← ih hrest, ← Workspace.eq_toUTF8_of_fromUTF8? htext]

theorem run_map (name : String) (texts : List String) (w : Workspace) :
    run ((name :: texts).map String.toUTF8) w = .report (command name texts w) := by
  rw [run, textsOf_map]
  rfl

/-- An argument that is no text ends the run in a panic, before anything is done. -/
theorem exists_panic {arguments : List ByteArray}
    (h : ¬∃ texts : List String, arguments = texts.map String.toUTF8) (w : Workspace) :
    ∃ a, run arguments w = .panic a w := by
  cases htexts : textsOf arguments with
  | error a => exact ⟨a, by rw [run, htexts]⟩
  | ok texts => exact absurd ⟨texts, eq_map_of_textsOf htexts⟩ h

theorem toUTF8_mem_map_iff {text : String} {texts : List String} :
    text.toUTF8 ∈ texts.map String.toUTF8 ↔ text ∈ texts :=
  List.mem_map_of_injective toUTF8_injective

theorem filter_map_toUTF8 (option : String) (texts : List String) :
    (texts.map String.toUTF8).filter (· ≠ option.toUTF8)
      = (texts.filter (· ≠ option)).map String.toUTF8 := by
  rw [List.filter_map]
  congr 1
  refine List.filter_congr fun text _ => ?_
  simp only [Function.comp_apply, ne_eq, toUTF8_injective.eq_iff]

theorem rearranges_map_iff {option : String} {texts' texts : List String} :
    Rearranges option.toUTF8 (texts'.map String.toUTF8) (texts.map String.toUTF8)
      ↔ Rearranges option texts' texts := by
  constructor
  · rintro ⟨hothers, hoption⟩
    rw [filter_map_toUTF8, filter_map_toUTF8, List.map_perm_map_iff toUTF8_injective] at hothers
    rw [toUTF8_mem_map_iff, toUTF8_mem_map_iff] at hoption
    exact ⟨hothers, hoption⟩
  · rintro ⟨hothers, hoption⟩
    refine ⟨?_, ?_⟩
    · rw [filter_map_toUTF8, filter_map_toUTF8]
      exact hothers.map _
    · rw [toUTF8_mem_map_iff, toUTF8_mem_map_iff]
      exact hoption

theorem Rearranges.exists_texts {option : ByteArray} {arguments' : List ByteArray}
    {texts : List String} (h : Rearranges option arguments' (texts.map String.toUTF8)) :
    ∃ texts' : List String, arguments' = texts'.map String.toUTF8 := by
  have hall : arguments' ∈ Set.range (List.map String.toUTF8) := by
    rw [Set.range_list_map]
    intro a ha
    obtain ⟨text, -, htext⟩ := List.mem_map.1 (h.mem.1 ha)
    exact ⟨text, htext⟩
  obtain ⟨texts', rfl⟩ := hall
  exact ⟨texts', rfl⟩

/-- The order of the arguments and how often `--xml` is among them change nothing. -/
theorem Rearranges.run_eq {program : ByteArray} {arguments arguments' : List ByteArray}
    (h : Rearranges "--xml".toUTF8 arguments' arguments) (hview : "--view".toUTF8 ∉ arguments)
    (w : Workspace) :
    (run (program :: arguments') w).exit = (run (program :: arguments) w).exit
      ∧ (run (program :: arguments') w).workspace = (run (program :: arguments) w).workspace := by
  have htransfer : ∀ {arguments arguments' : List ByteArray},
      Rearranges "--xml".toUTF8 arguments' arguments →
      (∃ texts : List String, program :: arguments = texts.map String.toUTF8) →
      ∃ texts : List String, program :: arguments' = texts.map String.toUTF8 := by
    rintro arguments arguments' h ⟨texts, htexts⟩
    obtain ⟨name, rest, rfl, rfl, rfl⟩ := List.map_eq_cons_iff.1 htexts.symm
    obtain ⟨rest', rfl⟩ := h.exists_texts
    exact ⟨name :: rest', rfl⟩
  by_cases htexts : ∃ texts : List String, program :: arguments = texts.map String.toUTF8
  · obtain ⟨texts, htexts⟩ := htexts
    obtain ⟨name, rest, rfl, rfl, rfl⟩ := List.map_eq_cons_iff.1 htexts.symm
    obtain ⟨rest', rfl⟩ := h.exists_texts
    rw [toUTF8_mem_map_iff] at hview
    rw [← List.map_cons, ← List.map_cons, run_map, run_map]
    exact (rearranges_map_iff.1 h).command_eq hview name
  · obtain ⟨a, ha⟩ := exists_panic htexts w
    obtain ⟨a', ha'⟩ := exists_panic (mt (htransfer h.symm) htexts) w
    rw [ha, ha']
    exact ⟨rfl, rfl⟩

/-! ### What is said -/

theorem foldl_lines (before : String) (lines : List String) :
    lines.foldl (fun text line => text ++ line ++ "\n") before
      = before ++ String.join (lines.map (· ++ "\n")) := by
  induction lines generalizing before with
  | nil => simp
  | cons line rest ih =>
    rw [List.foldl_cons, ih, List.map_cons, String.join_cons]
    simp only [String.append_assoc]

/-- The lines with the paths of the failures, as they are printed. -/
def pathLines (failed : List BatchError) : String :=
  String.join (failed.map fun e => "  " ++ e.path.text ++ "\n")

/-- Each failure has a line of its own unless its path holds the end of a line. -/
theorem count_pathLines (failed : List BatchError) :
    failed.length ≤ (pathLines failed).toList.count '\n'
      ∧ ((pathLines failed).toList.count '\n' = failed.length
        ↔ ∀ e ∈ failed, '\n' ∉ e.path.text.toList) := by
  induction failed with
  | nil => exact ⟨Nat.zero_le _, by simp [pathLines]⟩
  | cons e rest ih =>
    have hcount : (pathLines (e :: rest)).toList.count '\n'
        = e.path.text.toList.count '\n' + 1 + (pathLines rest).toList.count '\n' := by
      simp [pathLines, Nat.add_assoc, Nat.add_comm, Nat.add_left_comm]
    obtain ⟨hle, hiff⟩ := ih
    rw [hcount, List.length_cons]
    refine ⟨by omega, ?_⟩
    rw [List.forall_mem_cons, ← hiff, ← List.count_eq_zero]
    omega

/-- What a batch says: what became of each source in its turn, and at the end the paths of the
failures, if there are any. -/
structure Accounts (w : Workspace) (outlined : Bool) (input : String) (found : List Path)
    (report : CommandReport) : Prop where
  lines : report.errorLines
    = ("Compiling " ++ input ++ "...")
      :: (w.turns outlined found).flatMap
          (fun turn => outcomeLines (turn.1.compileFile turn.2 outlined).2)
        ++ if w.failed outlined found = [] then []
          else (toString (w.failed outlined found).length ++ " of " ++ toString found.length
              ++ " file(s) failed to compile:")
            :: (w.failed outlined found).map fun e => "  " ++ e.path.text
  closing : ∃ before, report.errorText = before ++ pathLines (w.failed outlined found)
  /-- There is one line for each failure unless a path holds the end of a line. -/
  single : (pathLines (w.failed outlined found)).toList.count '\n'
      = (w.failed outlined found).length
    ↔ ∀ e ∈ w.failed outlined found, '\n' ∉ e.path.text.toList

theorem exists_errorText_eq {report : CommandReport} {before : List String}
    {failed : List BatchError}
    (h : report.errorLines = before ++ failed.map fun e => "  " ++ e.path.text) :
    ∃ text, report.errorText = text ++ pathLines failed := by
  refine ⟨String.join (before.map (· ++ "\n")), ?_⟩
  rw [CommandReport.errorText, foldl_lines, h, List.map_append, String.join_append, List.map_map,
    pathLines]
  simp [Function.comp_def]

theorem exists_summary_eq (failed : List BatchError) (total : Nat) :
    ∃ header, summary failed total = header ++ failed.map fun e => "  " ++ e.path.text := by
  unfold summary
  split
  · rename_i hnone
    rw [List.isEmpty_iff.1 hnone]
    exact ⟨[], rfl⟩
  · exact ⟨[_], rfl⟩

theorem accounts_batch (h : w.sources ⟨input⟩ = .ok found) (outlined : Bool) :
    Accounts w outlined input found (batch w ⟨input⟩ outlined) := by
  obtain ⟨header, hheader⟩ := exists_summary_eq (w.failed outlined found) found.length
  rw [batch_eq h]
  refine ⟨by simp only [summary, List.isEmpty_iff], ?_, (count_pathLines _).2⟩
  apply exists_errorText_eq
  dsimp only
  rw [hheader]
  exact (List.append_assoc _ _ _).symm

/-- Without `--view`, a run panics if an argument is no text, and leaves everything as it was.
Otherwise its exit status is 0 if the arguments are one path and no option but `--xml`, the path
leads to sources, and every source is read and compiles in its turn and has its outputs written; and
1 if not. The order of the arguments and how often `--xml` is among them change neither the status
nor the files. What is said of a batch accounts for its sources, and ends with the paths of the
failures. -/
theorem run_succeeds_iff {program : ByteArray} {arguments : List ByteArray}
    (hview : "--view".toUTF8 ∉ arguments) (w : Workspace) :
    ((¬∃ texts : List String, program :: arguments = texts.map String.toUTF8) →
        (run (program :: arguments) w).exit = 101
          ∧ (run (program :: arguments) w).workspace = w)
      ∧ (∀ arguments', Rearranges "--xml".toUTF8 arguments' arguments →
          (run (program :: arguments') w).exit = (run (program :: arguments) w).exit
          ∧ (run (program :: arguments') w).workspace = (run (program :: arguments) w).workspace)
      ∧ ∀ name texts outlined, program :: arguments = (name :: texts).map String.toUTF8 →
          outlined = decide ("--xml" ∈ texts) →
          ((run (program :: arguments) w).exit = 0
            ↔ ∃ input found, AsksFor texts input ∧ w.has ⟨input⟩ = true
              ∧ w.sources ⟨input⟩ = .ok found ∧ found ≠ []
              ∧ ∀ turn ∈ w.turns outlined found, turn.1.Succeeds outlined turn.2)
          ∧ ((run (program :: arguments) w).exit = 0 ∨ (run (program :: arguments) w).exit = 1)
          ∧ ∀ input found, AsksFor texts input → w.sources ⟨input⟩ = .ok found →
              ∃ report, run (program :: arguments) w = .report report
                ∧ Accounts w outlined input found report := by
  refine ⟨fun hpanic => ?_, fun arguments' h => h.run_eq hview w, ?_⟩
  · obtain ⟨a, ha⟩ := exists_panic hpanic w
    rw [ha]
    exact ⟨rfl, rfl⟩
  rintro name texts outlined htexts rfl
  obtain ⟨rfl, rfl⟩ := List.cons.inj htexts
  rw [toUTF8_mem_map_iff] at hview
  rw [← List.map_cons, run_map]
  refine ⟨⟨fun hzero => ?_, ?_⟩, ?_, ?_⟩
  · by_cases hselects : ∃ input found, Selects w texts input found
    · obtain ⟨input, found, hselects⟩ := hselects
      obtain ⟨hhas, hsome⟩ := Workspace.has_of_sources hselects.sources
      exact ⟨input, found, hselects.asks, hhas, hselects.sources, hsome,
        (hselects.exit_eq_zero_iff name).1 hzero⟩
    · have hone := (command_of_not_selects hview hselects name).1
      cases hone.symm.trans hzero
  · rintro ⟨input, found, hasks, -, hsources, -, hall⟩
    exact (Selects.exit_eq_zero_iff ⟨hasks, hsources⟩ name).2 hall
  · by_cases hselects : ∃ input found, Selects w texts input found
    · obtain ⟨input, found, hselects⟩ := hselects
      rw [hselects.command_eq, batch_eq hselects.sources]
      simp only [Ending.exit]
      split
      · exact .inl rfl
      · exact .inr rfl
    · exact .inr (command_of_not_selects hview hselects name).1
  · intro input found hasks hsources
    refine ⟨_, rfl, ?_⟩
    rw [Selects.command_eq ⟨hasks, hsources⟩]
    exact accounts_batch hsources _

theorem Workspace.sources_twoSources :
    twoSources.sources ⟨"src"⟩ = .ok [⟨"src/A.jack"⟩, ⟨"src/B.jack"⟩] := by
  have hfiles : twoSources.namesIn ["src"] = ["A.jack", "B.jack", "B.xml"] := by
    have hnames : twoSources.entries.filterMap (nameIn? ["src"])
        = ["B.jack", "A.jack", "B.xml"] := by decide
    rw [namesIn_eq, hnames]
    simp [List.mergeSort, List.MergeSort.Internal.splitInTwo]
  rw [leadsInto_twoSources.sources_eq rfl, sourceNames, hfiles]
  decide

theorem two_sources_fail_with_outlines :
    "--view".toUTF8 ∉ ["--xml", "src"].map String.toUTF8
      ∧ AsksFor ["--xml", "src"] "src"
      ∧ Workspace.twoSources.sources ⟨"src"⟩ = .ok [⟨"src/A.jack"⟩, ⟨"src/B.jack"⟩]
      ∧ Rearranges "--xml".toUTF8 (["src", "--xml", "--xml"].map String.toUTF8)
        (["--xml", "src"].map String.toUTF8)
      ∧ (run (["jackc", "src", "--xml", "--xml"].map String.toUTF8) Workspace.twoSources).exit = 1
      ∧ (run (["jackc", "src/B.jack"].map String.toUTF8) Workspace.twoSources).exit = 0
      ∧ ∃ report, run (["jackc", "--xml", "src"].map String.toUTF8) Workspace.twoSources
          = .report report
        ∧ report.errorLines.drop 3
          = ["2 of 2 file(s) failed to compile:", "  src/A.jack", "  src/B.xml"] := by
  have hview : "--view".toUTF8 ∉ ["--xml", "src"].map String.toUTF8 := by
    rw [toUTF8_mem_map_iff]
    decide
  have hasks : AsksFor ["--xml", "src"] "src" := ⟨by decide, by decide⟩
  have hsources := Workspace.sources_twoSources
  have hagain : Rearranges "--xml".toUTF8 (["src", "--xml", "--xml"].map String.toUTF8)
      (["--xml", "src"].map String.toUTF8) :=
    rearranges_map_iff.2 ⟨by decide, by decide⟩
  obtain ⟨-, horder, hall⟩ :=
    @run_succeeds_iff "jackc".toUTF8 _ hview Workspace.twoSources
  obtain ⟨hzero, hone, haccounts⟩ := hall "jackc" ["--xml", "src"] true rfl (by decide)
  refine ⟨hview, hasks, hsources, hagain, ?_, by decide +kernel, ?_⟩
  · refine (horder _ hagain).1.trans (hone.resolve_left fun hexit => ?_)
    obtain ⟨input, found, hasks', -, hsources', -, hturns⟩ := hzero.1 hexit
    obtain rfl : input = "src" := List.singleton_inj.1 (hasks'.input.symm.trans hasks.input)
    obtain rfl := Except.ok.inj (hsources'.symm.trans hsources)
    obtain ⟨text, compiled, -, htext, hcompile, -⟩ := hturns _ (.head _)
    have hread : Workspace.twoSources.readText ⟨"src/A.jack"⟩ = .ok "class A" := by decide
    obtain rfl := Except.ok.inj (htext.symm.trans hread)
    cases hcompile
  · obtain ⟨report, hreport, haccount⟩ := haccounts "src" _ hasks hsources
    refine ⟨report, hreport, ?_⟩
    rw [haccount.lines]
    decide +kernel

/-- An argument that is no text: no text has this byte. -/
def noText : ByteArray := ⟨#[0xff]⟩

/-- A source that does not compile, with the end of a line in its name. -/
def brokenName : Workspace where
  entries := [(["a\nb.jack"], .file "class".toUTF8)]
  here := []

/-- The exit status is neither 0 nor 1, and a failure takes two lines. -/
theorem panic_and_broken_line :
    "--view".toUTF8 ∉ [noText]
      ∧ (∀ w, (run ["jackc".toUTF8, noText] w).exit = 101)
      ∧ ∃ report, run (["jackc", "a\nb.jack"].map String.toUTF8) brokenName = .report report
        ∧ Accounts brokenName false "a\nb.jack" [⟨"a\nb.jack"⟩] report
        ∧ (brokenName.failed false [⟨"a\nb.jack"⟩]).map BatchError.path = [⟨"a\nb.jack"⟩]
        ∧ report.errorLines.drop 2 = ["1 of 1 file(s) failed to compile:", "  a\nb.jack"]
        ∧ (pathLines (brokenName.failed false [⟨"a\nb.jack"⟩])).toList.count '\n' = 2 := by
  have hnone : ∀ text : String, text.toUTF8 ≠ noText := by
    intro text htext
    have hread : String.fromUTF8? noText = none := by decide +kernel
    rw [← htext, Workspace.fromUTF8?_toUTF8] at hread
    cases hread
  have hfails : (brokenName.failed false [⟨"a\nb.jack"⟩]).map BatchError.path
      = [⟨"a\nb.jack"⟩] := by decide +kernel
  have hsources : brokenName.sources ⟨"a\nb.jack"⟩ = .ok [⟨"a\nb.jack"⟩] := by decide
  have hasks : AsksFor ["a\nb.jack"] "a\nb.jack" := ⟨by decide, by decide⟩
  refine ⟨?_, fun w => ?_, _, run_map "jackc" ["a\nb.jack"] brokenName, ?_, hfails, ?_, ?_⟩
  · exact fun hmem => hnone _ (List.mem_singleton.1 hmem)
  · have hpanic : ¬∃ texts : List String, ["jackc".toUTF8, noText] = texts.map String.toUTF8 := by
      rintro ⟨texts, htexts⟩
      have hmem : noText ∈ texts.map String.toUTF8 := htexts ▸ .tail _ (.head _)
      obtain ⟨text, -, htext⟩ := List.mem_map.1 hmem
      exact hnone text htext
    obtain ⟨a, ha⟩ := exists_panic hpanic w
    rw [ha]
    rfl
  · rw [Selects.command_eq ⟨hasks, hsources⟩]
    exact accounts_batch hsources _
  · decide +kernel
  · decide +kernel

end Jack
