import Jack.Proofs.Frames

/-! What a source that fails leaves behind. A file is emptied before it is written, and the
instructions are written before it shows whether the outline can be: so a failure of a write can
leave a part of the file that was to be written, and a failure of the outline leaves the
instructions. No other failure changes anything. -/

namespace Jack

namespace Workspace

variable {w w' between : Workspace} {source : Path} {outlined : Bool} {text outline : String}
  {compiled : CompiledClass} {place q : Place} {bytes : ByteArray} {fault : FileFault}
  {e : BatchError}

/-- What a source that fails with an error leaves in the file at a place. -/
inductive LeavesBehind (w : Workspace) (source : Path) (outlined : Bool) :
    BatchError → Place → ByteArray → Prop
  /-- The instructions, as far as they were written. -/
  | partialCode {text : String} {compiled : CompiledClass} {place : Place} {i : Interruption}
      (reads : w.readText source = .ok text) (compiles : compile text outlined = .ok compiled)
      (target : w.target (source.withExtension codeExtension) = .ok place)
      (cutOff : w.cutOff? compiled.code.toUTF8 = some i) :
      LeavesBehind w source outlined (.file (source.withExtension codeExtension) i.fault) place
        (compiled.code.toUTF8.extract 0 i.written)
  /-- All instructions, unless the outline was written into the same file. -/
  | code {text outline : String} {compiled : CompiledClass} {between : Workspace} {place : Place}
      {fault : FileFault}
      (reads : w.readText source = .ok text) (compiles : compile text outlined = .ok compiled)
      (target : w.target (source.withExtension codeExtension) = .ok place)
      (written : w.writeText (source.withExtension codeExtension) compiled.code
        = (between, .ok ()))
      (wanted : compiled.outline? = some outline)
      (fails : (between.writeText (source.withExtension outlineExtension) outline).2
        = .error fault)
      (beside : between.target (source.withExtension outlineExtension) ≠ .ok place) :
      LeavesBehind w source outlined (.file (source.withExtension outlineExtension) fault) place
        compiled.code.toUTF8
  /-- The outline, as far as it was written. -/
  | partialOutline {text outline : String} {compiled : CompiledClass} {between : Workspace}
      {place : Place} {i : Interruption}
      (reads : w.readText source = .ok text) (compiles : compile text outlined = .ok compiled)
      (written : w.writeText (source.withExtension codeExtension) compiled.code
        = (between, .ok ()))
      (wanted : compiled.outline? = some outline)
      (target : between.target (source.withExtension outlineExtension) = .ok place)
      (cutOff : between.cutOff? outline.toUTF8 = some i) :
      LeavesBehind w source outlined (.file (source.withExtension outlineExtension) i.fault) place
        (outline.toUTF8.extract 0 i.written)

/-! ### Where a failure changes something -/

theorem lookup_fill_ne (h : (w.fill place bytes).1.lookup q ≠ w.lookup q) : q = place := by
  by_cases hq : q = place
  · exact hq
  · exact absurd (lookup_fill_of_ne hq bytes) h

/-- Whatever a failure changes, it leaves instructions or an outline there. -/
theorem exists_leavesBehind (h : w.compileFile source outlined = (w', .error e))
    (hq : w'.lookup q ≠ w.lookup q) : ∃ bytes, w.LeavesBehind source outlined e q bytes := by
  rcases compileFile_cases h with ⟨rfl, -⟩ | ⟨text, compiled, htext, hcompile, houtputs⟩
  · exact absurd rfl hq
  rcases writeOutputs_cases houtputs with ⟨fault, hcode, he⟩ | ⟨-, -, report, he⟩ |
    ⟨between, outline, hcode, hwanted, ⟨fault, houtline, he⟩ | ⟨-, report, he⟩⟩
  · obtain rfl := Except.error.inj he
    rcases writeText_eq_error_iff.1 hcode with ⟨-, rfl⟩ | ⟨place, i, htarget, hcut, rfl, rfl⟩
    · exact absurd rfl hq
    · obtain rfl := lookup_fill_ne hq
      exact ⟨_, .partialCode htext hcompile htarget hcut⟩
  · cases he
  · obtain rfl := Except.error.inj he
    obtain ⟨place, htarget, -, rfl⟩ := writeText_eq_ok_iff.1 hcode
    have hfails := congrArg Prod.snd houtline
    rcases writeText_eq_error_iff.1 houtline with
      ⟨hbarred, rfl⟩ | ⟨place', i, hplace, hcut, rfl, rfl⟩
    · obtain rfl := lookup_fill_ne hq
      refine ⟨_, .code htext hcompile htarget hcode hwanted hfails ?_⟩
      rw [hbarred]
      exact fun heq => by cases heq
    · by_cases hsame : q = place'
      · subst hsame
        exact ⟨_, .partialOutline htext hcompile hcode hwanted hplace hcut⟩
      · rw [lookup_fill_of_ne hsame] at hq
        obtain rfl := lookup_fill_ne hq
        refine ⟨_, .code htext hcompile htarget hcode hwanted hfails ?_⟩
        rw [hplace]
        exact fun heq => hsame (Except.ok.inj heq).symm
  · cases he

/-! ### What a failure leaves -/

theorem writeOutputs_of_code_error
    (h : w.writeText (source.withExtension codeExtension) compiled.code = (w', .error fault)) :
    (w.writeOutputs source compiled).1 = w' := by
  simp only [writeOutputs, writeOutput_eq, h]

theorem writeOutputs_of_outline_error
    (h : w.writeText (source.withExtension codeExtension) compiled.code = (between, .ok ()))
    (hwanted : compiled.outline? = some outline) :
    (w.writeOutputs source compiled).1
      = (between.writeText (source.withExtension outlineExtension) outline).1 := by
  simp only [writeOutputs, writeOutput_eq, h, hwanted]
  obtain ⟨w', written⟩ := between.writeText (source.withExtension outlineExtension) outline
  cases written with
  | error fault => rfl
  | ok done => rfl

theorem LeavesBehind.lookup (h : w.LeavesBehind source outlined e q bytes) :
    (w.compileFile source outlined).1.lookup q = some (.file bytes) := by
  cases h with
  | partialCode reads compiles target cutOff =>
    rw [compileFile_eq_writeOutputs reads compiles, writeOutputs_of_code_error
      (writeText_eq_error_iff.2 (.inr ⟨_, _, target, cutOff, rfl, rfl⟩)),
      lookup_fill_self (writable_of_target target), stored_of_cutOff cutOff]
  | code reads compiles target written wanted fails beside =>
    obtain ⟨place, hplace, hcut, rfl⟩ := writeText_eq_ok_iff.1 written
    obtain rfl : place = q := Except.ok.inj (hplace.symm.trans target)
    rw [compileFile_eq_writeOutputs reads compiles, writeOutputs_of_outline_error written wanted,
      lookup_writeText_of_ne beside, lookup_fill_self (writable_of_target target),
      stored_of_not_cutOff hcut]
  | partialOutline reads compiles written wanted target cutOff =>
    rw [compileFile_eq_writeOutputs reads compiles, writeOutputs_of_outline_error written wanted,
      writeText_of_target target, lookup_fill_self (writable_of_target target),
      stored_of_cutOff cutOff]

/-- If no write is cut off, all that is left are instructions. -/
theorem LeavesBehind.code_of_whole (h : w.LeavesBehind source outlined e q bytes)
    (hwhole : w.interruptions = []) :
    w.target (source.withExtension codeExtension) = .ok q := by
  cases h with
  | partialCode reads compiles target cutOff =>
    rw [cutOff?_of_whole hwhole] at cutOff
    cases cutOff
  | code reads compiles target written wanted fails beside => exact target
  | partialOutline reads compiles written wanted target cutOff =>
    obtain ⟨place, -, -, rfl⟩ := writeText_eq_ok_iff.1 written
    rw [cutOff?_of_whole (interruptions_fill hwhole _ _)] at cutOff
    cases cutOff

/-- A source that fails changes nothing unless a write was cut off, or the outline has failed after
the instructions were written, and the files were not that already. Then they are all that has
changed. -/
theorem failed_source_changes_nothing_iff (h : w.compileFile source outlined = (w', .error e)) :
    ((∀ q, w'.lookup q = w.lookup q)
        ↔ ∀ q bytes, w.LeavesBehind source outlined e q bytes → w.lookup q = some (.file bytes))
      ∧ ∀ q, w'.lookup q ≠ w.lookup q →
          ∃ bytes, w.LeavesBehind source outlined e q bytes ∧ w'.lookup q = some (.file bytes) := by
  have hleft : ∀ {q bytes}, w.LeavesBehind source outlined e q bytes →
      w'.lookup q = some (.file bytes) := by
    intro q bytes hleaves
    have hlookup := hleaves.lookup
    rwa [h] at hlookup
  refine ⟨⟨fun hsame q bytes hleaves => ?_, fun hsame q => ?_⟩, fun q hq => ?_⟩
  · rw [← hsame q]
    exact hleft hleaves
  · refine Decidable.byContradiction fun hq => hq ?_
    obtain ⟨bytes, hleaves⟩ := exists_leavesBehind h hq
    rw [hleft hleaves, hsame q bytes hleaves]
  · obtain ⟨bytes, hleaves⟩ := exists_leavesBehind h hq
    exact ⟨bytes, hleaves, hleft hleaves⟩

/-- A source, and a directory where its outline belongs. -/
def classWithBarredOutline : Workspace where
  entries := [(["A.jack"], .file "class A\x7b\x7d".toUTF8), (["A.xml"], .directory)]
  here := []

theorem barred_outline_leaves_instructions :
    ∃ w', classWithBarredOutline.compileFile ⟨"A.jack"⟩ true
        = (w', .error (.file ⟨"A.xml"⟩ .isDirectory))
      ∧ (∀ q, w'.lookup q ≠ classWithBarredOutline.lookup q → q = ["A.vm"])
      ∧ w'.lookup ["A.vm"] = some (.file "".toUTF8)
      ∧ classWithBarredOutline.lookup ["A.vm"] = none
      ∧ ¬∀ q, w'.lookup q = classWithBarredOutline.lookup q := by
  have houtcome : (classWithBarredOutline.compileFile ⟨"A.jack"⟩ true).2
      = .error (.file ⟨"A.xml"⟩ .isDirectory) := by decide +kernel
  have hafter : (classWithBarredOutline.compileFile ⟨"A.jack"⟩ true).1.lookup ["A.vm"]
      = some (.file "".toUTF8) := by decide +kernel
  have hbefore : classWithBarredOutline.lookup ["A.vm"] = none := rfl
  have hcode : classWithBarredOutline.target ((Path.mk "A.jack").withExtension codeExtension)
      = .ok ["A.vm"] := by decide
  generalize hrun : classWithBarredOutline.compileFile ⟨"A.jack"⟩ true = run at houtcome hafter
  obtain ⟨w', outcome⟩ := run
  obtain rfl : outcome = .error (.file ⟨"A.xml"⟩ .isDirectory) := houtcome
  obtain ⟨-, honly⟩ := failed_source_changes_nothing_iff hrun
  refine ⟨w', rfl, ?_, hafter, hbefore, ?_⟩
  · intro q hq
    obtain ⟨bytes, hleaves, -⟩ := honly q hq
    exact Except.ok.inj ((hleaves.code_of_whole rfl).symm.trans hcode)
  · intro hsame
    rw [← hsame] at hbefore
    exact absurd (hbefore.symm.trans hafter) (by simp)

/-- A source, and a device where no more than twelve bytes can be written. -/
def classOnFullDevice : Workspace where
  entries := [(["A.jack"], .file "class A\x7bfunction void f()\x7breturn;\x7d\x7d".toUTF8)]
  here := []
  interruptions := [some ⟨12, .system 28 "StorageFull" "No space left on device"⟩]

example : (classOnFullDevice.compileFile ⟨"A.jack"⟩ false).1.lookup ["A.vm"]
    = some (.file "function A.f".toUTF8) := by
  decide +kernel

end Workspace

end Jack
