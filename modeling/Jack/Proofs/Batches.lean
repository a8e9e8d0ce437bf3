import Jack.Proofs.Outputs

/-! Sources that are compiled one after another, in directories without links. No output stands
where a source does, and two outputs at one place are the same text, so each source is compiled as
if it were alone, and the files that are left are the same in any order. -/

namespace Jack

namespace Workspace

variable {w w' : Workspace} {p : Path} {front : List (List Char)} {last last' : List Char}
  {parent parent' place q : Place} {content content' : ByteArray} {outlined : Bool}
  {e e' : Place × String} {writes writes' : List (Place × String)} {sources : List Path}

/-! ### Writing one file after another -/

theorem putAll_cons (w : Workspace) (e : Place × String) (writes : List (Place × String)) :
    w.putAll (e :: writes) = (w.put e.1 (.file e.2.toUTF8)).putAll writes := rfl

theorem putAll_append (w : Workspace) (writes writes' : List (Place × String)) :
    w.putAll (writes ++ writes') = (w.putAll writes).putAll writes' :=
  List.foldl_append

theorem lookup_putAll_of_not_mem (h : ∀ e ∈ writes, q ≠ e.1) :
    (w.putAll writes).lookup q = w.lookup q := by
  induction writes generalizing w with
  | nil => rfl
  | cons first rest ih =>
    obtain ⟨hfirst, hrest⟩ := List.forall_mem_cons.1 h
    rw [putAll_cons, ih hrest, lookup_put_of_ne hfirst]

/-- Writes that can be made in any order: none is at the root, and those at one place are equal. -/
structure Unordered (writes : List (Place × String)) : Prop where
  below : ∀ e ∈ writes, e.1 ≠ []
  agree : ∀ e ∈ writes, ∀ e' ∈ writes, e.1 = e'.1 → e.2 = e'.2

theorem Unordered.lookup_putAll (h : Unordered writes) (he : e ∈ writes) :
    (w.putAll writes).lookup e.1 = some (.file e.2.toUTF8) := by
  induction writes generalizing w e with
  | nil => cases he
  | cons first rest ih =>
    have hrest : Unordered rest :=
      ⟨fun d hd => h.below d (List.mem_cons_of_mem _ hd),
        fun d hd d' hd' => h.agree d (List.mem_cons_of_mem _ hd) d' (List.mem_cons_of_mem _ hd')⟩
    rw [putAll_cons]
    by_cases hagain : ∃ d ∈ rest, e.1 = d.1
    · obtain ⟨d, hd, hplace⟩ := hagain
      rw [hplace, h.agree e he d (List.mem_cons_of_mem _ hd) hplace]
      exact ih hrest hd
    · have hlast : e = first := by
        rcases List.mem_cons.1 he with heq | hin
        · exact heq
        · exact absurd ⟨e, hin, rfl⟩ hagain
      subst hlast
      rw [lookup_putAll_of_not_mem fun d hd hplace => hagain ⟨d, hd, hplace⟩]
      exact lookup_put_self (h.below e he) _

/-- What is written decides the files, in whatever order and however often it is written. -/
theorem Unordered.lookup_putAll_congr (h : Unordered writes)
    (hwritten : ∀ e, e ∈ writes ↔ e ∈ writes')
    (hother : ∀ q, (∀ e ∈ writes, q ≠ e.1) → w'.lookup q = w.lookup q) (q : Place) :
    (w'.putAll writes').lookup q = (w.putAll writes).lookup q := by
  have h' : Unordered writes' :=
    ⟨fun d hd => h.below d ((hwritten d).2 hd),
      fun d hd d' hd' => h.agree d ((hwritten d).2 hd) d' ((hwritten d').2 hd')⟩
  by_cases hq : ∃ e ∈ writes, q = e.1
  · obtain ⟨e, he, rfl⟩ := hq
    rw [h.lookup_putAll he, h'.lookup_putAll ((hwritten e).1 he)]
  · have hnot : ∀ e ∈ writes, q ≠ e.1 := fun e he heq => hq ⟨e, he, heq⟩
    rw [lookup_putAll_of_not_mem hnot, ← hother q hnot]
    exact lookup_putAll_of_not_mem fun e he => hnot e ((hwritten e).2 he)

/-- Files that are written at names in directories leave a tree, with the ways that it had. -/
theorem Sound.putAll (hw : w.Sound)
    (h : ∀ e ∈ writes, ∃ parent name, e.1 = parent ++ [name] ∧ w.Vacant parent name) :
    (w.putAll writes).Sound ∧ w.SameTargets (w.putAll writes) := by
  induction writes generalizing w with
  | nil => exact ⟨hw, .refl w⟩
  | cons first rest ih =>
    obtain ⟨⟨parent, name, hplace, hvacant⟩, hrest⟩ := List.forall_mem_cons.1 h
    rw [putAll_cons, hplace]
    have hsame := hw.sameTargets_put hvacant.barrier first.2.toUTF8
    have htree := hw.toTree.put hvacant.directory hvacant.isName
      (writable_of_barrier? hvacant.barrier) first.2.toUTF8
    obtain ⟨hsound, hsame'⟩ := ih ⟨htree, hw.whole⟩ fun e he => by
      obtain ⟨parent', name', hplace', hvacant'⟩ := hrest e he
      exact ⟨parent', name', hplace', hsame.vacant hvacant'⟩
    exact ⟨hsound, hsame.trans hsame'⟩

theorem Plain.putAll (h : w.Plain place) (writes : List (Place × String)) :
    (w.putAll writes).Plain place := by
  induction writes generalizing w with
  | nil => exact h
  | cons first rest ih => exact ih (h.put first.1 first.2.toUTF8)

/-! ### What a source writes -/

theorem mem_writes_outputEffect_iff {compiled : CompiledClass} :
    e ∈ (w.outputEffect p compiled).writes
      ↔ ∃ place, w.target (p.withExtension codeExtension) = .ok place
        ∧ (e = (place, compiled.code)
          ∨ w.target (p.withExtension outlineExtension) = .ok e.1
            ∧ compiled.outline? = some e.2) := by
  obtain ⟨q, text⟩ := e
  unfold outputEffect
  dsimp only
  cases w.target (p.withExtension codeExtension) with
  | error fault => simp
  | ok place =>
    cases compiled.outline? with
    | none => simp
    | some outline =>
      cases w.target (p.withExtension outlineExtension) with
      | error fault => simp
      | ok place' => simp [eq_comm]

/-- What is written for a source: its instructions if they can be, and then its outline if there is
one and it can be. -/
theorem mem_writes_effect_iff :
    e ∈ (w.effect p outlined).writes
      ↔ ∃ text compiled, w.readText p = .ok text ∧ compile text outlined = .ok compiled
        ∧ ∃ place, w.target (p.withExtension codeExtension) = .ok place
          ∧ (e = (place, compiled.code)
            ∨ w.target (p.withExtension outlineExtension) = .ok e.1
              ∧ compiled.outline? = some e.2) := by
  unfold effect
  cases w.readText p with
  | error fault => simp
  | ok text =>
    cases hcompile : compile text outlined with
    | error fault => simp [hcompile]
    | ok compiled => simp [hcompile, mem_writes_outputEffect_iff]

/-- The path leads to a file in the place whose name has the extension of sources. -/
structure HoldsSource (w : Workspace) (p : Path) (parent : Place) (last : List Char)
    (content : ByteArray) : Prop where
  held : ∃ front, w.Holds p front last parent content
  extension : (splitExtension last).2 = some sourceExtension.toList

/-- What is written for a file of this name and content in a place. -/
def IsOutput (outlined : Bool) (parent : Place) (last : List Char) (content : ByteArray)
    (e : Place × String) : Prop :=
  ∃ text compiled name extension, String.fromUTF8? content = some text
    ∧ compile text outlined = .ok compiled ∧ e.1 = parent ++ [String.ofList name]
    ∧ splitExtension name = ((splitExtension last).1, some extension)
    ∧ (extension = codeExtension.toList ∧ e.2 = compiled.code
      ∨ extension = outlineExtension.toList ∧ compiled.outline? = some e.2)

theorem Holds.isOutput (hw : w.Tree) (hp : w.Holds p front last parent content)
    (h : e ∈ (w.effect p outlined).writes) : IsOutput outlined parent last content e := by
  obtain ⟨text, compiled, htext, hcompile, place, hcode, hkind⟩ := mem_writes_effect_iff.1 h
  have hcontent : String.fromUTF8? content = some text := by
    obtain ⟨place', content', hlocate, hfile, -, htext'⟩ := readText_eq_ok_iff.1 htext
    obtain rfl := Except.ok.inj (hp.locate_eq_ok.symm.trans hlocate)
    obtain rfl := Entry.file.inj (Option.some.inj (hp.file.symm.trans hfile))
    exact htext'
  rcases hkind with heq | ⟨htarget, houtline⟩
  · obtain ⟨hplace, -, hname⟩ := hp.target_withExtension hw isExtension_code hcode
    rw [heq]
    exact ⟨text, compiled, _, _, hcontent, hcompile, hplace, hname, Or.inl ⟨rfl, rfl⟩⟩
  · obtain ⟨hplace, -, hname⟩ := hp.target_withExtension hw isExtension_outline htarget
    exact ⟨text, compiled, _, _, hcontent, hcompile, hplace, hname, Or.inr ⟨rfl, houtline⟩⟩

theorem Holds.vacant_of_mem_writes (hw : w.Tree) (hp : w.Holds p front last parent content)
    (h : e ∈ (w.effect p outlined).writes) :
    ∃ name, e.1 = parent ++ [name] ∧ w.Vacant parent name := by
  obtain ⟨text, compiled, -, -, place, hcode, hkind⟩ := mem_writes_effect_iff.1 h
  rcases hkind with heq | ⟨htarget, -⟩
  · obtain ⟨hplace, hvacant, -⟩ := hp.target_withExtension hw isExtension_code hcode
    exact ⟨_, by rw [heq, hplace], hvacant⟩
  · obtain ⟨hplace, hvacant, -⟩ := hp.target_withExtension hw isExtension_outline htarget
    exact ⟨_, hplace, hvacant⟩

/-- No output stands where a source does. -/
theorem IsOutput.ne_source (h : IsOutput outlined parent last content e)
    (hextension : (splitExtension last').2 = some sourceExtension.toList) :
    e.1 ≠ parent' ++ [String.ofList last'] := by
  obtain ⟨text, compiled, name, extension, -, -, hplace, hname, hkind⟩ := h
  intro heq
  obtain ⟨-, hsame⟩ := ofList_concat_inj (hplace.symm.trans heq)
  rw [← hsame, hname] at hextension
  have hsource : extension = sourceExtension.toList := Option.some.inj hextension
  rcases hkind with ⟨hcode, -⟩ | ⟨houtline, -⟩
  · exact absurd (hcode.symm.trans hsource) (by decide)
  · exact absurd (houtline.symm.trans hsource) (by decide)

/-- The outputs of a file at one place are of one kind. -/
theorem IsOutput.agree_self (h : IsOutput outlined parent last content e)
    (h' : IsOutput outlined parent last content e') (heq : e.1 = e'.1) : e.2 = e'.2 := by
  obtain ⟨text, compiled, name, extension, htext, hcompile, hplace, hname, hkind⟩ := h
  obtain ⟨text', compiled', name', extension', htext', hcompile', hplace', hname', hkind'⟩ := h'
  obtain ⟨-, hsame⟩ := ofList_concat_inj (hplace.symm.trans (heq.trans hplace'))
  rw [← hsame, hname, Prod.mk.injEq, Option.some.injEq] at hname'
  have htexts : text = text' := Option.some.inj (htext.symm.trans htext')
  subst htexts
  have hcompiled : compiled = compiled' := Except.ok.inj (hcompile.symm.trans hcompile')
  subst hcompiled
  rcases hkind with ⟨hcode, ht⟩ | ⟨houtline, ht⟩
  · rcases hkind' with ⟨-, ht'⟩ | ⟨houtline', -⟩
    · rw [ht, ht']
    · exact absurd (hcode.symm.trans (hname'.2.trans houtline')) (by decide)
  · rcases hkind' with ⟨hcode', -⟩ | ⟨-, ht'⟩
    · exact absurd (houtline.symm.trans (hname'.2.trans hcode')) (by decide)
    · exact Option.some.inj (ht.symm.trans ht')

/-- Outputs of sources at one place are outputs of one source. -/
theorem IsOutput.agree (h : IsOutput outlined parent last content e)
    (h' : IsOutput outlined parent' last' content' e')
    (hextension : (splitExtension last).2 = some sourceExtension.toList)
    (hextension' : (splitExtension last').2 = some sourceExtension.toList)
    (hfile : w.lookup (parent ++ [String.ofList last]) = some (.file content))
    (hfile' : w.lookup (parent' ++ [String.ofList last']) = some (.file content'))
    (heq : e.1 = e'.1) : e.2 = e'.2 := by
  have hplaces : parent = parent' ∧ last = last' := by
    obtain ⟨_, _, name, _, -, -, hplace, hname, -⟩ := h
    obtain ⟨_, _, name', _, -, -, hplace', hname', -⟩ := h'
    obtain ⟨hparent, hsame⟩ := ofList_concat_inj (hplace.symm.trans (heq.trans hplace'))
    rw [← hsame, hname, Prod.mk.injEq] at hname'
    refine ⟨hparent, Path.splitExtension_injective ?_⟩
    exact Prod.ext hname'.1 (hextension.trans hextension'.symm)
  obtain ⟨hparent, hlast⟩ := hplaces
  subst hparent hlast
  rw [hfile] at hfile'
  have hcontent : content = content' := Entry.file.inj (Option.some.inj hfile')
  subst hcontent
  exact h.agree_self h' heq

/-- What compiling a source does is decided by its content and by the directories. -/
theorem SameTargets.effect (h : w.SameTargets w') (hw : w.Tree)
    (hp : w.Holds p front last parent content)
    (hfile : w'.lookup (parent ++ [String.ofList last]) = some (.file content))
    (outlined : Bool) : w'.effect p outlined = w.effect p outlined := by
  have hread : w'.readText p = w.readText p := by
    simp only [readText, hp.locate_eq_ok, h.locate hp.locate_eq_ok, hp.file, hfile, h.refusal?]
  have hcode := h.target_withExtension hw hp isExtension_code
  have houtline := h.target_withExtension hw hp isExtension_outline
  simp only [Workspace.effect, Workspace.outputEffect, hread, hcode, houtline]

/-! ### Sources one after another -/

def IsSourceFile (w : Workspace) (p : Path) : Prop :=
  ∃ parent last content, w.HoldsSource p parent last content

/-- All that is written for some sources, each seen from where the first one starts. -/
def batchWrites (w : Workspace) (sources : List Path) (outlined : Bool) : List (Place × String) :=
  sources.flatMap fun p => (w.effect p outlined).writes

theorem mem_batchWrites :
    e ∈ w.batchWrites sources outlined ↔ ∃ p ∈ sources, e ∈ (w.effect p outlined).writes :=
  List.mem_flatMap

theorem batchWrites_congr (h : ∀ p ∈ sources, w'.effect p outlined = w.effect p outlined) :
    w'.batchWrites sources outlined = w.batchWrites sources outlined :=
  List.flatMap_congr fun p hp => by rw [h p hp]

theorem vacant_of_mem_batchWrites (hw : w.Tree) (h : ∀ p ∈ sources, w.IsSourceFile p)
    (he : e ∈ w.batchWrites sources outlined) :
    ∃ parent name, e.1 = parent ++ [name] ∧ w.Vacant parent name := by
  obtain ⟨p, hp, hwrites⟩ := mem_batchWrites.1 he
  obtain ⟨parent, last, content, ⟨front, hholds⟩, -⟩ := h p hp
  exact ⟨parent, hholds.vacant_of_mem_writes hw hwrites⟩

theorem unordered_batchWrites (hw : w.Tree) (h : ∀ p ∈ sources, w.IsSourceFile p)
    (outlined : Bool) :
    Unordered (w.batchWrites sources outlined) := by
  constructor
  · intro e he
    obtain ⟨parent, name, hplace, -⟩ := vacant_of_mem_batchWrites hw h he
    rw [hplace]
    simp
  · intro e he e' he'
    obtain ⟨p, hp, hwrites⟩ := mem_batchWrites.1 he
    obtain ⟨p', hp', hwrites'⟩ := mem_batchWrites.1 he'
    obtain ⟨parent, last, content, ⟨front, hholds⟩, hextension⟩ := h p hp
    obtain ⟨parent', last', content', ⟨front', hholds'⟩, hextension'⟩ := h p' hp'
    exact (hholds.isOutput hw hwrites).agree (hholds'.isOutput hw hwrites') hextension hextension'
      hholds.file hholds'.file

/-- Nothing that is written for sources changes a file whose name has their extension. -/
theorem lookup_putAll_batchWrites (hw : w.Tree) (h : ∀ p ∈ sources, w.IsSourceFile p)
    (hextension : (splitExtension last).2 = some sourceExtension.toList) :
    (w.putAll (w.batchWrites sources outlined)).lookup (q ++ [String.ofList last])
      = w.lookup (q ++ [String.ofList last]) := by
  apply lookup_putAll_of_not_mem
  intro e he heq
  obtain ⟨p, hp, hwrites⟩ := mem_batchWrites.1 he
  obtain ⟨parent', last', content, ⟨front, hholds⟩, -⟩ := h p hp
  exact (hholds.isOutput hw hwrites).ne_source hextension heq.symm

theorem Sound.putAll_batchWrites (hw : w.Sound) (h : ∀ p ∈ sources, w.IsSourceFile p)
    (outlined : Bool) :
    (w.putAll (w.batchWrites sources outlined)).Sound
      ∧ w.SameTargets (w.putAll (w.batchWrites sources outlined)) :=
  hw.putAll fun _ he => vacant_of_mem_batchWrites hw.toTree h he

/-- A source is still there after some sources were compiled, and is compiled as before. -/
theorem effect_putAll_batchWrites (hw : w.Sound) (h : ∀ p ∈ sources, w.IsSourceFile p)
    (hp : w.IsSourceFile p) :
    (w.putAll (w.batchWrites sources outlined)).IsSourceFile p
      ∧ (w.putAll (w.batchWrites sources outlined)).effect p outlined = w.effect p outlined := by
  obtain ⟨parent, last, content, ⟨front, hholds⟩, hextension⟩ := hp
  have hsame := (hw.putAll_batchWrites h outlined).2
  have hfile : (w.putAll (w.batchWrites sources outlined)).lookup (parent ++ [String.ofList last])
      = some (.file content) :=
    (lookup_putAll_batchWrites hw.toTree h hextension).trans hholds.file
  exact ⟨⟨parent, last, content, ⟨front, hsame.holds hholds (hholds.plain.putAll _) hfile⟩,
      hextension⟩,
    hsame.effect hw.toTree hholds hfile outlined⟩

theorem IsSourceFile.compileFile_eq (hw : w.Sound) (hp : w.IsSourceFile p) (outlined : Bool) :
    w.compileFile p outlined
      = (w.putAll (w.effect p outlined).writes, (w.effect p outlined).outcome) := by
  obtain ⟨_, _, _, ⟨_, hholds⟩, -⟩ := hp
  exact hholds.compileFile_eq hw outlined

/-- Sources that are compiled one after another are compiled as if each were alone. -/
theorem compileFiles_eq (hw : w.Sound) (h : ∀ p ∈ sources, w.IsSourceFile p) :
    w.compileFiles outlined sources
      = (w.putAll (w.batchWrites sources outlined),
          sources.map fun p => (w.effect p outlined).outcome) := by
  induction sources generalizing w with
  | nil => rfl
  | cons source rest ih =>
    obtain ⟨hsource, hrest⟩ := List.forall_mem_cons.1 h
    have hone : w.batchWrites [source] outlined = (w.effect source outlined).writes :=
      List.append_nil _
    have hsound := (hw.putAll_batchWrites (List.forall_mem_singleton.2 hsource) outlined).1
    have hkept : ∀ p ∈ rest, (w.putAll (w.batchWrites [source] outlined)).IsSourceFile p
        ∧ (w.putAll (w.batchWrites [source] outlined)).effect p outlined = w.effect p outlined := by
      intro p hp
      exact effect_putAll_batchWrites hw (List.forall_mem_singleton.2 hsource) (hrest p hp)
    rw [hone] at hsound hkept
    have hwrites : (w.putAll (w.effect source outlined).writes).batchWrites rest outlined
        = w.batchWrites rest outlined :=
      batchWrites_congr fun p hp => (hkept p hp).2
    have houtcomes : (rest.map fun p =>
          ((w.putAll (w.effect source outlined).writes).effect p outlined).outcome)
        = rest.map fun p => (w.effect p outlined).outcome :=
      List.map_congr_left fun p hp => by rw [(hkept p hp).2]
    rw [compileFiles, hsource.compileFile_eq hw]
    dsimp only
    rw [ih hsound fun p hp => (hkept p hp).1, hwrites, houtcomes, ← putAll_append]
    rfl

end Workspace

end Jack
