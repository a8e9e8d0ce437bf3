import Jack.Workspace.Path
import Mathlib.Data.List.TakeWhile

/-! Paths taken apart and put together. The steps of a path are its text again when they are
joined; a path with another extension differs from the path in its last step alone. -/

namespace Jack

/-! ### Steps -/

theorem splitSlashes_ne_nil (reversed cs : List Char) : splitSlashes reversed cs ≠ [] := by
  induction cs generalizing reversed with
  | nil => exact List.cons_ne_nil _ _
  | cons c cs ih =>
    rw [splitSlashes]
    by_cases hc : c = '/'
    · rw [if_pos hc]
      exact List.cons_ne_nil _ _
    · rw [if_neg hc]
      exact ih _

theorem splitSlashes_of_not_mem {cs : List Char} (h : '/' ∉ cs) (reversed : List Char) :
    splitSlashes reversed cs = [reversed.reverse ++ cs] := by
  induction cs generalizing reversed with
  | nil => rw [splitSlashes, List.append_nil]
  | cons c cs ih =>
    rw [List.mem_cons, not_or] at h
    rw [splitSlashes, if_neg (Ne.symm h.1), ih h.2, List.reverse_cons, List.append_assoc]
    rfl

theorem splitSlashes_append (reversed xs ys : List Char) :
    splitSlashes reversed (xs ++ '/' :: ys) = splitSlashes reversed xs ++ splitSlashes [] ys := by
  induction xs generalizing reversed with
  | nil => simp [splitSlashes]
  | cons x xs ih =>
    rw [List.cons_append, splitSlashes, splitSlashes]
    by_cases hx : x = '/'
    · rw [if_pos hx, if_pos hx, ih, List.cons_append]
    · rw [if_neg hx, if_neg hx, ih]

/-- No step holds a slash. -/
theorem not_mem_of_mem_splitSlashes {reversed cs step : List Char} (hr : '/' ∉ reversed)
    (h : step ∈ splitSlashes reversed cs) : '/' ∉ step := by
  induction cs generalizing reversed with
  | nil =>
    rw [List.mem_singleton.1 h]
    simpa using hr
  | cons c cs ih =>
    rw [splitSlashes] at h
    by_cases hc : c = '/'
    · rw [if_pos hc] at h
      rcases List.mem_cons.1 h with rfl | h
      · simpa using hr
      · exact ih List.not_mem_nil h
    · rw [if_neg hc] at h
      refine ih ?_ h
      rw [List.mem_cons, not_or]
      exact ⟨Ne.symm hc, hr⟩

theorem joinSteps_cons {before : List (List Char)} (h : before ≠ []) (step : List Char) :
    joinSteps (step :: before) = joinSteps before ++ '/' :: step := by
  cases before with
  | nil => exact absurd rfl h
  | cons _ _ => rfl

theorem joinSteps_concat {steps : List (List Char)} (h : steps ≠ []) (first : List Char) :
    joinSteps (steps ++ [first]) = first ++ '/' :: joinSteps steps := by
  induction steps with
  | nil => exact absurd rfl h
  | cons step before ih =>
    rw [List.cons_append, joinSteps_cons (by simp)]
    by_cases hbefore : before = []
    · subst hbefore
      rfl
    · rw [ih hbefore, joinSteps_cons hbefore, List.append_assoc]
      rfl

theorem joinSteps_splitSlashes (reversed cs : List Char) :
    joinSteps (splitSlashes reversed cs).reverse = reversed.reverse ++ cs := by
  induction cs generalizing reversed with
  | nil => simp [splitSlashes, joinSteps]
  | cons c cs ih =>
    rw [splitSlashes]
    by_cases hc : c = '/'
    · have hne : (splitSlashes [] cs).reverse ≠ [] := by
        simpa using splitSlashes_ne_nil [] cs
      rw [if_pos hc, List.reverse_cons, joinSteps_concat hne, ih, hc]
      rfl
    · rw [if_neg hc, ih, List.reverse_cons, List.append_assoc]
      rfl

theorem splitSlashes_joinSteps {steps : List (List Char)} (hne : steps ≠ [])
    (h : ∀ step ∈ steps, '/' ∉ step) : splitSlashes [] (joinSteps steps) = steps.reverse := by
  induction steps with
  | nil => exact absurd rfl hne
  | cons step before ih =>
    obtain ⟨hstep, hbefore⟩ := List.forall_mem_cons.1 h
    by_cases hnil : before = []
    · subst hnil
      exact splitSlashes_of_not_mem hstep []
    · rw [joinSteps_cons hnil, splitSlashes_append, ih hnil hbefore,
        splitSlashes_of_not_mem hstep, List.reverse_cons]
      rfl

theorem mem_joinSteps {steps : List (List Char)} {step : List Char} {c : Char}
    (hstep : step ∈ steps) (hc : c ∈ step) : c ∈ joinSteps steps := by
  induction steps with
  | nil => cases hstep
  | cons first before ih =>
    by_cases hbefore : before = []
    · subst hbefore
      rwa [List.mem_singleton.1 hstep] at hc
    · rw [joinSteps_cons hbefore]
      rcases List.mem_cons.1 hstep with rfl | hstep
      · exact List.mem_append_right _ (List.mem_cons_of_mem _ hc)
      · exact List.mem_append_left _ (ih hstep)

namespace Path

variable {p : Path} {front : List (List Char)} {last : List Char}

theorem ext_toList {p q : Path} (h : p.text.toList = q.text.toList) : p = q := by
  obtain ⟨text⟩ := p
  obtain ⟨text'⟩ := q
  exact congrArg Path.mk (String.ext h)

theorem not_mem_of_mem_steps {step : List Char} (h : step ∈ p.steps) : '/' ∉ step :=
  not_mem_of_mem_splitSlashes List.not_mem_nil h

/-- The text of a path is its steps, joined. -/
theorem text_of_steps (h : p.steps = front ++ [last]) :
    p.text.toList = joinSteps (last :: front.reverse) := by
  have hjoin := joinSteps_splitSlashes [] p.text.toList
  rw [show splitSlashes [] p.text.toList = p.steps from rfl, h] at hjoin
  simpa using hjoin.symm

/-- A path from the root of the tree. -/
def FromRoot (p : Path) : Prop := p.text.toList.head? = some '/'

instance (p : Path) : Decidable p.FromRoot := inferInstanceAs (Decidable (_ = _))

/-- Whether a path starts at the root is decided before its last step. -/
theorem fromRoot_iff (h : p.steps = front ++ [last]) : p.FromRoot ↔ front.head? = some [] := by
  have hslash : ∀ step ∈ front ++ [last], '/' ∉ step := by
    intro step hstep
    exact not_mem_of_mem_steps (h ▸ hstep)
  rw [FromRoot, text_of_steps h]
  cases front with
  | nil =>
    have hlast := hslash last (List.mem_singleton_self last)
    constructor
    · intro hhead
      exact absurd (List.mem_of_mem_head? hhead) hlast
    · intro hhead
      cases hhead
  | cons first more =>
    have hfirst := hslash first List.mem_cons_self
    rw [List.reverse_cons, ← List.cons_append, joinSteps_concat (List.cons_ne_nil _ _)]
    cases first with
    | nil => simp
    | cons c cs =>
      have hc : c ≠ '/' := by
        rintro rfl
        exact hfirst List.mem_cons_self
      simp [hc]

/-! ### File names and extensions -/

/-- A step that can be the name of a file. -/
def IsStepName (step : List Char) : Prop := isIdle step = false ∧ step ≠ ['.', '.']

instance (step : List Char) : Decidable (IsStepName step) := inferInstanceAs (Decidable (_ ∧ _))

theorem reversedSteps_of_steps (h : p.steps = front ++ [last]) (hlast : IsStepName last) :
    p.reversedSteps = last :: front.reverse := by
  rw [reversedSteps, h, List.reverse_append, List.reverse_singleton, List.singleton_append,
    List.dropWhile_cons_of_neg (by simp [hlast.1])]

theorem fileName?_of_steps (h : p.steps = front ++ [last]) (hlast : IsStepName last) :
    p.fileName? = some last := by
  rw [fileName?, reversedSteps_of_steps h hlast]
  exact if_neg hlast.2

theorem extension?_of_steps (h : p.steps = front ++ [last]) (hlast : IsStepName last) :
    p.extension? = (splitExtension last).2.map String.ofList := by
  rw [extension?, fileName?_of_steps h hlast]

/-- The last step of a path with another extension. -/
def renamed (last : List Char) (extension : String) : List Char :=
  if (splitExtension last).1 = ['.'] then ['.', '.']
  else extended (splitExtension last).1 extension

theorem toList_withExtension (h : p.steps = front ++ [last]) (hlast : IsStepName last)
    (extension : String) :
    (p.withExtension extension).text.toList
      = joinSteps (renamed last extension :: front.reverse) := by
  have hend : p.steps.getLast? = some last := by
    rw [h, List.getLast?_concat]
  rw [withExtension, fileName?_of_steps h hlast, reversedSteps_of_steps h hlast]
  simp only [hend, and_true, renamed]
  by_cases hstem : (splitExtension last).1 = ['.']
  · rw [if_pos hstem, if_pos hstem, String.toList_ofList]
  · rw [if_neg hstem, if_neg hstem, String.toList_ofList]

/-- A name is its own stem, or a stem and an extension with a dot between them. -/
theorem splitExtension_cases (name : List Char) :
    splitExtension name = (name, none)
      ∨ ∃ stem extension, stem ≠ [] ∧ '.' ∉ extension ∧ name = stem ++ '.' :: extension
          ∧ splitExtension name = (stem, some extension) := by
  have hsplit := List.takeWhile_append_dropWhile (p := (· != '.')) (l := name.reverse)
  unfold splitExtension
  split
  · exact Or.inl rfl
  · exact Or.inl rfl
  · rename_i c stem hstem hdrop
    have hdot : c = '.' := by
      have hhead := List.head?_dropWhile_not (· != '.') name.reverse
      rw [hdrop] at hhead
      simpa using hhead
    subst hdot
    refine Or.inr ⟨stem.reverse, _, by simpa using hstem, ?_, ?_, rfl⟩
    · intro hmem
      have hnot := List.mem_takeWhile_imp (List.mem_reverse.1 hmem)
      simp at hnot
    · rw [hdrop] at hsplit
      have hname := congrArg List.reverse hsplit
      simpa using hname.symm

theorem splitExtension_append {stem extension : List Char} (hstem : stem ≠ [])
    (hdot : '.' ∉ extension) :
    splitExtension (stem ++ '.' :: extension) = (stem, some extension) := by
  have hall : ∀ c ∈ extension.reverse, (c != '.') = true := by
    intro c hc
    have hne : c ≠ '.' := by
      rintro rfl
      exact hdot (List.mem_reverse.1 hc)
    simpa using hne
  have hreverse : (stem ++ '.' :: extension).reverse
      = extension.reverse ++ '.' :: stem.reverse := by
    simp
  have hdrop : (stem ++ '.' :: extension).reverse.dropWhile (· != '.') = '.' :: stem.reverse := by
    rw [hreverse, List.dropWhile_append_of_pos hall, List.dropWhile_cons_of_neg (by decide)]
  have htake : (stem ++ '.' :: extension).reverse.takeWhile (· != '.') = extension.reverse := by
    rw [hreverse, List.takeWhile_append_of_pos hall, List.takeWhile_cons_of_neg (by decide),
      List.append_nil]
  rw [splitExtension, hdrop, htake]
  cases hstems : stem.reverse with
  | nil => exact absurd (List.reverse_eq_nil_iff.1 hstems) hstem
  | cons c cs =>
    change ((c :: cs).reverse, some extension.reverse.reverse) = _
    rw [← hstems, List.reverse_reverse, List.reverse_reverse]

/-- A name is put together again from its stem and its extension. -/
theorem splitExtension_injective {name name' : List Char}
    (h : splitExtension name = splitExtension name') : name = name' := by
  rcases splitExtension_cases name with hsplit | ⟨stem, extension, -, -, hname, hsplit⟩
  · rcases splitExtension_cases name' with hsplit' | ⟨stem', extension', -, -, hname', hsplit'⟩
    · rw [hsplit, hsplit'] at h
      exact congrArg Prod.fst h
    · rw [hsplit, hsplit'] at h
      cases h
  · rcases splitExtension_cases name' with hsplit' | ⟨stem', extension', -, -, hname', hsplit'⟩
    · rw [hsplit, hsplit'] at h
      cases h
    · rw [hsplit, hsplit'] at h
      cases h
      rw [hname, hname']

theorem stem_ne_nil {name : List Char} (h : name ≠ []) : (splitExtension name).1 ≠ [] := by
  rcases splitExtension_cases name with hsplit | ⟨stem, extension, hstem, -, -, hsplit⟩
  · rw [hsplit]
    exact h
  · rw [hsplit]
    exact hstem

theorem not_mem_stem {name : List Char} {c : Char} (h : c ∉ name) :
    c ∉ (splitExtension name).1 := by
  rcases splitExtension_cases name with hsplit | ⟨stem, extension, -, -, hname, hsplit⟩
  · rw [hsplit]
    exact h
  · rw [hsplit]
    intro hc
    exact h (hname ▸ List.mem_append_left _ hc)

/-- An extension that a file can be given: it is not empty, and no dot or slash is in it. -/
structure IsExtension (extension : String) : Prop where
  nonempty : extension.isEmpty = false
  dotless : '.' ∉ extension.toList
  slashless : '/' ∉ extension.toList

variable {extension : String}

theorem extended_eq (h : IsExtension extension) (stem : List Char) :
    extended stem extension = stem ++ '.' :: extension.toList := by
  rw [extended, h.nonempty]
  rfl

/-- A name with another extension leads up, or it has the same stem and that extension. -/
theorem renamed_cases (h : IsExtension extension) {name : List Char} (hname : name ≠ []) :
    renamed name extension = ['.', '.']
      ∨ splitExtension (renamed name extension)
          = ((splitExtension name).1, some extension.toList) := by
  unfold renamed
  by_cases hstem : (splitExtension name).1 = ['.']
  · rw [if_pos hstem]
    exact Or.inl rfl
  · rw [if_neg hstem, extended_eq h]
    exact Or.inr (splitExtension_append (stem_ne_nil hname) h.dotless)

theorem steps_withExtension (h : p.steps = front ++ [last]) (hlast : IsStepName last)
    (hextension : IsExtension extension) :
    (p.withExtension extension).steps = front ++ [renamed last extension] := by
  have hslash : ∀ step ∈ front ++ [last], '/' ∉ step := by
    intro step hstep
    exact not_mem_of_mem_steps (h ▸ hstep)
  have hrenamed : '/' ∉ renamed last extension := by
    have hstem := not_mem_stem (hslash last (List.mem_append_right _ (List.mem_singleton_self _)))
    unfold renamed
    by_cases hdot : (splitExtension last).1 = ['.']
    · rw [if_pos hdot]
      decide
    · rw [if_neg hdot, extended_eq hextension]
      simp [hstem, hextension.slashless]
  have hall : ∀ step ∈ renamed last extension :: front.reverse, '/' ∉ step := by
    refine List.forall_mem_cons.2 ⟨hrenamed, fun step hstep => ?_⟩
    exact hslash step (List.mem_append_left _ (List.mem_reverse.1 hstep))
  rw [steps, toList_withExtension h hlast, splitSlashes_joinSteps (List.cons_ne_nil _ _) hall]
  simp

/-- A path whose name does not change with the extension is the same path. -/
theorem withExtension_eq_self (h : p.steps = front ++ [last]) (hlast : IsStepName last)
    (hsame : renamed last extension = last) : p.withExtension extension = p := by
  apply ext_toList
  rw [toList_withExtension h hlast, hsame, text_of_steps h]

/-! ### Paths into a directory -/

/-- The steps to a name in a directory are those to the directory, and the name. A slash at the end
of the directory's path adds no step. -/
theorem exists_steps_child (p : Path) {name : String} (hname : '/' ∉ name.toList) :
    ∃ front, (p.child name).steps = front ++ [name.toList]
      ∧ (p.steps = front ∨ p.steps = front ++ [[]]) := by
  unfold child
  by_cases hend : p.text.toList.getLast? = some '/'
  · obtain ⟨before, htext⟩ := List.getLast?_eq_some_iff.1 hend
    refine ⟨splitSlashes [] before, ?_, Or.inr ?_⟩
    · rw [if_pos hend, steps, String.toList_append, htext, List.append_assoc]
      exact (splitSlashes_append [] before name.toList).trans
        (by rw [splitSlashes_of_not_mem hname]; rfl)
    · rw [steps, htext, splitSlashes_append]
      rfl
  · refine ⟨p.steps, ?_, Or.inl rfl⟩
    rw [if_neg hend, steps, String.toList_append, String.toList_append, List.append_assoc]
    exact (splitSlashes_append [] p.text.toList name.toList).trans
      (by rw [splitSlashes_of_not_mem hname]; rfl)

theorem fromRoot_child (h : p.text.isEmpty = false) (name : String) :
    (p.child name).FromRoot ↔ p.FromRoot := by
  have hne : p.text.toList ≠ [] := by
    simpa using h
  unfold FromRoot child
  by_cases hend : p.text.toList.getLast? = some '/'
  · rw [if_pos hend, String.toList_append, List.head?_append]
    cases htext : p.text.toList with
    | nil => exact absurd htext hne
    | cons c cs => simp
  · rw [if_neg hend, String.toList_append, String.toList_append, List.append_assoc,
      List.head?_append]
    cases htext : p.text.toList with
    | nil => exact absurd htext hne
    | cons c cs => simp

end Path

end Jack
