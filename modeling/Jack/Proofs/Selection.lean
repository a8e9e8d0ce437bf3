import Jack.Viewer.Basic
import Mathlib.Order.Bounds.Basic

/-! Using a viewer. Whatever is done with it, it shows the same work and one of its instructions
stays selected. The selection moves from header to header or by steps, and steps are taken back. -/

namespace Jack

/-- A viewer, and the screen that it is drawn on. -/
structure Display where
  viewer : Viewer
  screen : Extent

/-- What can be done with a viewer. -/
inductive Act where
  | press (key : Key)
  | forward (n : Nat)
  | backward (n : Nat)
  | toStart
  | toEnd
  | nextFunction
  | previousFunction
  | resize (screen : Extent)
  | draw

def Display.act (d : Display) : Act → Display
  | .press key => { d with viewer := d.viewer.press key }
  | .forward n => { d with viewer := (d.viewer.forward n).1 }
  | .backward n => { d with viewer := (d.viewer.backward n).1 }
  | .toStart => { d with viewer := d.viewer.toStart }
  | .toEnd => { d with viewer := d.viewer.toEnd }
  | .nextFunction => { d with viewer := d.viewer.nextFunction.1 }
  | .previousFunction => { d with viewer := d.viewer.previousFunction.1 }
  | .resize screen => { d with screen := screen }
  | .draw => { d with viewer := (d.viewer.draw d.screen).1 }

def Display.use (d : Display) (acts : List Act) : Display := acts.foldl Display.act d

/-! ### The work that a viewer shows -/

namespace Viewer

variable {v w : Viewer}

/-- The viewers show the same work: the source, its instructions and the error. -/
structure Keeps (v w : Viewer) : Prop where
  source : w.source = v.source
  instructions : w.instructions = v.instructions
  error : w.error? = v.error?

theorem Keeps.refl (v : Viewer) : v.Keeps v := ⟨rfl, rfl, rfl⟩

theorem Keeps.trans {u : Viewer} (huv : u.Keeps v) (hvw : v.Keeps w) : u.Keeps w :=
  ⟨hvw.source.trans huv.source, hvw.instructions.trans huv.instructions,
    hvw.error.trans huv.error⟩

theorem keeps_select (v : Viewer) (header? : Option Nat) : v.Keeps (v.select header?).1 := by
  cases header? with
  | none => exact .refl v
  | some i => exact ⟨rfl, rfl, rfl⟩

theorem keeps_scrollFocused (v : Viewer) (f : Scroll → Scroll) : v.Keeps (v.scrollFocused f) := by
  unfold scrollFocused
  split
  · exact ⟨rfl, rfl, rfl⟩
  · exact ⟨rfl, rfl, rfl⟩

theorem keeps_typed (v : Viewer) (c : Char) : v.Keeps (v.typed c) := by
  unfold typed
  split
  · exact ⟨rfl, rfl, rfl⟩
  · split
    · exact ⟨rfl, rfl, rfl⟩
    · exact .refl v

theorem keeps_press (v : Viewer) (key : Key) : v.Keeps (v.press key) := by
  have hsaid : ∀ {u : Viewer} (message : String), v.Keeps u → v.Keeps (u.say message) := by
    intro u message hu
    exact ⟨hu.source, hu.instructions, hu.error⟩
  cases key with
  | char c => exact v.keeps_typed c
  | up | down => exact v.keeps_scrollFocused _
  | pageUp | pageDown => exact hsaid _ (v.keeps_select _)
  | left | right | enter | backspace => exact hsaid _ ⟨rfl, rfl, rfl⟩
  | tab | other => exact ⟨rfl, rfl, rfl⟩

end Viewer

namespace Display

theorem keeps_act (d : Display) (a : Act) : d.viewer.Keeps (d.act a).viewer := by
  cases a with
  | press key => exact d.viewer.keeps_press key
  | nextFunction | previousFunction => exact d.viewer.keeps_select _
  | forward n | backward n | toStart | toEnd => exact ⟨rfl, rfl, rfl⟩
  | resize screen | draw => exact ⟨rfl, rfl, rfl⟩

/-- However a viewer is used, it shows the same work. -/
theorem keeps_use (d : Display) (acts : List Act) : d.viewer.Keeps (d.use acts).viewer := by
  induction acts generalizing d with
  | nil => exact .refl _
  | cons a acts ih => exact (d.keeps_act a).trans (ih (d.act a))

end Display

/-! ### Headers -/

namespace Viewer

variable {v : Viewer} {i : Nat}

/-- The name in the header that stands at this place, if one does. -/
def headerAt? (v : Viewer) (i : Nat) : Option String :=
  v.instructions[i]?.bind fun e => e.instruction.header?

/-- The places of the headers after the selection. -/
def laterHeaders (v : Viewer) : Set Nat := {i | v.selected < i ∧ (v.headerAt? i).isSome}

/-- The places of the headers before the selection. -/
def earlierHeaders (v : Viewer) : Set Nat := {i | i < v.selected ∧ (v.headerAt? i).isSome}

/-- The places of the headers up to the selection. The last one heads the function at hand. -/
def headersSoFar (v : Viewer) : Set Nat := {i | i ≤ v.selected ∧ (v.headerAt? i).isSome}

theorem isSome_headerAt?_iff : (v.headerAt? i).isSome
    ↔ ∃ h : i < v.instructions.length, (v.instructions[i].instruction.header?).isSome := by
  unfold headerAt?
  by_cases h : i < v.instructions.length
  · rw [List.getElem?_eq_getElem h, Option.bind_some]
    exact ⟨fun hheader => ⟨h, hheader⟩, fun ⟨_, hheader⟩ => hheader⟩
  · rw [List.getElem?_eq_none (Nat.le_of_not_lt h)]
    constructor
    · intro hheader
      cases hheader
    · rintro ⟨hlt, -⟩
      exact absurd hlt h

theorem isLeast_of_nextHeader? (h : v.nextHeader? = some i) : IsLeast v.laterHeaders i := by
  obtain ⟨k, hk, rfl⟩ := Option.map_eq_some_iff.1 h
  obtain ⟨hlt, hheader, hfirst⟩ := List.findIdx?_eq_some_iff_getElem.1 hk
  rw [List.length_drop] at hlt
  rw [List.getElem_drop] at hheader
  refine ⟨⟨by omega, isSome_headerAt?_iff.2 ⟨by omega, hheader⟩⟩, ?_⟩
  rintro j ⟨hafter, hj⟩
  by_contra hbefore
  obtain ⟨hin, hj⟩ := isSome_headerAt?_iff.1 hj
  obtain ⟨m, rfl⟩ := Nat.exists_eq_add_of_lt hafter
  have hnone := hfirst m (by omega)
  rw [List.getElem_drop] at hnone
  exact hnone (by simpa only [Nat.add_right_comm] using hj)

theorem laterHeaders_eq_empty (h : v.nextHeader? = none) : v.laterHeaders = ∅ := by
  rw [Set.eq_empty_iff_forall_notMem]
  rintro j ⟨hafter, hj⟩
  obtain ⟨hin, hj⟩ := isSome_headerAt?_iff.1 hj
  have hnone := List.findIdx?_eq_none_iff.1 (Option.map_eq_none_iff.1 h) v.instructions[j]
    (List.mem_drop_iff_getElem.2 ⟨j - (v.selected + 1), by omega, by congr 1; omega⟩)
  rw [hj] at hnone
  cases hnone

theorem isGreatest_of_previousHeader? (h : v.previousHeader? = some i) :
    IsGreatest v.earlierHeaders i := by
  obtain ⟨k, hk, rfl⟩ := Option.map_eq_some_iff.1 h
  obtain ⟨hlt, hheader, hfirst⟩ := List.findIdx?_eq_some_iff_getElem.1 hk
  rw [List.getElem_reverse, List.getElem_take] at hheader
  simp only [List.length_reverse, List.length_take] at hlt hheader ⊢
  refine ⟨⟨by omega, isSome_headerAt?_iff.2 ⟨by omega, hheader⟩⟩, ?_⟩
  rintro j ⟨hbefore, hj⟩
  by_contra hafter
  obtain ⟨hin, hj⟩ := isSome_headerAt?_iff.1 hj
  have hnone := hfirst (min v.selected v.instructions.length - 1 - j) (by omega)
  rw [List.getElem_reverse, List.getElem_take] at hnone
  simp only [List.length_take] at hnone
  have hplace : min v.selected v.instructions.length - 1
      - (min v.selected v.instructions.length - 1 - j) = j := by omega
  exact hnone (by simpa only [hplace] using hj)

theorem earlierHeaders_eq_empty (h : v.previousHeader? = none) : v.earlierHeaders = ∅ := by
  rw [Set.eq_empty_iff_forall_notMem]
  rintro j ⟨hbefore, hj⟩
  obtain ⟨hin, hj⟩ := isSome_headerAt?_iff.1 hj
  have hnone := List.findIdx?_eq_none_iff.1 (Option.map_eq_none_iff.1 h) v.instructions[j]
    (List.mem_reverse.2 (List.mem_take_iff_getElem.2 ⟨j, by omega, rfl⟩))
  rw [hj] at hnone
  cases hnone

theorem findSome?_header?_take {n : Nat} (hi : i < n) (hheader : (v.headerAt? i).isSome)
    (hlast : ∀ j < n, (v.headerAt? j).isSome → j ≤ i) :
    ((v.instructions.take n).reverse.findSome? fun e => e.instruction.header?)
      = v.headerAt? i := by
  induction n with
  | zero => exact absurd hi (Nat.not_lt_zero i)
  | succ n ih =>
    have hfront : ((v.instructions.take (n + 1)).reverse.findSome? fun e => e.instruction.header?)
        = (v.headerAt? n).or
            ((v.instructions.take n).reverse.findSome? fun e => e.instruction.header?) := by
      rw [List.take_add_one, List.reverse_append, List.findSome?_append, headerAt?]
      cases v.instructions[n]? with
      | none => rfl
      | some e =>
        rw [Option.toList_some, List.reverse_singleton, List.findSome?_singleton, Option.bind_some]
    rw [hfront]
    by_cases hn : i = n
    · subst hn
      exact Option.or_of_isSome hheader
    · have hnone : v.headerAt? n = none := by
        rw [← Option.not_isSome_iff_eq_none]
        intro hsome
        have := hlast n (Nat.lt_succ_self n) hsome
        omega
      rw [hnone, Option.none_or]
      exact ih (by omega) fun j hj => hlast j (Nat.lt_succ_of_lt hj)

/-- The function at hand is the one whose header is the last so far. -/
theorem function?_eq (h : IsGreatest v.headersSoFar i) : v.function? = v.headerAt? i := by
  obtain ⟨⟨hi, hheader⟩, hlast⟩ := h
  exact findSome?_header?_take (Nat.lt_succ_of_le hi) hheader fun j hj hsome =>
    hlast ⟨Nat.le_of_lt_succ hj, hsome⟩

/-! ### The selection -/

/-- An instruction is selected, or there is none. -/
def Within (v : Viewer) : Prop := v.selected ≤ v.last

theorem Within.cases (h : v.Within) :
    v.selected < v.instructions.length ∨ v.instructions = [] ∧ v.selected = 0 := by
  unfold Within last at h
  cases hcode : v.instructions with
  | nil =>
    rw [hcode] at h
    exact Or.inr ⟨rfl, Nat.le_zero.1 h⟩
  | cons e code =>
    rw [hcode] at h
    exact Or.inl (Nat.lt_succ_of_le h)

theorem within_forward (v : Viewer) (n : Nat) : (v.forward n).1.Within := Nat.min_le_right _ _

theorem Within.backward (h : v.Within) (n : Nat) : (v.backward n).1.Within :=
  Nat.le_trans (Nat.sub_le _ _) h

theorem within_toStart (v : Viewer) : v.toStart.Within := Nat.zero_le _

theorem within_toEnd (v : Viewer) : v.toEnd.Within := Nat.le_refl _

/-- A header that is selected is an instruction. -/
theorem Within.select (h : v.Within) {header? : Option Nat}
    (hheader : ∀ i ∈ header?, (v.headerAt? i).isSome) : (v.select header?).1.Within := by
  cases header? with
  | none => exact h
  | some i =>
    obtain ⟨hi, -⟩ := isSome_headerAt?_iff.1 (hheader i rfl)
    exact Nat.le_sub_one_of_lt hi

theorem Within.nextFunction (h : v.Within) : v.nextFunction.1.Within :=
  h.select fun _ hi => (isLeast_of_nextHeader? hi).1.2

theorem Within.previousFunction (h : v.Within) : v.previousFunction.1.Within :=
  h.select fun _ hi => (isGreatest_of_previousHeader? hi).1.2

/-- No key leaves the instructions. -/
theorem Within.press (h : v.Within) (key : Key) : (v.press key).Within := by
  cases key with
  | char c =>
    simp only [Viewer.press, typed]
    split
    · exact h
    · split
      · exact v.within_forward _
      · exact h
  | up | down =>
    simp only [Viewer.press, scrollFocused]
    split
    · exact h
    · exact h
  | left => exact h.backward 1
  | right => exact v.within_forward 1
  | pageUp => exact h.previousFunction
  | pageDown => exact h.nextFunction
  | enter => exact v.within_toEnd
  | backspace => exact v.within_toStart
  | tab | other => exact h

end Viewer

namespace Display

theorem within_act {d : Display} (h : d.viewer.Within) (a : Act) : (d.act a).viewer.Within := by
  cases a with
  | press key => exact h.press key
  | forward n => exact d.viewer.within_forward n
  | backward n => exact h.backward n
  | toStart => exact d.viewer.within_toStart
  | toEnd => exact d.viewer.within_toEnd
  | nextFunction => exact h.nextFunction
  | previousFunction => exact h.previousFunction
  | resize screen | draw => exact h

theorem within_use {d : Display} (h : d.viewer.Within) (acts : List Act) :
    (d.use acts).viewer.Within := by
  induction acts generalizing d with
  | nil => exact h
  | cons a acts ih => exact ih (within_act h a)

end Display

/-! ### Moving it -/

namespace Viewer

variable {v : Viewer} {i : Nat}

theorem forward_eq (h : v.Within) (n : Nat) :
    v.forward n = ({ v with selected := v.selected + min n (v.last - v.selected) },
      min n (v.last - v.selected)) := by
  have hselected : min (v.selected + n) v.last = v.selected + min n (v.last - v.selected) := by
    unfold Within at h
    omega
  simp only [forward, hselected, Nat.add_sub_cancel_left]

theorem backward_eq (v : Viewer) (n : Nat) :
    v.backward n = ({ v with selected := v.selected - min n v.selected }, min n v.selected) := by
  have hselected : v.selected - n = v.selected - min n v.selected := by omega
  have hsteps : v.selected - (v.selected - min n v.selected) = min n v.selected := by omega
  simp only [backward, hselected, hsteps]

/-- As many steps back as were gone forward lead back. -/
theorem backward_forward (h : v.Within) (n : Nat) :
    (v.forward n).1.backward (v.forward n).2 = (v, (v.forward n).2) := by
  have hsteps : min (min n (v.last - v.selected)) (v.selected + min n (v.last - v.selected))
      = min n (v.last - v.selected) := by omega
  simp only [forward_eq h, backward_eq, hsteps, Nat.add_sub_cancel]

/-- A jump forward goes to the nearest header, and fails without a change if there is none. -/
theorem nextFunction_cases (v : Viewer) :
    (∃ i, IsLeast v.laterHeaders i ∧ v.nextFunction = ({ v with selected := i }, true))
    ∨ v.laterHeaders = ∅ ∧ v.nextFunction = (v, false) := by
  unfold nextFunction
  cases h : v.nextHeader? with
  | none => exact Or.inr ⟨laterHeaders_eq_empty h, rfl⟩
  | some i => exact Or.inl ⟨i, isLeast_of_nextHeader? h, rfl⟩

theorem previousFunction_cases (v : Viewer) :
    (∃ i, IsGreatest v.earlierHeaders i ∧ v.previousFunction = ({ v with selected := i }, true))
    ∨ v.earlierHeaders = ∅ ∧ v.previousFunction = (v, false) := by
  unfold previousFunction
  cases h : v.previousHeader? with
  | none => exact Or.inr ⟨earlierHeaders_eq_empty h, rfl⟩
  | some i => exact Or.inl ⟨i, isGreatest_of_previousHeader? h, rfl⟩

/-- Before the next header, the last header is that of the function at hand. -/
theorem isGreatest_earlierHeaders {next : Nat} (h : IsGreatest v.headersSoFar i)
    (hnext : IsLeast v.laterHeaders next) :
    IsGreatest (earlierHeaders { v with selected := next }) i := by
  obtain ⟨⟨hi, hheader⟩, hlast⟩ := h
  obtain ⟨⟨hafter, -⟩, hfirst⟩ := hnext
  refine ⟨⟨Nat.lt_of_le_of_lt hi hafter, hheader⟩, ?_⟩
  rintro j ⟨hj, hsome⟩
  -- a header between the two would be the next one
  by_cases hsofar : j ≤ v.selected
  · exact hlast ⟨hsofar, hsome⟩
  · have hle := hfirst ⟨Nat.lt_of_not_le hsofar, hsome⟩
    exact absurd hj (Nat.not_lt_of_le hle)

/-- A jump to the next header and back leads to the header of the function at hand. -/
theorem previousFunction_nextFunction (h : IsGreatest v.headersSoFar i)
    (hnext : v.nextFunction.2 = true) :
    v.nextFunction.1.previousFunction = ({ v with selected := i }, true)
      ∧ v.nextFunction.1.previousFunction.1.function? = v.function? := by
  rcases v.nextFunction_cases with ⟨next, hleast, hmoved⟩ | ⟨-, hnone⟩
  · have hgreatest := isGreatest_earlierHeaders h hleast
    rw [hmoved]
    rcases previousFunction_cases { v with selected := next } with ⟨j, hj, hback⟩ | ⟨hempty, -⟩
    · obtain rfl := hj.unique hgreatest
      rw [hback]
      have hheader : IsGreatest (headersSoFar { v with selected := j }) j :=
        ⟨⟨Nat.le_refl j, h.1.2⟩, fun _ hk => hk.1⟩
      exact ⟨rfl, (function?_eq hheader).trans (function?_eq h).symm⟩
    · rw [hempty] at hgreatest
      exact absurd hgreatest.1 (Set.notMem_empty i)
  · rw [hnone] at hnext
    cases hnext

/-- How the selection moves, and what the moves answer: a jump whether there is a header to go to,
the steps how many they were. -/
structure Navigates (v : Viewer) : Prop where
  within : v.selected < v.instructions.length ∨ v.instructions = [] ∧ v.selected = 0
  next : (∃ i, IsLeast v.laterHeaders i ∧ v.nextFunction = ({ v with selected := i }, true))
    ∨ v.laterHeaders = ∅ ∧ v.nextFunction = (v, false)
  previous : (∃ i, IsGreatest v.earlierHeaders i
      ∧ v.previousFunction = ({ v with selected := i }, true))
    ∨ v.earlierHeaders = ∅ ∧ v.previousFunction = (v, false)
  back : ∀ i, IsGreatest v.headersSoFar i → v.nextFunction.2 = true →
    v.nextFunction.1.previousFunction = ({ v with selected := i }, true)
      ∧ v.nextFunction.1.previousFunction.1.function? = v.function?
  forward : ∀ n, v.forward n = ({ v with selected := v.selected + min n (v.last - v.selected) },
    min n (v.last - v.selected))
  backward : ∀ n, v.backward n = ({ v with selected := v.selected - min n v.selected },
    min n v.selected)
  undone : ∀ n, (v.forward n).1.backward (v.forward n).2 = (v, (v.forward n).2)

end Viewer

/-- However a viewer of any instructions is used, its selection stays among them. It goes to the
nearest header on either side, and from the next header back to that of the function it was in; it
goes as many steps as are asked for and there are, and back. -/
theorem used_viewer_navigates (source : String) (code : List Emitted)
    (error? : Option CompileError) (screen : Extent) (acts : List Act) :
    (Display.use ⟨.initial source code error?, screen⟩ acts).viewer.instructions = code
      ∧ (Display.use ⟨.initial source code error?, screen⟩ acts).viewer.Navigates := by
  have hkeeps := Display.keeps_use ⟨.initial source code error?, screen⟩ acts
  have hwithin : (Display.use ⟨.initial source code error?, screen⟩ acts).viewer.Within :=
    Display.within_use (Nat.zero_le _) acts
  exact ⟨hkeeps.instructions, {
    within := hwithin.cases
    next := Viewer.nextFunction_cases _
    previous := Viewer.previousFunction_cases _
    back := fun _ hi hnext => Viewer.previousFunction_nextFunction hi hnext
    forward := Viewer.forward_eq hwithin
    backward := Viewer.backward_eq _
    undone := Viewer.backward_forward hwithin }⟩

end Jack
