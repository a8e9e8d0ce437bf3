import Jack.Proofs.Paths
import Jack.Workspace.Basic
import Mathlib.Data.List.Nodup

/-! Workspaces that are trees: every name can be followed, and every entry stands inside a
directory. A path leads to a directory, or to a name inside one; to write files changes neither
directories nor links, and so changes no way that leads somewhere. -/

namespace Jack

/-- A name that an entry of a directory can have. -/
structure IsName (name : String) : Prop where
  step : Path.IsStepName name.toList
  slashless : '/' ∉ name.toList
  nulless : '\x00' ∉ name.toList
  short : name.utf8ByteSize ≤ Workspace.longestName

theorem isName_iff {name : String} :
    IsName name ↔ Path.IsStepName name.toList ∧ '/' ∉ name.toList ∧ '\x00' ∉ name.toList
      ∧ name.utf8ByteSize ≤ Workspace.longestName :=
  ⟨fun h => ⟨h.step, h.slashless, h.nulless, h.short⟩, fun ⟨h, h', h'', h'''⟩ => ⟨h, h', h'', h'''⟩⟩

instance (name : String) : Decidable (IsName name) := decidable_of_iff' _ isName_iff

/-- The entry is a second name, or a path to follow. -/
def Entry.isLink : Entry → Bool
  | .file _ | .directory => false
  | .hardLink _ | .symbolicLink _ => true

def Entry.isFile : Entry → Bool
  | .file _ => true
  | .directory | .hardLink _ | .symbolicLink _ => false

theorem Entry.isFile_iff {entry : Entry} :
    entry.isFile = true ↔ ∃ content, entry = .file content := by
  cases entry <;> simp [isFile]

theorem Entry.isFile_of_isLink {entry : Entry} (h : entry.isLink = true) :
    entry.isFile = false := by
  cases entry with
  | file content => cases h
  | directory => rfl
  | hardLink place => rfl
  | symbolicLink target => rfl

/-- The place of the file that the entry is one more name of. -/
def Entry.linked? : Entry → Option Place
  | .hardLink place => some place
  | .file _ | .directory | .symbolicLink _ => none

namespace Workspace

/-- Every place is listed once, its names can be followed, and it is inside a directory. A second
name is that of a file, and nothing is refused where there is nothing. -/
structure Tree (w : Workspace) : Prop where
  once : (w.entries.map Prod.fst).Nodup
  named : ∀ e ∈ w.entries, ∀ name ∈ e.1, IsName name
  inside : ∀ e ∈ w.entries, w.lookup e.1.dropLast = some .directory
  linked : ∀ e ∈ w.entries, ∀ file ∈ e.2.linked?, (w.lookup file).any Entry.isFile = true
  refused : ∀ r ∈ w.refused, (w.lookup r.1.1).isSome = true

theorem tree_iff {w : Workspace} :
    w.Tree ↔ (w.entries.map Prod.fst).Nodup ∧ (∀ e ∈ w.entries, ∀ name ∈ e.1, IsName name)
      ∧ (∀ e ∈ w.entries, w.lookup e.1.dropLast = some .directory)
      ∧ (∀ e ∈ w.entries, ∀ file ∈ e.2.linked?, (w.lookup file).any Entry.isFile = true)
      ∧ ∀ r ∈ w.refused, (w.lookup r.1.1).isSome = true :=
  ⟨fun h => ⟨h.once, h.named, h.inside, h.linked, h.refused⟩,
    fun ⟨once, named, inside, linked, refused⟩ => ⟨once, named, inside, linked, refused⟩⟩

instance (w : Workspace) : Decidable w.Tree := decidable_of_iff' _ tree_iff

/-- No name directly inside the place is a link. -/
def Plain (w : Workspace) (place : Place) : Prop :=
  ∀ e ∈ w.entries, e.1.dropLast = place → e.2.isLink = false

instance (w : Workspace) (place : Place) : Decidable (w.Plain place) :=
  inferInstanceAs (Decidable (∀ e ∈ w.entries, e.1.dropLast = place → e.2.isLink = false))

variable {w w' : Workspace} {place q : Place}

/-! ### Entries -/

theorem lookup_put_self (h : place ≠ []) (entry : Entry) :
    (w.put place entry).lookup place = some entry := by
  rw [lookup_put w place entry place (by simpa using h), if_pos rfl]

theorem lookup_put_of_ne (h : q ≠ place) (entry : Entry) :
    (w.put place entry).lookup q = w.lookup q := by
  by_cases hq : q = []
  · subst hq
    rfl
  · rw [lookup_put w place entry q (by simpa using hq), if_neg h]

theorem mem_entries_of_lookup (hplace : place ≠ []) {entry : Entry}
    (h : w.lookup place = some entry) : (place, entry) ∈ w.entries := by
  have hempty : place.isEmpty = false := by
    simpa using hplace
  rw [lookup, hempty, if_neg Bool.false_ne_true] at h
  obtain ⟨e, he, hentry⟩ := Option.map_eq_some_iff.1 h
  have hkey : e.1 = place := by
    simpa using List.find?_some he
  rw [← hkey, ← hentry]
  exact List.mem_of_find?_eq_some he

theorem Tree.mem_entries_iff (hw : w.Tree) (hplace : place ≠ []) {entry : Entry} :
    (place, entry) ∈ w.entries ↔ w.lookup place = some entry := by
  refine ⟨fun hmem => ?_, mem_entries_of_lookup hplace⟩
  obtain ⟨other, hother⟩ : ∃ other, w.lookup place = some other := by
    have hempty : place.isEmpty = false := by
      simpa using hplace
    rw [lookup, hempty, if_neg Bool.false_ne_true]
    have hfind : (w.entries.find? fun e => e.1 = place).isSome :=
      List.find?_isSome.2 ⟨_, hmem, by simp⟩
    obtain ⟨e, he⟩ := Option.isSome_iff_exists.1 hfind
    exact ⟨e.2, by rw [he]; rfl⟩
  have hsame := List.inj_on_of_nodup_map hw.once (mem_entries_of_lookup hplace hother) hmem rfl
  rw [hother, (Prod.mk.inj hsame).2]

/-- What stands at a place stands inside a directory. -/
theorem Tree.lookup_dropLast (hw : w.Tree) {entry : Entry} (h : w.lookup place = some entry) :
    w.lookup place.dropLast = some .directory := by
  by_cases hplace : place = []
  · subst hplace
    rfl
  · exact hw.inside _ ((hw.mem_entries_iff hplace).2 h)

theorem Tree.isName (hw : w.Tree) {entry : Entry} (h : w.lookup place = some entry) {name : String}
    (hname : name ∈ place) : IsName name :=
  hw.named _ ((hw.mem_entries_iff (List.ne_nil_of_mem hname)).2 h) name hname

theorem Tree.refusal?_of_lookup (hw : w.Tree) (h : w.lookup place = none) (right : Right) :
    w.refusal? place right = none := by
  rw [refusal?, List.lookup_eq_none_iff]
  intro r hr
  rw [bne_iff_ne]
  intro heq
  have hsome := hw.refused r hr
  rw [← heq, h] at hsome
  cases hsome

/-- No link stands at the place. -/
def Unlinked (w : Workspace) (place : Place) : Prop :=
  ∀ entry ∈ w.lookup place, entry.isLink = false

theorem unlinked_of_lookup {entry : Entry} (h : w.lookup place = some entry)
    (hentry : entry.isLink = false) : w.Unlinked place := by
  intro other hother
  rwa [← Option.some.inj (h.symm.trans hother)]

theorem Plain.unlinked (h : w.Plain place) (name : String) : w.Unlinked (place ++ [name]) := by
  intro entry hentry
  exact h _ (mem_entries_of_lookup (by simp) hentry) (by simp)

/-! ### Ways -/

theorem turnAt_of_unlinked (h : w.Unlinked q) : w.turnAt place q = .ok (.place q) := by
  unfold turnAt
  split
  · rename_i file hlink
    cases h _ hlink
  · rename_i target hlink
    cases h _ hlink
  · rfl

theorem walk_nil (w : Workspace) (links : Nat) (place : Place) :
    w.walk links place [] = .ok place := by
  cases links <;> rfl

/-- Where steps lead from a link on, with so many links on the way at most, this one included. -/
def follow (w : Workspace) : Nat → Place → List (List Char) → Except FileFault Place
  | 0 => fun _ _ => .error .tooManyLinks
  | links + 1 => w.walk links

theorem walk_cons (w : Workspace) (links : Nat) (place : Place) (step : List Char)
    (rest : List (List Char)) :
    w.walk links place (step :: rest)
      = match w.advance place step with
        | .error e => .error e
        | .ok (.place next) => w.walk links next rest
        | .ok (.link start steps) => w.follow links start (steps ++ rest) := by
  cases links <;> rfl

theorem directory_of_advance {step : List Char} {turn : Turn}
    (h : w.advance place step = .ok turn) : w.lookup place = some .directory := by
  unfold advance at h
  split at h
  · assumption
  · cases h
  · cases h

/-- The steps lead from a place to another, with so many links on the way at most. -/
inductive Goes (w : Workspace) : Nat → Place → List (List Char) → Place → Prop
  | stay (links : Nat) (place : Place) : Goes w links place [] place
  | step {links : Nat} {place next q : Place} {step : List Char} {rest : List (List Char)}
      (turn : w.advance place step = .ok (.place next)) (goes : Goes w links next rest q) :
      Goes w links place (step :: rest) q
  | link {links : Nat} {place start q : Place} {step : List Char} {steps rest : List (List Char)}
      (turn : w.advance place step = .ok (.link start steps))
      (goes : Goes w links start (steps ++ rest) q) :
      Goes w (links + 1) place (step :: rest) q

theorem goes_of_walk {links : Nat} {steps : List (List Char)}
    (h : w.walk links place steps = .ok q) : w.Goes links place steps q := by
  -- the links that are left bound the steps that are still to come from one
  induction links generalizing place steps with
  | zero =>
    induction steps generalizing place with
    | nil =>
      obtain rfl : place = q := Except.ok.inj ((walk_nil w 0 place).symm.trans h)
      exact .stay 0 place
    | cons step rest ih =>
      rw [walk_cons] at h
      split at h
      · cases h
      · rename_i next hstep
        exact .step hstep (ih h)
      · cases h
  | succ links followed =>
    induction steps generalizing place with
    | nil =>
      obtain rfl : place = q := Except.ok.inj ((walk_nil w (links + 1) place).symm.trans h)
      exact .stay (links + 1) place
    | cons step rest ih =>
      rw [walk_cons] at h
      split at h
      · cases h
      · rename_i next hstep
        exact .step hstep (ih h)
      · rename_i start steps hstep
        exact .link hstep (followed h)

theorem Goes.walk {links : Nat} {steps : List (List Char)} (h : w.Goes links place steps q) :
    w.walk links place steps = .ok q := by
  induction h with
  | stay links place => exact walk_nil w links place
  | step turn goes ih =>
    rw [walk_cons, turn]
    exact ih
  | link turn goes ih =>
    rw [walk_cons, turn]
    exact ih

/-- Steps that lead somewhere leave the rest of a way to be gone from there. -/
theorem Goes.exists_walk_append {links : Nat} {steps : List (List Char)}
    (h : w.Goes links place steps q) :
    ∃ left, ∀ more, w.walk links place (steps ++ more) = w.walk left q more := by
  induction h with
  | stay links place => exact ⟨links, fun more => rfl⟩
  | step turn goes ih =>
    obtain ⟨left, hleft⟩ := ih
    refine ⟨left, fun more => ?_⟩
    rw [List.cons_append, walk_cons, turn]
    exact hleft more
  | link turn goes ih =>
    obtain ⟨left, hleft⟩ := ih
    refine ⟨left, fun more => ?_⟩
    rw [← hleft, List.cons_append, walk_cons, turn, List.append_assoc]
    rfl

theorem locate_eq_ok_iff {p : Path} :
    w.locate p = .ok place
      ↔ '\x00' ∉ p.text.toList ∧ p.text.isEmpty = false ∧ p.text.utf8ByteSize ≤ longestPath
        ∧ w.walk mostLinks (startFrom w.here p) p.steps = .ok place := by
  unfold locate
  by_cases hnul : '\x00' ∈ p.text.toList
  · simp [hnul]
  by_cases hempty : p.text.isEmpty = true
  · simp [hnul, hempty]
  by_cases hlong : longestPath < p.text.utf8ByteSize
  · simp [hnul, hempty, hlong, Nat.not_le.2 hlong]
  · simp [hnul, hempty, hlong, Nat.not_lt.1 hlong]

/-- The steps of a path but the last one lead to a directory. -/
structure Leads (w : Workspace) (p : Path) (front : List (List Char)) (last : List Char)
    (parent : Place) : Prop where
  steps : p.steps = front ++ [last]
  walk : ∃ links, ∀ more,
    w.walk mostLinks (startFrom w.here p) (front ++ more) = w.walk links parent more
  directory : w.lookup parent = some .directory

/-- What is wrong with a path whose last step is a name in a directory. -/
def wayFault? (w : Workspace) (p : Path) (parent : Place) (last : List Char) : Option FileFault :=
  if p.text.toList.contains '\x00' then some .nulInName
  else if p.text.isEmpty then some .notFound
  else if longestPath < p.text.utf8ByteSize then some .nameTooLong
  else
    match w.refusal? parent .search with
    | some fault => some fault
    | none => if longestName < (String.ofList last).utf8ByteSize then some .nameTooLong else none

theorem wayFault?_eq_none_iff {p : Path} {parent : Place} {last : List Char} :
    w.wayFault? p parent last = none
      ↔ '\x00' ∉ p.text.toList ∧ p.text.isEmpty = false ∧ p.text.utf8ByteSize ≤ longestPath
        ∧ w.refusal? parent .search = none
        ∧ (String.ofList last).utf8ByteSize ≤ longestName := by
  unfold wayFault?
  by_cases hnul : '\x00' ∈ p.text.toList
  · simp [hnul]
  by_cases hempty : p.text.isEmpty = true
  · simp [hnul, hempty]
  by_cases hlong : longestPath < p.text.utf8ByteSize
  · simp [hnul, hempty, hlong, Nat.not_le.2 hlong]
  cases hsearch : w.refusal? parent .search with
  | some fault => simp [hnul, hempty, hlong]
  | none =>
    by_cases hname : longestName < (String.ofList last).utf8ByteSize
    · simp [hnul, hempty, hlong, hname, Nat.not_le.2 hname]
    · simp [hnul, hempty, hlong, hname, Nat.not_lt.1 hlong, Nat.not_lt.1 hname]

section

variable {p : Path} {front : List (List Char)} {last : List Char} {parent : Place}

theorem walk_of_unlinked (hparent : w.lookup parent = some .directory) (hlast : last ≠ [])
    (hfree : w.Unlinked (enter parent last)) (links : Nat) :
    w.walk links parent [last]
      = match w.refusal? parent .search with
        | some fault => .error fault
        | none =>
          if longestName < (String.ofList last).utf8ByteSize then .error .nameTooLong
          else .ok (enter parent last) := by
  have hstep : last.isEmpty = false := by
    simpa using hlast
  rw [walk_cons, advance, hparent]
  dsimp only
  rw [if_neg (by simp [hstep])]
  cases w.refusal? parent .search with
  | some fault => rfl
  | none =>
    dsimp only
    by_cases hlong : longestName < (String.ofList last).utf8ByteSize
    · rw [if_pos hlong, if_pos hlong]
    · rw [if_neg hlong, if_neg hlong, turnAt_of_unlinked hfree]
      exact walk_nil w links _

theorem walk_of_empty (hparent : w.lookup parent = some .directory) (links : Nat) :
    w.walk links parent [[]] = .ok parent := by
  rw [walk_cons, advance, hparent]
  exact walk_nil w links parent

/-- A path whose last step is no link leads where the step does, if nothing is wrong with it. -/
theorem Leads.locate (h : w.Leads p front last parent) (hlast : last ≠ [])
    (hfree : w.Unlinked (enter parent last)) :
    w.locate p
      = match w.wayFault? p parent last with
        | some e => .error e
        | none => .ok (enter parent last) := by
  obtain ⟨links, hfront⟩ := h.walk
  unfold Workspace.locate wayFault?
  rw [h.steps, hfront, walk_of_unlinked h.directory hlast hfree]
  by_cases hnul : p.text.toList.contains '\x00' = true
  · rw [if_pos hnul, if_pos hnul]
  by_cases hempty : p.text.isEmpty = true
  · rw [if_neg hnul, if_neg hnul, if_pos hempty, if_pos hempty]
  by_cases hlong : longestPath < p.text.utf8ByteSize
  · rw [if_neg hnul, if_neg hnul, if_neg hempty, if_neg hempty, if_pos hlong, if_pos hlong]
  rw [if_neg hnul, if_neg hnul, if_neg hempty, if_neg hempty, if_neg hlong, if_neg hlong]
  cases w.refusal? parent .search with
  | some fault => rfl
  | none =>
    dsimp only
    by_cases hname : longestName < (String.ofList last).utf8ByteSize
    · rw [if_pos hname, if_pos hname]
    · rw [if_neg hname, if_neg hname]

theorem Leads.locate_eq_ok_iff (h : w.Leads p front last parent) (hlast : last ≠ [])
    (hfree : w.Unlinked (enter parent last)) :
    w.locate p = .ok place ↔ w.wayFault? p parent last = none ∧ enter parent last = place := by
  rw [h.locate hlast hfree]
  cases w.wayFault? p parent last with
  | some e => simp
  | none => simp

theorem enter_of_isStepName (h : Path.IsStepName last) (parent : Place) :
    enter parent last = parent ++ [String.ofList last] := by
  rw [enter, h.1, if_neg Bool.false_ne_true, if_neg h.2]

theorem ne_nil_of_isStepName (h : Path.IsStepName last) : last ≠ [] := by
  rintro rfl
  exact absurd h.1 (by decide)

/-- A step that is no name stays inside directories. -/
theorem Tree.lookup_enter (hw : w.Tree) (hparent : w.lookup parent = some .directory)
    (h : ¬Path.IsStepName last) : w.lookup (enter parent last) = some .directory := by
  unfold enter
  by_cases hidle : isIdle last = true
  · rw [if_pos hidle]
    exact hparent
  · rw [if_neg hidle]
    by_cases hup : last = ['.', '.']
    · rw [if_pos hup]
      exact hw.lookup_dropLast hparent
    · exact absurd ⟨by simpa using hidle, hup⟩ h

/-- In a directory without links no step leads to a link. -/
theorem Plain.unlinked_enter (h : w.Plain parent) (hw : w.Tree)
    (hparent : w.lookup parent = some .directory) (step : List Char) :
    w.Unlinked (enter parent step) := by
  by_cases hstep : Path.IsStepName step
  · rw [enter_of_isStepName hstep]
    exact h.unlinked _
  · exact unlinked_of_lookup (hw.lookup_enter hparent hstep) rfl

theorem isName_of_wayFault? (hsteps : p.steps = front ++ [last])
    (hfault : w.wayFault? p parent last = none) (hlast : Path.IsStepName last) :
    IsName (String.ofList last) := by
  have hmem : last ∈ p.steps := hsteps ▸ List.mem_append_right _ (List.mem_singleton_self _)
  obtain ⟨hnul, -, -, -, hshort⟩ := wayFault?_eq_none_iff.1 hfault
  refine ⟨by rwa [String.toList_ofList], ?_, ?_, hshort⟩
  · rw [String.toList_ofList]
    exact Path.not_mem_of_mem_steps hmem
  · rw [String.toList_ofList]
    intro hc
    apply hnul
    rw [Path.text_of_steps hsteps]
    exact mem_joinSteps List.mem_cons_self hc

end

/-! ### Ways that stay -/

/-- Paths start where they did, the same is refused, and directories and links are the same. -/
structure SameWays (w w' : Workspace) : Prop where
  here : w'.here = w.here
  refused : w'.refused = w.refused
  entries : ∀ place entry, entry.isFile = false →
    (w'.lookup place = some entry ↔ w.lookup place = some entry)

theorem SameWays.refl (w : Workspace) : w.SameWays w := ⟨rfl, rfl, fun _ _ _ => Iff.rfl⟩

theorem SameWays.symm (h : w.SameWays w') : w'.SameWays w :=
  ⟨h.here.symm, h.refused.symm, fun place entry hentry => (h.entries place entry hentry).symm⟩

theorem SameWays.trans {w'' : Workspace} (h : w.SameWays w') (h' : w'.SameWays w'') :
    w.SameWays w'' :=
  ⟨h'.here.trans h.here, h'.refused.trans h.refused, fun place entry hentry =>
    (h'.entries place entry hentry).trans (h.entries place entry hentry)⟩

theorem SameWays.refusal? (h : w.SameWays w') (place : Place) (right : Right) :
    w'.refusal? place right = w.refusal? place right := by
  rw [Workspace.refusal?, Workspace.refusal?, h.refused]

theorem SameWays.directory (h : w.SameWays w') :
    w'.lookup place = some .directory ↔ w.lookup place = some .directory :=
  h.entries place .directory rfl

/-- At the place there is a file, or nothing yet. -/
def Writable (w : Workspace) (place : Place) : Prop :=
  ∀ entry ∈ w.lookup place, entry.isFile = true

theorem Writable.ne_nil (h : w.Writable place) : place ≠ [] := by
  rintro rfl
  exact absurd (h .directory rfl) (by decide)

/-- To write a file takes no directory and no link away, and makes none. -/
theorem sameWays_put (h : w.Writable place) (content : ByteArray) :
    w.SameWays (w.put place (.file content)) := by
  refine ⟨rfl, rfl, fun q entry hentry => ?_⟩
  by_cases hq : q = place
  · subst hq
    rw [lookup_put_self h.ne_nil]
    constructor
    · intro hfile
      rw [← Option.some.inj hfile] at hentry
      cases hentry
    · intro hbefore
      rw [h entry hbefore] at hentry
      cases hentry
  · rw [lookup_put_of_ne hq]

theorem SameWays.unlinked (h : w.SameWays w') (hplace : w.Unlinked place) :
    w'.Unlinked place := by
  intro entry hentry
  cases hlink : entry.isLink with
  | false => rfl
  | true =>
    have hbefore : w.lookup place = some entry :=
      (h.entries place entry (Entry.isFile_of_isLink hlink)).1 hentry
    rw [hplace entry hbefore] at hlink
    cases hlink

theorem SameWays.turnAt (h : w.SameWays w') (place q : Place) :
    w'.turnAt place q = w.turnAt place q := by
  by_cases hplace : w.Unlinked q
  · rw [turnAt_of_unlinked hplace, turnAt_of_unlinked (h.unlinked hplace)]
  · obtain ⟨entry, hentry, hlink⟩ : ∃ entry, w.lookup q = some entry ∧ entry.isLink = true := by
      simpa [Unlinked] using hplace
    have hafter : w'.lookup q = some entry :=
      (h.entries q entry (Entry.isFile_of_isLink hlink)).2 hentry
    simp only [Workspace.turnAt, hentry, hafter, h.refusal?]

theorem SameWays.advance (h : w.SameWays w') {step : List Char} {turn : Turn}
    (hturn : w.advance place step = .ok turn) : w'.advance place step = .ok turn := by
  have hplace := directory_of_advance hturn
  rw [← hturn]
  simp only [Workspace.advance, hplace, h.directory.2 hplace, h.refusal?, h.turnAt]

theorem SameWays.goes (h : w.SameWays w') {links : Nat} {steps : List (List Char)}
    (hgoes : w.Goes links place steps q) : w'.Goes links place steps q := by
  induction hgoes with
  | stay links place => exact .stay links place
  | step turn goes ih => exact .step (h.advance turn) ih
  | link turn goes ih => exact .link (h.advance turn) ih

section

variable {p : Path} {front : List (List Char)} {last : List Char} {parent : Place}

theorem SameWays.locate (h : w.SameWays w') (hp : w.locate p = .ok place) :
    w'.locate p = .ok place := by
  obtain ⟨hnul, hempty, hlong, hwalk⟩ := Workspace.locate_eq_ok_iff.1 hp
  refine Workspace.locate_eq_ok_iff.2 ⟨hnul, hempty, hlong, ?_⟩
  rw [h.here]
  exact (h.goes (goes_of_walk hwalk)).walk

theorem SameWays.leads (h : w.SameWays w') (hp : w.Leads p front last parent) :
    w'.Leads p front last parent := by
  obtain ⟨links, hfront⟩ := hp.walk
  have hwalk : w.walk mostLinks (startFrom w.here p) front = .ok parent := by
    have hend := hfront []
    rwa [List.append_nil, walk_nil] at hend
  obtain ⟨left, hleft⟩ := (h.goes (goes_of_walk hwalk)).exists_walk_append
  refine ⟨hp.steps, ⟨left, fun more => ?_⟩, h.directory.2 hp.directory⟩
  rw [h.here]
  exact hleft more

theorem SameWays.wayFault? (h : w.SameWays w') (p : Path) (parent : Place) (last : List Char) :
    w'.wayFault? p parent last = w.wayFault? p parent last := by
  unfold Workspace.wayFault?
  rw [h.refusal?]

end

/-! ### Trees that stay -/

/-- Besides, files can be opened for writing at the same places. -/
structure SameTargets (w w' : Workspace) : Prop extends w.SameWays w' where
  barrier : ∀ place, w'.barrier? place = w.barrier? place

theorem SameTargets.refl (w : Workspace) : w.SameTargets w := ⟨.refl w, fun _ => rfl⟩

theorem SameTargets.trans {w'' : Workspace} (h : w.SameTargets w') (h' : w'.SameTargets w'') :
    w.SameTargets w'' :=
  ⟨h.toSameWays.trans h'.toSameWays, fun place => (h'.barrier place).trans (h.barrier place)⟩

theorem writable_of_barrier? (h : w.barrier? place = none) : w.Writable place := by
  intro entry hentry
  rw [Option.mem_def] at hentry
  rw [barrier?, hentry] at h
  cases entry with
  | file content => rfl
  | directory => cases h
  | hardLink file => cases h
  | symbolicLink target => cases h

/-- In a tree, what is written is not refused to be written again. -/
theorem Tree.sameTargets_put (hw : w.Tree) (h : w.barrier? place = none) (content : ByteArray) :
    w.SameTargets (w.put place (.file content)) := by
  have hfree := writable_of_barrier? h
  refine ⟨sameWays_put hfree content, fun q => ?_⟩
  by_cases hq : q = place
  · subst hq
    rw [h, barrier?, lookup_put_self hfree.ne_nil]
    change w.refusal? q .write = none
    cases hplace : w.lookup q with
    | none => exact hw.refusal?_of_lookup hplace .write
    | some entry =>
      obtain ⟨content', rfl⟩ := Entry.isFile_iff.1 (hfree entry hplace)
      rwa [barrier?, hplace] at h
  · rw [barrier?, barrier?, lookup_put_of_ne hq]
    rfl

theorem isSome_lookup_put (h : (w.lookup q).isSome = true) (place : Place) (entry : Entry) :
    ((w.put place entry).lookup q).isSome = true := by
  by_cases hq : q = place
  · subst hq
    by_cases hnil : q = []
    · subst hnil
      rfl
    · rw [lookup_put_self hnil]
      rfl
  · rwa [lookup_put_of_ne hq]

/-- A tree stays one when a file is written at a name in a directory. -/
theorem Tree.put (hw : w.Tree) {parent : Place} {name : String}
    (hparent : w.lookup parent = some .directory) (hname : IsName name)
    (hfree : w.Writable (parent ++ [name])) (content : ByteArray) :
    (w.put (parent ++ [name]) (.file content)).Tree := by
  have hsame := sameWays_put hfree content
  refine ⟨?_, ?_, ?_, ?_, fun r hr => isSome_lookup_put (hw.refused r hr) _ _⟩
  · rw [Workspace.put, List.map_cons, List.nodup_cons]
    constructor
    · intro hmem
      obtain ⟨e, he, hkey⟩ := List.mem_map.1 hmem
      exact absurd hkey (by simpa using (List.mem_filter.1 he).2)
    · exact hw.once.sublist (List.filter_sublist.map _)
  · refine List.forall_mem_cons.2 ⟨fun n hn => ?_, fun e he => ?_⟩
    · rcases List.mem_append.1 hn with hn | hn
      · exact hw.isName hparent hn
      · rw [List.mem_singleton.1 hn]
        exact hname
    · exact hw.named e (List.mem_of_mem_filter he)
  · refine List.forall_mem_cons.2 ⟨?_, fun e he => ?_⟩
    · rw [hsame.directory, List.dropLast_concat]
      exact hparent
    · rw [hsame.directory]
      exact hw.inside e (List.mem_of_mem_filter he)
  · refine List.forall_mem_cons.2 ⟨fun file hfile => ?_, fun e he file hfile => ?_⟩
    · cases hfile
    · by_cases hplace : file = parent ++ [name]
      · rw [hplace, lookup_put_self (by simp)]
        rfl
      · rw [lookup_put_of_ne hplace]
        exact hw.linked e (List.mem_of_mem_filter he) file hfile

/-- A file that is written in a directory without links is none. -/
theorem Plain.put (h : w.Plain q) (place : Place) (content : ByteArray) :
    (w.put place (.file content)).Plain q := by
  refine List.forall_mem_cons.2 ⟨fun _ => rfl, fun e he => ?_⟩
  exact h e (List.mem_of_mem_filter he)

end Workspace

end Jack
