import Jack.Proofs.Places
import Mathlib.Data.List.Induction

/-!
What requests make of a listing. Lines are appended and stay as they are, except for the counts of
function headers, each of which is the one that was set last through the header's slot.
-/

namespace Jack

/-- What a listing can be asked for. A header is asked for by its name, without a count. -/
inductive Request where
  | moveTo (p : Position)
  | emit (i : Instruction) (h : i.header? = none)
  | header (name : String)
  | patch (slot : HeaderSlot) (locals : UInt16)

def Listing.perform (l : Listing) : Request → Listing
  | .moveTo p => l.moveTo p
  | .emit i _ => l.emit i
  | .header name => l.header name
  | .patch slot locals => (l.patch slot locals).1

def Listing.performAll (l : Listing) (requests : List Request) : Listing :=
  requests.foldl Listing.perform l

/-- The slots that are handed out for the headers, in the order of the requests. -/
def Listing.slotsOf (l : Listing) : List Request → List HeaderSlot
  | [] => []
  | .header name :: rest => l.slot name :: (l.header name).slotsOf rest
  | .moveTo p :: rest => (l.moveTo p).slotsOf rest
  | .emit i _ :: rest => (l.emit i).slotsOf rest
  | .patch slot locals :: rest => (l.patch slot locals).1.slotsOf rest

/-! ### What the lines should be -/

/-- The count that the last of the requests through the slot sets, or zero if there is none. -/
def countFor (slot : HeaderSlot) (requests : List Request) : UInt16 :=
  requests.foldl
    (fun n r => match r with
      | .patch other locals => if other = slot then locals else n
      | _ => n) 0

/-- The lines that requests make, from a place on, when `n` lines stand before them. The count of a
header is decided by the requests behind its own. -/
def linesFor (place : Position) (n : Nat) : List Request → List Emitted
  | [] => []
  | .moveTo p :: rest => linesFor p n rest
  | .emit i _ :: rest => ⟨i, place⟩ :: linesFor place (n + 1) rest
  | .header name :: rest =>
    ⟨.function name (countFor ⟨n, name⟩ rest), place⟩ :: linesFor place (n + 1) rest
  | .patch _ _ :: rest => linesFor place n rest

/-- The slots of the headers among the lines, when `n` lines stand before them. -/
def slotsIn (n : Nat) (lines : List Emitted) : List HeaderSlot :=
  (lines.zipIdx n).filterMap fun line =>
    line.1.instruction.header?.map fun name => ⟨line.2, name⟩

/-- The second listing is the first one with a count in the header of the slot. The header stays
what and where it is, and so does every other line. -/
structure Listing.Recounts (l : Listing) (slot : HeaderSlot) (locals : UInt16) (m : Listing) :
    Prop where
  position : m.position = l.position
  size : m.lines.size = l.lines.size
  header : ∃ old place, l.lines[slot.offset]? = some ⟨.function slot.name old, place⟩
    ∧ m.lines[slot.offset]? = some ⟨.function slot.name locals, place⟩
  others : ∀ n, n ≠ slot.offset → m.lines[n]? = l.lines[n]?

variable {l : Listing} {slot : HeaderSlot} {locals : UInt16} {requests : List Request}

theorem Instruction.header?_eq_some_iff {i : Instruction} {name : String} :
    i.header? = some name ↔ ∃ count, i = .function name count := by
  constructor
  · intro h
    cases i with
    | function other count =>
      obtain rfl : other = name := Option.some.inj h
      exact ⟨count, rfl⟩
    | push | pop | arithmetic | label | goto | ifGoto | call | return_ => cases h
  · rintro ⟨count, rfl⟩
    rfl

/-! ### One patch -/

@[simp] theorem Listing.position_patch : (l.patch slot locals).1.position = l.position := by
  unfold Listing.patch
  split <;> rfl

theorem Listing.patch_of_not_holds (h : l.holds slot = false) :
    l.patch slot locals = (l, false) := by
  rw [Listing.patch, h]
  rfl

theorem Listing.recounts_patch (h : l.holds slot = true) :
    l.Recounts slot locals (l.patch slot locals).1 := by
  obtain ⟨⟨i, place⟩, hline, hheader⟩ := Listing.holds_iff.1 h
  obtain ⟨old, hi⟩ := Instruction.header?_eq_some_iff.1 hheader
  obtain rfl : i = .function slot.name old := hi
  refine ⟨Listing.position_patch, Listing.size_patch l slot locals, ⟨old, place, hline, ?_⟩, ?_⟩
  · rw [Listing.getElem?_patch, if_pos ⟨h, rfl⟩, hline]
    rfl
  · intro n hn
    rw [Listing.getElem?_patch, if_neg fun hsame => hn hsame.2.symm]

theorem Session.complete_of_holds {s : Session} (hslot : s.slot? = some slot)
    (h : s.listing.holds slot = true) :
    s.complete locals
      = ({ s with listing := (s.listing.patch slot locals).1, slot? := none }, none) := by
  obtain ⟨scope, listing, outline?, className, slot?⟩ := s
  obtain rfl : slot? = some slot := hslot
  simp only [Session.complete]
  split
  · rename_i hpatch
    rw [hpatch]
  · rename_i hpatch
    have hfails := congrArg Prod.snd hpatch
    rw [Listing.snd_patch, h] at hfails
    cases hfails

theorem Session.complete_of_not_holds {s : Session} (hslot : s.slot? = some slot)
    (h : s.listing.holds slot = false) :
    s.complete locals = (s, some (.missingHeader slot.name slot.offset)) := by
  obtain ⟨scope, listing, outline?, className, slot?⟩ := s
  obtain rfl : slot? = some slot := hslot
  simp only [Session.complete, Listing.patch_of_not_holds h]

/-! ### One request more -/

theorem Listing.performAll_concat (l : Listing) (requests : List Request) (r : Request) :
    l.performAll (requests ++ [r]) = (l.performAll requests).perform r := by
  rw [Listing.performAll, List.foldl_append]
  rfl

theorem countFor_concat_patch (other : HeaderSlot) :
    countFor slot (requests ++ [.patch other locals])
      = if other = slot then locals else countFor slot requests := by
  rw [countFor, List.foldl_append]
  rfl

theorem countFor_concat_other {r : Request} (h : ∀ other count, r ≠ .patch other count) :
    countFor slot (requests ++ [r]) = countFor slot requests := by
  rw [countFor, List.foldl_append]
  cases r with
  | patch other count => exact absurd rfl (h other count)
  | moveTo | emit | header => rfl

/-- The place at which requests leave a listing. -/
def placeAfterAll (place : Position) (requests : List Request) : Position :=
  requests.foldl (fun q r => match r with | .moveTo p => p | _ => q) place

theorem Listing.position_performAll (l : Listing) (requests : List Request) :
    (l.performAll requests).position = placeAfterAll l.position requests := by
  induction requests generalizing l with
  | nil => rfl
  | cons r requests ih =>
    refine (ih (l.perform r)).trans ?_
    cases r with
    | moveTo | emit | header => rfl
    | patch slot locals =>
      rw [Listing.perform, Listing.position_patch]
      rfl

/-- A request that is no patch leaves the counts of all headers as they are. -/
theorem linesFor_concat_other {place : Position} {n : Nat} {r : Request}
    (h : ∀ other count, r ≠ .patch other count) :
    linesFor place n (requests ++ [r])
      = linesFor place n requests
        ++ linesFor (placeAfterAll place requests) (n + (linesFor place n requests).length) [r] := by
  induction requests generalizing place n with
  | nil => rfl
  | cons first requests ih =>
    cases first with
    | moveTo | patch => exact ih
    | emit i hi =>
      rw [List.cons_append, linesFor, ih, linesFor, List.length_cons, ← Nat.add_assoc,
        Nat.add_right_comm]
      rfl
    | header name =>
      rw [List.cons_append, linesFor, ih, countFor_concat_other h, linesFor, List.length_cons,
        ← Nat.add_assoc, Nat.add_right_comm]
      rfl

/-- A patch sets the count of the one header that its slot is for. -/
theorem getElem?_linesFor_concat_patch {place : Position} {n j : Nat} :
    (linesFor place n (requests ++ [.patch slot locals]))[j]?
      = (linesFor place n requests)[j]?.map fun e =>
          if e.instruction.header? = some slot.name ∧ slot.offset = n + j then
            { e with instruction := .function slot.name locals }
          else e := by
  induction requests generalizing place n j with
  | nil => rfl
  | cons first requests ih =>
    cases first with
    | moveTo | patch => exact ih
    | emit i hi =>
      rw [List.cons_append, linesFor, linesFor]
      cases j with
      | zero => simp [hi]
      | succ j =>
        rw [List.getElem?_cons_succ, List.getElem?_cons_succ, ih, Nat.add_right_comm, Nat.add_assoc]
    | header name =>
      rw [List.cons_append, linesFor, linesFor]
      cases j with
      | zero =>
        rw [countFor_concat_patch]
        by_cases hsame : slot = ⟨n, name⟩
        · subst hsame
          simp [Instruction.header?]
        · -- the header has another name, or it stands elsewhere
          have hother : ¬(name = slot.name ∧ slot.offset = n) := by
            rintro ⟨rfl, rfl⟩
            exact hsame rfl
          simp [Instruction.header?, hsame, hother]
      | succ j =>
        rw [List.getElem?_cons_succ, List.getElem?_cons_succ, ih, Nat.add_right_comm, Nat.add_assoc]

/-! ### All requests -/

theorem Listing.toList_perform_other {r : Request} (h : ∀ other count, r ≠ .patch other count) :
    (l.perform r).lines.toList = l.lines.toList ++ linesFor l.position l.lines.size [r] := by
  cases r with
  | patch other count => exact absurd rfl (h other count)
  | moveTo p => exact (List.append_nil _).symm
  | emit i hi => exact Listing.toList_emit l i
  | header name => exact Listing.toList_emit l _

theorem toList_performAll (requests : List Request) :
    (Listing.empty.performAll requests).lines.toList = linesFor .nowhere 0 requests := by
  induction requests using List.reverseRecOn with
  | nil => rfl
  | append_singleton requests r ih =>
    by_cases hpatch : ∃ slot locals, r = .patch slot locals
    · obtain ⟨slot, locals, rfl⟩ := hpatch
      refine List.ext_getElem? fun j => ?_
      rw [getElem?_linesFor_concat_patch, ← ih, Listing.performAll_concat, Listing.perform,
        Array.getElem?_toList, Array.getElem?_toList, Listing.getElem?_patch]
      by_cases hj : slot.offset = j
      · subst hj
        cases hline : (Listing.empty.performAll requests).lines[slot.offset]? with
        | none => simp
        | some e =>
          by_cases hname : e.instruction.header? = some slot.name
          · simp [Listing.holds, hline, hname]
          · simp [Listing.holds, hline, hname]
      · simp [hj]
    · have hother : ∀ slot locals, r ≠ .patch slot locals := by
        intro slot locals hr
        exact hpatch ⟨slot, locals, hr⟩
      have hsize : (Listing.empty.performAll requests).lines.size
          = (linesFor .nowhere 0 requests).length := by
        rw [← ih, Array.length_toList]
      rw [Listing.performAll_concat, Listing.toList_perform_other hother, ih,
        linesFor_concat_other hother, Listing.position_performAll, hsize, Nat.zero_add]
      rfl

theorem slotsIn_cons (n : Nat) (e : Emitted) (lines : List Emitted) :
    slotsIn n (e :: lines) = match e.instruction.header? with
      | some name => ⟨n, name⟩ :: slotsIn (n + 1) lines
      | none => slotsIn (n + 1) lines := by
  rw [slotsIn, List.zipIdx_cons, List.filterMap_cons]
  cases e.instruction.header? <;> rfl

/-- By induction on the requests: the next slot is for the line behind those that stand already. -/
theorem Listing.slotsOf_eq (l : Listing) (requests : List Request) :
    l.slotsOf requests = slotsIn l.lines.size (linesFor l.position l.lines.size requests) := by
  induction requests generalizing l with
  | nil => rfl
  | cons r requests ih =>
    cases r with
    | moveTo p => exact ih (l.moveTo p)
    | emit i hi =>
      rw [Listing.slotsOf, ih, linesFor, slotsIn_cons, hi]
      simp [Listing.emit]
    | header name =>
      rw [Listing.slotsOf, ih, linesFor, slotsIn_cons]
      simp [Listing.header, Listing.emit, Listing.slot, Instruction.header?]
    | patch slot locals =>
      rw [Listing.slotsOf, ih, Listing.position_patch, Listing.size_patch, linesFor]

theorem mem_slotsIn_iff {n : Nat} {lines : List Emitted} :
    slot ∈ slotsIn n lines ↔ n ≤ slot.offset
      ∧ ∃ e, lines[slot.offset - n]? = some e ∧ e.instruction.header? = some slot.name := by
  rw [slotsIn, List.mem_filterMap]
  constructor
  · rintro ⟨⟨e, offset⟩, hmem, hslot⟩
    obtain ⟨hle, hline⟩ := List.mem_zipIdx_iff_le_and_getElem?_sub.1 hmem
    obtain ⟨name, hname, rfl⟩ := Option.map_eq_some_iff.1 hslot
    exact ⟨hle, e, hline, hname⟩
  · rintro ⟨hle, e, hline, hname⟩
    refine ⟨(e, slot.offset), List.mem_zipIdx_iff_le_and_getElem?_sub.2 ⟨hle, hline⟩, ?_⟩
    rw [hname]
    rfl

theorem holds_of_mem_slotsOf (h : slot ∈ Listing.empty.slotsOf requests) :
    (Listing.empty.performAll requests).holds slot = true := by
  rw [Listing.slotsOf_eq] at h
  obtain ⟨-, e, hline, hheader⟩ := mem_slotsIn_iff.1 h
  have hlines := toList_performAll requests
  refine Listing.holds_iff.2 ⟨e, ?_, hheader⟩
  rw [← Array.getElem?_toList, hlines]
  exact hline

/-- The lines are the instructions that were asked for, in that order and at the places that held
when they were, with the count of every header as the last patch through its slot has set it. The
slots handed out are those of the headers; a patch through one of them succeeds, and nothing but the
count of its header changes. A patch through any slot succeeds just where a header of the slot's
name stands, and otherwise it is refused with the slot's name and offset, and nothing changes. -/
theorem lines_are_what_was_asked_for (requests : List Request) :
    let l := Listing.empty.performAll requests
    l.lines.toList = linesFor .nowhere 0 requests
      ∧ Listing.empty.slotsOf requests = slotsIn 0 l.lines.toList
      ∧ (∀ slot ∈ Listing.empty.slotsOf requests, ∀ locals,
        (l.patch slot locals).2 = true ∧ l.Recounts slot locals (l.patch slot locals).1)
      ∧ ∀ slot locals,
        ((l.patch slot locals).2 = true ↔
          ∃ e, l.lines[slot.offset]? = some e ∧ e.instruction.header? = some slot.name)
        ∧ ((l.patch slot locals).2 = true → l.Recounts slot locals (l.patch slot locals).1
          ∧ ∀ s : Session, s.listing = l → s.slot? = some slot → s.complete locals
            = ({ s with listing := (l.patch slot locals).1, slot? := none }, none))
        ∧ ((l.patch slot locals).2 = false → (l.patch slot locals).1 = l
          ∧ ∀ s : Session, s.listing = l → s.slot? = some slot →
            s.complete locals = (s, some (.missingHeader slot.name slot.offset))) := by
  intro l
  refine ⟨toList_performAll requests, ?_, ?_, ?_⟩
  · rw [toList_performAll]
    exact Listing.slotsOf_eq .empty requests
  · intro slot hslot locals
    have hholds : l.holds slot = true := holds_of_mem_slotsOf hslot
    exact ⟨(Listing.snd_patch l slot locals).trans hholds, Listing.recounts_patch hholds⟩
  · intro slot locals
    rw [Listing.snd_patch]
    refine ⟨Listing.holds_iff, fun hholds => ⟨Listing.recounts_patch hholds, ?_⟩,
      fun hnot => ⟨?_, ?_⟩⟩
    · intro s hlisting hslot
      rw [← hlisting]
      exact Session.complete_of_holds hslot (hlisting ▸ hholds)
    · rw [Listing.patch_of_not_holds hnot]
    · intro s hlisting hslot
      exact Session.complete_of_not_holds hslot (hlisting ▸ hnot)

/-- Headers of one name are told apart by where they stand. -/
example : (Listing.empty.performAll [.header "A.f", .emit .return_ rfl, .header "A.f",
      .patch ⟨2, "A.f"⟩ 4, .patch ⟨0, "A.f"⟩ 1, .patch ⟨2, "A.g"⟩ 5]).lines.toList
    = [⟨.function "A.f" 1, .nowhere⟩, ⟨.return_, .nowhere⟩, ⟨.function "A.f" 4, .nowhere⟩] := by
  rfl

end Jack
