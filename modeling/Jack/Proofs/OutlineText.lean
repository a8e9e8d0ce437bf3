import Mathlib.Data.List.DropRight
import Jack.Outline
import Jack.Proofs.Syntax

/-! The text of an outline can be read again. Each line with a word gives back the category and the
text of the word, and what is said of a variable comes after the last element of its line. -/

namespace Jack

/-- A word as a line of an outline shows it: its category, its text, and what is said of it. -/
structure Leaf where
  tag : String
  text : String
  note : String
  deriving DecidableEq, Repr

/-- Puts the characters that elements are made of back. -/
def unescape : List Char → List Char
  | '&' :: 'l' :: 't' :: ';' :: cs => '<' :: unescape cs
  | '&' :: 'g' :: 't' :: ';' :: cs => '>' :: unescape cs
  | '&' :: 'a' :: 'm' :: 'p' :: ';' :: cs => '&' :: unescape cs
  | c :: cs => c :: unescape cs
  | [] => []

/-- The word that a line shows. A line that opens or closes an element shows none. -/
def Leaf.ofLine? (line : List Char) : Option Leaf :=
  match line.dropWhile (· = ' ') with
  | '<' :: cs =>
    match cs.dropWhile (· ≠ '>') with
    | '>' :: ' ' :: body =>
      some ⟨String.ofList (cs.takeWhile (· ≠ '>')),
        String.ofList (unescape (body.takeWhile (· ≠ '<')).dropLast),
        String.ofList ((body.dropWhile (· ≠ '>')).drop 2)⟩
    | _ => none
  | _ => none

/-- The words that a text shows, line by line. -/
def leavesOf (text : String) : List Leaf := (text.toList.splitOn '\n').filterMap Leaf.ofLine?

/-- A text without what follows the last element of each line. -/
def withoutNotes (text : String) : String :=
  String.ofList (['\n'].intercalate ((text.toList.splitOn '\n').map (List.rdropWhile (· ≠ '>'))))

/-! ### Lines -/

theorem unescape_cons {c : Char} (h : c ≠ '&') (cs : List Char) :
    unescape (c :: cs) = c :: unescape cs := by
  conv_lhs => unfold unescape
  split <;> simp_all

theorem unescape_flatMap_escapeChar (cs : List Char) : unescape (cs.flatMap escapeChar) = cs := by
  induction cs with
  | nil => rfl
  | cons c cs ih =>
    rw [List.flatMap_cons]
    by_cases hl : c = '<'
    · subst hl
      exact congrArg _ ih
    · by_cases hg : c = '>'
      · subst hg
        exact congrArg _ ih
      · by_cases ha : c = '&'
        · subst ha
          exact congrArg _ ih
        · have hc : escapeChar c = [c] := by simp [escapeChar]
          rw [hc, List.singleton_append, unescape_cons ha, ih]

/-- An escaped text holds no mark of an element, and only the line feeds of the text. -/
theorem mem_flatMap_escapeChar {cs : List Char} {c : Char} (h : c ∈ cs.flatMap escapeChar) :
    c ≠ '<' ∧ c ≠ '>' ∧ (c = '\n' → '\n' ∈ cs) := by
  obtain ⟨d, hd, hc⟩ := List.mem_flatMap.1 h
  by_cases hs : d = '<' ∨ d = '>' ∨ d = '&'
  · have hall : (escapeChar d).all (fun x => x ≠ '<' ∧ x ≠ '>' ∧ x ≠ '\n') = true := by
      rcases hs with rfl | rfl | rfl <;> rfl
    have hplain := of_decide_eq_true (List.all_eq_true.1 hall c hc)
    exact ⟨hplain.1, hplain.2.1, fun h => absurd h hplain.2.2⟩
  · rw [not_or, not_or] at hs
    have hc' : c ∈ [d] := by simpa [escapeChar, hs] using hc
    obtain rfl := List.mem_singleton.1 hc'
    exact ⟨hs.1, hs.2.1, fun hn => hn ▸ hd⟩

theorem toList_element (tag text : String) :
    (element tag text).toList = '<' :: tag.toList ++ '>' :: ' ' :: text.toList.flatMap escapeChar
      ++ ' ' :: '<' :: '/' :: tag.toList ++ ['>'] := by
  simp [element, escape]

/-- The spaces before a line do not matter. -/
theorem Leaf.ofLine?_indented (n : Nat) (cs : List Char) :
    Leaf.ofLine? (List.replicate n ' ' ++ '<' :: cs) = Leaf.ofLine? ('<' :: cs) := by
  have hd : (List.replicate n ' ' ++ '<' :: cs).dropWhile (· = ' ') = '<' :: cs := by
    rw [List.dropWhile_append_of_pos (by simp), List.dropWhile_cons_of_neg (by decide)]
  have hd' : ('<' :: cs).dropWhile (· = ' ') = '<' :: cs := by
    rw [List.dropWhile_cons_of_neg (by decide)]
  rw [Leaf.ofLine?, Leaf.ofLine?, hd, hd']

/-- The first mark that closes ends what stands before it. -/
theorem dropWhile_mark {cs : List Char} {mark : Char} (h : mark ∉ cs) (rest : List Char) :
    (cs ++ mark :: rest).dropWhile (· ≠ mark) = mark :: rest := by
  rw [List.dropWhile_append_of_pos, List.dropWhile_cons_of_neg (by simp)]
  intro c hc
  simpa using fun hm : c = mark => h (hm ▸ hc)

theorem takeWhile_mark {cs : List Char} {mark : Char} (h : mark ∉ cs) (rest : List Char) :
    (cs ++ mark :: rest).takeWhile (· ≠ mark) = cs := by
  rw [List.takeWhile_append_of_pos, List.takeWhile_cons_of_neg (by simp), List.append_nil]
  intro c hc
  simpa using fun hm : c = mark => h (hm ▸ hc)

theorem Leaf.ofLine?_tag {name : List Char} (h : '>' ∉ name) (n : Nat) :
    Leaf.ofLine? (List.replicate n ' ' ++ '<' :: name ++ ['>']) = none := by
  rw [List.append_assoc, List.cons_append, Leaf.ofLine?_indented, Leaf.ofLine?,
    List.dropWhile_cons_of_neg (by decide)]
  simp only [dropWhile_mark h]

theorem Leaf.ofLine?_element {tag : String} (h : '>' ∉ tag.toList) (text : String)
    (note : List Char) (n : Nat) :
    Leaf.ofLine? (List.replicate n ' ' ++ ((element tag text).toList ++ note))
      = some ⟨tag, text, String.ofList (note.drop 1)⟩ := by
  have htext : '<' ∉ text.toList.flatMap escapeChar ++ [' '] := by
    intro hm
    rcases List.mem_append.1 hm with hm | hm
    · exact (mem_flatMap_escapeChar hm).1 rfl
    · simp at hm
  have hbody : '>' ∉ text.toList.flatMap escapeChar ++ ' ' :: '<' :: '/' :: tag.toList := by
    intro hm
    rcases List.mem_append.1 hm with hm | hm
    · exact (mem_flatMap_escapeChar hm).2.1 rfl
    · simp [h] at hm
  have hline : (element tag text).toList ++ note
      = '<' :: (tag.toList ++ '>' :: (' ' :: text.toList.flatMap escapeChar
        ++ ' ' :: '<' :: '/' :: tag.toList ++ '>' :: note)) := by
    simp [toList_element]
  have htake := takeWhile_mark htext ('/' :: tag.toList ++ '>' :: note)
  have hdrop := dropWhile_mark hbody note
  rw [hline, Leaf.ofLine?_indented, Leaf.ofLine?, List.dropWhile_cons_of_neg (by decide)]
  simp only [dropWhile_mark h, takeWhile_mark h]
  simp only [List.append_assoc, List.cons_append, List.nil_append] at htake hdrop ⊢
  rw [htake, hdrop]
  simp [unescape_flatMap_escapeChar]

/-- What follows the last mark of a line is cut off. -/
theorem rdropWhile_mark {note : List Char} (h : '>' ∉ note) (cs : List Char) :
    (cs ++ '>' :: note).rdropWhile (· ≠ '>') = cs ++ ['>'] := by
  have hn : ∀ c ∈ note.reverse, decide (c ≠ '>') = true := by
    intro c hc
    simpa using fun hm : c = '>' => h (hm ▸ List.mem_reverse.1 hc)
  rw [List.rdropWhile, List.reverse_append, List.reverse_cons, List.append_assoc,
    List.dropWhile_append_of_pos hn, List.singleton_append,
    List.dropWhile_cons_of_neg (by decide)]
  simp

theorem leavesOf_append {line : String} {cs : List Char} (hl : line.toList = cs ++ ['\n'])
    (hn : '\n' ∉ cs) (rest : String) :
    leavesOf (line ++ rest) = (Leaf.ofLine? cs).toList ++ leavesOf rest := by
  rw [leavesOf, String.toList_append, hl, List.append_assoc, List.singleton_append,
    List.splitOn_append_cons_self_of_not_mem hn, List.filterMap_cons]
  cases Leaf.ofLine? cs <;> rfl

theorem withoutNotes_append {line bare : String} {cs : List Char}
    (hl : line.toList = cs ++ ['\n']) (hn : '\n' ∉ cs)
    (hb : bare.toList = cs.rdropWhile (· ≠ '>') ++ ['\n']) (rest : String) :
    withoutNotes (line ++ rest) = bare ++ withoutNotes rest := by
  apply String.toList_inj.1
  rw [withoutNotes, String.toList_append, hl, List.append_assoc, List.singleton_append,
    List.splitOn_append_cons_self_of_not_mem hn, List.map_cons,
    List.intercalate_cons_of_ne_nil (by simp), String.toList_ofList, String.toList_append, hb,
    withoutNotes, String.toList_ofList, List.append_assoc]

/-! ### Entries -/

/-- A text that ends neither a line nor an element. -/
def Inline (text : String) : Prop := '>' ∉ text.toList ∧ '\n' ∉ text.toList

instance (text : String) : Decidable (Inline text) :=
  inferInstanceAs (Decidable ('>' ∉ text.toList ∧ '\n' ∉ text.toList))

theorem Inline.append {text more : String} (h : Inline text) (hm : Inline more) :
    Inline (text ++ more) := by
  simp only [Inline, String.toList_append, List.mem_append, not_or] at *
  exact ⟨⟨h.1, hm.1⟩, h.2, hm.2⟩

/-- The word that the line of an entry shows. -/
def OutlineEntry.leaf? : OutlineEntry → Option Leaf
  | .enter _ | .leave _ => none
  | .leaf lexeme => some ⟨lexeme.category.name, lexeme.text, ""⟩
  | .variable name defines meaning =>
    some ⟨Category.identifier.name, name, remark defines meaning⟩

/-- The entry without what it says of a variable. -/
def OutlineEntry.bare : OutlineEntry → OutlineEntry
  | .variable name _ _ => .leaf (.identifier name)
  | e => e

/-- The line of the entry is one line, and no mark of an element stands after its elements. -/
def OutlineEntry.Clean : OutlineEntry → Prop
  | .enter tag | .leave tag => Inline tag
  | .leaf lexeme => '\n' ∉ lexeme.text.toList
  | .variable name defines meaning => '\n' ∉ name.toList ∧ Inline (remark defines meaning)

@[simp] theorem OutlineEntry.depthAfter_bare (e : OutlineEntry) (depth : Nat) :
    e.bare.depthAfter depth = e.depthAfter depth := by
  cases e <;> rfl

/-- The characters of the line of an entry, as they are read again. -/
structure OutlineEntry.ReadFrom (e : OutlineEntry) (depth : Nat) (cs : List Char) : Prop where
  line : (e.line depth).toList = cs ++ ['\n']
  oneLine : '\n' ∉ cs
  leaf : Leaf.ofLine? cs = e.leaf?
  bare : (e.bare.line depth).toList = cs.rdropWhile (· ≠ '>') ++ ['\n']

theorem toList_indentation (depth : Nat) :
    (indentation depth).toList = List.replicate (2 * depth) ' ' := by
  simp [indentation]

theorem Category.inline_name (c : Category) : Inline c.name := by
  cases c <;> decide

theorem OutlineEntry.readFrom_tag (name : List Char) (hg : '>' ∉ name) (hn : '\n' ∉ name)
    {e : OutlineEntry} {n depth : Nat}
    (hl : (e.line depth).toList = List.replicate n ' ' ++ '<' :: name ++ ['>'] ++ ['\n'])
    (he : e.leaf? = none) (hb : e.bare = e) : ∃ cs, e.ReadFrom depth cs := by
  refine ⟨List.replicate n ' ' ++ '<' :: name ++ ['>'], hl, ?_, ?_, ?_⟩
  · simp [hn]
  · rw [Leaf.ofLine?_tag hg, he]
  · rw [hb, hl, rdropWhile_mark (by simp)]

theorem OutlineEntry.readFrom_element (c : Category) {text : String} (note : List Char)
    (ht : '\n' ∉ text.toList) (hg : '>' ∉ note) (hn : '\n' ∉ note) {e : OutlineEntry} {depth : Nat}
    (hl : (e.line depth).toList
      = List.replicate (2 * depth) ' ' ++ ((element c.name text).toList ++ note) ++ ['\n'])
    (he : e.leaf? = some ⟨c.name, text, String.ofList (note.drop 1)⟩)
    (hb : (e.bare.line depth).toList
      = List.replicate (2 * depth) ' ' ++ (element c.name text).toList ++ ['\n']) :
    ∃ cs, e.ReadFrom depth cs := by
  refine ⟨_, hl, ?_, ?_, ?_⟩
  · have htext : '\n' ∉ text.toList.flatMap escapeChar :=
      fun hm => ht ((mem_flatMap_escapeChar hm).2.2 rfl)
    simp [toList_element, hn, c.inline_name.2, htext]
  · rw [Leaf.ofLine?_element c.inline_name.1, he]
  · rw [hb, toList_element]
    have hcut := rdropWhile_mark hg (List.replicate (2 * depth) ' ' ++ ('<' :: c.name.toList
      ++ '>' :: ' ' :: text.toList.flatMap escapeChar ++ ' ' :: '<' :: '/' :: c.name.toList))
    simp only [List.append_assoc, List.cons_append, List.nil_append] at hcut ⊢
    rw [hcut]
    simp

theorem OutlineEntry.Clean.readFrom {e : OutlineEntry} (h : e.Clean) (depth : Nat) :
    ∃ cs, e.ReadFrom depth cs := by
  match e, h with
  | .enter tag, h =>
    refine OutlineEntry.readFrom_tag tag.toList (n := 2 * depth) h.1 h.2 ?_ rfl rfl
    simp [OutlineEntry.line, toList_indentation]
  | .leave tag, h =>
    refine OutlineEntry.readFrom_tag ('/' :: tag.toList) (n := 2 * (depth - 1)) ?_ ?_ ?_ rfl rfl
    · simpa using h.1
    · simpa using h.2
    · simp [OutlineEntry.line, toList_indentation]
  | .leaf lexeme, h =>
    refine OutlineEntry.readFrom_element lexeme.category [] h (by simp) (by simp) ?_ rfl ?_
    · simp [OutlineEntry.line, toList_indentation]
    · simp [OutlineEntry.bare, OutlineEntry.line, toList_indentation]
  | .variable name defines meaning, ⟨hname, hg, hn⟩ =>
    refine OutlineEntry.readFrom_element .identifier (' ' :: (remark defines meaning).toList)
      hname (by simpa using hg) (by simpa using hn) ?_ ?_ ?_
    · simp [OutlineEntry.line, toList_indentation]
    · simp [OutlineEntry.leaf?]
    · simp [OutlineEntry.bare, OutlineEntry.line, toList_indentation, Lexeme.category, Lexeme.text]

/-- The text of entries shows their words. -/
theorem leavesOf_renderEntries {es : List OutlineEntry} (h : ∀ e ∈ es, e.Clean) (depth : Nat) :
    leavesOf (renderEntries "" depth es) = es.filterMap OutlineEntry.leaf? := by
  induction es generalizing depth with
  | nil => rfl
  | cons e es ih =>
    obtain ⟨he, hes⟩ := List.forall_mem_cons.1 h
    obtain ⟨cs, hcs⟩ := he.readFrom depth
    rw [renderEntries_cons, leavesOf_append hcs.line hcs.oneLine, hcs.leaf, ih hes,
      List.filterMap_cons]
    cases e.leaf? <;> rfl

theorem withoutNotes_renderEntries {es : List OutlineEntry} (h : ∀ e ∈ es, e.Clean)
    (depth : Nat) :
    withoutNotes (renderEntries "" depth es)
      = renderEntries "" depth (es.map OutlineEntry.bare) := by
  induction es generalizing depth with
  | nil => rfl
  | cons e es ih =>
    obtain ⟨he, hes⟩ := List.forall_mem_cons.1 h
    obtain ⟨cs, hcs⟩ := he.readFrom depth
    rw [List.map_cons, renderEntries_cons, renderEntries_cons,
      withoutNotes_append hcs.line hcs.oneLine hcs.bare, ih hes, OutlineEntry.depthAfter_bare]

end Jack
