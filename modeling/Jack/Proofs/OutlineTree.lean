import Jack.Proofs.Lexing
import Jack.Proofs.Outlining

/-! The text of an outline is the text of the derivation tree with the variables explained at the
ends of its lines. Its leaves are the tokens of the source, so they can be read from it. -/

namespace Jack

/-! ### The text of a tree -/

/-- The entry of a mark, variables not explained. -/
def Mark.bare : Mark → OutlineEntry
  | .enter p => .enter p.name
  | .leave p => .leave p.name
  | .sign s => .leaf s.lexeme

theorem Mark.bare_entry (lookup : String → Option Variable) (m : Mark) :
    (m.entry lookup).bare = m.bare := by
  match m with
  | .enter _ | .leave _ => rfl
  | .sign (.word _) | .sign (.declared _) => rfl
  | .sign (.identifier .receiver name) | .sign (.identifier .callee name) =>
    simp only [Mark.entry, Sign.entry]
    cases lookup name <;> rfl
  | .sign (.identifier .value _) | .sign (.identifier .base _)
  | .sign (.identifier .target _) => rfl
  | .sign (.identifier .class_ _) | .sign (.identifier .type _)
  | .sign (.identifier .subroutine _) => rfl

theorem Setting.bare_outline (x : Setting) (ms : List Mark) :
    (x.outline ms).map OutlineEntry.bare = ms.map Mark.bare := by
  induction ms generalizing x with
  | nil => rfl
  | cons m ms ih => rw [Setting.outline, List.map_cons, List.map_cons, Mark.bare_entry, ih]

theorem Production.tag_eq_name (p : Production) : p.tag = p.name := by
  cases p <;> rfl

theorem Lexeme.tag_eq_name (l : Lexeme) : l.tag = l.category.name := by
  cases l <;> rfl

theorem betweenTags_cons (c : Char) (cs : List Char) :
    betweenTags (c :: cs) = String.ofList (escapeChar c) ++ betweenTags cs := by
  unfold escapeChar
  split
  · rfl
  · rfl
  · rfl
  · rename_i hl hg ha
    rw [betweenTags.eq_5 c cs hl hg ha]
    rfl

theorem betweenTags_eq_escape (text : String) : betweenTags text.toList = escape text := by
  rw [escape]
  induction text.toList with
  | nil => rfl
  | cons c cs ih => rw [betweenTags_cons, ih, List.flatMap_cons, String.ofList_append]

theorem nestedLine_eq (depth : Nat) (line : String) :
    nestedLine depth line = indentation depth ++ line ++ "\n" := by
  induction depth with
  | zero => simp [nestedLine, indentation]
  | succ depth ih =>
    have hspaces : indentation (depth + 1) = "  " ++ indentation depth := by
      simp [indentation, Nat.mul_succ, List.replicate_succ, ← String.toList_inj]
    rw [nestedLine, ih, hspaces]
    simp only [String.append_assoc]

mutual

theorem Element.renderEntries_marks (e : Element) (depth : Nat) (rest : List OutlineEntry) :
    renderEntries "" depth (e.marks.map Mark.bare ++ rest)
      = e.text depth ++ renderEntries "" depth rest := by
  match e with
  | .inner p children =>
    have hchildren := renderEntries_marksOf children (depth + 1) (.leave p.name :: rest)
    have hclose : ">\n" = ">" ++ "\n" := rfl
    simp only [Element.marks_inner, List.map_append, List.map_cons, List.map_nil, Mark.bare,
      List.cons_append, List.append_assoc, List.nil_append, renderEntries_cons,
      OutlineEntry.depthAfter, hchildren, OutlineEntry.line, Nat.add_sub_cancel, Element.text,
      nestedLine_eq, Production.tag_eq_name, hclose, String.append_assoc]
  | .leaf s =>
    simp only [Element.marks_leaf, List.map_cons, List.map_nil, Mark.bare, List.cons_append,
      List.nil_append, renderEntries_cons, OutlineEntry.depthAfter, OutlineEntry.line, Element.text,
      nestedLine_eq, Lexeme.tag_eq_name, betweenTags_eq_escape, element]

theorem renderEntries_marksOf (es : List Element) (depth : Nat) (rest : List OutlineEntry) :
    renderEntries "" depth ((marksOf es).map Mark.bare ++ rest)
      = elementsText depth es ++ renderEntries "" depth rest := by
  match es with
  | [] => simp [elementsText]
  | e :: es =>
    rw [marksOf_cons, List.map_append, List.append_assoc, e.renderEntries_marks,
      renderEntries_marksOf es, elementsText, String.append_assoc]

end

/-! ### The leaves of a tree -/

/-- What an outline shows of a word. -/
def Lexeme.shown (l : Lexeme) : String × String := (l.tag, l.text)

theorem Lexeme.category_eq_of_tag {l m : Lexeme} (h : l.tag = m.tag) : l.category = m.category := by
  revert h
  cases l <;> cases m <;> simp [Lexeme.tag, Lexeme.category]

theorem toNat_of_toString {m n : Nat} (h : toString m = toString n) : m = n := by
  rw [Nat.toString_eq_ofList_toDigits, Nat.toString_eq_ofList_toDigits] at h
  have hdigits := congrArg (fun ds => Nat.ofDigitChars 10 ds 0) (String.ofList_injective h)
  simpa only [Nat.ofDigitChars_ten_toDigits] using hdigits

theorem Lexeme.shown_injective : Function.Injective Lexeme.shown := by
  intro l m h
  obtain ⟨hname, htext⟩ := Prod.mk.inj h
  have hc := Lexeme.category_eq_of_tag hname
  cases l with
  | keyword j =>
    cases m with
    | keyword k => rw [Keyword.spelling_injective htext]
    | _ => cases hc
  | symbol p =>
    cases m with
    | symbol q =>
      have hchar : p.char = q.char := by simpa [Lexeme.text, ← String.toList_inj] using htext
      have hof := Punctuation.ofChar?_eq_some_iff.2 hchar
      rw [Punctuation.ofChar?_eq_some_iff.2 rfl] at hof
      rw [Option.some.inj hof]
    | _ => cases hc
  | integer n =>
    cases m with
    | integer k => rw [UInt16.toNat.inj (toNat_of_toString htext)]
    | _ => cases hc
  | string text =>
    cases m with
    | string more => exact congrArg Lexeme.string htext
    | _ => cases hc
  | identifier name =>
    cases m with
    | identifier other => exact congrArg Lexeme.identifier htext
    | _ => cases hc

def Leaf.shown (l : Leaf) : String × String := (l.tag, l.text)

theorem Mark.leaf?_entry (lookup : String → Option Variable) (m : Mark) :
    (m.entry lookup).leaf?.map Leaf.shown = m.sign?.map fun s => s.lexeme.shown := by
  simp only [Lexeme.shown, Lexeme.tag_eq_name]
  match m with
  | .enter _ | .leave _ => rfl
  | .sign (.word _) | .sign (.declared _) => rfl
  | .sign (.identifier .receiver name) | .sign (.identifier .callee name) =>
    simp only [Mark.entry, Sign.entry]
    cases lookup name <;> rfl
  | .sign (.identifier .value _) | .sign (.identifier .base _)
  | .sign (.identifier .target _) => rfl
  | .sign (.identifier .class_ _) | .sign (.identifier .type _)
  | .sign (.identifier .subroutine _) => rfl

/-- The entries of a tree show its words. -/
theorem Setting.shown_outline (x : Setting) (ms : List Mark) :
    ((x.outline ms).filterMap OutlineEntry.leaf?).map Leaf.shown
      = (ms.filterMap Mark.sign?).map fun s => s.lexeme.shown := by
  induction ms generalizing x with
  | nil => rfl
  | cons m ms ih =>
    have hm := Mark.leaf?_entry (x.afterMark m).environment.lookup m
    rw [Setting.outline, List.filterMap_cons, List.filterMap_cons]
    cases he : (m.entry (x.afterMark m).environment.lookup).leaf? <;>
      cases hs : m.sign? <;> rw [he, hs] at hm <;> simp_all

/-! ### Every entry is one line -/

theorem Production.inline_name (p : Production) : Inline p.name := by
  cases p <;> decide

theorem Kind.inline_name (kind : Kind) : Inline kind.name := by
  cases kind <;> decide

theorem Inline.of_isWordChar {text : String} (h : ∀ c ∈ text.toList, isWordChar c = true) :
    Inline text := by
  refine ⟨fun hg => ?_, fun hn => ?_⟩
  · exact absurd (h _ hg) (by decide)
  · exact absurd (h _ hn) (by decide)

theorem inline_toString (n : Nat) : Inline (toString n) := by
  apply Inline.of_isWordChar
  intro c hc
  rw [Nat.toString_eq_ofList_toDigits, String.toList_ofList] at hc
  exact isWordChar_of_isDigit (Nat.isDigit_of_mem_toDigits (by decide) (by decide) hc)

theorem inline_remark {meaning : Option Variable}
    (h : ∀ v, meaning = some v → Inline v.type) (defines : Bool) :
    Inline (remark defines meaning) := by
  have hdefined : Inline ("defined: " ++ if defines then "true" else "false") := by
    cases defines <;> decide
  cases meaning with
  | none => exact hdefined.append (show Inline ", kind: none" by decide)
  | some v =>
    have htype := (hdefined.append (show Inline ", type: " by decide)).append (h v rfl)
    have hkind := (htype.append (show Inline ", kind: " by decide)).append v.kind.inline_name
    exact (hkind.append (show Inline ", index: " by decide)).append (inline_toString _)

/-- A word that its line can show. -/
def Sign.Clean : Sign → Prop
  | .word lexeme => '\n' ∉ lexeme.text.toList
  | .identifier _ name => Inline name
  | .declared d => Inline d.name ∧ Inline d.type

def Mark.Clean : Mark → Prop
  | .enter _ | .leave _ => True
  | .sign s => s.Clean

/-- Types that lines can show. -/
structure Setting.Clean (x : Setting) : Prop where
  className : Inline x.className
  types : ∀ v ∈ x.environment.ofClass ++ x.environment.ofSubroutine, Inline v.type

theorem Setting.Clean.declare {x : Setting} (hx : x.Clean) {d : Declared} (hd : Inline d.type) :
    Setting.Clean { x with environment := x.environment.declare d } := by
  refine ⟨hx.className, fun v hv => ?_⟩
  rcases Environment.mem_declare hv with rfl | hv
  · exact hd
  · exact hx.types v hv

theorem Setting.Clean.afterMark {x : Setting} (hx : x.Clean) {m : Mark} (hm : m.Clean) :
    (x.afterMark m).Clean := by
  unfold Setting.afterMark
  split
  · refine ⟨hx.className, fun v hv => hx.types v ?_⟩
    rw [Environment.startSubroutine, List.append_nil] at hv
    exact List.mem_append_left _ hv
  · exact hx.declare hx.className
  · exact ⟨hm, hx.types⟩
  · exact hx.declare hm.2
  · exact hx

theorem Mark.Clean.entry {x : Setting} (hx : x.Clean) {m : Mark} (hm : m.Clean) :
    (m.entry x.environment.lookup).Clean := by
  have hvariable : ∀ name defines, Inline name →
      (OutlineEntry.variable name defines (x.environment.lookup name)).Clean :=
    fun name defines hn => ⟨hn.2, inline_remark
      (fun v hv => hx.types v (Environment.mem_of_lookup hv)) defines⟩
  match m, hm with
  | .enter p, _ | .leave p, _ => exact p.inline_name
  | .sign (.word _), hm => exact hm
  | .sign (.declared d), hm => exact hvariable d.name true hm.1
  | .sign (.identifier .value name), hm | .sign (.identifier .base name), hm
  | .sign (.identifier .target name), hm => exact hvariable name false hm
  | .sign (.identifier .receiver name), hm | .sign (.identifier .callee name), hm =>
    have hv := hvariable name false hm
    simp only [Mark.entry, Sign.entry]
    split
    · rename_i v hs
      rwa [hs] at hv
    · exact hm.2
  | .sign (.identifier .class_ name), hm | .sign (.identifier .type name), hm
  | .sign (.identifier .subroutine name), hm => exact hm.2

theorem Setting.Clean.outline {x : Setting} (hx : x.Clean) {ms : List Mark}
    (h : ∀ m ∈ ms, m.Clean) : ∀ e ∈ x.outline ms, e.Clean := by
  induction ms generalizing x with
  | nil => simp [Setting.outline]
  | cons m ms ih =>
    obtain ⟨hm, hms⟩ := List.forall_mem_cons.1 h
    have hafter := hx.afterMark hm
    exact List.forall_mem_cons.2 ⟨hm.entry hafter, ih hafter hms⟩

/-! ### The words of a class can be shown -/

theorem Lexeme.Valid.inline_identifier {name : String} (h : (Lexeme.identifier name).Valid) :
    Inline name := by
  obtain ⟨⟨c, cs, hcs, -, hall⟩, -⟩ := h
  apply Inline.of_isWordChar
  rw [hcs]
  exact hall

theorem Lexeme.Valid.text {l : Lexeme} (h : l.Valid) : '\n' ∉ l.text.toList := by
  cases l with
  | keyword k => cases k <;> decide
  | symbol m => cases m <;> decide
  | integer n => exact (inline_toString _).2
  | string text => exact fun hn => (h.2 _ hn).2.2 rfl
  | identifier name => exact h.inline_identifier.2

theorem TypeName.inline_spelling {t : TypeName} (h : t.lexeme.Valid) : Inline t.spelling := by
  cases t with
  | class_ name => exact h.inline_identifier
  | _ => decide

/-- The types of declared names are words of the class. -/
theorem ClassDec.inline_types {c : ClassDec} (h : ∀ l ∈ c.lexemes, l.Valid) :
    ∀ d ∈ declaredBy [c.element], Inline d.type := by
  intro e he
  rw [ClassDec.declaredBy_element, List.mem_append] at he
  rcases he with he | he
  · obtain ⟨t, ht, htype⟩ := ClassDec.exists_type_of_mem_declared he
    rw [htype]
    exact TypeName.inline_spelling (h _ ht)
  · obtain ⟨d, hd, he⟩ := List.mem_flatMap.1 he
    obtain ⟨t, ht, htype⟩ := SubroutineDec.exists_type_of_mem he
    rw [htype]
    exact TypeName.inline_spelling (h _ (ClassDec.mem_lexemes_of_subroutine hd ht))

theorem ClassDec.clean_marks {c : ClassDec} (h : ∀ l ∈ c.lexemes, l.Valid) :
    ∀ m ∈ c.element.marks, m.Clean := by
  intro m hm
  match m, hm with
  | .enter _, _ | .leave _, _ => trivial
  | .sign s, hm =>
    have hs : s ∈ c.element.signs := List.mem_filterMap.2 ⟨_, hm, rfl⟩
    have hvalid : s.lexeme.Valid := h _ (c.lexemes_element ▸ List.mem_map_of_mem hs)
    match s, hs, hvalid with
    | .word _, _, hvalid => exact hvalid.text
    | .identifier _ _, _, hvalid => exact hvalid.inline_identifier
    | .declared d, hs, hvalid =>
      have hd : d ∈ declaredBy [c.element] :=
        List.mem_filterMap.2 ⟨_, by simpa using hs, rfl⟩
      exact ⟨hvalid.inline_identifier, ClassDec.inline_types h d hd⟩

/-! ### The outline of a source -/

def Setting.initial : Setting := ⟨"", .empty⟩

theorem Setting.clean_initial : Setting.initial.Clean :=
  ⟨by decide, by simp [initial, Environment.empty]⟩

/-- The entries of the outline of a class. -/
def ClassDec.outline (c : ClassDec) : List OutlineEntry := Setting.initial.outline c.element.marks

theorem ClassDec.clean_outline {c : ClassDec} (h : ∀ l ∈ c.lexemes, l.Valid) :
    ∀ e ∈ c.outline, e.Clean :=
  Setting.clean_initial.outline (ClassDec.clean_marks h)

/-- Without its notes the outline is the text of the tree. -/
theorem ClassDec.withoutNotes_outline {c : ClassDec} (h : ∀ l ∈ c.lexemes, l.Valid) :
    withoutNotes (renderEntries "" 0 c.outline) = c.element.text 0 := by
  have hrender := c.element.renderEntries_marks 0 []
  rw [List.append_nil] at hrender
  rw [withoutNotes_renderEntries (ClassDec.clean_outline h), ClassDec.outline,
    Setting.bare_outline, hrender]
  exact String.append_empty

/-- The leaves of the outline are the words of the class. -/
theorem ClassDec.shown_leavesOf_outline {c : ClassDec} (h : ∀ l ∈ c.lexemes, l.Valid) :
    (leavesOf (renderEntries "" 0 c.outline)).map Leaf.shown = c.lexemes.map Lexeme.shown := by
  rw [leavesOf_renderEntries (ClassDec.clean_outline h), ClassDec.outline, Setting.shown_outline,
    ← c.lexemes_element, List.map_map]
  rfl

/-- A session that has compiled the tokens of a class has written the outline of the class. -/
theorem TokenStream.outline_of_lexemes {stream : TokenStream} {c : ClassDec}
    (h : c.lexemes = stream.tokens.map Token.lexeme)
    (he : (stream.compile true).error? = none) :
    (stream.compile true).outline? = some (renderEntries "" 0 c.outline) := by
  have hinitial : (Session.initial true).Outlines .initial [] := ⟨rfl, .empty, rfl⟩
  have ho := (hinitial.performAll (TokenStream.performAll_of_lexemes h he)).outline
  have hentries : (stream.compile true).session.outline? = some ⟨c.outline.toArray⟩ := by
    rw [c.draws.entries] at ho
    exact ho
  rw [Compilation.outline?, hentries]
  rfl

/-- The outline of a text that compiles is that of its class, and its words can be written. -/
theorem outline_of_compile {source : String} {result : CompiledClass}
    (h : compile source true = .ok result) :
    ∃ stream, tokenize source = .ok stream
      ∧ (∃ c : ClassDec, c.lexemes = stream.tokens.map Token.lexeme)
      ∧ ∀ c : ClassDec, c.lexemes = stream.tokens.map Token.lexeme →
        c.Accepted ∧ (∀ l ∈ c.lexemes, l.Valid)
          ∧ result.outline? = some (renderEntries "" 0 c.outline) := by
  obtain ⟨stream, hs, hexists, hall⟩ := accepted_of_compile h
  obtain ⟨he, rfl⟩ := (compile_eq_ok_iff hs).1 h
  refine ⟨stream, hs, hexists, fun c hc => ?_⟩
  refine ⟨(hall c hc).1, ?_, TokenStream.outline_of_lexemes hc he⟩
  rw [hc]
  exact valid_of_tokenize hs

theorem exists_outline_of_compile {source : String} {result : CompiledClass}
    (h : compile source true = .ok result) : ∃ text, result.outline? = some text := by
  obtain ⟨stream, -, ⟨c, hc⟩, hall⟩ := outline_of_compile h
  exact ⟨_, (hall c hc).2.2⟩

/-- The leaves of an outline are the tokens of the source. -/
theorem leavesOf_outline {source : String} {result : CompiledClass} {text : String}
    (h : compile source true = .ok result) (ht : result.outline? = some text) :
    ∃ stream, tokenize source = .ok stream
      ∧ (leavesOf text).map Leaf.shown = (stream.tokens.map Token.lexeme).map Lexeme.shown := by
  obtain ⟨stream, hs, ⟨c, hc⟩, hall⟩ := outline_of_compile h
  obtain ⟨-, hvalid, ho⟩ := hall c hc
  obtain rfl := Option.some.inj (ht.symm.trans ho)
  refine ⟨stream, hs, ?_⟩
  rw [← hc]
  exact ClassDec.shown_leavesOf_outline hvalid

/-- The outline of a text that compiles is the element tree of its derivation, whose leaves are the
tokens of the text; so texts with one outline have the same tokens. -/
theorem outline_shows_derivation {source : String} {result : CompiledClass}
    (h : compile source true = .ok result) :
    ∃ stream text, tokenize source = .ok stream ∧ result.outline? = some text
      ∧ (∃ c : ClassDec, c.lexemes = stream.tokens.map Token.lexeme)
      ∧ (∀ c : ClassDec, c.lexemes = stream.tokens.map Token.lexeme →
        withoutNotes text = c.element.text 0
          ∧ c.element.signs.map Sign.lexeme = stream.tokens.map Token.lexeme)
      ∧ (leavesOf text).map (fun l => (l.tag, l.text))
        = stream.tokens.map (fun t => (t.lexeme.tag, t.lexeme.text))
      ∧ ∀ other otherResult, compile other true = .ok otherResult →
        otherResult.outline? = some text → ∃ otherStream, tokenize other = .ok otherStream
          ∧ otherStream.tokens.map Token.lexeme = stream.tokens.map Token.lexeme := by
  obtain ⟨stream, hs, ⟨c, hc⟩, hall⟩ := outline_of_compile h
  obtain ⟨-, hvalid, ho⟩ := hall c hc
  have hleaves := ClassDec.shown_leavesOf_outline hvalid
  refine ⟨stream, _, hs, ho, ⟨c, hc⟩, fun d hd => ?_, ?_, fun other otherResult hother hsame => ?_⟩
  · obtain ⟨-, hd', ho'⟩ := hall d hd
    rw [Option.some.inj (ho.symm.trans ho')]
    exact ⟨ClassDec.withoutNotes_outline hd', d.lexemes_element.trans hd⟩
  · rw [hc, List.map_map] at hleaves
    exact hleaves
  · obtain ⟨otherStream, hos, hother⟩ := leavesOf_outline hother hsame
    refine ⟨otherStream, hos, ?_⟩
    apply Lexeme.shown_injective.list_map
    rw [← hother, hleaves, hc]

/-- The lines of entries that start at depth `depth`. -/
def entryLines (depth : Nat) : List OutlineEntry → List String
  | [] => []
  | e :: rest => e.line depth :: entryLines (e.depthAfter depth) rest

theorem renderEntries_eq_join (depth : Nat) (entries : List OutlineEntry) :
    renderEntries "" depth entries = String.join (entryLines depth entries) := by
  induction entries generalizing depth with
  | nil => rfl
  | cons e rest ih => rw [renderEntries_cons, entryLines, String.join_cons, ih]

/-- The outline of a text, line by line. -/
theorem outline_eq_join {source : String} {result : CompiledClass} {c : ClassDec}
    {lines : List String} (h : compile source true = .ok result)
    (hc : (tokenize source).map (fun s => s.tokens.map Token.lexeme) = .ok c.lexemes)
    (hlines : entryLines 0 c.outline = lines) :
    result.outline? = some (String.join lines) := by
  obtain ⟨stream, hs, -, hall⟩ := outline_of_compile h
  rw [hs] at hc
  rw [(hall c (Except.ok.inj hc).symm).2.2, renderEntries_eq_join, hlines]

/-- Operators whose marks are escaped, on a field. -/
theorem outline_of_escaped_operators :
    ∃ result,
      compile "class A{field int x;method int f(){return x<x&1;}}" true = .ok result
      ∧ result.outline? = some (String.join [
      "<class>\n",
      "  <keyword> class </keyword>\n",
      "  <identifier> A </identifier>\n",
      "  <symbol> \x7b </symbol>\n",
      "  <classVarDec>\n",
      "    <keyword> field </keyword>\n",
      "    <keyword> int </keyword>\n",
      "    <identifier> x </identifier> defined: true, type: int, kind: field, index: 0\n",
      "    <symbol> ; </symbol>\n",
      "  </classVarDec>\n",
      "  <subroutineDec>\n",
      "    <keyword> method </keyword>\n",
      "    <keyword> int </keyword>\n",
      "    <identifier> f </identifier>\n",
      "    <symbol> ( </symbol>\n",
      "    <parameterList>\n",
      "    </parameterList>\n",
      "    <symbol> ) </symbol>\n",
      "    <subroutineBody>\n",
      "      <symbol> \x7b </symbol>\n",
      "      <statements>\n",
      "        <returnStatement>\n",
      "          <keyword> return </keyword>\n",
      "          <expression>\n",
      "            <term>\n",
      "              <identifier> x </identifier> defined: false, type: int, kind: field, index: 0\n",
      "            </term>\n",
      "            <symbol> &lt; </symbol>\n",
      "            <term>\n",
      "              <identifier> x </identifier> defined: false, type: int, kind: field, index: 0\n",
      "            </term>\n",
      "            <symbol> &amp; </symbol>\n",
      "            <term>\n",
      "              <integerConstant> 1 </integerConstant>\n",
      "            </term>\n",
      "          </expression>\n",
      "          <symbol> ; </symbol>\n",
      "        </returnStatement>\n",
      "      </statements>\n",
      "      <symbol> \x7d </symbol>\n",
      "    </subroutineBody>\n",
      "  </subroutineDec>\n",
      "  <symbol> \x7d </symbol>\n",
      "</class>\n"])
      ∧ ∃ stream text,
        tokenize "class A{field int x;method int f(){return x<x&1;}}" = .ok stream
        ∧ result.outline? = some text
        ∧ (∃ c : ClassDec, c.lexemes = stream.tokens.map Token.lexeme)
        ∧ (∀ c : ClassDec, c.lexemes = stream.tokens.map Token.lexeme →
          withoutNotes text = c.element.text 0
            ∧ c.element.signs.map Sign.lexeme = stream.tokens.map Token.lexeme)
        ∧ (leavesOf text).map (fun l => (l.tag, l.text))
          = stream.tokens.map (fun t => (t.lexeme.tag, t.lexeme.text))
        ∧ ∀ other otherResult, compile other true = .ok otherResult →
          otherResult.outline? = some text → ∃ otherStream, tokenize other = .ok otherStream
            ∧ otherStream.tokens.map Token.lexeme = stream.tokens.map Token.lexeme := by
  let c : ClassDec := ⟨"A", [⟨.field, rfl, .int, "x", []⟩],
    [⟨.method, some .int, "f", [], [], [.return_ (some (.binary (.variable "x") .less
      (.binary (.variable "x") .and (.term (.integer 1)))))]⟩]⟩
  obtain ⟨result, hr⟩ : ∃ result,
      compile "class A{field int x;method int f(){return x<x&1;}}" true = .ok result := ⟨_, rfl⟩
  exact ⟨result, hr, outline_eq_join (c := c) hr (by rfl) (by decide +kernel),
    outline_shows_derivation hr⟩

end Jack
