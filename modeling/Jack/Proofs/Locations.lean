import Jack.Proofs.Divisions
import Jack.Proofs.Lexing

/-! The tokens that instructions stand for. Each instruction stands for a token of its own
subroutine, and each operator of a subroutine that is compiled to its end has one instruction. -/

namespace Jack

/-! ### Tokens stand at different places -/

theorem Lexeme.WrittenAs.ne_nil {l : Lexeme} {cs : List Char} (hv : l.Valid)
    (h : l.WrittenAs cs) : cs ≠ [] := by
  by_cases hl : l.IsWord
  · exact (h.word hl hv).1
  · obtain ⟨front, c, rfl, -⟩ := h.getLast_endWord hl
    simp

/-- A place farther on in a text is another place. -/
theorem placeAfter_append_ne (cs : List Char) {ds : List Char} (hd : ds ≠ []) :
    placeAfter (cs ++ ds) ≠ placeAfter cs := by
  intro h
  simp only [placeAfter, Position.mk.injEq, List.count_append, List.reverse_append] at h
  obtain ⟨hline, hcolumn⟩ := h
  have hcount : ds.count '\n' = 0 := by omega
  have hall : ∀ c ∈ ds.reverse, decide (c ≠ '\n') = true := by
    intro c hc
    rw [decide_eq_true_eq]
    rintro rfl
    exact List.count_eq_zero.1 hcount (List.mem_reverse.1 hc)
  rw [List.takeWhile_append_of_pos hall, List.length_append, List.length_reverse] at hcolumn
  have hpos := List.length_pos_iff.2 hd
  omega

/-- The places of tokens, and the place where their text ends. -/
def TokenStream.places (stream : TokenStream) : List Position :=
  stream.tokens.map Token.position ++ [stream.finish]

theorem exists_placeAfter_of_mem {before last : List Char} {pieces : List Piece} {p : Position}
    (hp : p ∈ (tokensAfter before pieces).map Token.position
      ++ [placeAfter (before ++ charsOf pieces last)]) :
    ∃ ds, p = placeAfter (before ++ ds) := by
  induction pieces generalizing before with
  | nil => exact ⟨_, List.mem_singleton.1 hp⟩
  | cons x xs ih =>
    rw [tokensAfter, List.map_cons, List.cons_append, charsOf_cons, ← List.append_assoc x.gap,
      ← List.append_assoc] at hp
    rcases List.mem_cons.1 hp with rfl | hp
    · exact ⟨x.gap, rfl⟩
    · obtain ⟨ds, rfl⟩ := ih hp
      exact ⟨x.chars ++ ds, by rw [List.append_assoc]⟩

theorem nodup_tokensAfter {before last : List Char} {pieces : List Piece}
    (h : LaidOut last pieces) :
    ((tokensAfter before pieces).map Token.position
      ++ [placeAfter (before ++ charsOf pieces last)]).Nodup := by
  induction pieces generalizing before with
  | nil => exact List.nodup_singleton _
  | cons x xs ih =>
    obtain ⟨-, hv, hw, -, hxs⟩ := h
    have htail := @ih (before ++ x.chars) hxs
    rw [tokensAfter, List.map_cons, List.cons_append, charsOf_cons, ← List.append_assoc x.gap,
      ← List.append_assoc, List.nodup_cons]
    refine ⟨?_, htail⟩
    intro hmem
    obtain ⟨ds, hds⟩ := exists_placeAfter_of_mem hmem
    rw [Piece.chars, ← List.append_assoc, List.append_assoc (before ++ x.gap)] at hds
    exact placeAfter_append_ne (before ++ x.gap) (by simp [hw.ne_nil hv]) hds.symm

/-- No two tokens stand at the same place, and none where the text ends. -/
theorem nodup_places {source : String} {stream : TokenStream} (h : tokenize source = .ok stream) :
    stream.places.Nodup := by
  obtain ⟨y, hlaid, -, rfl⟩ := exists_layout h
  exact @nodup_tokensAfter [] _ _ hlaid

/-! ### The tokens that a pass reads -/

/-- A pass leaves what the actions have not read. -/
theorem Session.rest_pass_eq_drop (s : Session) {goals : List Goal} {c : Cursor}
    (hq : goals.all Goal.quiet = true) :
    (s.pass goals c).cursor.rest
      = c.rest.drop (s.consumed (Script.ofGoals goals c #[]).actions.toList) := by
  induction goals, c using Script.induction_on_meet generalizing s with
  | nil c =>
    rw [Session.pass_nil, Script.ofGoals_nil]
    rfl
  | error g goals c e hg =>
    rw [Session.pass_of_error hg, Script.ofGoals_cons_of_error hg]
    rfl
  | ok g goals c step hg ih =>
    obtain ⟨hg', hgoals⟩ := Bool.and_eq_true_iff.1 hq
    obtain ⟨⟨front, hfront, hlength⟩, -, hnew⟩ := Goal.rest_of_meet hg' hg
    obtain ⟨actions, news, d⟩ := step
    rw [Session.pass_of_ok hg, (Script.ofGoals_of_meet hg goals).1, Session.consumed_append]
    cases hp : s.performAll actions with
    | mk t error? =>
      cases error? with
      | none =>
        simp only
        rw [ih t (quiet_append hnew hgoals), hfront, ← List.drop_drop, ← hlength, List.drop_left]
      | some e => rfl

/-- The tokens of a text are cut into parts of a class, and the lines are those of the parts. -/
theorem TokenStream.exists_division {stream : TokenStream}
    (hd : (stream.tokens.map Token.position).Nodup) (outlined : Bool) :
    ∃ (x : Division) (k : String), x.Stands k
      ∧ stream.tokens.take (stream.stop outlined) = x.tokens
      ∧ (stream.compile outlined).instructions = x.lines
      ∧ ((stream.compile outlined).error? = none → x.last? = none) := by
  obtain ⟨x, k, hx, hlast, hlines, htokens⟩ := Session.exists_division_of_class
    (c := ⟨stream.tokens, stream.finish, 0⟩) outlined hd
  have hrest := (Session.initial outlined).rest_pass_eq_drop
    (c := ⟨stream.tokens, stream.finish, 0⟩) quiet_classGoals
  rw [hrest] at htokens
  refine ⟨x, k, hx, ?_, ?_, ?_⟩
  · have hsplit := List.take_append_drop (stream.stop outlined) stream.tokens
    exact List.append_cancel_right (hsplit.trans htokens)
  · rw [TokenStream.compile_eq_pass]
    exact hlines
  · rw [TokenStream.compile_eq_pass]
    exact hlast

/-! ### The subroutine that a line belongs to -/

theorem exists_of_flatMap_eq_append_cons {α β : Type} {f : α → List β} {xs : List α}
    {before after : List β} {y : β} (h : xs.flatMap f = before ++ y :: after) :
    ∃ done x more pre post, xs = done ++ x :: more ∧ before = done.flatMap f ++ pre
      ∧ f x = pre ++ y :: post := by
  induction xs generalizing before with
  | nil => simp at h
  | cons x xs ih =>
    rw [List.flatMap_cons] at h
    have hlater : ∀ {ms : List β}, before = f x ++ ms → xs.flatMap f = ms ++ y :: after →
        ∃ done z more pre post, x :: xs = done ++ z :: more ∧ before = done.flatMap f ++ pre
          ∧ f z = pre ++ y :: post := by
      intro ms hbefore hms
      obtain ⟨done, z, more, pre, post, rfl, rfl, hz⟩ := ih hms
      exact ⟨x :: done, z, more, pre, post, rfl,
        by rw [hbefore, List.flatMap_cons, List.append_assoc], hz⟩
    rcases List.append_eq_append_iff.1 h with ⟨ms, hbefore, hms⟩ | ⟨ms, hx, hms⟩
    · exact hlater hbefore hms
    · rcases ms with - | ⟨z, ms⟩
      · rw [List.append_nil] at hx
        have hbefore : before = f x ++ [] := by rw [hx, List.append_nil]
        exact hlater hbefore hms.symm
      · obtain ⟨rfl, -⟩ := List.cons.inj hms
        exact ⟨[], x, xs, before, ms, rfl, rfl, hx⟩

namespace Division

variable {x : Division} {k : String} {b : Portion}

/-- The lines up to `e` end within one subroutine: its header is the last one among them, and `e`
stands for one of its tokens. -/
def Attributes (x : Division) (k : String) (before : List Emitted) (e : Emitted) : Prop :=
  ∃ done b more locals p rest, x.portions = done ++ b :: more
    ∧ before ++ [e] = done.flatMap Portion.lines
      ++ ⟨.function (qualified k b.dec.name) locals, p⟩ :: rest
    ∧ (∀ e' ∈ rest, e'.instruction.header? = none)
    ∧ ∃ t ∈ b.tokens, t.position = e.position

theorem Stands.portion (h : x.Stands k) (hb : b ∈ x.portions) : b.Stands k := by
  rcases List.mem_append.1 hb with hb | hb
  · exact (h.complete b hb).toStands
  · exact (h.last b (Option.mem_toList.1 hb)).1

theorem mem_tokens {t : Token} (hb : b ∈ x.portions) (ht : t ∈ b.tokens) : t ∈ x.tokens :=
  List.mem_append_left _ (List.mem_append_right _ (List.mem_flatMap.2 ⟨b, hb, ht⟩))

theorem Stands.attributes (h : x.Stands k) {before after : List Emitted} {e : Emitted}
    (he : x.lines = before ++ e :: after) : x.Attributes k before e := by
  obtain ⟨done, b, more, pre, post, hportions, rfl, hlines⟩ := exists_of_flatMap_eq_append_cons he
  have hb : b.Stands k := h.portion (hportions ▸ List.mem_append_right _ (.head _))
  have hplace := hb.places e (hlines ▸ List.mem_append_right _ (.head _))
  rcases hb.header with hnil | ⟨locals, p, rest, hheader, hrest⟩
  · rw [hnil] at hlines
    cases pre <;> cases hlines
  · rw [hheader] at hlines
    rcases pre with - | ⟨first, pre⟩
    · obtain ⟨rfl, -⟩ := List.cons.inj hlines
      exact ⟨done, b, more, locals, p, [], hportions, by simp, List.forall_mem_nil _, hplace⟩
    · obtain ⟨rfl, rfl⟩ := List.cons.inj hlines
      refine ⟨done, b, more, locals, p, pre ++ [e], hportions, by simp, ?_, hplace⟩
      have hinitial : pre ++ [e] <+: pre ++ e :: post := ⟨post, by simp⟩
      exact fun e' he' => hrest e' (hinitial.subset he')

theorem filter_lines_of_portions {bs : List Portion} (h : ∀ b ∈ bs, b.Stands k)
    (hd : ((bs.flatMap Portion.tokens).map Token.position).Nodup) (hb : b ∈ bs) {t : Token}
    (ht : t ∈ b.tokens) :
    (bs.flatMap Portion.lines).filter (fun e => e.position = t.position)
      = b.lines.filter (fun e => e.position = t.position) := by
  have hforeign : ∀ b' : Portion, b'.Stands k → (∀ t' ∈ b'.tokens, t'.position ≠ t.position) →
      b'.lines.filter (fun e => e.position = t.position) = [] := by
    intro b' hb' hother
    rw [List.filter_eq_nil_iff]
    intro e he hposition
    obtain ⟨t', ht', hplace⟩ := hb'.places e he
    exact hother t' ht' (hplace.trans (of_decide_eq_true hposition))
  induction bs with
  | nil => cases hb
  | cons b' bs ih =>
    obtain ⟨hb', hbs⟩ := List.forall_mem_cons.1 h
    rw [List.flatMap_cons, List.map_append, List.nodup_append] at hd
    obtain ⟨-, hnodup, hapart⟩ := hd
    rw [List.flatMap_cons, List.filter_append]
    rcases List.mem_cons.1 hb with rfl | hb
    · have hlater : (bs.flatMap Portion.lines).filter (fun e => e.position = t.position) = [] := by
        rw [List.filter_flatMap, List.flatMap_eq_nil_iff]
        intro c hc
        refine hforeign c (hbs c hc) ?_
        intro t' ht' heq
        exact hapart _ (List.mem_map_of_mem ht) _
          (List.mem_map_of_mem (List.mem_flatMap.2 ⟨c, hc, ht'⟩)) heq.symm
      rw [hlater, List.append_nil]
    · rw [ih hbs hnodup hb, hforeign b' hb', List.nil_append]
      intro t' ht'
      exact hapart _ (List.mem_map_of_mem ht') _
        (List.mem_map_of_mem (List.mem_flatMap.2 ⟨b, hb, ht⟩))

/-- Lines at the place of a token are all of one subroutine. -/
theorem Stands.filter_lines (h : x.Stands k) (hd : (x.tokens.map Token.position).Nodup)
    (hb : b ∈ x.portions) {t : Token} (ht : t ∈ b.tokens) :
    x.lines.filter (fun e => e.position = t.position)
      = b.lines.filter (fun e => e.position = t.position) := by
  rw [tokens, List.map_append, List.map_append] at hd
  have hportions := (List.nodup_append.1 (List.nodup_append.1 hd).1).2.1
  exact filter_lines_of_portions (fun _ => h.portion) hportions hb ht

/-- The lines stand for tokens of the subroutines that they belong to, and the operators of complete
subroutines have one line each. -/
structure Explains (x : Division) (k : String) (lines : List Emitted) : Prop where
  attributes : ∀ before e after, lines = before ++ e :: after → x.Attributes k before e
  first : ∀ e ∈ lines.head?, e.instruction.header?.isSome
  operators : ∀ b ∈ x.complete, ∀ (j : Nat) (t : Token) (i : Instruction), b.tokens[j]? = some t →
    b.dec.operators[j]? = some (some i) →
      lines.filter (fun e => e.position = t.position) = [⟨i, t.position⟩]

/-- The last header up to the first line is the first line itself. -/
theorem Attributes.isSome_header? {e : Emitted} (h : x.Attributes k [] e) :
    e.instruction.header?.isSome := by
  obtain ⟨done, b, more, locals, p, rest, -, heq, -⟩ := h
  rw [List.nil_append] at heq
  rcases hdone : done.flatMap Portion.lines with - | ⟨first, others⟩
  · rw [hdone] at heq
    obtain ⟨rfl, -⟩ := List.cons.inj heq
    rfl
  · rw [hdone] at heq
    have hlength := congrArg List.length heq
    simp only [List.length_cons, List.length_nil, List.length_append] at hlength
    omega

theorem Stands.explains (h : x.Stands k) (hd : (x.tokens.map Token.position).Nodup) :
    x.Explains k x.lines where
  attributes _ _ _ he := h.attributes he
  first := by
    intro e he
    obtain ⟨after, hafter⟩ := List.head?_eq_some_iff.1 he
    have hattributes : x.Attributes k [] e := h.attributes hafter
    exact hattributes.isSome_header?
  operators := by
    intro b hb j t i ht hi
    rw [h.filter_lines hd (List.mem_append_left _ hb) (List.mem_of_getElem? ht)]
    exact (h.complete b hb).operators j t i ht hi

end Division

/-- What is read of a class is divided into its subroutines, and so are the lines. Each line stands
for a token of the subroutine whose header is the last one up to it, and none for the end of the
text. The first line is a header. Each operator of a complete subroutine has one line, with its own
instruction. -/
theorem lines_stand_for_their_subroutines {source : String} {stream : TokenStream}
    (h : tokenize source = .ok stream) (outlined : Bool) :
    ∃ c, compilation source outlined = .ok c
      ∧ (∀ e ∈ c.instructions, e.position ≠ stream.finish)
      ∧ ∃ (x : Division) (k : String), x.Stands k
        ∧ stream.tokens.take (stream.stop outlined) = x.tokens
        ∧ (c.error? = none → x.last? = none)
        ∧ c.instructions = x.lines ∧ x.Explains k c.instructions := by
  have hplaces := nodup_places h
  obtain ⟨hd, -, hfinish⟩ := List.nodup_append.1 hplaces
  obtain ⟨x, k, hx, htokens, hlines, hlast⟩ := stream.exists_division hd outlined
  have hinitial : x.tokens <+: stream.tokens := htokens ▸ List.take_prefix _ _
  refine ⟨stream.compile outlined, by rw [compilation, h], ?_, x, k, hx, htokens, hlast, hlines,
    ?_⟩
  · intro e he
    rw [hlines] at he
    obtain ⟨b, hb, heb⟩ := List.mem_flatMap.1 he
    obtain ⟨t, ht, hposition⟩ := (hx.portion hb).places e heb
    have hmem := List.mem_map_of_mem (f := Token.position)
      (hinitial.subset (Division.mem_tokens hb ht))
    rw [hposition] at hmem
    exact hfinish _ hmem _ (.head _)
  · rw [hlines]
    exact hx.explains (hd.sublist (hinitial.sublist.map _))

/-- A product under a sign over three lines, and a call whose argument stands on the next line. The
text ends within the second function. -/
def operatorsOnLines : String :=
  "class A\x7bfunction int f(int x)\x7breturn -\nx*\n2;\x7d"
    ++ "function void g()\x7bdo A.f(\n~1);let z"

theorem lines_of_operators_on_lines :
    ∃ stream c, tokenize operatorsOnLines = .ok stream
      ∧ compilation operatorsOnLines false = .ok c
      ∧ c.error?.isSome
      ∧ c.instructions = [⟨.function "A.f" 0, ⟨1, 29⟩⟩, ⟨.push .argument 0, ⟨2, 1⟩⟩,
        ⟨.arithmetic .neg, ⟨1, 38⟩⟩, ⟨.push .constant 2, ⟨3, 1⟩⟩,
        ⟨.call "Math.multiply" 2, ⟨2, 2⟩⟩, ⟨.return_, ⟨3, 2⟩⟩, ⟨.function "A.g" 0, ⟨3, 20⟩⟩,
        ⟨.push .constant 1, ⟨4, 2⟩⟩, ⟨.arithmetic .not, ⟨4, 1⟩⟩, ⟨.call "A.f" 1, ⟨3, 25⟩⟩,
        ⟨.pop .temp 0, ⟨4, 4⟩⟩]
      ∧ ∃ (x : Division) (k : String), x.Stands k
        ∧ stream.tokens.take (stream.stop false) = x.tokens
        ∧ c.instructions = x.lines ∧ x.Explains k c.instructions := by
  obtain ⟨stream, hs⟩ : ∃ stream, tokenize operatorsOnLines = .ok stream := ⟨_, rfl⟩
  obtain ⟨c, hc, -, x, k, hx, htokens, -, hexplained⟩ := lines_stand_for_their_subroutines hs false
  have hof : ∀ {α : Type} {f : Compilation → α} {y : α},
      (compilation operatorsOnLines false).map f = .ok y → f c = y := by
    intro α f y h
    rw [hc] at h
    exact Except.ok.inj h
  refine ⟨stream, c, hs, hc, ?_, ?_, x, k, hx, htokens, hexplained⟩
  · exact hof (f := fun c => c.error?.isSome) rfl
  · exact hof (f := Compilation.instructions) rfl

end Jack
