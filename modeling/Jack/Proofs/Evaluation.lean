import Jack.Proofs.Correctness
import Jack.Proofs.Machine

/-! What an expression means, and that its code computes it. Operands are evaluated from left to
right and calls may change the store, so an evaluation takes a store and leaves another. -/

namespace Jack

/-! ### Meaning -/

/-- The word of a variable. Fields lie in the heap, from the current object on. -/
def Variable.value (v : Variable) (f : Frame) (s : Store) : Word :=
  match v.kind with
  | .static => s.statics v.index
  | .field => s.heap (f.this + v.index)
  | .argument => f.arguments v.index
  | .var => f.locals v.index

def Context.value (k : Context) (f : Frame) (s : Store) (name : String) : Option Word :=
  (k.lookup name).map fun v => v.value f s

/-- The library multiplies and divides. -/
def BinaryOp.apply (library : Library) (op : BinaryOp) (v w : Word) (s : Store) : Word × Store :=
  match op with
  | .add => (v + w, s)
  | .subtract => (v - w, s)
  | .multiply => library "Math.multiply" [v, w] s
  | .divide => library "Math.divide" [v, w] s
  | .and => (v &&& w, s)
  | .or => (v ||| w, s)
  | .less => (truth (v.toInt16 < w.toInt16), s)
  | .greater => (truth (w.toInt16 < v.toInt16), s)
  | .equal => (truth (v = w), s)

def UnaryOp.apply : UnaryOp → Word → Word
  | .negate, w => -w
  | .complement, w => ~~~w

def KeywordConstant.word (f : Frame) : KeywordConstant → Word
  | .true_ => truth true
  | .false_ => truth false
  | .null => 0
  | .this => f.this

/-- The library appends the characters of a text to a string. -/
def appendText (library : Library) : List Char → Word → Store → Word × Store
  | [], string, s => (string, s)
  | c :: cs, string, s =>
    let (string, t) := library "String.appendChar" [string, UInt16.ofNat c.toNat] s
    appendText library cs string t

/-- The library makes a string with room for a text, and appends its characters. -/
def stringOf (library : Library) (text : String) (s : Store) : Word × Store :=
  let (string, t) := library "String.new" [UInt16.ofNat text.length] s
  appendText library text.toList string t

mutual

/-- The word of a term and the store after its calls. None if a name that should stand for a
variable does not. -/
def Term.eval (library : Library) (k : Context) (f : Frame) :
    Term → Store → Option (Word × Store)
  | .integer value, s => some (value, s)
  | .string text, s => some (stringOf library text s)
  | .constant word, s => some (word.word f, s)
  | .variable name, s => do
    let w ← k.value f s name
    some (w, s)
  | .element name index, s => do
    let base ← k.value f s name
    let (offset, t) ← index.eval library k f s
    some (t.heap (base + offset), t)
  | .call call, s => call.eval library k f s
  | .group inner, s => inner.eval library k f s
  | .unary op operand, s => do
    let (w, t) ← operand.eval library k f s
    some (op.apply w, t)

def Expression.eval (library : Library) (k : Context) (f : Frame) :
    Expression → Store → Option (Word × Store)
  | .term operand, s => operand.eval library k f s
  | .binary left op right, s => do
    let (v, t) ← left.eval library k f s
    let (w, u) ← right.eval library k f t
    some (op.apply library v w u)

/-- The receiver is evaluated before the arguments. -/
def Call.eval (library : Library) (k : Context) (f : Frame) :
    Call → Store → Option (Word × Store)
  | .own name args, s => do
    let (ws, t) ← evalArguments library k f args s
    some (library (k.className ++ "." ++ name) (f.this :: ws) t)
  | .member owner name args, s =>
    match k.lookup owner with
    | some v => do
      let (ws, t) ← evalArguments library k f args s
      some (library (v.type ++ "." ++ name) (v.value f s :: ws) t)
    | none => do
      let (ws, t) ← evalArguments library k f args s
      some (library (owner ++ "." ++ name) ws t)

def evalArguments (library : Library) (k : Context) (f : Frame) :
    List Expression → Store → Option (List Word × Store)
  | [], s => some ([], s)
  | e :: es, s => do
    let (w, t) ← e.eval library k f s
    let (ws, u) ← evalArguments library k f es t
    some (w :: ws, u)

end

/-! ### Code that computes -/

variable {library : Library} {k : Context} {f : Frame} {s t u : Store}

/-- Run anywhere in any code, the instructions replace the words on top of the stack by others and
one store by another, and change nothing else but `that`. -/
def Computes (library : Library) (f : Frame) (is : List Instruction) (us : List Word) (s : Store)
    (ws : List Word) (t : Store) : Prop :=
  ∀ (code more : List Instruction) (m : Machine) (base : List Word), m.rest = is ++ more →
    m.stack = us ++ base → m.frame = f → m.store = s →
    ∃ that, Runs library code m
      { m with rest := more, stack := ws ++ base, store := t, that := that }

namespace Computes

variable {is js : List Instruction} {us vs ws : List Word}

theorem nil (ws : List Word) (s : Store) : Computes library f [] ws s ws s := by
  rintro code more ⟨_, _, _, _, that, _⟩ base rfl rfl rfl rfl
  exact ⟨that, .refl _⟩

theorem append (h : Computes library f is us s vs t) (h' : Computes library f js vs t ws u) :
    Computes library f (is ++ js) us s ws u := by
  intro code more m base hr hs hf hm
  obtain ⟨that, hrun⟩ := h code (js ++ more) m base (by rw [hr, List.append_assoc]) hs hf hm
  obtain ⟨that', hrun'⟩ := h' code more
    { m with rest := js ++ more, stack := vs ++ base, store := t, that := that } base rfl rfl hf rfl
  exact ⟨that', hrun.trans hrun'⟩

theorem cons {i : Instruction} (h : Computes library f [i] us s vs t)
    (h' : Computes library f js vs t ws u) : Computes library f (i :: js) us s ws u :=
  h.append h'

theorem above (h : Computes library f is us s ws t) (vs : List Word) :
    Computes library f is (us ++ vs) s (ws ++ vs) t := by
  intro code more m base hr hs hf hm
  rw [List.append_assoc] at hs ⊢
  exact h code more m (vs ++ base) hr hs hf hm

theorem push {segment : Segment} {index w : Word}
    (h : ∀ m : Machine, m.frame = f → m.store = s → m.read? segment index = some w) :
    Computes library f [.push segment index] [] s [w] s := by
  rintro code more ⟨_, stack, _, _, that, temp⟩ base rfl rfl rfl rfl
  have hw := h ⟨.push segment index :: more, stack, _, _, that, temp⟩ rfl rfl
  refine ⟨that, .step ?_⟩
  rw [Machine.step?]
  simp only [List.cons_append, List.nil_append]
  rw [hw]
  rfl

theorem command {c : Command} (h : c.run? us = some ws) (s : Store) :
    Computes library f [.arithmetic c] us s ws s := by
  rintro code more ⟨_, _, _, _, that, temp⟩ base rfl rfl rfl rfl
  refine ⟨that, .step ?_⟩
  rw [Machine.step?]
  simp only [List.cons_append, List.nil_append]
  rw [Command.run?_append h]
  rfl

/-- A call takes its arguments from the stack, the last one on top. -/
theorem call (name : String) {count : Word} (ws : List Word) (h : ws.length = count.toNat)
    (s : Store) :
    Computes library f [.call name count] ws.reverse s [(library name ws s).1]
      (library name ws s).2 := by
  rintro code more ⟨_, _, _, _, that, temp⟩ base rfl rfl rfl rfl
  have hlen : ws.reverse.length = count.toNat := by rw [List.length_reverse, h]
  refine ⟨that, .step ?_⟩
  rw [Machine.step?]
  simp only [List.cons_append, List.nil_append]
  rw [if_pos (by rw [List.length_append]; omega), ← hlen, List.take_left, List.drop_left,
    List.reverse_reverse]

theorem fetch (address : Word) (s : Store) :
    Computes library f [.pop .pointer 1, .push .that 0] [address] s [s.heap address] s := by
  rintro code more ⟨_, _, _, _, _, temp⟩ base rfl rfl rfl rfl
  refine ⟨address, .trans (.step rfl) (.step ?_)⟩
  rw [Machine.step?]
  simp [Machine.read?]

theorem ofVariable (v : Variable) (s : Store) :
    Computes library f [v.read] [] s [v.value f s] s := by
  obtain ⟨_, _, kind, index⟩ := v
  cases kind with
  | static => exact push fun m hf hs => by rw [← hs]; rfl
  | field => exact push fun m hf hs => by rw [← hs, ← hf]; rfl
  | argument => exact push fun m hf hs => by rw [← hf]; rfl
  | var => exact push fun m hf hs => by rw [← hf]; rfl

theorem ofName {name : String} {w : Word} (h : k.value f s name = some w) :
    Computes library f (k.read name) [] s [w] s := by
  obtain ⟨v, hv, rfl⟩ := Option.map_eq_some_iff.1 h
  rw [Context.read, hv]
  exact .ofVariable v s

theorem constant (w : Word) (s : Store) : Computes library f [.push .constant w] [] s [w] s :=
  push fun _ _ _ => rfl

theorem object (s : Store) : Computes library f [.push .pointer 0] [] s [f.this] s :=
  push fun m hf _ => by rw [← hf]; rfl

theorem keyword (word : KeywordConstant) (s : Store) :
    Computes library f word.value [] s [word.word f] s := by
  cases word with
  | true_ => exact (constant 0 s).cons (command rfl s)
  | false_ => exact constant 0 s
  | null => exact constant 0 s
  | this => exact object s

theorem unary (op : UnaryOp) (w : Word) (s : Store) :
    Computes library f [op.code] [w] s [op.apply w] s := by
  cases op with
  | negate => exact command rfl s
  | complement => exact command rfl s

theorem binary (op : BinaryOp) (v w : Word) (s : Store) :
    Computes library f [op.code] [w, v] s [(op.apply library v w s).1]
      (op.apply library v w s).2 := by
  cases op with
  | multiply => exact call "Math.multiply" [v, w] rfl s
  | divide => exact call "Math.divide" [v, w] rfl s
  | _ => exact command rfl s

/-- A call that passes its receiver, if it has one, before its arguments. -/
theorem passing {receiver args : List Instruction} {rs ws : List Word} (name : String)
    (hr : Computes library f receiver [] s rs.reverse s)
    (ha : Computes library f args [] s ws.reverse t) (h : ws.length + rs.length ≤ 65535) :
    Computes library f
      (receiver ++ args ++ [.call name (UInt16.ofNat (ws.length + rs.length))]) [] s
      [(library name (rs ++ ws) t).1] (library name (rs ++ ws) t).2 := by
  have hlen : (rs ++ ws).length = (UInt16.ofNat (ws.length + rs.length)).toNat := by
    rw [toNat_ofNat h, List.length_append, Nat.add_comm]
  have hall : Computes library f (receiver ++ args) [] s (rs ++ ws).reverse t := by
    rw [List.reverse_append]
    exact hr.append (ha.above rs.reverse)
  exact hall.append (call name (rs ++ ws) hlen t)

theorem text (cs : List Char) (string : Word) (s : Store) :
    Computes library f
      (cs.flatMap fun c =>
        [.push .constant (UInt16.ofNat c.toNat), .call "String.appendChar" 2])
      [string] s [(appendText library cs string s).1] (appendText library cs string s).2 := by
  induction cs generalizing string s with
  | nil => exact nil [string] s
  | cons c cs ih =>
    have hc : Computes library f [.push .constant (UInt16.ofNat c.toNat)] [string] s
        [UInt16.ofNat c.toNat, string] s :=
      (constant (UInt16.ofNat c.toNat) s).above [string]
    exact hc.cons (.cons (call "String.appendChar" [string, UInt16.ofNat c.toNat] rfl s) (ih _ _))

theorem string (text : String) (s : Store) :
    Computes library f (stringValue text) [] s [(stringOf library text s).1]
      (stringOf library text s).2 :=
  (constant _ s).cons ((call "String.new" [UInt16.ofNat text.length] rfl s).cons
    (Computes.text _ _ _))

end Computes

/-! ### Expressions -/

theorem Context.exists_value {name : String} (h : (k.lookup name).isSome) (f : Frame)
    (s : Store) : ∃ w, k.value f s name = some w := by
  obtain ⟨v, hv⟩ := Option.isSome_iff_exists.1 h
  exact ⟨v.value f s, by rw [Context.value, hv]; rfl⟩

mutual

/-- A term whose names stand for variables has a word, and its code computes it. -/
theorem Term.computes (library : Library) (f : Frame) (e : Term) (hp : k.Permits e.uses)
    (s : Store) :
    ∃ w t, e.eval library k f s = some (w, t)
      ∧ Computes library f (e.code k) [] s [w] t := by
  match e with
  | .integer value => exact ⟨value, s, rfl, .constant value s⟩
  | .string text => exact ⟨_, _, rfl, .string text s⟩
  | .constant word => exact ⟨_, s, rfl, .keyword word s⟩
  | .variable name =>
    obtain ⟨w, hw⟩ := Context.exists_value (by simpa [Term.uses] using hp) f s
    exact ⟨w, s, by rw [Term.eval, hw]; rfl, .ofName hw⟩
  | .element name index =>
    rw [Term.uses, Context.permits_variable] at hp
    obtain ⟨base, hb⟩ := Context.exists_value hp.1 f s
    obtain ⟨offset, t, hi, hc⟩ := index.computes library f hp.2 s
    refine ⟨t.heap (base + offset), t, by rw [Term.eval, hb, Option.bind_eq_bind]; simp [hi], ?_⟩
    -- the base waits on the stack while the index is computed
    have haddress : Computes library f (k.read name ++ index.code k) [] s [offset, base] t :=
      (Computes.ofName hb).append (hc.above [base])
    have hadd : Computes library f [.arithmetic .add] [offset, base] t [base + offset] t :=
      .command rfl t
    exact haddress.append (hadd.cons (.fetch (base + offset) t))
  | .call call => exact call.computes library f (by simpa [Term.uses] using hp) s
  | .group inner => exact inner.computes library f (by simpa [Term.uses] using hp) s
  | .unary op operand =>
    obtain ⟨w, t, ho, hc⟩ := operand.computes library f (by simpa [Term.uses] using hp) s
    exact ⟨op.apply w, t, by rw [Term.eval, ho]; rfl, hc.append (.unary op w t)⟩

theorem Expression.computes (library : Library) (f : Frame) (e : Expression)
    (hp : k.Permits e.uses) (s : Store) :
    ∃ w t, e.eval library k f s = some (w, t)
      ∧ Computes library f (e.code k) [] s [w] t := by
  match e with
  | .term operand => exact operand.computes library f hp s
  | .binary left op right =>
    rw [Expression.uses, Context.permits_append] at hp
    obtain ⟨v, t, hl, hcl⟩ := left.computes library f hp.1 s
    obtain ⟨w, u, hr, hcr⟩ := right.computes library f hp.2 t
    refine ⟨(op.apply library v w u).1, (op.apply library v w u).2,
      by rw [Expression.eval, hl]; simp [hr], ?_⟩
    exact (hcl.append (hcr.above [v])).append (.binary op v w u)

theorem Call.computes (library : Library) (f : Frame) (c : Call) (hp : k.Permits c.uses)
    (s : Store) :
    ∃ w t, c.eval library k f s = some (w, t)
      ∧ Computes library f (c.code k) [] s [w] t := by
  match c with
  | .own name args =>
    rw [Call.uses, Context.permits_append, Context.permits_call] at hp
    obtain ⟨ws, t, ha, hlen, hc⟩ := arguments_compute library f args hp.1 s
    refine ⟨_, _, by rw [Call.eval, ha]; rfl, ?_⟩
    have hcount : ws.length + [f.this].length ≤ 65535 := by rw [hlen]; exact hp.2
    have := Computes.passing (k.className ++ "." ++ name) (.object s) hc hcount
    rwa [hlen] at this
  | .member owner name args =>
    rw [Call.uses, Context.permits_append, Context.permits_call] at hp
    obtain ⟨ws, t, ha, hlen, hc⟩ := arguments_compute library f args hp.1 s
    cases hv : k.lookup owner with
    | some v =>
      refine ⟨_, _, by rw [Call.eval]; simp only [hv]; rw [ha]; rfl, ?_⟩
      have hcount : ws.length + [v.value f s].length ≤ 65535 := by
        simpa [Call.args, Context.hidden, hv, hlen] using hp.2
      have := Computes.passing (v.type ++ "." ++ name) (.ofVariable v s) hc hcount
      rw [hlen] at this
      rw [Call.code]
      simp only [hv]
      exact this
    | none =>
      refine ⟨_, _, by rw [Call.eval]; simp only [hv]; rw [ha]; rfl, ?_⟩
      have hcount : ws.length + ([] : List Word).length ≤ 65535 := by
        simpa [Call.args, Context.hidden, hv, hlen] using hp.2
      have := Computes.passing (owner ++ "." ++ name) (.nil [] s) hc hcount
      rw [hlen] at this
      rw [Call.code]
      simp only [hv]
      exact this

theorem arguments_compute (library : Library) (f : Frame) (args : List Expression)
    (hp : k.Permits (usesOf args)) (s : Store) :
    ∃ ws t, evalArguments library k f args s = some (ws, t) ∧ ws.length = args.length
      ∧ Computes library f (argumentCode k args) [] s ws.reverse t := by
  match args with
  | [] => exact ⟨[], s, rfl, rfl, .nil [] s⟩
  | e :: es =>
    rw [usesOf, Context.permits_append] at hp
    obtain ⟨w, t, he, hc⟩ := e.computes library f hp.1 s
    obtain ⟨ws, u, hes, hlen, hcs⟩ := arguments_compute library f es hp.2 t
    refine ⟨w :: ws, u, by rw [evalArguments, he]; simp [hes], by simp [hlen], ?_⟩
    rw [List.reverse_cons]
    exact hc.append (hcs.above [w])

end

/-! ### Expressions that are accepted -/

/-- An expression that is recognised and whose actions are performed has been emitted, and its
names stand for variables. -/
theorem Session.adds_of_expression {c : Cursor} {s t : Session}
    (hf : (Script.ofGoals expressionGoals c #[]).fault? = none)
    (hs : s.performAll (Script.ofGoals expressionGoals c #[]).actions.toList = (t, none)) :
    ∃ is, t.code = s.code ++ is
      ∧ (∃ e : Expression,
        c.lexemes = e.lexemes ++ (Script.ofGoals expressionGoals c #[]).cursor.lexemes)
      ∧ ∀ e : Expression,
        c.lexemes = e.lexemes ++ (Script.ofGoals expressionGoals c #[]).cursor.lexemes →
          is = e.code s.context ∧ s.context.Permits e.uses := by
  obtain ⟨e, hend, he⟩ := Script.exists_expression hf
  generalize hscript : Script.ofGoals expressionGoals c #[] = script at *
  have hrelocate : script.relocate noPlace
      = .ofWords expressionGoals (e.lexemes ++ script.cursor.lexemes) c.constructs [] := by
    have hgoals : expressionGoals.map (Goal.relocate noPlace) = expressionGoals := rfl
    rw [← he, Script.ofWords, ← c.relocate_noPlace, ← hscript, ← Script.ofGoals_relocate, hgoals,
      Array.map_empty]
  have hl := e.leadsTo_actions hend [] c.constructs []
  rw [List.append_nil, ← hrelocate, Script.ofWords, Script.ofGoals_nil] at hl
  have hcount : Counted e.uses := hl.holds (by rw [Script.relocate, hf]; rfl)
  have hactions : script.actions.toList.map (Action.relocate noPlace) = e.actions := by
    have := congrArg (fun s => s.actions.toList) (hl.eq hcount)
    simpa [Script.relocate] using this
  have hrun := Session.performAll_relocate noPlace s script.actions.toList
  rw [hactions, hs] at hrun
  have hcontext : (s.relocate noPlace).context = s.context := rfl
  have key : ∀ e' : Expression, Counted e'.uses → e'.actions = e.actions →
      t.code = s.code ++ e'.code s.context ∧ s.context.Permits e'.uses := by
    intro e' hc' ha'
    have hattains := e'.performs_actions s.context hc' (s.relocate noPlace) hcontext
    rw [ha'] at hattains
    have hp : s.context.Permits e'.uses := by
      by_contra hn
      exact hattains.error hn (by rw [hrun]; rfl)
    obtain ⟨u, hu, hadds⟩ := hattains.ok hp
    rw [hrun] at hu
    obtain ⟨rfl, -⟩ := Prod.mk.inj hu
    have hcode := hadds.code
    rw [Session.code_relocate, Session.code_relocate] at hcode
    exact ⟨hcode, hp⟩
  refine ⟨e.code s.context, (key e hcount rfl).1, ⟨e, he⟩, ?_⟩
  intro e' he'
  obtain ⟨hc', ha'⟩ := Expression.actions_eq_of_lexemes_eq
    (List.append_cancel_right (he.symm.trans he')) hcount
  obtain ⟨hcode, hp⟩ := key e' hc' ha'.symm
  exact ⟨List.append_cancel_left ((key e hcount rfl).1.symm.trans hcode), hp⟩

/-- The code of an expression that is accepted pushes one word on what the stack holds. The word
and the store are those of the expression, however its words are derived. -/
theorem expression_code_evaluates {c : Cursor} {s t : Session}
    (hf : (Script.ofGoals expressionGoals c #[]).fault? = none)
    (hs : s.performAll (Script.ofGoals expressionGoals c #[]).actions.toList = (t, none))
    (library : Library) :
    ∃ is, t.code = s.code ++ is
      ∧ (∃ e : Expression,
        c.lexemes = e.lexemes ++ (Script.ofGoals expressionGoals c #[]).cursor.lexemes)
      ∧ ∀ e : Expression,
        c.lexemes = e.lexemes ++ (Script.ofGoals expressionGoals c #[]).cursor.lexemes →
          ∀ (code more : List Instruction) (m : Machine), m.rest = is ++ more →
            ∃ w store that, e.eval library s.context m.frame m.store = some (w, store)
              ∧ Runs library code m
                { m with rest := more, stack := w :: m.stack, store := store, that := that } := by
  obtain ⟨is, hcode, hexists, hall⟩ := Session.adds_of_expression hf hs
  refine ⟨is, hcode, hexists, ?_⟩
  intro e he code more m hm
  obtain ⟨rfl, hp⟩ := hall e he
  obtain ⟨w, store, heval, hcomputes⟩ := e.computes library m.frame hp m.store
  obtain ⟨that, hrun⟩ := hcomputes code more m m.stack hm rfl rfl rfl
  exact ⟨w, store, that, heval, hrun⟩

/-- Five minus two plus one is two: operators group to the right. -/
theorem difference_of_sum_evaluates :
    ∃ t : Session, t.code = [.push .constant 5, .push .constant 2, .push .constant 1,
        .arithmetic .add, .arithmetic .sub]
      ∧ ∀ (library : Library) (code more : List Instruction) (m : Machine),
        m.rest = t.code ++ more → ∃ that,
          Runs library code m { m with rest := more, stack := 2 :: m.stack, that := that } := by
  obtain ⟨c, hc⟩ : ∃ c : Cursor, c = .before [.integer 5, .symbol .minus, .integer 2,
    .symbol .plus, .integer 1, .symbol .semicolon] 0 := ⟨_, rfl⟩
  have hf : (Script.ofGoals expressionGoals c #[]).fault? = none := by
    rw [hc]
    rfl
  obtain ⟨t, hs, ht⟩ : ∃ t, (Session.initial false).performAll
      (Script.ofGoals expressionGoals c #[]).actions.toList = (t, none)
        ∧ t.code = [.push .constant 5, .push .constant 2, .push .constant 1,
          .arithmetic .add, .arithmetic .sub] := by
    rw [hc]
    exact ⟨_, Prod.ext rfl (by rfl), by rfl⟩
  refine ⟨t, ht, ?_⟩
  intro library code more m hm
  obtain ⟨is, hcode, -, hall⟩ := expression_code_evaluates hf hs library
  rw [hcode] at hm
  obtain ⟨w, store, that, heval, hrun⟩ := hall
    (.binary (.integer 5) .subtract (.binary (.integer 2) .add (.term (.integer 1))))
    (by rw [hc]; rfl) code more m hm
  obtain ⟨rfl, rfl⟩ := Prod.mk.inj (Option.some.inj heval)
  exact ⟨that, hrun⟩

end Jack
