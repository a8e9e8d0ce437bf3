import Mathlib.Data.List.Lex
import Mathlib.Data.String.Basic

/-! Texts in the order of their characters' codes are in the order of their bytes: the encoding of a
smaller character differs from that of a larger one at a byte that both have, and is smaller
there. -/

namespace Jack

/-- The bytes differ at a place that both lists have, and those of the first are smaller there. -/
inductive DiffersBelow : List UInt8 → List UInt8 → Prop
  | head {x y : UInt8} (h : x < y) (xs ys : List UInt8) : DiffersBelow (x :: xs) (y :: ys)
  | cons (x : UInt8) {xs ys : List UInt8} (h : DiffersBelow xs ys) :
      DiffersBelow (x :: xs) (x :: ys)

theorem DiffersBelow.append_lt {xs ys : List UInt8} (h : DiffersBelow xs ys)
    (more more' : List UInt8) : xs ++ more < ys ++ more' := by
  induction h with
  | head h xs ys => exact List.Lex.rel h
  | cons x h ih => exact List.Lex.cons ih

/-- Neither text can be continued to the other. -/
theorem DiffersBelow.not_isPrefix {xs ys : List UInt8} (h : DiffersBelow xs ys)
    (more more' : List UInt8) :
    ¬xs ++ more <+: ys ++ more' ∧ ¬ys ++ more' <+: xs ++ more := by
  induction h with
  | head h xs ys =>
    simp only [List.cons_append, List.cons_prefix_cons]
    exact ⟨fun hcont => (UInt8.ne_of_lt h) hcont.1, fun hcont => (UInt8.ne_of_lt h) hcont.1.symm⟩
  | cons x h ih =>
    simp only [List.cons_append, List.cons_prefix_cons, true_and]
    exact ih

theorem ofNat_lt_ofNat {m n : Nat} (h : m < n) (hn : n < 256) : UInt8.ofNat m < UInt8.ofNat n := by
  rw [UInt8.lt_iff_toNat_lt, UInt8.toNat_ofNat_of_lt' (h.trans hn), UInt8.toNat_ofNat_of_lt' hn]
  exact h

/-- Where the first byte is not smaller it is the same, and the rest decides. -/
theorem differsBelow_cons {m n : Nat} {xs ys : List UInt8} (hle : m ≤ n) (hn : n < 256)
    (h : m = n → DiffersBelow xs ys) :
    DiffersBelow (UInt8.ofNat m :: xs) (UInt8.ofNat n :: ys) := by
  by_cases heq : m = n
  · rw [heq]
    exact .cons _ (h heq)
  · exact .head (ofNat_lt_ofNat (by omega) hn) _ _

/-- The encoding of a larger character has more bytes, with a larger first byte, or as many. -/
theorem differsBelow_utf8EncodeChar {c d : Char} (h : c < d) :
    DiffersBelow (String.utf8EncodeChar c) (String.utf8EncodeChar d) := by
  have hvw : c.val.toNat < d.val.toNat := h
  have hlast : d.val.toNat < 0x110000 := by
    have hvalid := d.valid
    unfold UInt32.isValidChar Nat.isValidChar at hvalid
    omega
  unfold String.utf8EncodeChar
  dsimp only
  generalize c.val.toNat = v at hvw
  generalize d.val.toNat = w at hvw hlast
  by_cases hv : v ≤ 0x7f
  · rw [if_pos hv]
    split
    · exact .head (ofNat_lt_ofNat hvw (by omega)) _ _
    split
    · exact .head (ofNat_lt_ofNat (by omega) (by omega)) _ _
    split
    · exact .head (ofNat_lt_ofNat (by omega) (by omega)) _ _
    · exact .head (ofNat_lt_ofNat (by omega) (by omega)) _ _
  by_cases hv' : v ≤ 0x7ff
  · rw [if_neg hv, if_pos hv', if_neg (show ¬w ≤ 0x7f by omega)]
    split
    · refine differsBelow_cons (by omega) (by omega) fun hfirst => ?_
      exact .head (ofNat_lt_ofNat (by omega) (by omega)) _ _
    split
    · exact .head (ofNat_lt_ofNat (by omega) (by omega)) _ _
    · exact .head (ofNat_lt_ofNat (by omega) (by omega)) _ _
  by_cases hv'' : v ≤ 0xffff
  · rw [if_neg hv, if_neg hv', if_pos hv'', if_neg (show ¬w ≤ 0x7f by omega),
      if_neg (show ¬w ≤ 0x7ff by omega)]
    split
    · refine differsBelow_cons (by omega) (by omega) fun hfirst => ?_
      refine differsBelow_cons (by omega) (by omega) fun hsecond => ?_
      exact .head (ofNat_lt_ofNat (by omega) (by omega)) _ _
    · exact .head (ofNat_lt_ofNat (by omega) (by omega)) _ _
  · rw [if_neg hv, if_neg hv', if_neg hv'', if_neg (show ¬w ≤ 0x7f by omega),
      if_neg (show ¬w ≤ 0x7ff by omega), if_neg (show ¬w ≤ 0xffff by omega)]
    refine differsBelow_cons (by omega) (by omega) fun hfirst => ?_
    refine differsBelow_cons (by omega) (by omega) fun hsecond => ?_
    refine differsBelow_cons (by omega) (by omega) fun hthird => ?_
    exact .head (ofNat_lt_ofNat (by omega) (by omega)) _ _

/-- The bytes of a text, in order. -/
def bytesOf (text : String) : List UInt8 := text.toUTF8.data.toList

theorem bytesOf_eq (text : String) : bytesOf text = text.toList.flatMap String.utf8EncodeChar := by
  rw [bytesOf, String.toUTF8_eq_toByteArray, ← String.utf8Encode_toList, List.utf8Encode,
    List.data_toByteArray]

theorem flatMap_utf8EncodeChar_lt {cs ds : List Char} (h : cs < ds) :
    cs.flatMap String.utf8EncodeChar < ds.flatMap String.utf8EncodeChar := by
  change List.Lex (· < ·) cs ds at h
  induction h with
  | @nil d ds =>
    obtain ⟨x, xs, hencode⟩ := List.exists_cons_of_ne_nil (String.utf8EncodeChar_ne_nil (c := d))
    rw [List.flatMap_nil, List.flatMap_cons, hencode]
    exact List.Lex.nil
  | rel hcd => exact (differsBelow_utf8EncodeChar hcd).append_lt _ _
  | @cons c cs ds _ ih =>
    rw [List.flatMap_cons, List.flatMap_cons]
    exact List.Lex.append_left _ ih _

theorem bytesOf_lt_of_lt {text text' : String} (h : text < text') :
    bytesOf text < bytesOf text' := by
  rw [bytesOf_eq, bytesOf_eq]
  exact flatMap_utf8EncodeChar_lt (String.lt_iff_toList_lt.1 h)

/-- A text that begins otherwise than another one is no part of it either, however many bytes the
part has. -/
theorem not_bytesOf_part {text text' : String} {c : Char} (hc : text.toList.head? = some c)
    (hother : ∀ d ∈ text'.toList.head?, d ≠ c) : ¬bytesOf text <+: bytesOf text' := by
  obtain ⟨cs, htext⟩ := List.head?_eq_some_iff.1 hc
  rw [bytesOf_eq, bytesOf_eq, htext, List.flatMap_cons]
  cases htext' : text'.toList with
  | nil =>
    rw [List.flatMap_nil, List.prefix_nil, List.append_eq_nil_iff]
    exact fun h => String.utf8EncodeChar_ne_nil h.1
  | cons d ds =>
    have hne : d ≠ c := hother d (by rw [htext']; rfl)
    rw [List.flatMap_cons]
    rcases lt_or_gt_of_ne hne with hlt | hgt
    · exact ((differsBelow_utf8EncodeChar hlt).not_isPrefix _ _).2
    · exact ((differsBelow_utf8EncodeChar hgt).not_isPrefix _ _).1

end Jack
