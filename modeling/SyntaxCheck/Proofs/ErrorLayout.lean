import Mathlib.Data.Nat.Digits.Lemmas
import SyntaxCheck.Proofs.Excerpts

/-!
# The layout of a rendered diagnostic

A rendered diagnostic is its header, naming it and its tip, then the arrow to the path; and when
its line is in the source, three more lines: a bar in the gutter, the line's number before the
shown line, and the carets. This module gives that text whole, for every diagnostic, path and
source (`Diagnostic.render_layout`), with the column each part starts at, counted in bytes.

Two facts carry the columns. A line number is written with one byte per decimal digit
(`length_toString`, `byteSize_toString`), so the gutter, one byte wider than the number, puts the
bar and the text of the line at the same column, three past the number's width. And the offset of
the carets is the byte size of what comes before the first occurrence of the token in the shown
line (`Text.byteOffset?_eq_some_iff`), or nothing when the token does not occur there
(`Text.byteOffset?_eq_none_iff`).
-/

namespace SyntaxCheck

open Text

/-! ## Line numbers -/

/-- A digit takes one byte. -/
theorem utf8Size_of_isDigit {c : Char} (h : c.isDigit = true) : c.utf8Size = 1 := by
  simp only [Char.isDigit, Bool.and_eq_true, decide_eq_true_eq] at h
  rw [Char.utf8Size_eq_one_iff]
  grind

/-- Digits take one byte each. -/
theorem byteSize_of_isDigit {l : List Char} (h : ∀ c ∈ l, c.isDigit = true) :
    byteSize l = l.length := by
  induction l with
  | nil => rfl
  | cons c cs ih =>
    simp only [List.mem_cons, forall_eq_or_imp] at h
    rw [byteSize, utf8Size_of_isDigit h.1, ih h.2, List.length_cons, Nat.add_comm]

/-- A number is written with one byte per character. -/
theorem byteSize_toString (n : Nat) : byteSize (toString n).toList = (toString n).length := by
  rw [← String.length_toList]
  refine byteSize_of_isDigit fun c hc => ?_
  exact Nat.isDigit_of_mem_toDigits (by decide : 0 < 10) (by decide : 10 ≤ 10)
    (by simpa [toString, Nat.repr] using hc)

/-- A positive number is written with as many characters as it has decimal digits. -/
theorem length_toString {n : Nat} (hn : n ≠ 0) :
    (toString n).length = (Nat.digits 10 n).length := by
  have hpos : 0 < (Nat.digits 10 n).length := by
    rw [Nat.digits_def' (by decide) (Nat.pos_of_ne_zero hn)]
    exact Nat.succ_pos _
  have hrepr : 0 < (toString n).length := by
    simpa [toString, Nat.repr] using Nat.length_toDigits_pos
  apply Nat.le_antisymm
  · exact (Nat.length_repr_le_iff hpos).2 (Nat.lt_base_pow_length_digits (by decide))
  · exact (Nat.digits_length_le_iff (by decide) n).2 ((Nat.length_repr_le_iff hrepr).1 le_rfl)

/-! ## Where a piece first occurs -/

namespace Text

/-- `pre` is what comes before the first occurrence of `needle` in `hay`: the needle occurs right
after it, and after no shorter prefix. -/
def FirstOccurrence (needle hay pre : List Char) : Prop :=
  (∃ post, hay = pre ++ needle ++ post) ∧
    ∀ pre' post', hay = pre' ++ needle ++ post' → pre.length ≤ pre'.length

/-- A needle that occurs in a text has a first occurrence, and the offset the search gives is the
byte size of what comes before it. -/
theorem byteOffset?_first {needle : List Char} :
    ∀ {hay : List Char}, needle <:+: hay →
      ∃ pre, FirstOccurrence needle hay pre ∧ byteOffset? needle hay = some (byteSize pre)
  | [], h => by
    obtain rfl := List.eq_nil_of_infix_nil h
    exact ⟨[], ⟨⟨[], rfl⟩, fun _ _ _ => Nat.zero_le _⟩, by simp [byteOffset?, byteSize]⟩
  | c :: cs, h => by
    by_cases hp : needle.isPrefixOf (c :: cs)
    · -- the needle starts the text
      refine ⟨[], ⟨⟨(c :: cs).drop needle.length, ?_⟩, fun _ _ _ => Nat.zero_le _⟩,
        by simp [byteOffset?, hp, byteSize]⟩
      rw [List.nil_append, List.prefix_iff_eq_append.1 (List.isPrefixOf_iff_prefix.1 hp)]
    · -- the needle occurs in the rest, and every occurrence is there
      have hcs : needle <:+: cs := by
        rcases List.infix_cons_iff.1 h with h | h
        · exact absurd (List.isPrefixOf_iff_prefix.2 h) hp
        · exact h
      obtain ⟨pre, ⟨⟨post, hsplit⟩, hfirst⟩, hoff⟩ := byteOffset?_first hcs
      refine ⟨c :: pre, ⟨⟨post, by rw [hsplit]; rfl⟩, fun pre' post' hsplit' => ?_⟩, ?_⟩
      · cases pre' with
        | nil =>
          have hprefix : needle <+: c :: cs := ⟨post', hsplit'.symm⟩
          exact absurd (List.isPrefixOf_iff_prefix.2 hprefix) hp
        | cons c' pre' =>
          simp only [List.cons_append, List.cons.injEq] at hsplit'
          simpa using hfirst pre' post' hsplit'.2
      · rw [byteOffset?, if_neg hp, hoff]
        rfl

/-- A needle that does not occur is not found. -/
theorem byteOffset?_of_absent {needle : List Char} :
    ∀ {hay : List Char}, ¬ needle <:+: hay → byteOffset? needle hay = none
  | [], h => by
    have hne : needle ≠ [] := fun hnil => h (hnil ▸ List.nil_infix)
    simp [byteOffset?, hne]
  | c :: cs, h => by
    have hp : needle.isPrefixOf (c :: cs) = false := by
      rw [Bool.eq_false_iff]
      exact fun hp => h (List.isPrefixOf_iff_prefix.1 hp).isInfix
    rw [byteOffset?, if_neg (by simp [hp]),
      byteOffset?_of_absent fun hcs => h (hcs.trans (List.suffix_cons c cs).isInfix)]
    rfl

/-- **The search finds the first occurrence.** It gives an offset exactly when the needle occurs
right after some prefix, with no earlier occurrence; the offset is that prefix's byte size. -/
theorem byteOffset?_eq_some_iff {needle hay : List Char} {o : Nat} :
    byteOffset? needle hay = some o ↔
      ∃ pre, FirstOccurrence needle hay pre ∧ o = byteSize pre := by
  constructor
  · intro hoff
    by_cases hin : needle <:+: hay
    · obtain ⟨pre, hfirst, hoff'⟩ := byteOffset?_first hin
      rw [hoff'] at hoff
      exact ⟨pre, hfirst, (Option.some.inj hoff).symm⟩
    · rw [byteOffset?_of_absent hin] at hoff
      cases hoff
  · rintro ⟨pre, ⟨⟨post, hsplit⟩, hfirst⟩, rfl⟩
    have hin : needle <:+: hay := ⟨pre, post, hsplit.symm⟩
    obtain ⟨pre', ⟨⟨post', hsplit'⟩, hfirst'⟩, hoff⟩ := byteOffset?_first hin
    -- two first occurrences have prefixes of one length, so they are the same prefix
    have hlen : pre'.length = pre.length :=
      Nat.le_antisymm (hfirst' pre post hsplit) (hfirst pre' post' hsplit')
    have hpre : pre' = pre := by
      have h := congrArg (List.take pre.length) (hsplit'.symm.trans hsplit)
      simpa [List.append_assoc, List.take_left' hlen] using h
    rw [hoff, hpre]

/-- The search finds nothing exactly when the needle does not occur. -/
theorem byteOffset?_eq_none_iff {needle hay : List Char} :
    byteOffset? needle hay = none ↔ ¬ needle <:+: hay := by
  constructor
  · intro hnone hin
    obtain ⟨pre, -, hoff⟩ := byteOffset?_first hin
    rw [hoff] at hnone
    cases hnone
  · exact byteOffset?_of_absent

/-- Each character of a repeated character takes as many bytes. -/
@[simp] theorem byteSize_replicate (k : Nat) (c : Char) :
    byteSize (List.replicate k c) = k * c.utf8Size := by
  induction k with
  | zero => simp [byteSize]
  | succ k ih => rw [List.replicate_succ, byteSize, ih, Nat.succ_mul, Nat.add_comm]

theorem utf8ByteSize_ofList (l : List Char) : (String.ofList l).utf8ByteSize = byteSize l := by
  rw [← byteSize_toList, String.toList_ofList]

end Text

/-! ## The rendered text -/

namespace Diagnostic

@[simp] theorem utf8ByteSize_spaces (k : Nat) : (spaces k).utf8ByteSize = k := by
  have hspace : ' '.utf8Size = 1 := rfl
  simp [spaces, utf8ByteSize_ofList, hspace]

/-- Where the carets go under a shown line: right under the first occurrence of the token when it
has one that occurs, as many as the token has bytes; else from the line's start, as many as the
line has bytes; at least one in both cases. -/
def CaretSpan (token : Option Token) (shown : List Char) (o c : Nat) : Prop :=
  (∃ t pre, token = some t ∧ FirstOccurrence t.value.toList shown pre ∧ o = byteSize pre ∧
      c = max 1 t.value.utf8ByteSize) ∨
    ((∀ t, token = some t → ¬ t.value.toList <:+: shown) ∧ o = 0 ∧
      c = max 1 (byteSize shown))

/-- The caret line is the offset in spaces, then the carets. -/
theorem marks_eq (token : Option Token) (shown : List Char) :
    ∃ o c, CaretSpan token shown o c ∧
      marks token shown = spaces o ++ String.ofList (List.replicate c '^') := by
  cases htok : token with
  | none => exact ⟨0, _, Or.inr ⟨fun _ h => (by cases h), rfl, rfl⟩, rfl⟩
  | some t =>
    cases hoff : byteOffset? t.value.toList shown with
    | none =>
      refine ⟨0, _, Or.inr ⟨fun t' ht' => ?_, rfl, rfl⟩, ?_⟩
      · cases ht'
        exact byteOffset?_eq_none_iff.1 hoff
      · simp [marks, hoff, carets]
        rfl
    | some o =>
      obtain ⟨pre, hfirst, rfl⟩ := byteOffset?_eq_some_iff.1 hoff
      exact ⟨_, _, Or.inl ⟨t, pre, rfl, hfirst, rfl, rfl⟩, by simp [marks, hoff, carets]⟩

/-- **How a diagnostic is rendered.** With `n` its line and `w` the number of decimal digits of
`n`, the rendering is the header: the diagnostic's name and tip, then the path. When line `n` is
not in the source, that is all. When it is, with `T` the line without its indentation and its
trailing blanks, three lines follow: `w + 1` spaces and a bar; `n`, a bar between spaces and `T`;
and the bar again, a space, `o` spaces and `c` carets, where the carets sit under the first
occurrence of the token, or under the whole of `T` (`CaretSpan`). In the line of `T`, `T` starts
at byte column `w + 3`, and in the caret line the carets start at byte column `w + 3 + o`. -/
theorem render_layout (d : Diagnostic) (path source : String) :
    (lineAt source d.pos.line = none →
      d.render path source =
        "Error: " ++ d.name ++ " (" ++ d.tip ++ ")\n" ++ "-> " ++ path ++ "\n") ∧
    ∀ L, lineAt source d.pos.line = some L →
      ∃ T w o c, T = dropTrailingBlanks (dropIndent L.toList) ∧
        w = (Nat.digits 10 d.pos.line).length ∧ CaretSpan d.token T o c ∧
        d.render path source =
          "Error: " ++ d.name ++ " (" ++ d.tip ++ ")\n" ++ "-> " ++ path ++ "\n" ++
          spaces (w + 1) ++ "|" ++ "\n" ++
          toString d.pos.line ++ " | " ++ String.ofList T ++ "\n" ++
          spaces (w + 1) ++ "|" ++ " " ++ spaces o ++
            String.ofList (List.replicate c '^') ++ "\n" ∧
        (toString d.pos.line ++ " | ").utf8ByteSize = w + 3 ∧
        (spaces (w + 1) ++ "|" ++ " " ++ spaces o).utf8ByteSize = w + 3 + o := by
  refine ⟨fun hL => by simp [render, hL, header], fun L hL => ?_⟩
  -- line 0 is never in the source, so the number has as many characters as digits
  have hn : d.pos.line ≠ 0 := by
    rintro hzero
    rw [hzero] at hL
    cases hL
  have hwidth := length_toString hn
  obtain ⟨o, c, hspan, hmarks⟩ := marks_eq d.token (dropTrailingBlanks (dropIndent L.toList))
  refine ⟨_, _, o, c, rfl, rfl, hspan, ?_, ?_, ?_⟩
  · simp only [render, hL, header, hmarks, hwidth, String.append_assoc]
  · rw [String.utf8ByteSize_append, ← byteSize_toList, byteSize_toString, hwidth]
    rfl
  · simp only [String.utf8ByteSize_append, utf8ByteSize_spaces]
    have hbar : ("|" : String).utf8ByteSize + (" " : String).utf8ByteSize = 2 := rfl
    omega

end Diagnostic

end SyntaxCheck
