import Mathlib
import SyntaxCheck.Proofs.TextLines
import SyntaxCheck.Proofs.LongestMatch
import SyntaxCheck.Proofs.FailFast
import SyntaxCheck.Diagnostic.Excerpt

/-!
# Every diagnostic of a source is shown with its line

Two notions of line meet in a diagnostic. The scanner counts lines itself, one more for each line
feed in the blanks it skips; an excerpt finds its line by cutting the source at its line feeds,
then drops the carriage returns that end the line, its indentation and its trailing blanks. They
agree because no lexeme but a run of blanks holds a line feed, and every token spans a piece of
its line that begins and ends with characters that are not blank (`Lexeme.front_spans`): its
spelling, or the quotes around a string constant. Such a piece is on line `k + 1` of the text when
`k` line feeds come before it, and it survives the trimming (`Text.lineAt_of_piece`,
`Text.infix_trim_of_solid`).

So every token the scanner reads stands on its line, the lines never go back (`scan_onLine`), and
a scanning fault stands on its line with the character or the quote that caused it
(`scan_faultOnLine`). A recognition over the tokens of a text halts, if it does, at one of those
tokens (`program_diagnostic_of_yields`), and the excerpt puts its carets under the first
occurrence of that token's text in the line it shows (`render_showsExcerpt`). Hence every
diagnostic of a source, from scanning it or from recognising it, is shown with the excerpt of its
line.
-/

namespace SyntaxCheck

open Text

/-! ## The text a lexeme spans -/

namespace Lexeme

/-- The piece of text a lexeme spans. A token spans a piece of one line that holds its text and
begins and ends with characters that are not blank: its spelling, or the text of a string constant
with its quotes. A run of blanks spans as many line feeds as it counts, a comment none. -/
def Spans : Lexeme → List Char → Prop
  | .token _ text, w => '\n' ∉ w ∧ text.toList <:+: w ∧ Solid w
  | .blank n, w => w.count '\n' = n
  | .comment, w => '\n' ∉ w

theorem isBlank_eq_false_of_isWordStart {c : Char} (h : isWordStart c = true) :
    isBlank c = false := by
  cases hb : isBlank c
  · rfl
  · rw [Longest.isWordStart_eq, (Longest.not_wordStart_of_blank hb).1] at h
    cases h

theorem isBlank_eq_false_of_isDigit {c : Char} (h : c.isDigit = true) : isBlank c = false := by
  cases hb : isBlank c
  · rfl
  · rw [Longest.isDigit_eq, (Longest.not_wordStart_of_blank hb).2] at h
    cases h

theorem isBlank_eq_false_of_isWordChar {c : Char} (h : isWordChar c = true) :
    isBlank c = false := by
  cases hb : isBlank c
  · rfl
  · obtain ⟨hw, hd⟩ := Longest.not_wordStart_of_blank hb
    rw [Longest.isWordChar_eq, Longest.isWordChar, hw, hd] at h
    cases h

theorem operators_not_blank : ∀ o ∈ operators, ∀ x ∈ o.1, isBlank x = false := by
  have h : (operators.all fun o => o.1.all fun x => !isBlank x) = true := by decide
  simpa using h

/-- A token whose text is a piece of characters that are not blank spans that piece. -/
theorem spans_of_not_blank (k : TokenKind) {w : List Char} (h : ∀ x ∈ w, isBlank x = false) :
    (token k (String.ofList w)).Spans w :=
  ⟨fun hn => absurd (h _ hn) (by decide), by simp, solid_of_forall h⟩

/-- A character, then the stretch after it taken while `p` holds, then the rest. -/
theorem cons_eq_takeWhile_append (p : Char → Bool) (c : Char) (cs : List Char) :
    c :: cs = (c :: cs.takeWhile p) ++ cs.dropWhile p := by
  rw [List.cons_append, List.takeWhile_append_dropWhile]

/-- **The lexeme at the front of a text spans the text before what follows it.** -/
theorem front_spans {c : Char} {cs : List Char} {x : Lexeme}
    {rest : { r : List Char // r.length ≤ cs.length }} (h : front c cs = .ok (x, rest)) :
    ∃ w, c :: cs = w ++ rest.1 ∧ x.Spans w := by
  unfold front at h
  split at h
  · -- a word
    rename_i hw
    cases h
    refine ⟨_, cons_eq_takeWhile_append isWordChar c cs, spans_of_not_blank _ fun y hy => ?_⟩
    rcases List.mem_cons.1 hy with rfl | hy
    · exact isBlank_eq_false_of_isWordStart hw
    · exact isBlank_eq_false_of_isWordChar (List.mem_takeWhile_imp hy)
  split at h
  · -- a number, with a fraction when a digit follows its point
    rename_i _ hd
    have hdigits : ∀ y ∈ c :: cs.takeWhile Char.isDigit, isBlank y = false := fun y hy => by
      rcases List.mem_cons.1 hy with rfl | hy
      · exact isBlank_eq_false_of_isDigit hd
      · exact isBlank_eq_false_of_isDigit (List.mem_takeWhile_imp hy)
    split at h
    · rename_i d more hr
      split at h
      · rename_i hd'
        cases h
        refine ⟨_, ?_, spans_of_not_blank _ fun y hy => ?_⟩
        · show c :: cs =
            (c :: cs.takeWhile Char.isDigit ++ '.' :: d :: more.takeWhile Char.isDigit) ++
              more.dropWhile Char.isDigit
          simp only [List.cons_append, List.append_assoc, List.takeWhile_append_dropWhile, ← hr]
        · rcases List.mem_append.1 hy with hy | hy
          · exact hdigits y hy
          rcases List.mem_cons.1 hy with rfl | hy
          · decide
          rcases List.mem_cons.1 hy with rfl | hy
          · exact isBlank_eq_false_of_isDigit hd'
          · exact isBlank_eq_false_of_isDigit (List.mem_takeWhile_imp hy)
      · cases h
        refine ⟨_, ?_, spans_of_not_blank _ hdigits⟩
        show c :: cs = (c :: cs.takeWhile Char.isDigit) ++ '.' :: d :: more
        rw [← hr]
        exact cons_eq_takeWhile_append _ c cs
    · cases h
      exact ⟨_, cons_eq_takeWhile_append _ c cs, spans_of_not_blank _ hdigits⟩
  split at h
  · -- a run of blanks
    cases h
    exact ⟨_, cons_eq_takeWhile_append isBlank c cs, rfl⟩
  split at h
  · -- a string constant, closed on its line
    rename_i hq
    subst hq
    split at h
    · rename_i rest' hr
      cases h
      refine ⟨'"' :: cs.takeWhile isStringChar ++ ['"'], ?_, fun hn => ?_, ?_, solid_quoted _⟩
      · show '"' :: cs = ('"' :: cs.takeWhile isStringChar ++ ['"']) ++ rest'
        simp only [List.cons_append, List.nil_append, List.append_assoc, ← hr,
          List.takeWhile_append_dropWhile]
      · -- the text of a string constant has no line feed, and neither have its quotes
        simp only [List.cons_append, List.mem_cons, List.mem_append] at hn
        rcases hn with hn | hn | hn | hn
        · exact absurd hn (by decide)
        · have := List.mem_takeWhile_imp hn
          simp [isStringChar] at this
        · exact absurd hn (by decide)
        · exact absurd hn List.not_mem_nil
      · rw [String.toList_ofList, List.cons_append]
        exact (List.infix_append [] _ ['"']).trans (List.suffix_cons _ _).isInfix
    · cases h
  split at h
  · -- a comment, up to the end of its line
    rename_i hcom
    cases h
    refine ⟨_, cons_eq_takeWhile_append (· ≠ '\n') c cs, fun hn => ?_⟩
    rcases List.mem_cons.1 hn with hn | hn
    · simp only [Bool.and_eq_true, decide_eq_true_eq] at hcom
      rw [hcom.1] at hn
      exact absurd hn (by decide)
    · simpa using List.mem_takeWhile_imp hn
  · -- an operator, by its spelling
    unfold front.operator at h
    split at h
    · rename_i spelling kind hf
      cases h
      have hmem := List.mem_of_find?_eq_some hf
      have hpre : spelling <+: c :: cs := by
        simpa [List.isPrefixOf_iff_prefix] using List.find?_some hf
      obtain ⟨y, ys, rfl⟩ := List.exists_cons_of_ne_nil (Longest.operators_ne_nil _ hmem)
      refine ⟨y :: ys, ?_, spans_of_not_blank _ (operators_not_blank _ hmem)⟩
      rw [← List.prefix_iff_eq_append.1 hpre]
      simp
    · cases h

/-- Where no lexeme can be read, the first character is not blank and begins no operator, or it
opens a string constant that its line does not close. -/
theorem front_fault {c : Char} {cs : List Char} {f : ScanFault} (h : front c cs = .error f) :
    (f = .unrecognised c ∧ isBlank c = false) ∨ (f = .unterminated ∧ c = '"') := by
  unfold front at h
  split at h
  · cases h
  split at h
  · split at h
    · split at h <;> cases h
    · cases h
  split at h
  · cases h
  split at h
  · rename_i hq
    split at h
    · cases h
    · cases h
      exact Or.inr ⟨rfl, hq⟩
  split at h
  · cases h
  · rename_i hb _ _
    unfold front.operator at h
    split at h
    · cases h
    · cases h
      exact Or.inl ⟨rfl, by simpa using hb⟩

/-- A text of blanks alone is one run of blanks, read whole with all its line feeds. -/
theorem front_blanks {c : Char} {cs : List Char} (hc : isBlank c = true)
    (hcs : ∀ x ∈ cs, isBlank x = true) :
    front c cs = .ok (.blank ((c :: cs).count '\n'), ⟨[], Nat.zero_le _⟩) := by
  have hw : isWordStart c = false := by
    cases h : isWordStart c
    · rfl
    · rw [isBlank_eq_false_of_isWordStart h] at hc
      cases hc
  have hd : c.isDigit = false := by
    cases h : c.isDigit
    · rfl
    · rw [isBlank_eq_false_of_isDigit h] at hc
      cases hc
  have htake : cs.takeWhile isBlank = cs := List.takeWhile_eq_self_iff.2 hcs
  have hdrop : cs.dropWhile isBlank = [] := List.dropWhile_eq_nil_iff.2 hcs
  unfold front
  simp [hw, hd, hc, htake, hdrop]

end Lexeme

/-! ## The scanner counts the lines of its text -/

/-- Where the scanner stands in `source`: the text left to scan, `cs`, follows a part `pre` of
the source, and the scanner's counter holds the line on which `pre` ends. The source has fewer
line feeds than would take its last line past the largest number of 32 bits, so the counter
never wraps around. -/
def At (source : String) (line : UInt32) (cs : List Char) : Prop :=
  ∃ pre, source.toList = pre ++ cs ∧ pre.count '\n' + 1 = line.toNat ∧
    source.toList.count '\n' < 2 ^ 32 - 1

theorem at_start {source : String} (hs : source.toList.count '\n' < 2 ^ 32 - 1) :
    At source 1 source.toList :=
  ⟨[], rfl, rfl, hs⟩

/-- Counting the line feeds of a piece where the scanner stands does not wrap the counter. -/
theorem At.toNat_add {source : String} {line : UInt32} {w rest : List Char}
    (h : At source line (w ++ rest)) :
    (line + (w.count '\n').toUInt32).toNat = line.toNat + w.count '\n' := by
  obtain ⟨pre, hs, hl, hb⟩ := h
  have hcount : source.toList.count '\n' = pre.count '\n' + w.count '\n' + rest.count '\n' := by
    rw [hs, List.count_append, List.count_append, Nat.add_assoc]
  have hw : w.count '\n' < UInt32.size := show _ < 2 ^ 32 by omega
  rw [UInt32.toNat_add, Nat.toUInt32_eq, UInt32.toNat_ofNat_of_lt' hw]
  exact Nat.mod_eq_of_lt (by omega)

/-- Passing a piece moves the line on by the line feeds in it. -/
theorem At.advance {source : String} {line : UInt32} {w rest : List Char}
    (h : At source line (w ++ rest)) : At source (line + (w.count '\n').toUInt32) rest := by
  have hline := h.toNat_add
  obtain ⟨pre, hs, hl, hb⟩ := h
  exact ⟨pre ++ w, by rw [hs, List.append_assoc], by rw [List.count_append, hline]; omega, hb⟩

/-- Passing a piece without line feeds keeps the line. -/
theorem At.advance_flat {source : String} {line : UInt32} {w rest : List Char}
    (h : At source line (w ++ rest)) (hw : '\n' ∉ w) : At source line rest := by
  simpa [List.count_eq_zero.2 hw] using h.advance

/-- A solid piece without line feeds where the scanner stands is in what the excerpt of the
scanner's line shows. -/
theorem At.shows {source : String} {line : UInt32} {w rest : List Char}
    (h : At source line (w ++ rest)) (hw : '\n' ∉ w) (hs : Solid w) :
    ∃ L, lineAt source line.toNat = some L ∧
      w <:+: dropTrailingBlanks (dropIndent L.toList) := by
  obtain ⟨pre, hsrc, hl, -⟩ := h
  obtain ⟨B, C, hL⟩ := lineAt_of_piece (hsrc.trans (List.append_assoc _ _ _).symm) hw
  exact ⟨_, hl ▸ hL, by rw [String.toList_ofList]; exact infix_trim_of_solid hs B C⟩

/-- A character that is not blank where the scanner stands is in what the excerpt of the
scanner's line shows. -/
theorem At.shows_char {source : String} {line : UInt32} {c : Char} {cs : List Char}
    (h : At source line (c :: cs)) (hc : isBlank c = false) :
    ∃ L, lineAt source line.toNat = some L ∧ c ∈ dropTrailingBlanks (dropIndent L.toList) := by
  have hn : '\n' ∉ [c] := fun hn => by
    rw [← List.mem_singleton.1 hn] at hc
    exact absurd hc (by decide)
  have h' : At source line ([c] ++ cs) := h
  obtain ⟨L, hL, hcL⟩ := h'.shows hn (solid_of_forall (by simpa using hc))
  exact ⟨L, hL, hcL.subset (List.mem_singleton_self c)⟩

/-- A token stands on its line of `source`: that line exists, and the token's text is in what
the excerpt of the line shows. -/
def Token.OnLine (source : String) (t : Token) : Prop :=
  ∃ L, lineAt source t.line = some L ∧
    t.value.toList <:+: dropTrailingBlanks (dropIndent L.toList)

/-- A scanning fault stands on its line of `source`: it has no token, its line exists, and the
character that begins no lexeme, or the quote of the string constant left open, is in what the
excerpt of the line shows. -/
def Diagnostic.ScanFaultOnLine (source : String) (e : Diagnostic) : Prop :=
  e.token = none ∧ ∃ L, lineAt source e.pos.line = some L ∧
    ((∃ c, e.fault = .unrecognised (String.singleton c) ∧
        c ∈ dropTrailingBlanks (dropIndent L.toList)) ∨
      (e.fault = .unterminatedString ∧ '"' ∈ dropTrailingBlanks (dropIndent L.toList)))

/-- **The scanner reads every token on its line.** From where it stands in `source`, every token
it reads stands on its line, no earlier than the line it starts from, and the lines never go back.
The tokens end in an end of file, so there is at least one. -/
theorem scan_onLine {source file : String} {line : UInt32} {cs : List Char}
    (hat : At source line cs) {ts : List Token} (h : scan file line cs = .ok ts) :
    ts ≠ [] ∧ (∀ t ∈ ts, line.toNat ≤ t.line ∧ t.OnLine source) ∧
      ts.Pairwise (fun t u => t.line ≤ u.line) := by
  -- on the scanner's recursion; `At` carries the line from each lexeme to the next
  fun_induction scan file line cs generalizing ts with
  | case1 line =>
    -- the end of file stands on the last line, which is there even when empty
    simp only [Except.ok.injEq] at h
    subst h
    have hat' : At source line ([] ++ []) := hat
    obtain ⟨L, hL, -⟩ := At.shows hat' (by simp) (solid_of_forall (by simp))
    refine ⟨List.cons_ne_nil _ _, ?_, List.pairwise_singleton _ _⟩
    simp only [List.mem_singleton, forall_eq]
    exact ⟨le_refl _, L, hL, by simp [Token.endAt]⟩
  | case2 => cases h
  | case3 => cases h
  | case4 line c cs k text rest _ hfront ih =>
    obtain ⟨w, hcs, hw, htext, hsolid⟩ := Lexeme.front_spans hfront
    rw [hcs] at hat
    obtain ⟨L, hL, hwL⟩ := At.shows hat hw hsolid
    cases hs : scan file line rest with
    | error e => simp [hs, Except.map] at h
    | ok us =>
      simp only [hs, Except.map, Except.ok.injEq] at h
      subst h
      obtain ⟨-, hall, hpw⟩ := ih (hat.advance_flat hw) hs
      refine ⟨List.cons_ne_nil _ _, fun t ht => ?_,
        List.pairwise_cons.2 ⟨fun u hu => (hall u hu).1, hpw⟩⟩
      rcases List.mem_cons.1 ht with rfl | ht
      · exact ⟨le_refl _, L, hL, htext.trans hwL⟩
      · exact hall t ht
  | case5 line c cs n rest _ hfront ih =>
    -- the line feeds of a run of blanks move the line on, and the counter does not wrap
    obtain ⟨w, hcs, hn⟩ := Lexeme.front_spans hfront
    rw [hcs] at hat
    have hw : w.count '\n' = n := hn
    have hline := hat.toNat_add
    rw [hw] at hline
    obtain ⟨hne, hall, hpw⟩ := ih (hw ▸ hat.advance) h
    exact ⟨hne, fun t ht => ⟨by have := (hall t ht).1; omega, (hall t ht).2⟩, hpw⟩
  | case6 line c cs rest _ hfront ih =>
    obtain ⟨w, hcs, hw⟩ := Lexeme.front_spans hfront
    rw [hcs] at hat
    exact ih (hat.advance_flat hw) h

/-- **A scanning fault stands on its line**, with the character or the quote that caused it. -/
theorem scan_faultOnLine {source file : String} {line : UInt32} {cs : List Char}
    (hat : At source line cs) {e : Diagnostic} (h : scan file line cs = .error e) :
    e.ScanFaultOnLine source := by
  fun_induction scan file line cs generalizing e with
  | case1 => cases h
  | case2 line c cs c' hfront =>
    cases h
    rcases Lexeme.front_fault hfront with ⟨hf, hb⟩ | ⟨hf, -⟩
    · cases hf
      obtain ⟨L, hL, hcL⟩ := hat.shows_char hb
      exact ⟨rfl, L, hL, Or.inl ⟨c, rfl, hcL⟩⟩
    · cases hf
  | case3 line c cs hfront =>
    cases h
    rcases Lexeme.front_fault hfront with ⟨hf, -⟩ | ⟨-, rfl⟩
    · cases hf
    obtain ⟨L, hL, hcL⟩ := hat.shows_char (by decide)
    exact ⟨rfl, L, hL, Or.inr ⟨rfl, hcL⟩⟩
  | case4 line c cs k text rest _ hfront ih =>
    obtain ⟨w, hcs, hw, -⟩ := Lexeme.front_spans hfront
    rw [hcs] at hat
    cases hs : scan file line rest with
    | error e' =>
      simp only [hs, Except.map, Except.error.injEq] at h
      subst h
      exact ih (hat.advance_flat hw) hs
    | ok us => simp [hs, Except.map] at h
  | case5 line c cs n rest _ hfront ih =>
    obtain ⟨w, hcs, hn⟩ := Lexeme.front_spans hfront
    rw [hcs] at hat
    have hw : w.count '\n' = n := hn
    exact ih (hw ▸ hat.advance) h
  | case6 line c cs rest _ hfront ih =>
    obtain ⟨w, hcs, hw⟩ := Lexeme.front_spans hfront
    rw [hcs] at hat
    exact ih (hat.advance_flat hw) h

/-- A source of blanks alone scans to an end of file on the line its line feeds reach, counted
from `line` in 32 bits. -/
theorem scan_blanks (file : String) (line : UInt32) {c : Char} {cs : List Char}
    (hc : isBlank c = true) (hcs : ∀ x ∈ cs, isBlank x = true) :
    scan file line (c :: cs) =
      .ok [Token.endAt ⟨(line + ((c :: cs).count '\n').toUInt32).toNat, file⟩] := by
  rw [scan.eq_2, Lexeme.front_blanks hc hcs]
  exact scan.eq_1 _ _

/-! ## Sources over the tokens of a text -/

namespace TokenSource

/-- A source ends in repeated ends of file, and every token it hands out has the property `Q`:
its pending tokens, and the end of file it repeats once they are used up. -/
def Yields (Q : Token → Prop) (s : TokenSource) : Prop :=
  (∀ u ∈ s.pending, Q u) ∧ ∃ v p, s.tail = .ends v p ∧ Q ⟨.endOfFile, v, p⟩

variable {Q : Token → Prop}

theorem Yields.ends {s : TokenSource} (h : s.Yields Q) : s.Ends :=
  let ⟨_, v, p, htail, _⟩ := h
  ⟨v, p, htail⟩

/-- A pull hands out a token with `Q`, and leaves a source that still yields only such tokens. -/
theorem Yields.pull {s s' : TokenSource} {t : Token} (h : s.Yields Q)
    (hp : s.pull = .ok (t, s')) : Q t ∧ s'.Yields Q := by
  obtain ⟨pending, tail⟩ := s
  obtain ⟨hpend, v, p, htail, hq⟩ := h
  simp only at htail
  subst htail
  cases pending with
  | nil =>
    simp only [pull_ends, Except.ok.injEq, Prod.mk.injEq] at hp
    obtain ⟨rfl, rfl⟩ := hp
    exact ⟨hq, ⟨fun _ hu => absurd hu List.not_mem_nil, v, p, rfl, hq⟩⟩
  | cons u us =>
    simp only [pull_cons, Except.ok.injEq, Prod.mk.injEq] at hp
    obtain ⟨rfl, rfl⟩ := hp
    refine ⟨hpend u List.mem_cons_self, fun x hx => hpend x (List.mem_cons_of_mem u hx), ?_⟩
    -- an end of file handed out becomes the one repeated
    simp only [Tail.after]
    split
    · rename_i hk
      refine ⟨_, _, rfl, ?_⟩
      obtain ⟨k, val, pos⟩ := u
      simp only at hk
      subst hk
      exact hpend _ List.mem_cons_self
    · exact ⟨v, p, rfl, hq⟩

/-- The tokens taken from a source that yields only tokens with `Q` have `Q`, and so have those
of the source left after them. -/
theorem Yields.take (n : Nat) :
    ∀ {s s' : TokenSource} {u : List Token}, s.Yields Q → s.take n = .ok (u, s') →
      (∀ t ∈ u, Q t) ∧ s'.Yields Q := by
  induction n with
  | zero =>
    intro s s' u h ht
    simp only [TokenSource.take, Except.ok.injEq, Prod.mk.injEq] at ht
    obtain ⟨rfl, rfl⟩ := ht
    exact ⟨fun _ ht => absurd ht List.not_mem_nil, h⟩
  | succ n ih =>
    intro s s' u h ht
    obtain ⟨t, s₁, hp, -⟩ := h.ends.pull
    obtain ⟨ht₁, h₁⟩ := h.pull hp
    rw [TokenSource.take, hp] at ht
    cases hr : s₁.take n with
    | error e => simp [hr, Except.map] at ht
    | ok r =>
      obtain ⟨u', s''⟩ := r
      simp only [hr, Except.map, Except.ok.injEq, Prod.mk.injEq] at ht
      obtain ⟨rfl, rfl⟩ := ht
      obtain ⟨hu', hs''⟩ := ih h₁ hr
      refine ⟨fun x hx => ?_, hs''⟩
      rcases List.mem_cons.1 hx with rfl | hx
      · exact ht₁
      · exact hu' x hx

/-- A source over a list of tokens with `Q` yields only tokens with `Q`, when an end of file at the
position of the last token has `Q` too. -/
theorem yields_ofTokens {ts : List Token} (hne : ts ≠ []) (h : ∀ t ∈ ts, Q t)
    (heof : ∀ t, Q t → Q ⟨.endOfFile, "", t.pos⟩) : (ofTokens ts).Yields Q := by
  obtain ⟨last, hlast⟩ := Option.ne_none_iff_exists'.1 (mt List.getLast?_eq_none_iff.1 hne)
  refine ⟨h, "", last.pos, by simp [ofTokens, hlast], heof last (h last ?_)⟩
  exact List.mem_of_getLast? hlast

end TokenSource

/-- **A recognition over a source halts at one of its tokens.** When every token that `s` hands
out has `Q`, a program over `s` is not refused, and its diagnostic, if it has one, is a syntax
error at a token with `Q`. -/
theorem program_diagnostic_of_yields {o : Options} {s : TokenSource} {Q : Token → Prop}
    (hs : s.Yields Q) :
    (∀ e, Recognition.program o s ≠ .error e) ∧
      ∀ rec e, Recognition.program o s = .ok rec → rec.diagnostic? = some e →
        ∃ t msg, Q t ∧ e = Diagnostic.unexpected t msg := by
  refine ⟨fun e he => ?_, fun rec e hrec hd => ?_⟩
  · obtain ⟨t, s', hp, -⟩ := hs.ends.pull
    rw [Recognition.program_eq_error_iff, hp] at he
    cases he
  have hf := (Recognition.program_followsSource hrec).1
  obtain ⟨es, out⟩ := rec
  cases out with
  | ok d => simp [Recognition.diagnostic?, Recognition.halt?] at hd
  | error halt =>
    cases halt with
    | mismatch t x =>
      -- the unexpected token is the last one taken from the source
      obtain ⟨⟨s', htake⟩, -, hdiag⟩ := hf
      rw [hdiag] at hd
      obtain ⟨msg, -, rfl⟩ := Option.map_eq_some_iff.1 hd
      exact ⟨t, msg, (hs.take _ htake).1 t (by simp), rfl⟩
    | unreadable e' last =>
      -- a source that ends never fails a pull
      obtain ⟨⟨s', htake, hpull⟩, -⟩ := hf
      obtain ⟨t, s'', hp, -⟩ := (hs.take _ htake).2.ends.pull
      rw [hp] at hpull
      cases hpull

/-! ## The excerpt of a diagnostic -/

/-- The byte offset of the first occurrence of a piece in a text that holds it is the byte size
of what comes before that occurrence. -/
theorem byteOffset?_of_occurrence {needle : List Char} :
    ∀ {hay : List Char}, needle <:+: hay →
      ∃ pre post, hay = pre ++ needle ++ post ∧ byteOffset? needle hay = some (byteSize pre)
  | [], h => by
    obtain rfl := List.eq_nil_of_infix_nil h
    exact ⟨[], [], rfl, by simp [byteOffset?, byteSize]⟩
  | c :: cs, h => by
    by_cases hp : needle.isPrefixOf (c :: cs)
    · refine ⟨[], (c :: cs).drop needle.length, ?_, by simp [byteOffset?, hp, byteSize]⟩
      rw [List.nil_append, List.prefix_iff_eq_append.1 (List.isPrefixOf_iff_prefix.1 hp)]
    · have hcs : needle <:+: cs := by
        rcases List.infix_cons_iff.1 h with h | h
        · exact absurd (List.isPrefixOf_iff_prefix.2 h) hp
        · exact h
      obtain ⟨pre, post, rfl, hoff⟩ := byteOffset?_of_occurrence hcs
      refine ⟨c :: pre, post, rfl, ?_⟩
      rw [byteOffset?, if_neg hp, hoff]
      rfl

namespace Diagnostic

/-- **A diagnostic shown with the excerpt of its line.** The line `L` that the diagnostic names is
in the source, and the rendering shows what the excerpt keeps of it after the line's number. When
the diagnostic has a token, the token's text occurs in that line, and the carets of the next
line start right under its first occurrence, as many bytes in as come before it. -/
def ShowsExcerpt (d : Diagnostic) (path source : String) : Prop :=
  ∃ L, lineAt source d.pos.line = some L ∧
    (toString d.pos.line ++ " | " ++
        String.ofList (dropTrailingBlanks (dropIndent L.toList))).toList <:+:
      (d.render path source).toList ∧
    ∀ t, d.token = some t → ∃ pre post,
      dropTrailingBlanks (dropIndent L.toList) = pre ++ t.value.toList ++ post ∧
      (toString d.pos.line ++ " | " ++ String.ofList (pre ++ t.value.toList ++ post) ++ "\n" ++
        (spaces ((toString d.pos.line).length + 1) ++ "|") ++ " " ++ spaces (byteSize pre) ++
        carets t.value.utf8ByteSize).toList <:+: (d.render path source).toList

/-- A diagnostic whose line is in the source, and whose token, if it has one, occurs in what the
excerpt of the line shows, is shown with that excerpt. -/
theorem render_showsExcerpt {d : Diagnostic} {path source L : String}
    (hL : lineAt source d.pos.line = some L)
    (ht : ∀ t, d.token = some t →
      t.value.toList <:+: dropTrailingBlanks (dropIndent L.toList)) :
    d.ShowsExcerpt path source := by
  refine ⟨L, hL, ?_, fun t htok => ?_⟩
  · simp only [render, hL]
    refine ⟨(d.header path ++ (spaces ((toString d.pos.line).length + 1) ++ "|") ++ "\n").toList,
      ("\n" ++ (spaces ((toString d.pos.line).length + 1) ++ "|") ++ " " ++
        marks d.token (dropTrailingBlanks (dropIndent L.toList)) ++ "\n").toList, ?_⟩
    simp only [String.toList_append, List.append_assoc]
  · obtain ⟨pre, post, hshown, hoff⟩ := byteOffset?_of_occurrence (ht t htok)
    refine ⟨pre, post, hshown, ?_⟩
    rw [hshown] at hoff
    simp only [render, hL, marks, htok, hshown, hoff]
    refine ⟨(d.header path ++ (spaces ((toString d.pos.line).length + 1) ++ "|") ++ "\n").toList,
      "\n".toList, ?_⟩
    simp only [String.toList_append, List.append_assoc]

end Diagnostic

/-- **The scanner's lines are the excerpt's lines.** For every source `s` named `f` whose lines
can all be numbered in 32 bits (fewer than `2 ^ 32 - 1` line feeds): the tokens read from it stand
on their lines, in lines that never go back; a fault of the scanner stands on its line with the
character or quote that caused it; and every diagnostic that scanning `s` or recognising its
tokens, with any options, gives is shown with the excerpt of its line, with the carets of a syntax
error under an occurrence of its token's text. -/
theorem lines_agree_with_excerpts (s f : String) (hs : s.toList.count '\n' < 2 ^ 32 - 1) :
    (∀ ts, tokenize s (some f) = .ok ts →
      ts.Pairwise (fun t u => t.line ≤ u.line) ∧ ∀ t ∈ ts, t.OnLine s) ∧
    (∀ e, tokenize s (some f) = .error e → e.ScanFaultOnLine s) ∧
    ∀ e, (tokenize s (some f) = .error e ∨
        ∃ src o, TokenSource.ofText s (some f) = .ok src ∧
          (Recognition.program o src = .error e ∨
            ∃ rec, Recognition.program o src = .ok rec ∧ rec.diagnostic? = some e)) →
      e.ShowsExcerpt f s := by
  have hok : ∀ ts, tokenize s (some f) = .ok ts →
      ts ≠ [] ∧ (∀ t ∈ ts, 1 ≤ t.line ∧ t.OnLine s) ∧
        ts.Pairwise (fun t u => t.line ≤ u.line) :=
    fun ts h => scan_onLine (at_start hs) h
  have herr : ∀ e, tokenize s (some f) = .error e → e.ScanFaultOnLine s :=
    fun e h => scan_faultOnLine (at_start hs) h
  refine ⟨fun ts h => ⟨(hok ts h).2.2, fun t ht => ((hok ts h).2.1 t ht).2⟩, herr, ?_⟩
  rintro e (he | ⟨src, o, hsrc, hprog⟩)
  · -- a fault of the scanner has no token
    obtain ⟨htok, L, hL, -⟩ := herr e he
    exact Diagnostic.render_showsExcerpt hL (by simp [htok])
  · -- a syntax error stands at a token read from the source, on that token's line
    cases htk : tokenize s (some f) with
    | error e' => simp [TokenSource.ofText, htk, Except.map] at hsrc
    | ok ts =>
      simp only [TokenSource.ofText, htk, Except.map, Except.ok.injEq] at hsrc
      subst hsrc
      obtain ⟨hne, hall, -⟩ := hok ts htk
      have hy : (TokenSource.ofTokens ts).Yields (Token.OnLine s) :=
        TokenSource.yields_ofTokens hne (fun t ht => (hall t ht).2)
          fun t ⟨L, hL, _⟩ => ⟨L, hL, by simp⟩
      obtain ⟨hnot, hdiag⟩ := program_diagnostic_of_yields (o := o) hy
      rcases hprog with hprog | ⟨rec, hrec, hd⟩
      · exact absurd hprog (hnot e)
      obtain ⟨t, msg, ⟨L, hL, hv⟩, rfl⟩ := hdiag rec e hrec hd
      exact Diagnostic.render_showsExcerpt hL fun t' ht' => by
        cases ht'
        exact hv

/-- A three-line program, read with its excerpts. -/
theorem program_lines_agree_with_excerpts :
    "begin\n  x := 1\nend\n".toList.count '\n' < 2 ^ 32 - 1 ∧
    (∀ ts, tokenize "begin\n  x := 1\nend\n" (some "prog.txt") = .ok ts →
      ts.Pairwise (fun t u => t.line ≤ u.line) ∧ ∀ t ∈ ts, t.OnLine "begin\n  x := 1\nend\n") ∧
    (∀ e, tokenize "begin\n  x := 1\nend\n" (some "prog.txt") = .error e →
      e.ScanFaultOnLine "begin\n  x := 1\nend\n") ∧
    ∀ e, (tokenize "begin\n  x := 1\nend\n" (some "prog.txt") = .error e ∨
        ∃ src o, TokenSource.ofText "begin\n  x := 1\nend\n" (some "prog.txt") = .ok src ∧
          (Recognition.program o src = .error e ∨
            ∃ rec, Recognition.program o src = .ok rec ∧ rec.diagnostic? = some e)) →
      e.ShowsExcerpt "prog.txt" "begin\n  x := 1\nend\n" :=
  ⟨by simp, lines_agree_with_excerpts _ _ (by simp)⟩

/-- **Past 32 bits the lines wrap.** A source of `2 ^ 32 - 1` line feeds scans to an end of file
counted on line 0, which no source has: that token stands on no line of its source. -/
theorem line_feeds_past_32_bits_lose_the_excerpt :
    tokenize (String.ofList (List.replicate (2 ^ 32 - 1) '\n')) (some "f") =
        .ok [Token.endAt ⟨0, "f"⟩] ∧
      ¬ (Token.endAt ⟨0, "f"⟩).OnLine (String.ofList (List.replicate (2 ^ 32 - 1) '\n')) := by
  have hblank : ∀ x ∈ List.replicate (2 ^ 32 - 2) '\n', isBlank x = true := fun x hx => by
    rw [List.eq_of_mem_replicate hx]
    decide
  refine ⟨?_, fun ⟨L, hL, _⟩ => by cases hL⟩
  rw [tokenize, String.toList_ofList, show 2 ^ 32 - 1 = 2 ^ 32 - 2 + 1 from rfl,
    List.replicate_succ, Option.getD_some, scan_blanks _ _ (by decide) hblank,
    ← List.replicate_succ, List.count_replicate_self]
  rfl

end SyntaxCheck
