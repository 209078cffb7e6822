import Mathlib.Logic.Relation
import SyntaxCheck.Proofs.Excerpts

/-!
# The scanner moves over whole characters

The scanner reads a text as a list of characters, while a position in a text is a byte offset
into its UTF-8 encoding, and a byte offset inside the encoding of a character is no place to cut
the text. The two views agree because of what one iteration of the scanning loop does
(`front_matched`): it reads a lexeme from a piece of text at the front of what is left, a piece
that is not empty, and goes on with exactly the text after that piece. For a token other than a
string constant the piece is the token's own text; for a string constant it is its text between
two quotes.

So what is left at every iteration ends the text, and the offset where it starts is a character
boundary of the text, with the text after it being what is left (`isValid_offset`); each
iteration moves that offset forward by the byte size of the piece it read, at least one
(`offset_append`); the quotes of a string constant take one byte each, so cutting them off is
cutting at boundaries (`Matched.string_slice_isValid`); and since every iteration leaves less
text, no run of the loop goes on forever (`wellFounded_step`). The loop is the one `scan` runs:
scanning succeeds exactly when it reaches the end of the text (`scan_ok_iff_reaches`).
-/

namespace SyntaxCheck

/-- A reserved word or an identifier is never a string constant. -/
theorem TokenKind.getD_reserved?_ne_string (s : String) :
    (TokenKind.reserved? s).getD .identifier ≠ .string := by
  cases h : TokenKind.reserved? s with
  | none => decide
  | some k =>
    rintro rfl
    exact absurd (List.mem_of_find?_eq_some h) (by decide)

namespace Lexeme

theorem operators_ne_string : ∀ o ∈ operators, o.2 ≠ .string := by
  decide

/-! ## The piece of text a lexeme is read from -/

/-- The piece of text a lexeme is read from: a string constant from its text between two quotes,
any other token from its own text, a run of blanks from blanks holding as many line feeds as it
counts, and a comment from two slashes and the rest of its line. -/
def Matched : Lexeme → List Char → Prop
  | .token k text, m => m = if k = .string then '"' :: text.toList ++ ['"'] else text.toList
  | .blank n, m => m ≠ [] ∧ (∀ x ∈ m, Text.isBlank x = true) ∧ m.count '\n' = n
  | .comment, m => ['/', '/'] <+: m ∧ '\n' ∉ m

/-- **The lexeme at the front of a text is read from the piece before what follows it.** -/
theorem front_matched {c : Char} {cs : List Char} {x : Lexeme}
    {rest : { r : List Char // r.length ≤ cs.length }} (h : front c cs = .ok (x, rest)) :
    ∃ m, c :: cs = m ++ rest.1 ∧ x.Matched m := by
  unfold front at h
  split at h
  · -- a word, read from its own text
    cases h
    exact ⟨_, cons_eq_takeWhile_append isWordChar c cs,
      by simp [Matched, TokenKind.getD_reserved?_ne_string]⟩
  split at h
  · -- a number, with a fraction when a digit follows its point
    split at h
    · rename_i d more hr
      split at h
      · cases h
        refine ⟨c :: cs.takeWhile Char.isDigit ++ '.' :: d :: more.takeWhile Char.isDigit, ?_,
          by simp [Matched]⟩
        show c :: cs =
          (c :: cs.takeWhile Char.isDigit ++ '.' :: d :: more.takeWhile Char.isDigit) ++
            more.dropWhile Char.isDigit
        simp only [List.cons_append, List.append_assoc, List.takeWhile_append_dropWhile, ← hr]
      · cases h
        refine ⟨c :: cs.takeWhile Char.isDigit, ?_, by simp [Matched]⟩
        show c :: cs = (c :: cs.takeWhile Char.isDigit) ++ '.' :: d :: more
        rw [← hr]
        exact cons_eq_takeWhile_append _ c cs
    · cases h
      exact ⟨_, cons_eq_takeWhile_append _ c cs, by simp [Matched]⟩
  split at h
  · -- a run of blanks
    rename_i hb
    cases h
    refine ⟨_, cons_eq_takeWhile_append Text.isBlank c cs, List.cons_ne_nil _ _, fun y hy => ?_,
      rfl⟩
    rcases List.mem_cons.1 hy with rfl | hy
    · exact hb
    · exact List.mem_takeWhile_imp hy
  split at h
  · -- a string constant, between its quotes
    rename_i hq
    subst hq
    split at h
    · rename_i rest' hr
      cases h
      refine ⟨'"' :: cs.takeWhile isStringChar ++ ['"'], ?_, by simp [Matched]⟩
      show '"' :: cs = ('"' :: cs.takeWhile isStringChar ++ ['"']) ++ rest'
      simp only [List.cons_append, List.nil_append, List.append_assoc, ← hr,
        List.takeWhile_append_dropWhile]
    · cases h
  split at h
  · -- a comment, from its two slashes to the end of its line
    rename_i hcom
    cases h
    obtain ⟨rfl, hhead⟩ : c = '/' ∧ cs.head? = some '/' := by simpa using hcom
    cases cs with
    | nil => cases hhead
    | cons d ds =>
    obtain rfl : d = '/' := by simpa using hhead
    refine ⟨_, cons_eq_takeWhile_append (· ≠ '\n') '/' ('/' :: ds), by simp, fun hn => ?_⟩
    rcases List.mem_cons.1 hn with hn | hn
    · exact absurd hn (by decide)
    · simpa using List.mem_takeWhile_imp hn
  · -- an operator, by its spelling
    unfold front.operator at h
    split at h
    · rename_i spelling kind hf
      cases h
      have hmem := List.mem_of_find?_eq_some hf
      have hpre : spelling <+: c :: cs := by
        simpa [List.isPrefixOf_iff_prefix] using List.find?_some hf
      obtain ⟨y, ys, rfl⟩ := List.exists_cons_of_ne_nil (Longest.operators_ne_nil _ hmem)
      refine ⟨y :: ys, ?_, by simp [Matched, operators_ne_string _ hmem]⟩
      rw [← List.prefix_iff_eq_append.1 hpre]
      simp
    · cases h

/-- A piece read before a text no longer than what follows its first character is not empty. -/
theorem ne_nil_of_cons_eq_append {c : Char} {cs m r : List Char} (h : c :: cs = m ++ r)
    (hr : r.length ≤ cs.length) : m ≠ [] := by
  rintro rfl
  have := congrArg List.length h
  simp only [List.nil_append, List.length_cons] at this
  omega

/-- The quotes of a string constant take one byte each, so cutting them off the piece it is read
from cuts at character boundaries, and leaves its text. -/
theorem Matched.string_slice_isValid {text : String} {m : List Char}
    (h : (token .string text).Matched m) :
    (String.Pos.Raw.mk 1).IsValid (String.ofList m) ∧
      (String.Pos.Raw.mk ((String.ofList m).utf8ByteSize - 1)).IsValid (String.ofList m) ∧
      1 ≤ (String.ofList m).utf8ByteSize - 1 ∧ String.ofList m = "\"" ++ text ++ "\"" := by
  have hm : String.ofList m = "\"" ++ text ++ "\"" := by
    simp only [Matched] at h
    subst h
    rw [← String.ofList_toList (s := "\"" ++ text ++ "\"")]
    simp
  have hquote : ("\"" : String).utf8ByteSize = 1 := by decide
  have hsize : (String.ofList m).utf8ByteSize = text.utf8ByteSize + 2 := by
    rw [hm, String.utf8ByteSize_append, String.utf8ByteSize_append, hquote]
    omega
  refine ⟨?_, ?_, by omega, hm⟩
  · rw [String.Pos.Raw.isValid_iff_exists_append]
    exact ⟨"\"", text ++ "\"", by rw [hm, String.append_assoc],
      by simp [String.Pos.Raw.ext_iff, hquote]⟩
  · rw [String.Pos.Raw.isValid_iff_exists_append]
    refine ⟨"\"" ++ text, "\"", hm, ?_⟩
    simp [String.Pos.Raw.ext_iff, hsize, String.utf8ByteSize_append, hquote]
    omega

/-! ## Byte offsets -/

/-- The byte offset at which the text `r` starts in a text `s` that it ends. -/
def offset (s : String) (r : List Char) : String.Pos.Raw :=
  ⟨s.utf8ByteSize - (String.ofList r).utf8ByteSize⟩

theorem offset_eq {s : String} {before r : List Char} (h : s.toList = before ++ r) :
    offset s r = (String.ofList before).rawEndPos := by
  have hs : s = String.ofList before ++ String.ofList r := by
    rw [← String.ofList_append, ← h, String.ofList_toList]
  apply String.Pos.Raw.ext
  show s.utf8ByteSize - (String.ofList r).utf8ByteSize = (String.ofList before).rawEndPos.byteIdx
  rw [String.byteIdx_rawEndPos, hs, String.utf8ByteSize_append]
  omega

/-- Where a text that ends `s` starts is a character boundary of `s`. -/
theorem isValid_offset {s : String} {before r : List Char} (h : s.toList = before ++ r) :
    (offset s r).IsValid s := by
  rw [offset_eq h, String.Pos.Raw.isValid_iff_exists_append]
  exact ⟨_, _, by rw [← String.ofList_append, ← h, String.ofList_toList], rfl⟩

theorem utf8ByteSize_ofList_pos {m : List Char} (hm : m ≠ []) :
    0 < (String.ofList m).utf8ByteSize := by
  apply Nat.pos_of_ne_zero
  rw [Ne, String.utf8ByteSize_eq_zero_iff, String.ofList_eq_empty_iff]
  exact hm

/-- Moving past a piece of the text moves the offset by the byte size of the piece. -/
theorem offset_append {s : String} {before m r : List Char} (h : s.toList = before ++ m ++ r) :
    (offset s r).byteIdx = (offset s (m ++ r)).byteIdx + (String.ofList m).utf8ByteSize := by
  rw [offset_eq h, offset_eq (by rw [h, List.append_assoc]), String.byteIdx_rawEndPos,
    String.byteIdx_rawEndPos, String.ofList_append, String.utf8ByteSize_append]

/-! ## The scanning loop -/

/-- One iteration of the scanning loop of `scan`: with `c :: cs` left, it reads a lexeme at the
front and goes on with the text after it. An iteration that finds no lexeme ends the loop with a
fault, and so does an empty text with the end of file. -/
inductive Step : List Char → List Char → Prop
  | read {c : Char} {cs : List Char} {x : Lexeme}
      {rest : { r : List Char // r.length ≤ cs.length }} :
      front c cs = .ok (x, rest) → Step (c :: cs) rest.1

/-- An iteration moves past a piece of text that is not empty. -/
theorem Step.exists_append {cs r : List Char} (h : Step cs r) : ∃ m, m ≠ [] ∧ cs = m ++ r := by
  cases h with
  | @read c cs x rest hf =>
    obtain ⟨m, hm, -⟩ := front_matched hf
    exact ⟨m, ne_nil_of_cons_eq_append hm rest.2, hm⟩

/-- What is left after any number of iterations ends the text. -/
theorem exists_append_of_reaches {cs r : List Char} (h : Relation.ReflTransGen Step cs r) :
    ∃ before, cs = before ++ r := by
  induction h with
  | refl => exact ⟨[], rfl⟩
  | tail _ hstep ih =>
    obtain ⟨before, rfl⟩ := ih
    obtain ⟨m, -, rfl⟩ := hstep.exists_append
    exact ⟨before ++ m, by simp⟩

/-- No run of the loop goes on forever: every iteration leaves a shorter text. -/
theorem wellFounded_step : WellFounded (flip Step) :=
  Subrelation.wf (fun {r cs} (h : Step cs r) => by
      obtain ⟨m, hm, rfl⟩ := h.exists_append
      show r.length < (m ++ r).length
      have := List.length_pos_iff.2 hm
      simp only [List.length_append]
      omega)
    (measure List.length).wf

/-- An iteration goes on with one text only: the text after the lexeme at the front. -/
theorem Step.eq_of_front {c : Char} {cs r : List Char} {x : Lexeme}
    {rest : { r : List Char // r.length ≤ cs.length }} (hf : front c cs = .ok (x, rest))
    (h : Step (c :: cs) r) : r = rest.1 := by
  cases h with
  | read hf' =>
    rw [hf] at hf'
    cases hf'
    rfl

/-- A run to the end of a text that is not empty starts with an iteration. -/
theorem exists_step_of_reaches_nil {c : Char} {cs : List Char}
    (h : Relation.ReflTransGen Step (c :: cs) []) :
    ∃ r, Step (c :: cs) r ∧ Relation.ReflTransGen Step r [] := by
  rcases h.cases_head with h | h
  · cases h
  · exact h

theorem reaches_nil_iff_of_front {c : Char} {cs : List Char} {x : Lexeme}
    {rest : { r : List Char // r.length ≤ cs.length }} (hf : front c cs = .ok (x, rest)) :
    Relation.ReflTransGen Step (c :: cs) [] ↔ Relation.ReflTransGen Step rest.1 [] := by
  refine ⟨fun h => ?_, fun h => .head (.read hf) h⟩
  obtain ⟨r, hstep, hr⟩ := exists_step_of_reaches_nil h
  rwa [← hstep.eq_of_front hf]

/-- A text whose front is a fault never lets the loop reach its end. -/
theorem not_reaches_nil_of_fault {c : Char} {cs : List Char} {f : ScanFault}
    (hf : front c cs = .error f) : ¬ Relation.ReflTransGen Step (c :: cs) [] := by
  intro h
  obtain ⟨r, hstep, -⟩ := exists_step_of_reaches_nil h
  cases hstep with
  | read hf' =>
    rw [hf] at hf'
    cases hf'

/-- **The scanner succeeds exactly when its loop reaches the end of the text.** -/
theorem scan_ok_iff_reaches (file : String) (line : UInt32) (cs : List Char) :
    (∃ ts, scan file line cs = .ok ts) ↔ Relation.ReflTransGen Step cs [] := by
  fun_induction scan file line cs with
  | case1 line => exact ⟨fun _ => .refl, fun _ => ⟨_, rfl⟩⟩
  | case2 line c cs c' h => simpa using not_reaches_nil_of_fault h
  | case3 line c cs h => simpa using not_reaches_nil_of_fault h
  | case4 line c cs k text rest hle h ih =>
    rw [reaches_nil_iff_of_front h, ← ih]
    -- adding a token in front keeps a list of tokens a list of tokens
    cases scan file line rest <;> simp [Except.map]
  | case5 line c cs n rest hle h ih => rw [reaches_nil_iff_of_front h, ← ih]
  | case6 line c cs rest hle h ih => rw [reaches_nil_iff_of_front h, ← ih]

/-- **The scanner moves over whole characters, forward, and stops.** Scanning a text `s` succeeds
exactly when its loop reaches the end of `s`. Every iteration of the loop starts at a character
boundary of `s`, no further than its end, with the text after it left to scan. An iteration that
reads a lexeme reads it from a piece of text that is not empty, moves exactly past it, and so
moves the offset forward by the byte size of the piece; the piece of a string constant is cut at
boundaries where its quotes end and begin. No run of the loop goes on forever. -/
theorem scan_moves_over_whole_characters (s : String) :
    (∀ file, (∃ ts, tokenize s file = .ok ts) ↔ Relation.ReflTransGen Step s.toList []) ∧
    (∀ r, Relation.ReflTransGen Step s.toList r →
      (offset s r).IsValid s ∧ (offset s r).byteIdx ≤ s.utf8ByteSize ∧
        ∃ before, s = String.ofList before ++ String.ofList r ∧
          offset s r = (String.ofList before).rawEndPos) ∧
    (∀ c cs x rest, Relation.ReflTransGen Step s.toList (c :: cs) → front c cs = .ok (x, rest) →
      ∃ m, m ≠ [] ∧ c :: cs = m ++ rest.1 ∧ x.Matched m ∧ offset s (c :: cs) < offset s rest.1 ∧
        (offset s rest.1).byteIdx = (offset s (c :: cs)).byteIdx + (String.ofList m).utf8ByteSize) ∧
    (∀ c cs text rest, front c cs = .ok (.token .string text, rest) →
      ∃ m, c :: cs = m ++ rest.1 ∧ (String.Pos.Raw.mk 1).IsValid (String.ofList m) ∧
        (String.Pos.Raw.mk ((String.ofList m).utf8ByteSize - 1)).IsValid (String.ofList m) ∧
        1 ≤ (String.ofList m).utf8ByteSize - 1 ∧ String.ofList m = "\"" ++ text ++ "\"") ∧
    WellFounded (flip Step) := by
  refine ⟨fun file => scan_ok_iff_reaches _ 1 s.toList, fun r h => ?_, fun c cs x rest h hf => ?_,
    fun c cs text rest hf => ?_, wellFounded_step⟩
  · obtain ⟨before, hb⟩ := exists_append_of_reaches h
    have hvalid := isValid_offset hb
    exact ⟨hvalid, hvalid.le_utf8ByteSize, before,
      by rw [← String.ofList_append, ← hb, String.ofList_toList], offset_eq hb⟩
  · obtain ⟨before, hb⟩ := exists_append_of_reaches h
    obtain ⟨m, hm, hx⟩ := front_matched hf
    have hne := ne_nil_of_cons_eq_append hm rest.2
    have hstep := offset_append (s := s) (by rw [hb, hm, List.append_assoc])
    rw [← hm] at hstep
    refine ⟨m, hne, hm, hx, ?_, hstep⟩
    have := utf8ByteSize_ofList_pos hne
    rw [String.Pos.Raw.lt_iff]
    omega
  · obtain ⟨m, hm, hx⟩ := front_matched hf
    exact ⟨m, hm, hx.string_slice_isValid⟩

end Lexeme

end SyntaxCheck
