import SyntaxCheck.Token.Scan

/-!
# The scanner reads longest matches

The scanner decides each lexeme by the first of its rules that applies at the front of the text,
and picks an operator by the first spelling of its table that begins the text. A longest-match
lexer (`Longest.scan`) reads instead, at each point, the longest lexeme that starts there: the
longest run of blanks, a comment up to the end of its line, a string constant up to its closing
quote, the longest word, which is a keyword when the whole of it is spelled like one, the longest
number, and the longest operator spelling that begins the text.

The two agree on every text (`tokenize_eq_longest`). The classes of characters that start the
rules are disjoint, so the order of the rules does not matter, except that a comment comes before
the slash that begins it; and no spelling of the operator table comes before a longer spelling
that it begins (`operators_pairwise`), so the first spelling that begins the text is the longest
(`find?_eq_longestPrefix`).
-/

namespace SyntaxCheck

namespace Longest

/-! ## The longest spelling that begins a text -/

section LongestPrefix

variable {α : Type} (cs : List Char)

/-- Among the candidates whose spelling begins `cs`, one with the longest spelling; of two as long,
the earlier. -/
def longestPrefix : List (List Char × α) → Option (List Char × α)
  | [] => none
  | o :: os =>
    if o.1 <+: cs ∧ (longestPrefix os).all (fun b => b.1.length ≤ o.1.length) then some o
    else longestPrefix os

theorem longestPrefix_cons (o : List Char × α) (os : List (List Char × α)) :
    longestPrefix cs (o :: os) =
      if o.1 <+: cs ∧ (longestPrefix cs os).all (fun b => b.1.length ≤ o.1.length) then some o
      else longestPrefix cs os :=
  rfl

/-- Nothing is picked only when no spelling begins the text. -/
theorem not_prefix_of_longestPrefix_eq_none {os : List (List Char × α)}
    (h : longestPrefix cs os = none) : ∀ o ∈ os, ¬ o.1 <+: cs := by
  induction os with
  | nil => simp
  | cons a os ih =>
    rw [longestPrefix_cons] at h
    split at h
    · cases h
    · rename_i hcond
      intro o ho hp
      rcases List.mem_cons.1 ho with rfl | ho
      · -- with nothing picked after it, the head would have been picked
        exact hcond ⟨hp, by simp [h]⟩
      · exact ih h o ho hp

/-- **What is picked is a longest match**: a candidate whose spelling begins the text, no shorter
than any other candidate whose spelling does. -/
theorem longestPrefix_spec {os : List (List Char × α)} {o : List Char × α}
    (h : longestPrefix cs os = some o) :
    o ∈ os ∧ o.1 <+: cs ∧ ∀ o' ∈ os, o'.1 <+: cs → o'.1.length ≤ o.1.length := by
  induction os generalizing o with
  | nil => cases h
  | cons a os ih =>
    rw [longestPrefix_cons] at h
    split at h
    · rename_i hcond
      obtain rfl := Option.some.inj h
      refine ⟨List.mem_cons_self, hcond.1, fun o' ho' hp => ?_⟩
      rcases List.mem_cons.1 ho' with rfl | ho'
      · exact Nat.le_refl _
      -- a candidate after the head that begins the text is no longer than the one picked there
      cases hb : longestPrefix cs os with
      | none => exact absurd hp (not_prefix_of_longestPrefix_eq_none cs hb o' ho')
      | some b =>
        have hle : b.1.length ≤ a.1.length := by simpa [hb] using hcond.2
        exact Nat.le_trans ((ih hb).2.2 o' ho' hp) hle
    · rename_i hcond
      obtain ⟨hmem, hp, hlong⟩ := ih h
      refine ⟨List.mem_cons_of_mem _ hmem, hp, fun o' ho' hp' => ?_⟩
      rcases List.mem_cons.1 ho' with rfl | ho'
      · -- the head begins the text too, so it was passed over for being shorter
        have hlt : ¬ o.1.length ≤ o'.1.length := by simpa [h, hp'] using hcond
        exact Nat.le_of_lt (Nat.lt_of_not_le hlt)
      · exact hlong o' ho' hp'

/-- **In a table where no spelling comes before a longer spelling that it begins, the first
spelling that begins a text is the longest one.** Two spellings that begin the same text are one
the prefix of the other, so the one that comes first is the longer. -/
theorem find?_eq_longestPrefix {os : List (List Char × α)}
    (hos : os.Pairwise fun a b => ¬ a.1 <+: b.1) :
    os.find? (fun o => o.1.isPrefixOf cs) = longestPrefix cs os := by
  induction os with
  | nil => rfl
  | cons a os ih =>
    rw [List.pairwise_cons] at hos
    rw [List.find?_cons, ih hos.2, longestPrefix_cons]
    by_cases ha : a.1 <+: cs
    · have hall : (longestPrefix cs os).all (fun b => b.1.length ≤ a.1.length) = true := by
        cases hb : longestPrefix cs os with
        | none => rfl
        | some b =>
          obtain ⟨hbmem, hbp, -⟩ := longestPrefix_spec cs hb
          -- `a` does not begin `b`, and both begin the text, so `b` begins `a`
          rcases List.prefix_or_prefix_of_prefix ha hbp with hab | hba
          · exact absurd hab (hos.1 b hbmem)
          · simpa using hba.length_le
      rw [List.isPrefixOf_iff_prefix.2 ha, if_pos ⟨ha, hall⟩]
    · rw [Bool.eq_false_iff.2 (mt List.isPrefixOf_iff_prefix.1 ha), if_neg fun h => ha h.1]

end LongestPrefix

/-! ## The operator table -/

/-- No operator spelling comes before a longer spelling that it begins: `>=` comes before `>`,
`<=` before `<`, and `!=` and `:=` begin with characters that no other spelling begins with. -/
theorem operators_pairwise : Lexeme.operators.Pairwise fun a b => ¬ a.1 <+: b.1 := by
  decide

theorem operators_ne_nil : ∀ o ∈ Lexeme.operators, o.1 ≠ [] := by
  decide

/-! ## The lexer -/

/-- The ASCII letters. -/
def isLetter (c : Char) : Bool := ('A' ≤ c && c ≤ 'Z') || ('a' ≤ c && c ≤ 'z')

/-- The ASCII digits. -/
def isDigit (c : Char) : Bool := '0' ≤ c && c ≤ '9'

/-- The characters that begin a word, `[a-zA-Z_]`. -/
def isWordStart (c : Char) : Bool := isLetter c || c = '_'

/-- The characters of a word, `[a-zA-Z0-9_]`. -/
def isWordChar (c : Char) : Bool := isWordStart c || isDigit c

/-- The eleven keywords, each with its kind. -/
def keywords : List (String × TokenKind) :=
  [("begin", .kwBegin), ("end", .kwEnd), ("if", .kwIf), ("then", .kwThen), ("else", .kwElse),
    ("while", .kwWhile), ("loop", .kwLoop), ("call", .kwCall), ("do", .kwDo), ("until", .kwUntil),
    ("for", .kwFor)]

/-- The longest lexeme at the front of `c :: cs`, and the text after it: a run of blanks, a comment
up to the line feed that ends it, a string constant closed on its line, a word, a number with a
fraction when a digit follows its point, or the longest operator spelling. -/
def front (c : Char) (cs : List Char) : Except ScanFault (Lexeme × List Char) :=
  if Text.isBlank c then
    .ok (.blank (((c :: cs).takeWhile Text.isBlank).count '\n'), (c :: cs).dropWhile Text.isBlank)
  else if ['/', '/'] <+: c :: cs then
    .ok (.comment, cs.dropWhile (· ≠ '\n'))
  else if c = '"' then
    match cs.dropWhile Lexeme.isStringChar with
    | '"' :: rest => .ok (.token .string (String.ofList (cs.takeWhile Lexeme.isStringChar)), rest)
    | _ => .error .unterminated
  else if isWordStart c then
    let word := String.ofList ((c :: cs).takeWhile isWordChar)
    .ok (.token ((keywords.lookup word).getD .identifier) word, (c :: cs).dropWhile isWordChar)
  else if isDigit c then
    let whole := (c :: cs).takeWhile isDigit
    match (c :: cs).dropWhile isDigit with
    | '.' :: d :: more =>
      if isDigit d then
        .ok (.token .number (String.ofList (whole ++ '.' :: d :: more.takeWhile isDigit)),
          more.dropWhile isDigit)
      else .ok (.token .number (String.ofList whole), '.' :: d :: more)
    | rest => .ok (.token .number (String.ofList whole), rest)
  else
    match longestPrefix (c :: cs) Lexeme.operators with
    | some (spelling, kind) =>
      .ok (.token kind (String.ofList spelling), (c :: cs).drop spelling.length)
    | none => .error (.unrecognised c)

/-- What follows a lexeme is shorter than the text it starts. -/
theorem length_front_rest {c : Char} {cs : List Char} {l : Lexeme} {rest : List Char}
    (h : front c cs = .ok (l, rest)) : rest.length ≤ cs.length := by
  unfold front at h
  split at h
  · rename_i hb
    cases h
    rw [List.dropWhile_cons_of_pos hb]
    exact Lexeme.length_dropWhile_le _ _
  split at h
  · cases h
    exact Lexeme.length_dropWhile_le _ _
  split at h
  · split at h
    · rename_i rest' hr
      cases h
      exact Lexeme.length_after_string hr
    · cases h
  split at h
  · rename_i hw
    cases h
    rw [List.dropWhile_cons_of_pos (by simp [isWordChar, hw])]
    exact Lexeme.length_dropWhile_le _ _
  split at h
  · rename_i hd
    -- the digits after the first one leave at most what follows it
    have hle : ((c :: cs).dropWhile isDigit).length ≤ cs.length := by
      rw [List.dropWhile_cons_of_pos hd]
      exact Lexeme.length_dropWhile_le _ _
    split at h
    · rename_i d more hr
      rw [hr, List.length_cons, List.length_cons] at hle
      split at h
      · cases h
        have := Lexeme.length_dropWhile_le isDigit more
        omega
      · cases h
        simpa using hle
    · rename_i rest' _
      cases h
      exact hle
  split at h
  · rename_i spelling kind hl
    cases h
    obtain ⟨x, xs, rfl⟩ := List.exists_cons_of_ne_nil
      (operators_ne_nil _ (longestPrefix_spec _ hl).1)
    simp
  · cases h

/-- The lexeme at the front of `c :: cs`, with the text after it and its bound. -/
def frontBounded (c : Char) (cs : List Char) :
    Except ScanFault (Lexeme × { r : List Char // r.length ≤ cs.length }) :=
  match h : front c cs with
  | .ok (l, rest) => .ok (l, ⟨rest, length_front_rest h⟩)
  | .error e => .error e

/-- **The longest-match lexer.** The tokens of `cs`, read from line `line` of `file`: at each point
the longest lexeme, a token on the line reached, the line feeds of skipped blanks counted; then an
end of file on the last line. A string constant left open, or a character that begins no lexeme,
is a fault on the line reached. Lines are counted in the 32 bits a token's line has, so the count
wraps around past `2 ^ 32 - 1`. -/
def scan (file : String) (line : UInt32) : List Char → Except Diagnostic (List Token)
  | [] => .ok [Token.endAt ⟨line.toNat, file⟩]
  | c :: cs =>
    match frontBounded c cs with
    | .error (.unrecognised c) =>
      .error ⟨.unrecognised (String.singleton c), ⟨line.toNat, file⟩, none⟩
    | .error .unterminated => .error ⟨.unterminatedString, ⟨line.toNat, file⟩, none⟩
    | .ok (.token k text, ⟨rest, _⟩) =>
      (scan file line rest).map (⟨k, text, ⟨line.toNat, file⟩⟩ :: ·)
    | .ok (.blank n, ⟨rest, _⟩) => scan file (line + n.toUInt32) rest
    | .ok (.comment, ⟨rest, _⟩) => scan file line rest
termination_by cs => cs.length
decreasing_by all_goals simp only [List.length_cons]; omega

/-- The longest-match tokens of a source text named `file` (`shell` when it has no name). -/
def tokenize (source : String) (file : Option String) : Except Diagnostic (List Token) :=
  scan (file.getD "shell") 1 source.toList

/-! ## The scanner's rules against the longest match -/

/-- The classes of the scanner are the ASCII classes of the longest-match lexer. -/
theorem isWordStart_eq (c : Char) : Lexeme.isWordStart c = isWordStart c := by
  simp only [Lexeme.isWordStart, isWordStart, isLetter]
  delta Char.isAlpha Char.isUpper Char.isLower
  simp [Char.le_def, UInt32.le_iff_toNat_le]

theorem isDigit_eq (c : Char) : c.isDigit = isDigit c := by
  simp [Char.isDigit, isDigit, Char.le_def, UInt32.le_iff_toNat_le]

theorem isWordChar_eq (c : Char) : Lexeme.isWordChar c = isWordChar c := by
  rw [Lexeme.isWordChar, isWordChar, Char.isAlphanum, isDigit_eq, ← isWordStart_eq,
    Lexeme.isWordStart]
  cases c.isAlpha <;> cases isDigit c <;> simp

/-- A blank is neither a word start nor a digit. -/
theorem not_wordStart_of_blank {c : Char} (h : Text.isBlank c = true) :
    isWordStart c = false ∧ isDigit c = false := by
  simp only [Text.isBlank, isWordStart, isLetter, isDigit] at *
  simp [Char.le_def, UInt32.le_iff_toNat_le, Char.toNat_val, ← Char.toNat_inj] at *
  omega

/-- Looking a name up in a table of entries under their names finds the first entry of that
name. -/
theorem lookup_map_name {β : Type} (name : β → String) (s : String) (l : List β) :
    (l.map fun b => (name b, b)).lookup s = l.find? fun b => name b == s := by
  induction l with
  | nil => rfl
  | cons b l ih =>
    rw [List.map_cons, List.lookup_cons, List.find?_cons, ih]
    by_cases h : name b = s
    · rw [h, beq_self_eq_true]
    · rw [beq_eq_false_iff_ne.2 h, beq_eq_false_iff_ne.2 fun e => h e.symm]

/-- The keyword spelled `s`, if any, is the kind the scanner reserves for it. -/
theorem reserved?_eq_lookup (s : String) : TokenKind.reserved? s = keywords.lookup s := by
  rw [TokenKind.reserved?, ← lookup_map_name TokenKind.name s]
  rfl

/-- Two slashes begin the text exactly when its first two characters are slashes. -/
theorem comment_start_iff (c : Char) (cs : List Char) :
    ['/', '/'] <+: c :: cs ↔ (c = '/' && cs.head? = some '/') = true := by
  cases cs with
  | nil => simp
  | cons d ds =>
    simp only [List.cons_prefix_cons, List.nil_prefix, and_true, List.head?_cons,
      Option.some.injEq, Bool.and_eq_true, decide_eq_true_eq]
    exact and_congr eq_comm eq_comm

/-! ## Each rule of the scanner reads the longest lexeme -/

section Rules

variable {c : Char} {cs : List Char}

theorem eq_slash_of_comment (h : ['/', '/'] <+: c :: cs) : c = '/' :=
  (List.cons_prefix_cons.1 h).1.symm

/-- A blank is neither a word start nor a digit, so the scanner skips the run of blanks too. -/
theorem front_eq_of_blank (hb : Text.isBlank c = true) :
    (Lexeme.front c cs).map (fun p => (p.1, p.2.1)) = front c cs := by
  obtain ⟨hw, hd⟩ := not_wordStart_of_blank hb
  rw [front, if_pos hb, Lexeme.front, if_neg (by simp [isWordStart_eq, hw]),
    if_neg (by simp [isDigit_eq, hd]), if_pos hb]
  simp [Except.map, List.takeWhile_cons_of_pos hb, List.dropWhile_cons_of_pos hb]

/-- Two slashes are a comment for the scanner too: its comment rule comes before its slash. -/
theorem front_eq_of_comment (hcom : ['/', '/'] <+: c :: cs) :
    (Lexeme.front c cs).map (fun p => (p.1, p.2.1)) = front c cs := by
  have hc := (comment_start_iff c cs).1 hcom
  obtain rfl := eq_slash_of_comment hcom
  rw [front, if_neg (by decide), if_pos hcom, Lexeme.front, if_neg (by decide), if_neg (by decide),
    if_neg (by decide), if_neg (by decide), if_pos hc]
  rfl

/-- Both read a string constant up to the closing quote, if one follows on its line. -/
theorem front_eq_of_quote (cs : List Char) :
    (Lexeme.front '"' cs).map (fun p => (p.1, p.2.1)) = front '"' cs := by
  have hcom : ¬ ['/', '/'] <+: '"' :: cs := fun h => absurd (eq_slash_of_comment h) (by decide)
  rw [front, if_neg (by decide), if_neg hcom, if_pos rfl, Lexeme.front, if_neg (by decide),
    if_neg (by decide), if_neg (by decide), if_pos rfl]
  split
  · rename_i rest hr
    simp only [hr]
    rfl
  · rename_i hr
    split
    · rename_i rest hr'
      exact absurd hr' (hr rest)
    · rfl

/-- Both read the whole word, and look the whole of it up among the keywords. -/
theorem front_eq_of_wordStart (hw : isWordStart c = true) :
    (Lexeme.front c cs).map (fun p => (p.1, p.2.1)) = front c cs := by
  have hb : ¬ Text.isBlank c = true := fun hb => by simp [(not_wordStart_of_blank hb).1] at hw
  have hcom : ¬ ['/', '/'] <+: c :: cs := fun h => by
    rw [eq_slash_of_comment h] at hw
    exact absurd hw (by decide)
  have hq : ¬ c = '"' := by
    rintro rfl
    exact absurd hw (by decide)
  have hwc : Lexeme.isWordChar c = true := by simp [isWordChar_eq, isWordChar, hw]
  have hword : isWordChar = Lexeme.isWordChar := funext fun c => (isWordChar_eq c).symm
  rw [front, if_neg hb, if_neg hcom, if_neg hq, if_pos hw, Lexeme.front,
    if_pos (by rwa [isWordStart_eq]), hword, List.takeWhile_cons_of_pos hwc,
    List.dropWhile_cons_of_pos hwc]
  dsimp only
  rw [reserved?_eq_lookup]
  rfl

/-- Both read the same digits, and a fraction exactly when a digit follows the point. -/
theorem front_eq_of_digit (hw : ¬ isWordStart c = true) (hd : isDigit c = true) :
    (Lexeme.front c cs).map (fun p => (p.1, p.2.1)) = front c cs := by
  have hb : ¬ Text.isBlank c = true := fun hb => by simp [(not_wordStart_of_blank hb).2] at hd
  have hcom : ¬ ['/', '/'] <+: c :: cs := fun h => by
    rw [eq_slash_of_comment h] at hd
    exact absurd hd (by decide)
  have hq : ¬ c = '"' := by
    rintro rfl
    exact absurd hd (by decide)
  have hd' : c.isDigit = true := by rwa [isDigit_eq]
  have hdigit : isDigit = Char.isDigit := funext fun c => (isDigit_eq c).symm
  rw [front, if_neg hb, if_neg hcom, if_neg hq, if_neg hw, if_pos hd, Lexeme.front,
    if_neg (by rwa [isWordStart_eq]), if_pos hd', hdigit, List.takeWhile_cons_of_pos hd',
    List.dropWhile_cons_of_pos hd']
  split
  · rename_i d more hr
    simp only [hr]
    by_cases hdd : d.isDigit = true
    · rw [if_pos hdd, if_pos hdd]
      rfl
    · rw [if_neg hdd, if_neg hdd]
      rfl
  · rename_i hnot
    split
    · rename_i d more hr
      exact absurd hr (hnot d more)
    · rfl

/-- Where no other rule applies, the first operator spelling that begins the text is the
longest. -/
theorem front_eq_of_operator (hb : ¬ Text.isBlank c = true) (hcom : ¬ ['/', '/'] <+: c :: cs)
    (hq : ¬ c = '"') (hw : ¬ isWordStart c = true) (hd : ¬ isDigit c = true) :
    (Lexeme.front c cs).map (fun p => (p.1, p.2.1)) = front c cs := by
  rw [front, if_neg hb, if_neg hcom, if_neg hq, if_neg hw, if_neg hd, Lexeme.front,
    if_neg (by rwa [isWordStart_eq]), if_neg (by rwa [isDigit_eq]), if_neg hb, if_neg hq,
    if_neg (mt (comment_start_iff c cs).2 hcom), Lexeme.front.operator,
    find?_eq_longestPrefix (c :: cs) operators_pairwise]
  cases hl : longestPrefix (c :: cs) Lexeme.operators with
  | none => rfl
  | some o =>
    obtain ⟨spelling, kind⟩ := o
    -- a spelling is not empty, so the scanner drops the rest of it after the first character
    obtain ⟨x, xs, rfl⟩ := List.exists_cons_of_ne_nil
      (operators_ne_nil _ (longestPrefix_spec _ hl).1)
    rfl

end Rules

/-- **The scanner reads the longest lexeme at every point.** Whatever the text, the rule the
scanner applies first reads the lexeme that the longest-match lexer reads, and leaves the same
text after it. -/
theorem front_eq_longest (c : Char) (cs : List Char) :
    (Lexeme.front c cs).map (fun p => (p.1, p.2.1)) = front c cs := by
  -- the rules of the longest-match lexer, in its order
  by_cases hb : Text.isBlank c = true
  · exact front_eq_of_blank hb
  by_cases hcom : ['/', '/'] <+: c :: cs
  · exact front_eq_of_comment hcom
  by_cases hq : c = '"'
  · subst hq
    exact front_eq_of_quote cs
  by_cases hw : isWordStart c = true
  · exact front_eq_of_wordStart hw
  by_cases hd : isDigit c = true
  · exact front_eq_of_digit hw hd
  exact front_eq_of_operator hb hcom hq hw hd

/-- The scanner's lexeme is the longest-match lexeme, bound included. -/
theorem front_eq_frontBounded (c : Char) (cs : List Char) :
    Lexeme.front c cs = frontBounded c cs := by
  have h := front_eq_longest c cs
  unfold frontBounded
  split
  · rename_i l rest hf
    rw [hf] at h
    cases hs : Lexeme.front c cs with
    | error e => simp [hs, Except.map] at h
    | ok p =>
      obtain ⟨l', rest', hle⟩ := p
      simp only [hs, Except.map, Except.ok.injEq, Prod.mk.injEq] at h
      obtain ⟨rfl, rfl⟩ := h
      rfl
  · rename_i e hf
    rw [hf] at h
    cases hs : Lexeme.front c cs with
    | error e' => simpa [hs, Except.map] using h
    | ok p => simp [hs, Except.map] at h

/-- The scanner and the longest-match lexer read the same tokens from every text and line. -/
theorem scan_eq_longest (file : String) (line : UInt32) (cs : List Char) :
    SyntaxCheck.scan file line cs = scan file line cs := by
  -- each step of the longest-match lexer is the scanner's step, with the same text left
  fun_induction scan file line cs with
  | case1 line => rw [SyntaxCheck.scan.eq_1]
  | case2 line c cs c' h => rw [SyntaxCheck.scan.eq_2, front_eq_frontBounded, h]
  | case3 line c cs h => rw [SyntaxCheck.scan.eq_2, front_eq_frontBounded, h]
  | case4 line c cs k text rest hle h ih =>
    rw [SyntaxCheck.scan.eq_2, front_eq_frontBounded, h]
    exact congrArg (Except.map _) ih
  | case5 line c cs n rest hle h ih =>
    rw [SyntaxCheck.scan.eq_2, front_eq_frontBounded, h]
    exact ih
  | case6 line c cs rest hle h ih =>
    rw [SyntaxCheck.scan.eq_2, front_eq_frontBounded, h]
    exact ih

/-- **The scanner is a longest-match lexer.** On every source text, named or not, the scanner and
the longest-match lexer give the same tokens, or fail with the same fault on the same line. -/
theorem tokenize_eq_longest (source : String) (file : Option String) :
    SyntaxCheck.tokenize source file = tokenize source file :=
  scan_eq_longest _ 1 source.toList

end Longest

end SyntaxCheck
