import SyntaxCheck.Text.Lines

/-!
# Where a piece of text stands among the lines

A text is cut into lines at its line feeds, so a piece of it without line feeds lies inside one
line: line `k + 1` when `k` line feeds come before it (`lineAt_of_piece`). What an excerpt shows of
that line drops the carriage returns at its end, its indentation and its trailing blanks; a piece
that begins and ends with characters that are not blank survives all three (`infix_trim_of_solid`).
-/

namespace SyntaxCheck.Text

/-! ## Cutting at line feeds -/

theorem splitLines_ne_nil (l : List Char) : splitLines l ≠ [] := by
  cases l with
  | nil => simp [splitLines]
  | cons c cs =>
    unfold splitLines
    split <;> (try split) <;> simp

/-- A line feed starts a new line. -/
theorem splitLines_newline (l : List Char) : splitLines ('\n' :: l) = [] :: splitLines l := by
  rw [splitLines]
  split
  · rename_i h
    exact absurd h (splitLines_ne_nil l)
  · rename_i l' ls h
    rw [if_pos rfl, h]

/-- Any other character goes to the front of the first line. -/
theorem splitLines_cons {c : Char} (hc : c ≠ '\n') (l : List Char) :
    splitLines (c :: l) = (splitLines l).modifyHead (c :: ·) := by
  rw [splitLines]
  split
  · rename_i h
    exact absurd h (splitLines_ne_nil l)
  · rename_i l' ls h
    rw [if_neg hc, h]
    rfl

/-- Line `k` of a text whose first character is not a line feed is line `k` of the rest, with that
character in front when `k = 0`. -/
theorem getElem?_splitLines_cons {c : Char} (hc : c ≠ '\n') (l : List Char) (k : Nat) :
    (splitLines (c :: l))[k]? =
      if k = 0 then ((splitLines l)[0]?).map (c :: ·) else (splitLines l)[k]? := by
  rw [splitLines_cons hc]
  obtain ⟨l', ls, h⟩ := List.exists_cons_of_ne_nil (splitLines_ne_nil l)
  rw [h]
  cases k <;> rfl

/-- The first line of a text that begins with a piece without line feeds begins with that
piece. -/
theorem splitLines_head {w : List Char} (hw : '\n' ∉ w) (post : List Char) :
    ∃ C, (splitLines (w ++ post))[0]? = some (w ++ C) := by
  induction w with
  | nil =>
    obtain ⟨l, ls, h⟩ := List.exists_cons_of_ne_nil (splitLines_ne_nil post)
    exact ⟨l, by simp [h]⟩
  | cons x w ih =>
    have hx : x ≠ '\n' := fun h => hw (h ▸ List.mem_cons_self)
    obtain ⟨C, h⟩ := ih fun h => hw (List.mem_cons_of_mem x h)
    refine ⟨C, ?_⟩
    rw [List.cons_append, getElem?_splitLines_cons hx, if_pos rfl, h]
    rfl

/-- **A piece without line feeds lies inside one line**: the line after the line feeds before
it. -/
theorem splitLines_piece {w : List Char} (hw : '\n' ∉ w) (pre post : List Char) :
    ∃ B C, (splitLines (pre ++ w ++ post))[pre.count '\n']? = some (B ++ w ++ C) := by
  induction pre with
  | nil =>
    obtain ⟨C, h⟩ := splitLines_head hw post
    exact ⟨[], C, by simpa using h⟩
  | cons c pre ih =>
    obtain ⟨B, C, h⟩ := ih
    by_cases hc : c = '\n'
    · -- a line feed before the piece moves it one line down
      subst hc
      refine ⟨B, C, ?_⟩
      rw [List.cons_append, List.cons_append, splitLines_newline, List.count_cons_self]
      simpa using h
    · rw [List.cons_append, List.cons_append, getElem?_splitLines_cons hc,
        List.count_cons_of_ne hc]
      split
      · rename_i h0
        rw [h0] at h
        exact ⟨c :: B, C, by rw [h]; rfl⟩
      · exact ⟨B, C, h⟩

/-- **A piece without line feeds is on line `k + 1` of its text** when `k` line feeds come before
it, with the rest of that line around it. -/
theorem lineAt_of_piece {source : String} {pre w post : List Char}
    (h : source.toList = pre ++ w ++ post) (hw : '\n' ∉ w) :
    ∃ B C, lineAt source (pre.count '\n' + 1) =
      some (String.ofList (dropReturns (B ++ w ++ C))) := by
  obtain ⟨B, C, hl⟩ := splitLines_piece hw pre post
  exact ⟨B, C, by simp only [lineAt, h, hl, Option.map_some]⟩

/-! ## Trimming a line -/

/-- A piece of text that begins and ends with characters that are not blank, or is empty. -/
def Solid (w : List Char) : Prop :=
  (∀ x ∈ w.head?, isBlank x = false) ∧ ∀ y ∈ w.getLast?, isBlank y = false

theorem solid_of_forall {w : List Char} (h : ∀ x ∈ w, isBlank x = false) : Solid w :=
  ⟨fun x hx => h x (List.mem_of_mem_head? hx), fun y hy => h y (List.mem_of_mem_getLast? hy)⟩

/-- A string constant with its quotes is solid, whatever it holds. -/
theorem solid_quoted (m : List Char) : Solid ('"' :: m ++ ['"']) := by
  refine ⟨fun x hx => ?_, fun y hy => ?_⟩
  · simp only [List.cons_append, List.head?_cons, Option.mem_def, Option.some.injEq] at hx
    subst hx
    decide
  · simp only [List.getLast?_append, List.getLast?_singleton, Option.some_or, Option.mem_def,
      Option.some.injEq] at hy
    subst hy
    decide

/-- Dropping from the front what `p` accepts stops at the first character it refuses. -/
theorem dropWhile_append_cons {p : Char → Bool} {x : Char} (hx : p x = false)
    (l₁ l₂ : List Char) : ∃ D, (l₁ ++ x :: l₂).dropWhile p = D ++ x :: l₂ := by
  induction l₁ with
  | nil => exact ⟨[], by simp [hx]⟩
  | cons a l₁ ih =>
    rw [List.cons_append, List.dropWhile_cons]
    split
    · exact ih
    · exact ⟨a :: l₁, rfl⟩

/-- Dropping from the end what `p` accepts stops at the last character it refuses. -/
theorem dropEnd_append_cons {p : Char → Bool} {y : Char} (hy : p y = false)
    (l₁ l₂ : List Char) :
    ∃ E, ((l₁ ++ y :: l₂).reverse.dropWhile p).reverse = l₁ ++ y :: E := by
  obtain ⟨D, hD⟩ := dropWhile_append_cons hy l₂.reverse l₁.reverse
  refine ⟨D.reverse, ?_⟩
  simp only [List.reverse_append, List.reverse_cons, List.append_assoc, List.singleton_append, hD]
  simp

/-- **A solid piece survives trimming its line**: dropping the carriage returns that end the line,
its indentation and its trailing blanks leaves the piece in place, since carriage returns, spaces
and tabs are all blank. -/
theorem infix_trim_of_solid {w : List Char} (hw : Solid w) (B C : List Char) :
    w <:+: dropTrailingBlanks (dropIndent (dropReturns (B ++ w ++ C))) := by
  rcases List.eq_nil_or_concat w with rfl | ⟨w₀, y, hlast⟩
  · exact List.nil_infix
  obtain ⟨x, w₁, hfirst⟩ := List.exists_cons_of_ne_nil (by simp [hlast] : w ≠ [])
  have hy : isBlank y = false := hw.2 y (by simp [hlast])
  have hx : isBlank x = false := hw.1 x (by simp [hfirst])
  have hyr : decide (y = '\r') = false := by
    by_cases h : y = '\r'
    · subst h
      exact absurd hy (by decide)
    · simp [h]
  have hxi : (x = ' ' || x = '\t') = false := by
    by_cases h1 : x = ' '
    · subst h1
      exact absurd hx (by decide)
    by_cases h2 : x = '\t'
    · subst h2
      exact absurd hx (by decide)
    simp [h1, h2]
  have hsplit : w = w₀ ++ [y] := by simpa using hlast
  -- the three trims, each stopping at an end of the piece
  obtain ⟨E₁, h₁⟩ := @dropEnd_append_cons (· = '\r') y hyr (B ++ w₀) C
  have e₁ : dropReturns (B ++ w ++ C) = B ++ w ++ E₁ := by
    have : B ++ w ++ C = B ++ w₀ ++ y :: C := by simp [hsplit]
    rw [dropReturns, this, h₁, hsplit]
    simp
  obtain ⟨D, h₂⟩ :=
    @dropWhile_append_cons (fun c => c = ' ' || c = '\t') x hxi B (w₁ ++ E₁)
  have e₂ : dropIndent (B ++ w ++ E₁) = D ++ w ++ E₁ := by
    have : B ++ w ++ E₁ = B ++ x :: (w₁ ++ E₁) := by simp [hfirst]
    rw [dropIndent, this, h₂, hfirst]
    simp
  obtain ⟨E₂, h₃⟩ := dropEnd_append_cons hy (D ++ w₀) E₁
  have e₃ : dropTrailingBlanks (D ++ w ++ E₁) = D ++ w ++ E₂ := by
    have : D ++ w ++ E₁ = D ++ w₀ ++ y :: E₁ := by simp [hsplit]
    rw [dropTrailingBlanks, this, h₃, hsplit]
    simp
  rw [e₁, e₂, e₃]
  exact ⟨D, E₂, rfl⟩

end SyntaxCheck.Text
