import SyntaxCheck.Proofs.Runs

/-!
# What a source over a token list hands out

A source over a token list hands out the tokens of the list, one pull each, and then an end of
file on every pull, forever: the last end of file of the list, if it has one, and otherwise an end
of file with no text at the position of the list's last token, or at the null position when the
list is empty. So `n` pulls never fail: they give the first `n` tokens of the list followed by
`n - |ts|` copies of that end of file, and leave `|ts| - min n |ts|` tokens pending
(`take_ofTokens`).

The end of file that a source repeats is state: every end of file handed out from the pending
list replaces it. What carries the proof is that a source with pending tokens `ts` ends by
repeating the last end of file among `ts`, or the one it repeats now if `ts` has none
(`take_ends`), whatever the number of pulls.
-/

namespace SyntaxCheck

namespace TokenSource

/-- The end of file repeated after the tokens `ts` by a source that repeats `e` before them: the
last end of file among `ts`, or `e` when there is none. -/
def lastEnd (e : Token) (ts : List Token) : Token :=
  ((ts.filter fun t => t.kind == .endOfFile).getLast?).getD e

/-- The end of file that the source over `ts` hands out once `ts` is used up: the last end of file
of `ts`, or else an end of file with no text at the position of the last token of `ts`, or at the
null position when `ts` is empty. -/
def finalEnd (ts : List Token) : Token :=
  match (ts.filter fun t => t.kind == .endOfFile).getLast? with
  | some e => e
  | none => Token.endAt ((ts.getLast?.map Token.pos).getD Position.null)

section LastEnd

variable (e : Token) (ts : List Token)

@[simp] theorem lastEnd_nil : lastEnd e [] = e := rfl

/-- An end of file at the front becomes the one repeated after it, unless a later one does. -/
theorem lastEnd_cons_of_endOfFile {t : Token} (ht : t.kind = .endOfFile) :
    lastEnd e (t :: ts) = lastEnd t ts := by
  simp [lastEnd, ht, List.getLast?_cons]

theorem lastEnd_cons_of_ne {t : Token} (ht : t.kind ≠ .endOfFile) :
    lastEnd e (t :: ts) = lastEnd e ts := by
  simp [lastEnd, ht]

theorem finalEnd_eq_lastEnd :
    finalEnd ts = lastEnd (Token.endAt ((ts.getLast?.map Token.pos).getD Position.null)) ts := by
  unfold finalEnd lastEnd
  cases (ts.filter fun t => t.kind == .endOfFile).getLast? <;> rfl

/-- What a source over a token list repeats is an end of file. -/
theorem finalEnd_kind : (finalEnd ts).kind = .endOfFile := by
  unfold finalEnd
  split
  · rename_i e he
    have hmem := List.mem_of_getLast? he
    simpa using (List.mem_filter.1 hmem).2
  · rfl

end LastEnd

/-- **The pulls from a source that ends.** From a source with pending tokens `ts` that repeats the
end of file spelled `v` at `p`, `n` pulls give the first `n` tokens of `ts` and then copies of the
end of file repeated after `ts`, and leave the rest of `ts` pending. -/
theorem take_ends (n : Nat) : ∀ (ts : List Token) (v : String) (p : Position), ∃ tail,
    take ⟨ts, .ends v p⟩ n =
      .ok (ts.take n ++ List.replicate (n - ts.length) (lastEnd ⟨.endOfFile, v, p⟩ ts),
        ⟨ts.drop n, tail⟩) := by
  induction n with
  | zero => exact fun ts v p => ⟨.ends v p, by simp [take]⟩
  | succ n ih =>
    intro ts v p
    cases ts with
    | nil =>
      -- the list is used up: every pull hands out the repeated end of file
      obtain ⟨tail, htake⟩ := ih [] v p
      refine ⟨tail, ?_⟩
      simp only [List.take_nil, List.nil_append, List.length_nil, Nat.sub_zero, List.drop_nil,
        lastEnd_nil] at htake ⊢
      rw [take, pull_ends]
      simp only [htake, Except.map, List.replicate_succ]
    | cons t ts =>
      by_cases ht : t.kind = .endOfFile
      · -- an end of file from the list replaces the repeated one
        have hself : (⟨.endOfFile, t.value, t.pos⟩ : Token) = t := by
          cases t
          simp_all
        obtain ⟨tail, htake⟩ := ih ts t.value t.pos
        refine ⟨tail, ?_⟩
        rw [take, pull_cons, Tail.after, if_pos ht]
        simp only [htake, hself, lastEnd_cons_of_endOfFile _ _ ht, Except.map, List.take_succ_cons,
          List.length_cons, Nat.add_sub_add_right, List.drop_succ_cons, List.cons_append]
      · obtain ⟨tail, htake⟩ := ih ts v p
        refine ⟨tail, ?_⟩
        rw [take, pull_cons, Tail.after, if_neg ht]
        simp only [htake, lastEnd_cons_of_ne _ _ ht, Except.map, List.take_succ_cons,
          List.length_cons, Nat.add_sub_add_right, List.drop_succ_cons, List.cons_append]

/-- Token `i` of the first `n` tokens of a list followed by copies of `e` up to `n` tokens is token
`i` of the list, or `e` past its end; there is none from `n` on. -/
theorem getElem?_take_append_replicate (ts : List Token) (e : Token) (n i : Nat) :
    (ts.take n ++ List.replicate (n - ts.length) e)[i]? =
      if i < n then some (ts[i]?.getD e) else none := by
  by_cases hlt : i < min n ts.length
  · rw [List.getElem?_append_left (by rw [List.length_take]; omega),
      List.getElem?_take_of_lt (by omega), List.getElem?_eq_getElem (by omega), if_pos (by omega)]
    rfl
  · rw [List.getElem?_append_right (by rw [List.length_take]; omega), List.getElem?_replicate]
    simp only [List.length_take]
    by_cases hi : i < n
    · rw [if_pos (by omega), if_pos hi, List.getElem?_eq_none (by omega)]
      rfl
    · rw [if_neg (by omega), if_neg hi]

/-- **A source over a token list hands out its tokens, then its end of file forever.** For every
token list `ts` and every number `n` of pulls, the pulls never fail; they hand out the first `n`
tokens of `ts` and then copies of `finalEnd ts`, so that pull `i` hands out token `i` of `ts` while
there is one and `finalEnd ts` after that; and `|ts| - min n |ts|` tokens are left pending. -/
theorem take_ofTokens (ts : List Token) (n : Nat) :
    ∃ us s, (ofTokens ts).take n = .ok (us, s) ∧
      us = ts.take n ++ List.replicate (n - ts.length) (finalEnd ts) ∧
      (∀ i, us[i]? = if i < n then some (ts[i]?.getD (finalEnd ts)) else none) ∧
      s.remaining = ts.length - min n ts.length := by
  obtain ⟨tail, htake⟩ := take_ends n ts "" ((ts.getLast?.map Token.pos).getD Position.null)
  -- the end of file that `ofTokens` starts with is the one `finalEnd` falls back on
  have hend : lastEnd ⟨.endOfFile, "", (ts.getLast?.map Token.pos).getD Position.null⟩ ts =
      finalEnd ts := (finalEnd_eq_lastEnd ts).symm
  rw [hend] at htake
  refine ⟨_, _, htake, rfl, getElem?_take_append_replicate ts (finalEnd ts) n, ?_⟩
  simp only [remaining, List.length_drop]
  omega

/-! ## The tokens before the first end of file -/

/-- The tokens of `ts` before its first end of file. -/
def beforeEnd (ts : List Token) : List Token := ts.takeWhile fun t => t.kind != .endOfFile

theorem beforeEnd_cons_of_ne {t : Token} (ht : t.kind ≠ .endOfFile) (ts : List Token) :
    beforeEnd (t :: ts) = t :: beforeEnd ts :=
  List.takeWhile_cons_of_pos (by simpa using ht)

theorem beforeEnd_cons_of_endOfFile {t : Token} (ht : t.kind = .endOfFile) (ts : List Token) :
    beforeEnd (t :: ts) = [] :=
  List.takeWhile_cons_of_neg (by simpa using ht)

section BeforeEnd

variable {e : Token} (he : e.kind = .endOfFile)
include he

/-- **No end of file comes before the list's first.** When the first `k` tokens handed out after
the list `ts`, followed by copies of an end of file `e`, hold no end of file, they are tokens of
`ts` before its first end of file. -/
theorem prefix_beforeEnd (ts : List Token) : ∀ k,
    (∀ t ∈ ts.take k ++ List.replicate (k - ts.length) e, t.kind ≠ .endOfFile) →
      ts.take k ++ List.replicate (k - ts.length) e <+: beforeEnd ts := by
  induction ts with
  | nil =>
    intro k h
    cases k with
    | zero => simp
    | succ k => exact absurd he (h e (by simp))
  | cons t ts ih =>
    intro k h
    cases k with
    | zero => simp
    | succ k =>
      simp only [List.take_succ_cons, List.length_cons, Nat.add_sub_add_right,
        List.cons_append] at h ⊢
      -- the head of the list is handed out first, so it is no end of file
      have ht : t.kind ≠ .endOfFile := h t List.mem_cons_self
      rw [beforeEnd_cons_of_ne ht]
      exact List.cons_prefix_cons.2 ⟨rfl, ih k fun u hu => h u (List.mem_cons_of_mem t hu)⟩

/-- **At most one end of file, the first.** When all but the last of the first `k` tokens handed
out after the list `ts`, followed by copies of an end of file `e`, are no end of file, they are at
most the tokens of `ts` before its first end of file and the token after them. -/
theorem prefix_beforeEnd_succ (ts : List Token) : ∀ k,
    (∀ t ∈ (ts.take k ++ List.replicate (k - ts.length) e).dropLast, t.kind ≠ .endOfFile) →
      ts.take k ++ List.replicate (k - ts.length) e <+:
        (ts ++ [e]).take ((beforeEnd ts).length + 1) := by
  induction ts with
  | nil =>
    intro k h
    match k with
    | 0 => simp
    | 1 => simp
    | k + 2 => exact absurd he (h e (by simp [List.replicate_succ]))
  | cons t ts ih =>
    intro k h
    cases k with
    | zero => simp
    | succ k =>
      simp only [List.take_succ_cons, List.length_cons, Nat.add_sub_add_right,
        List.cons_append] at h ⊢
      by_cases hrest : ts.take k ++ List.replicate (k - ts.length) e = []
      · -- the list's head is the last token handed out
        rw [hrest]
        exact List.cons_prefix_cons.2 ⟨rfl, List.nil_prefix⟩
      · rw [List.dropLast_cons_of_ne_nil hrest] at h
        have ht : t.kind ≠ .endOfFile := h t List.mem_cons_self
        rw [beforeEnd_cons_of_ne ht, List.length_cons]
        exact List.cons_prefix_cons.2 ⟨rfl, ih k fun u hu => h u (List.mem_cons_of_mem t hu)⟩

end BeforeEnd

/-- **The pulls from a source that fails.** A source that yields `ts` and then fails hands out
the first `n` tokens of `ts` while there are that many, and fails on the pull after them. -/
theorem take_failing (d : Diagnostic) (n : Nat) : ∀ ts : List Token,
    (failing ts d).take n =
      if n ≤ ts.length then .ok (ts.take n, failing (ts.drop n) d) else .error d := by
  induction n with
  | zero => simp [take]
  | succ n ih =>
    intro ts
    cases ts with
    | nil => simp [take, failing]
    | cons t ts =>
      have hpull : (failing (t :: ts) d).pull = .ok (t, failing ts d) := rfl
      rw [take, hpull]
      simp only [ih ts, List.length_cons, Nat.add_le_add_iff_right, List.take_succ_cons,
        List.drop_succ_cons]
      split <;> rfl

/-- The first `n + 1` tokens a source hands out begin with its first `n`. -/
theorem take_of_take_succ {n : Nat} :
    ∀ {s s' : TokenSource} {u : List Token} {x : Token}, u.length = n →
      s.take (n + 1) = .ok (u ++ [x], s') → ∃ s'', s.take n = .ok (u, s'') := by
  induction n with
  | zero =>
    intro s s' u x hu _
    rw [List.length_eq_zero_iff.1 hu]
    exact ⟨s, rfl⟩
  | succ n ih =>
    intro s s' u x hu h
    obtain ⟨t, u, rfl⟩ := List.exists_cons_of_length_eq_add_one hu
    rw [take] at h ⊢
    -- the first pull hands out `t`, and the rest comes from the source after it
    cases hp : s.pull with
    | error e => simp [hp] at h
    | ok p =>
      obtain ⟨t', s₁⟩ := p
      simp only [hp] at h ⊢
      cases hr : s₁.take (n + 1) with
      | error e => simp [hr, Except.map] at h
      | ok r =>
        obtain ⟨v, s₂⟩ := r
        simp only [hr, Except.map, List.cons_append, Except.ok.injEq, Prod.mk.injEq,
          List.cons.injEq] at h
        obtain ⟨⟨rfl, rfl⟩, rfl⟩ := h
        obtain ⟨s'', hs''⟩ := ih (by simpa using hu) hr
        exact ⟨s'', by simp [hs'', Except.map]⟩

end TokenSource

end SyntaxCheck
