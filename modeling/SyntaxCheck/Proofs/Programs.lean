import SyntaxCheck.Proofs.Completeness
import SyntaxCheck.Proofs.Consumption

/-!
# Programs

A program is a statement part followed by the end of file. Over a token list, the recogniser with
flat repetitions and strict choices accepts exactly the programs of the strict grammar: it
succeeds exactly when the tokens begin with a sentence of the statement part followed by an end of
file, and then it reports the walk of the one derivation of that sentence, and the end of file
(`program_accepts_strict_grammar`).

The pieces are the soundness and completeness of the runs of the statement part, which runs
accept what their cursor hands out (`recognize_consumes`), and two facts about sources over token
lists: every pull succeeds, and reading a prefix of the list is taking it.
-/

namespace SyntaxCheck

open Run

/-! ## Sources over token lists -/

namespace TokenSource

/-- The source ends in repeated end-of-file tokens, as sources over token lists do. -/
def Ends (s : TokenSource) : Prop := ∃ v p, s.tail = .ends v p

theorem ends_ofTokens (ts : List Token) : (ofTokens ts).Ends := ⟨_, _, rfl⟩

/-- A source that ends hands out a token on every pull, and still ends after it. -/
theorem Ends.pull {s : TokenSource} (h : s.Ends) : ∃ t s', s.pull = .ok (t, s') ∧ s'.Ends := by
  obtain ⟨pending, tail⟩ := s
  obtain ⟨v, p, htail⟩ := h
  simp only at htail
  subst htail
  cases pending with
  | nil => exact ⟨_, _, pull_ends v p, v, p, rfl⟩
  | cons t ts =>
    refine ⟨t, _, pull_cons t ts _, ?_⟩
    simp only [Tail.after]
    split
    · exact ⟨_, _, rfl⟩
    · exact ⟨v, p, rfl⟩

theorem Ends.of_pull {s s' : TokenSource} {t : Token} (h : s.Ends) (hp : s.pull = .ok (t, s')) :
    s'.Ends := by
  obtain ⟨t', s'', hp', hs''⟩ := h.pull
  rw [hp] at hp'
  cases hp'
  exact hs''

/-- The tokens that a source hands out, taken one pull after the other, are what a cursor on it
reads. -/
theorem reads_of_take :
    ∀ {u : List Token} {s : TokenSource} {c : Cursor} {t : Token} {s' : TokenSource},
    s.pull = .ok (c.lookahead, c.source) → s.take (u.length + 1) = .ok (u ++ [t], s') →
      ∃ d, c.Reads u d ∧ d.lookahead = t ∧ d.source = s'
  | [], s, c, t, s', hs, h => by
    simp only [List.length_nil, take, hs, Except.map, List.nil_append, Except.ok.injEq,
      Prod.mk.injEq, List.cons.injEq, and_true] at h
    obtain ⟨rfl, rfl⟩ := h
    exact ⟨c, .nil c, rfl, rfl⟩
  | a :: u, s, c, t, s', hs, h => by
    rw [List.length_cons, take, hs] at h
    -- the rest of the reading starts from the token pulled after the lookahead
    cases hp : c.source.pull with
    | error e => simp [take, hp, Except.map] at h
    | ok ts1 =>
      obtain ⟨t1, s1⟩ := ts1
      cases hrest : c.source.take (u.length + 1) with
      | error e => simp [hrest, Except.map] at h
      | ok r =>
        obtain ⟨l, s''⟩ := r
        simp only [hrest, Except.map, Except.ok.injEq, Prod.mk.injEq, List.cons_append,
          List.cons.injEq] at h
        obtain ⟨⟨rfl, rfl⟩, rfl⟩ := h
        obtain ⟨d, hd, hla, hsrc⟩ := reads_of_take (c := ⟨t1, s1⟩) hp hrest
        exact ⟨d, .cons hp hd, hla, hsrc⟩

end TokenSource

/-- Reading keeps a source ending. -/
theorem Cursor.Reads.ends {c d : Cursor} {u : List Token} (h : c.Reads u d) (hc : c.source.Ends) :
    d.source.Ends := by
  induction h with
  | nil => exact hc
  | cons hp _ ih => exact ih (hc.of_pull hp)

/-- A cursor on a list of pending tokens reads them, up to the token it was asked to stop at. -/
theorem Cursor.reads_pending :
    ∀ (u : List Token) (a b : Token) (rest : List Token) (tail : Tail),
      ∃ tail', Cursor.Reads ⟨a, ⟨u ++ b :: rest, tail⟩⟩ (a :: u) ⟨b, ⟨rest, tail'⟩⟩
  | [], a, b, rest, tail => ⟨_, .cons (TokenSource.pull_cons b rest tail) (.nil _)⟩
  | x :: u, a, b, rest, tail => by
    obtain ⟨tail', h⟩ := Cursor.reads_pending u x b rest (tail.after x)
    exact ⟨tail', .cons (TokenSource.pull_cons x (u ++ b :: rest) tail) h⟩

/-- Any tokens can be read from some cursor, up to any lookahead. -/
theorem Cursor.exists_reads (u : List Token) (t : Token) :
    ∃ c d, Cursor.Reads c u d ∧ d.lookahead = t := by
  cases u with
  | nil => exact ⟨⟨t, TokenSource.ofTokens []⟩, _, .nil _, rfl⟩
  | cons a u =>
    obtain ⟨tail', h⟩ := Cursor.reads_pending u a t [] (.ends "" Position.null)
    exact ⟨_, _, h, rfl⟩

/-! ## Runs read back from their recognition -/

theorem Run.Sat.of_recognition_ok {c : Cursor} {r : Run c} {ok : List Event → Cursor → Prop}
    {err : List Event → Halt → Prop} (h : r.Sat ok err) {es : List Event} {d : Cursor}
    (hr : r.recognition = ⟨es, .ok d⟩) : ok es d := by
  obtain ⟨es', (e | ⟨d', hd'⟩)⟩ := r
  · cases hr
  · simp only [recognition, Except.map, Recognition.mk.injEq, Except.ok.injEq] at hr
    obtain ⟨rfl, rfl⟩ := hr
    exact h

theorem Run.Sat.of_recognition_error {c : Cursor} {r : Run c} {ok : List Event → Cursor → Prop}
    {err : List Event → Halt → Prop} (h : r.Sat ok err) {es : List Event} {e : Halt}
    (hr : r.recognition = ⟨es, .error e⟩) : err es e := by
  obtain ⟨es', (e' | ⟨d', hd'⟩)⟩ := r
  · simp only [recognition, Except.map, Recognition.mk.injEq, Except.error.injEq] at hr
    obtain ⟨rfl, rfl⟩ := hr
    exact h
  · cases hr

/-! ## Unambiguity -/

/-- **Both grammars are unambiguous.** Two derivations of a rule with the same leaves are the same
derivation: the flat recogniser, run on those leaves followed by a token that may follow the rule,
walks each of them. -/
theorem Derives.unique {ℓ : Bool} {T T' : Tree} {r : Rule} (hT : Derives ℓ T) (hT' : Derives ℓ T')
    (hs : T.sym = .rule r) (hs' : T'.sym = .rule r) (hl : T.leaves = T'.leaves) : T = T' := by
  obtain ⟨f, hf⟩ : ∃ f, f ∈ r.follow := by cases r <;> exact ⟨_, List.mem_cons_self⟩
  obtain ⟨c, d, hread, hla⟩ := Cursor.exists_reads T.leaves (Token.ofKind f)
  have hfollow : d.lookahead.kind ∈ r.follow := by rw [hla, Token.ofKind_kind]; exact hf
  -- run the flat recogniser whose choices recognise the grammar of `ℓ`
  have h1 := recognize_complete ⟨.flat, !ℓ⟩ rfl (by simpa using hT) r hs c d hread hfollow
  have h2 := recognize_complete ⟨.flat, !ℓ⟩ rfl (by simpa using hT') r hs' c d (hl ▸ hread) hfollow
  rw [h1, Recognition.mk.injEq] at h2
  cases T with
  | leaf t => cases hs
  | node x cs =>
    cases T' with
    | leaf t => cases hs'
    | node x' cs' => exact Tree.eq_of_events_eq h2.1

/-- **A flat run that ends walks a derivation.** When the flat recogniser of a rule ends, it has
reported the walk of a derivation of the rule in the grammar of its choices, and has accepted the
leaves of that derivation from its cursor, none of them an end of file. -/
theorem recognize_ok_derives {o : Options} (hflat : o.shape = .flat) {r : Rule} {c d : Cursor}
    {es : List Event} (h : (recognize o r c).recognition = ⟨es, .ok d⟩) :
    ∃ T, Derives (!o.strict) T ∧ T.sym = .rule r ∧ es = T.events ∧ c.Accepts T.leaves d := by
  obtain ⟨T, hT, hsym, rfl⟩ := ((recognize_sound o hflat).1 r c).of_recognition_ok h
  have hacc := ((recognize_consumes o).1 r c).of_recognition_ok h
  rw [Tree.terminals_events] at hacc
  exact ⟨T, hT, hsym, rfl, hacc⟩

/-! ## Programs and single rules -/

namespace Recognition

variable {o : Options} {s : TokenSource} {t₀ : Token} {s₀ : TokenSource}

/-- A program over a source that hands out a first token is recognised. -/
theorem program_ok (hs : s.pull = .ok (t₀, s₀)) : ∃ rec, program o s = .ok rec := by
  simp only [program, Cursor.start, hs, Except.map]
  exact ⟨_, rfl⟩

/-- A program whose statement part ends at an end of file, after which the source hands out one
more token, succeeds with the events of the statement part and the end of file. -/
theorem program_of_statementPart (hs : s.pull = .ok (t₀, s₀)) {es : List Event} {d : Cursor}
    (hrun : (recognize o .statementPart ⟨t₀, s₀⟩).recognition = ⟨es, .ok d⟩)
    (heof : d.lookahead.kind = .endOfFile) {t : Token} {s' : TokenSource}
    (hp : d.source.pull = .ok (t, s')) :
    program o s = .ok ⟨es ++ [.terminal d.lookahead], .ok ⟨t, s'⟩⟩ := by
  simp [program, Cursor.start, hs, Except.map, hrun, heof, hp]

/-- **What a program can do.** It runs its statement part from the first token of its source.
If that halts, so does the program. If it ends at an end of file, the program accepts it and pulls
once more, which fails or hands out where the program ends. If it ends at any other token, the
program stops there and expects an end of file. -/
theorem program_cases {rec : Recognition} (h : program o s = .ok rec) :
    ∃ t₀ s₀, s.pull = .ok (t₀, s₀) ∧
      ((∃ es e, (recognize o .statementPart ⟨t₀, s₀⟩).recognition = ⟨es, .error e⟩ ∧
          rec = ⟨es, .error e⟩) ∨
        (∃ es d e, (recognize o .statementPart ⟨t₀, s₀⟩).recognition = ⟨es, .ok d⟩ ∧
          d.lookahead.kind = .endOfFile ∧ d.source.pull = .error e ∧
          rec = ⟨es ++ [.terminal d.lookahead], .error (.unreadable e d.lookahead)⟩) ∨
        (∃ es d t s', (recognize o .statementPart ⟨t₀, s₀⟩).recognition = ⟨es, .ok d⟩ ∧
          d.lookahead.kind = .endOfFile ∧ d.source.pull = .ok (t, s') ∧
          rec = ⟨es ++ [.terminal d.lookahead], .ok ⟨t, s'⟩⟩) ∨
        (∃ es d, (recognize o .statementPart ⟨t₀, s₀⟩).recognition = ⟨es, .ok d⟩ ∧
          d.lookahead.kind ≠ .endOfFile ∧
          rec = ⟨es, .error (.mismatch d.lookahead (.kind .endOfFile))⟩)) := by
  unfold program Cursor.start at h
  cases hs : s.pull with
  | error e => simp [hs, Except.map] at h
  | ok p =>
    obtain ⟨t₀, s₀⟩ := p
    simp only [hs, Except.map, Except.ok.injEq] at h
    subst h
    refine ⟨t₀, s₀, rfl, ?_⟩
    generalize hrun : (recognize o .statementPart ⟨t₀, s₀⟩).recognition = R
    obtain ⟨es, out⟩ := R
    -- the outcome of the statement part, then the end of file and the pull after it, decide
    cases out with
    | error e => exact .inl ⟨es, e, rfl, rfl⟩
    | ok d =>
      by_cases heof : d.lookahead.kind = .endOfFile
      · cases hp : d.source.pull with
        | error e => exact .inr (.inl ⟨es, d, e, rfl, heof, hp, by simp [heof, hp]⟩)
        | ok p => exact .inr (.inr (.inl ⟨es, d, p.1, p.2, rfl, heof, hp, by simp [heof, hp]⟩))
      · exact .inr (.inr (.inr ⟨es, d, rfl, heof, by simp [heof]⟩))

/-- A program that succeeds has run its statement part from the first token of its source to an
end of file, and reports that run and the end of file. -/
theorem statementPart_of_program {rec : Recognition} (h : program o s = .ok rec)
    (hsucc : rec.succeeded = true) :
    ∃ t₀ s₀ es d, s.pull = .ok (t₀, s₀) ∧
      (recognize o .statementPart ⟨t₀, s₀⟩).recognition = ⟨es, .ok d⟩ ∧
      d.lookahead.kind = .endOfFile ∧ rec.events = es ++ [.terminal d.lookahead] := by
  obtain ⟨t₀, s₀, hs, ⟨es, e, -, rfl⟩ | ⟨es, d, e, -, -, -, rfl⟩ | ⟨es, d, t, s', hrun, heof, -, rfl⟩ |
    ⟨es, d, -, -, rfl⟩⟩ := program_cases h
  · cases hsucc
  · cases hsucc
  · exact ⟨t₀, s₀, es, d, hs, hrun, heof, rfl⟩
  · cases hsucc

/-- A single rule is the run of the rule from the first token of its source. -/
theorem single_of_ok {r : Rule} {rec : Recognition} (h : single o r s = .ok rec) :
    ∃ t₀ s₀, s.pull = .ok (t₀, s₀) ∧ rec = (recognize o r ⟨t₀, s₀⟩).recognition := by
  unfold single Cursor.start at h
  cases hs : s.pull with
  | error e => simp [hs, Except.map] at h
  | ok p =>
    obtain ⟨t₀, s₀⟩ := p
    simp only [hs, Except.map, Except.ok.injEq] at h
    exact ⟨t₀, s₀, rfl, h.symm⟩

end Recognition

section Flat

variable {o : Options} {s : TokenSource} {rec : Recognition}

open Recognition

/-- **A flat program that succeeds walks a derivation.** It reports the walk of a derivation of
the statement part, whose leaves the source handed out first, and then the end of file that came
after them. -/
theorem program_walks_derivation (hflat : o.shape = .flat) (h : program o s = .ok rec)
    (hsucc : rec.succeeded = true) :
    ∃ T e s', Derives (!o.strict) T ∧ T.sym = .rule .statementPart ∧
      s.take (T.leaves.length + 1) = .ok (T.leaves ++ [e], s') ∧ e.kind = .endOfFile ∧
      rec.events = T.events ++ [.terminal e] := by
  obtain ⟨t₀, s₀, es, d, hp, hrun, heof, hev⟩ := statementPart_of_program h hsucc
  obtain ⟨T, hT, hsym, rfl, hacc⟩ := recognize_ok_derives hflat hrun
  exact ⟨T, d.lookahead, d.source, hT, hsym, TokenSource.take_of_reads hp hacc.1, heof, hev⟩

/-- **A flat program over a source that ends succeeds exactly on sentences.** It succeeds exactly
when the source hands out a sentence of the statement part, in the grammar of its choices, and
then an end of file. -/
theorem program_succeeded_iff (hflat : o.shape = .flat) (hs : s.Ends) (h : program o s = .ok rec) :
    rec.succeeded = true ↔ ∃ w e s', s.take (w.length + 1) = .ok (w ++ [e], s') ∧
      e.kind = .endOfFile ∧ (∀ t ∈ w, t.kind ≠ .endOfFile) ∧ Sentence (!o.strict) .statementPart w := by
  constructor
  · intro hsucc
    obtain ⟨T, e, s', hT, hsym, htake, heof, -⟩ := program_walks_derivation hflat h hsucc
    exact ⟨T.leaves, e, s', htake, heof, hT.leaves_ne_endOfFile hsym, T, hT, hsym, rfl⟩
  · rintro ⟨w, e, s', htake, heof, -, T, hT, hsym, rfl⟩
    obtain ⟨t₀, s₀, hp, hends⟩ := hs.pull
    obtain ⟨d, hread, rfl, rfl⟩ := TokenSource.reads_of_take (c := ⟨t₀, s₀⟩) hp htake
    -- the statement part walks the sentence, and the source still has a token after its end
    have hrun := recognize_complete o hflat hT .statementPart hsym ⟨t₀, s₀⟩ d hread
      (by rw [heof]; simp [Rule.follow])
    obtain ⟨t, s'', hp', -⟩ := (hread.ends hends).pull
    rw [program_of_statementPart hp hrun heof hp', Except.ok.injEq] at h
    rw [← h]
    rfl

/-- **A flat single rule that succeeds walks a derivation** of the rule, whose leaves the source
handed out first. -/
theorem single_walks_derivation (hflat : o.shape = .flat) {r : Rule} (h : single o r s = .ok rec)
    (hsucc : rec.succeeded = true) :
    ∃ T, ∃ d : Cursor, Derives (!o.strict) T ∧ T.sym = .rule r ∧ rec.events = T.events ∧
      s.take (T.leaves.length + 1) = .ok (T.leaves ++ [d.lookahead], d.source) := by
  obtain ⟨t₀, s₀, hp, rfl⟩ := single_of_ok h
  cases hrun : (recognize o r ⟨t₀, s₀⟩).recognition with
  | mk es out =>
    cases out with
    | error e => simp [hrun, succeeded] at hsucc
    | ok d =>
      obtain ⟨T, hT, hsym, rfl, hacc⟩ := recognize_ok_derives hflat hrun
      exact ⟨T, d, hT, hsym, rfl, TokenSource.take_of_reads hp hacc.1⟩

end Flat

/-- **The strict flat recogniser accepts exactly its grammar.** Over a token list, the program
succeeds exactly when the tokens handed out begin with a sentence of the statement part in the
strict grammar, followed by an end of file; it then reports the walk of the one derivation of that
sentence, and the end of file. A single rule that succeeds has walked a derivation of the rule,
whose leaves are the tokens it took. -/
theorem program_accepts_strict_grammar (ts : List Token) :
    ∃ rec, Recognition.program ⟨.flat, true⟩ (TokenSource.ofTokens ts) = .ok rec ∧
      (rec.succeeded = true ↔ ∃ w e s,
        (TokenSource.ofTokens ts).take (w.length + 1) = .ok (w ++ [e], s) ∧
        e.kind = .endOfFile ∧ (∀ t ∈ w, t.kind ≠ .endOfFile) ∧ Sentence false .statementPart w) ∧
      (rec.succeeded = true → ∃ T e s, Derives false T ∧ T.sym = .rule .statementPart ∧
        (TokenSource.ofTokens ts).take (T.leaves.length + 1) = .ok (T.leaves ++ [e], s) ∧
        e.kind = .endOfFile ∧ rec.events = T.events ++ [.terminal e] ∧
        ∀ T', Derives false T' → T'.sym = .rule .statementPart → T'.leaves = T.leaves → T' = T) ∧
      ∀ r rec', Recognition.single ⟨.flat, true⟩ r (TokenSource.ofTokens ts) = .ok rec' →
        rec'.succeeded = true → ∃ T, ∃ d : Cursor, Derives false T ∧ T.sym = .rule r ∧ rec'.events = T.events ∧
          (TokenSource.ofTokens ts).take (T.leaves.length + 1) =
            .ok (T.leaves ++ [d.lookahead], d.source) := by
  have hends := TokenSource.ends_ofTokens ts
  obtain ⟨t₀, s₀, hp, -⟩ := hends.pull
  obtain ⟨rec, hrec⟩ := Recognition.program_ok (o := ⟨.flat, true⟩) hp
  refine ⟨rec, hrec, program_succeeded_iff rfl hends hrec, fun hsucc => ?_,
    fun r rec' h hsucc => single_walks_derivation rfl h hsucc⟩
  obtain ⟨T, e, s, hT, hsym, htake, heof, hev⟩ := program_walks_derivation rfl hrec hsucc
  exact ⟨T, e, s, hT, hsym, htake, heof, hev, fun T' hT' hsym' hl => Derives.unique hT' hT hsym' hsym hl⟩

end SyntaxCheck
