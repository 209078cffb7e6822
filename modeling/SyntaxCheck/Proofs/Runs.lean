import SyntaxCheck.Grammar.Recognize
import SyntaxCheck.Report.Recognition

/-!
# What the steps of a run do

Every recognition is built from five steps of `SyntaxCheck.Grammar.Run`: `done`, `within`,
`acceptThen`, `bind` and `choose`. This module says once what each of them does, so that the
theorems about whole recognitions never open them again.

* `Cursor.Reads c u d` says that the cursor `c` hands out the tokens `u`, with one pull after
  each, and then stands at `d`; `TokenSource.take` is the same reading seen from the source, pull
  by pull.
* `Run.Sat r ok err` reads a run backwards: `ok` holds of the events and the end cursor of a run
  that gets to its end, `err` of the events and the halt of one that stops. Each step has its rule
  (`Run.sat_acceptThen`, `Run.sat_bind`, ...), so that a property of a rule is proved by following
  the rule's code step by step.
* `Run.recognition_*` compute a step whose outcome is known, for the proofs that run the
  recogniser forwards on an input they choose.
* `recognize_induction` is the induction that follows the recogniser: a rule may use what is
  proved of any rule once a token is accepted, of a rule of lower rank before, and of the
  repetition of a list rule.
-/

namespace SyntaxCheck

/-! ## Reading a prefix of the input -/

namespace Cursor

/-- `c.Reads u d`: from `c`, the tokens `u` are accepted one after the other, each followed by a
pull of the next token, and `d` is the cursor that this leaves. The first token of `u` is the
lookahead of `c`. -/
inductive Reads : Cursor → List Token → Cursor → Prop
  | nil (c : Cursor) : Reads c [] c
  | cons {c d : Cursor} {t : Token} {s : TokenSource} {u : List Token} :
      c.source.pull = .ok (t, s) → Reads ⟨t, s⟩ u d → Reads c (c.lookahead :: u) d

namespace Reads

variable {c d e : Cursor} {u v : List Token}

theorem append (h : Reads c u d) (h' : Reads d v e) : Reads c (u ++ v) e := by
  induction h with
  | nil => exact h'
  | cons hp _ ih => exact .cons hp (ih h')

theorem of_append (h : Reads c (u ++ v) e) : ∃ d, Reads c u d ∧ Reads d v e := by
  induction u generalizing c with
  | nil => exact ⟨c, .nil c, h⟩
  | cons t u ih =>
    cases h with
    | cons hp hr =>
      obtain ⟨d, hu, hv⟩ := ih hr
      exact ⟨d, .cons hp hu, hv⟩

@[simp] theorem nil_iff : Reads c [] d ↔ d = c := by
  constructor
  · rintro ⟨⟩
    rfl
  · rintro rfl
    exact .nil _

theorem cons_iff {t : Token} :
    Reads c (t :: u) e ↔ c.lookahead = t ∧ ∃ t' s, c.source.pull = .ok (t', s) ∧ Reads ⟨t', s⟩ u e := by
  constructor
  · rintro (_ | ⟨hp, hr⟩)
    exact ⟨rfl, _, _, hp, hr⟩
  · rintro ⟨rfl, t', s, hp, hr⟩
    exact .cons hp hr

/-- What a cursor hands out determines where it ends. -/
theorem eq (h : Reads c u d) (h' : Reads c u e) : d = e := by
  induction h with
  | nil => exact (nil_iff.1 h').symm
  | cons hp _ ih =>
    obtain ⟨-, t', s', hp', hr'⟩ := cons_iff.1 h'
    rw [hp] at hp'
    cases hp'
    exact ih hr'

/-- Reading never makes a cursor heavier. -/
theorem weight_le (h : Reads c u d) : d.weight ≤ c.weight := by
  induction h with
  | nil => exact Nat.le_refl _
  | @cons c d t s u hp _ ih =>
    have := TokenSource.weight_pull_le hp
    simp only [Cursor.weight] at *
    omega

end Reads

end Cursor

namespace TokenSource

/-- The first `n` tokens that `s` hands out, one pull each, and the source after them. The first
pull that fails makes the whole reading fail. -/
def take : TokenSource → Nat → Except Diagnostic (List Token × TokenSource)
  | s, 0 => .ok ([], s)
  | s, n + 1 =>
    match s.pull with
    | .error e => .error e
    | .ok (t, s') => (s'.take n).map fun (ts, s'') => (t :: ts, s'')

/-- A cursor whose lookahead and source come from one pull of `s` reads what `s` hands out after
that pull: the tokens read, then the lookahead where the reading ends. -/
theorem take_of_reads {s : TokenSource} {c d : Cursor} {u : List Token}
    (hs : s.pull = .ok (c.lookahead, c.source)) (h : c.Reads u d) :
    s.take (u.length + 1) = .ok (u ++ [d.lookahead], d.source) := by
  induction h generalizing s with
  | nil => simp [take, hs, Except.map]
  | cons hp _ ih =>
    rw [List.length_cons, take, hs]
    simp [ih hp, Except.map]

end TokenSource

/-! ## Accepted tokens -/

namespace Event

/-- The tokens accepted along a list of events, in order. -/
def terminals (es : List Event) : List Token :=
  es.filterMap fun
    | .terminal t => some t
    | _ => none

@[simp] theorem terminals_nil : terminals [] = [] := rfl

@[simp] theorem terminals_enter (r : Rule) (es : List Event) :
    terminals (.enter r :: es) = terminals es := rfl

@[simp] theorem terminals_exit (r : Rule) (es : List Event) :
    terminals (.exit r :: es) = terminals es := rfl

@[simp] theorem terminals_terminal (t : Token) (es : List Event) :
    terminals (.terminal t :: es) = t :: terminals es := rfl

@[simp] theorem terminals_append (es es' : List Event) :
    terminals (es ++ es') = terminals es ++ terminals es' := by
  simp [terminals, List.filterMap_append]

end Event

theorem Trace.terminals_eq (tr : Trace) : tr.terminals = Event.terminals tr.events := rfl

/-! ## What a halt expected -/

/-- The kinds a mismatch names as expected: one kind, or each kind of a list. -/
def Expected.kinds : Expected → List TokenKind
  | .kind k => [k]
  | .oneOf ks => ks

/-- The kinds a halt names as expected; a failed source names none. -/
def Halt.expected : Halt → List TokenKind
  | .mismatch _ e => e.kinds
  | .unreadable _ _ => []

/-- The recognition with the events `es` before its own. -/
def Recognition.prepend (es : List Event) (r : Recognition) : Recognition :=
  ⟨es ++ r.events, r.outcome⟩

@[simp] theorem Recognition.prepend_nil (r : Recognition) : r.prepend [] = r := rfl

@[simp] theorem Recognition.prepend_mk (es es' : List Event) (out : Except Halt Cursor) :
    Recognition.prepend es ⟨es', out⟩ = ⟨es ++ es', out⟩ := rfl

theorem Recognition.prepend_append (es es' : List Event) (r : Recognition) :
    (r.prepend es').prepend es = r.prepend (es ++ es') := by
  simp [Recognition.prepend]

/-! ## Runs read backwards -/

namespace Run

variable {c : Cursor} {ok ok' : List Event → Cursor → Prop} {err err' : List Event → Halt → Prop}

/-- `r.Sat ok err`: if the run gets to its end, `ok` holds of its events and the cursor it ends
at; if it stops, `err` holds of its events and its halt. -/
def Sat (r : Run c) (ok : List Event → Cursor → Prop) (err : List Event → Halt → Prop) : Prop :=
  match r.outcome with
  | .ok d => ok r.events d.1
  | .error h => err r.events h

theorem Sat.mono {r : Run c} (h : r.Sat ok err) (hok : ∀ es d, ok es d → ok' es d)
    (herr : ∀ es h, err es h → err' es h) : r.Sat ok' err' := by
  obtain ⟨es, (d | h')⟩ := r
  · exact herr _ _ h
  · exact hok _ _ h

theorem sat_done (h : ok [] c) : (done c).Sat ok err := h

theorem sat_halt {h : Halt} (hh : err [] h) : (halt h : Run c).Sat ok err := hh

@[simp] theorem sat_weaken {d : Cursor} (r : Run d) (hw : d.weight ≤ c.weight) :
    (r.weaken hw : Run c).Sat ok err ↔ r.Sat ok err := by
  obtain ⟨es, outcome⟩ := r
  cases outcome <;> rfl

theorem sat_within {x : Rule} {body : Run c}
    (h : body.Sat (fun es d => ok (.enter x :: es ++ [.exit x]) d)
      (fun es h => err (.enter x :: es) h)) :
    (within x body).Sat ok err := by
  obtain ⟨es, (h' | d)⟩ := body <;> exact h

theorem sat_acceptThen {k : TokenKind} {hk : k ≠ .endOfFile}
    {next : (d : Cursor) → d.weight < c.weight → Run d}
    (hmis : c.lookahead.kind ≠ k → err [] (.mismatch c.lookahead (.kind k)))
    (hfail : ∀ e, c.lookahead.kind = k → c.source.pull = .error e →
      err [.terminal c.lookahead] (.unreadable e c.lookahead))
    (hnext : ∀ t s hd, c.lookahead.kind = k → c.source.pull = .ok (t, s) →
      (next ⟨t, s⟩ hd).Sat (fun es d => ok (.terminal c.lookahead :: es) d)
        (fun es h => err (.terminal c.lookahead :: es) h)) :
    (acceptThen k hk c next).Sat ok err := by
  unfold acceptThen
  split
  · rename_i hkind
    split
    · rename_i e hp
      exact hfail e hkind hp
    · rename_i t s hp
      have hn := hnext t s (Cursor.weight_lt_of_pull (hkind ▸ hk) hp) hkind hp
      dsimp only
      generalize next ⟨t, s⟩ _ = r at hn ⊢
      obtain ⟨es, (h' | d)⟩ := r <;> exact hn
  · rename_i hkind
    exact hmis hkind

theorem sat_bind {r : Run c} {k : (d : Cursor) → d.weight ≤ c.weight → Run d}
    (h : r.Sat (fun es d => ∀ hd : d.weight ≤ c.weight,
      (k d hd).Sat (fun es' e => ok (es ++ es') e) (fun es' h => err (es ++ es') h)) err) :
    (r.bind k).Sat ok err := by
  obtain ⟨es, (h' | ⟨d, hd⟩)⟩ := r
  · exact h
  · have hk := h hd
    unfold bind
    dsimp only
    generalize k d hd = r' at hk ⊢
    obtain ⟨es', (h'' | d')⟩ := r' <;> exact hk

theorem sat_choose {o : Options} {ks : List TokenKind} {hks : TokenKind.endOfFile ∉ ks}
    {pick : (k : TokenKind) → k ≠ .endOfFile → Run c} {otherwise : Run c}
    (hpick : ∀ hk, c.lookahead.kind ∈ ks → (pick c.lookahead.kind hk).Sat ok err)
    (hstrict : c.lookahead.kind ∉ ks → o.strict = true →
      err [] (.mismatch c.lookahead (.oneOf ks)))
    (hlenient : c.lookahead.kind ∉ ks → o.strict = false → otherwise.Sat ok err) :
    (choose o ks hks c pick otherwise).Sat ok err := by
  unfold choose
  split
  · rename_i h
    exact hpick _ h
  · rename_i h
    split
    · rename_i hs
      exact hstrict h hs
    · rename_i hs
      exact hlenient h (by simpa using hs)

/-! ## Runs computed forwards -/

@[simp] theorem recognition_done (c : Cursor) : (done c).recognition = ⟨[], .ok c⟩ := rfl

@[simp] theorem recognition_halt (h : Halt) : (halt h : Run c).recognition = ⟨[], .error h⟩ := rfl

@[simp] theorem events_weaken {d : Cursor} (r : Run d) (hw : d.weight ≤ c.weight) :
    (r.weaken hw : Run c).events = r.events := rfl

@[simp] theorem outcome_weaken {d : Cursor} (r : Run d) (hw : d.weight ≤ c.weight) :
    (r.weaken hw : Run c).outcome.map Subtype.val = r.outcome.map Subtype.val := by
  obtain ⟨es, (h | e)⟩ := r <;> rfl

@[simp] theorem recognition_weaken {d : Cursor} (r : Run d) (hw : d.weight ≤ c.weight) :
    (r.weaken hw : Run c).recognition = r.recognition := by
  simp [recognition]

/-- A run never ends at a cursor heavier than the one it started from. -/
theorem le_of_recognition_ok {r : Run c} {d : Cursor} (h : r.recognition.outcome = .ok d) :
    d.weight ≤ c.weight := by
  obtain ⟨es, (e | ⟨d', hd⟩)⟩ := r
  · cases h
  · cases h
    exact hd

theorem recognition_within_ok {x : Rule} {body : Run c} {es : List Event} {d : Cursor}
    (h : body.recognition = ⟨es, .ok d⟩) :
    (within x body).recognition = ⟨.enter x :: es ++ [.exit x], .ok d⟩ := by
  obtain ⟨es', (e | ⟨d', hd⟩)⟩ := body <;> cases h
  rfl

theorem recognition_within_error {x : Rule} {body : Run c} {es : List Event} {e : Halt}
    (h : body.recognition = ⟨es, .error e⟩) :
    (within x body).recognition = ⟨.enter x :: es, .error e⟩ := by
  obtain ⟨es', (e' | ⟨d', hd⟩)⟩ := body <;> cases h
  rfl

theorem recognition_acceptThen_of_ne {k : TokenKind} {hk : k ≠ .endOfFile}
    {next : (d : Cursor) → d.weight < c.weight → Run d} (hkind : c.lookahead.kind ≠ k) :
    (acceptThen k hk c next).recognition = ⟨[], .error (.mismatch c.lookahead (.kind k))⟩ := by
  simp [acceptThen, hkind]

theorem recognition_acceptThen_of_error {k : TokenKind} {hk : k ≠ .endOfFile}
    {next : (d : Cursor) → d.weight < c.weight → Run d} {e : Diagnostic}
    (hkind : c.lookahead.kind = k) (hp : c.source.pull = .error e) :
    (acceptThen k hk c next).recognition =
      ⟨[.terminal c.lookahead], .error (.unreadable e c.lookahead)⟩ := by
  unfold acceptThen
  rw [dif_pos hkind]
  split
  · rename_i e' hp'
    rw [hp] at hp'
    cases hp'
    rfl
  · rename_i t s hp'
    rw [hp] at hp'
    cases hp'

/-- Accepting a lookahead of the expected kind hands the rest of the run the token pulled next. -/
theorem recognition_acceptThen_of_pull {k : TokenKind} {hk : k ≠ .endOfFile}
    {next : (d : Cursor) → d.weight < c.weight → Run d} {t : Token} {s : TokenSource}
    (hkind : c.lookahead.kind = k) (hp : c.source.pull = .ok (t, s)) :
    (acceptThen k hk c next).recognition =
      (next ⟨t, s⟩ (Cursor.weight_lt_of_pull (hkind ▸ hk) hp)).recognition.prepend
        [.terminal c.lookahead] := by
  unfold acceptThen
  rw [dif_pos hkind]
  split
  · rename_i e' hp'
    rw [hp] at hp'
    cases hp'
  · rename_i t' s' hp'
    rw [hp] at hp'
    cases hp'
    simp [recognition, Recognition.prepend]

theorem recognition_bind_ok {r : Run c} {k : (d : Cursor) → d.weight ≤ c.weight → Run d}
    {es : List Event} {d : Cursor} (h : r.recognition = ⟨es, .ok d⟩) :
    (r.bind k).recognition =
      (k d (le_of_recognition_ok (by rw [h]))).recognition.prepend es := by
  obtain ⟨es', (e | ⟨d', hd⟩)⟩ := r <;> cases h
  simp [bind, recognition, Recognition.prepend]

theorem recognition_bind_error {r : Run c} {k : (d : Cursor) → d.weight ≤ c.weight → Run d}
    {es : List Event} {e : Halt} (h : r.recognition = ⟨es, .error e⟩) :
    (r.bind k).recognition = ⟨es, .error e⟩ := by
  obtain ⟨es', (e' | ⟨d', hd⟩)⟩ := r <;> cases h
  rfl

theorem choose_of_mem {o : Options} {ks : List TokenKind} {hks : TokenKind.endOfFile ∉ ks}
    {pick : (k : TokenKind) → k ≠ .endOfFile → Run c} {otherwise : Run c}
    (h : c.lookahead.kind ∈ ks) :
    choose o ks hks c pick otherwise = pick c.lookahead.kind (fun he => hks (he ▸ h)) := by
  simp [choose, h]

theorem choose_of_not_mem {o : Options} {ks : List TokenKind} {hks : TokenKind.endOfFile ∉ ks}
    {pick : (k : TokenKind) → k ≠ .endOfFile → Run c} {otherwise : Run c}
    (h : c.lookahead.kind ∉ ks) :
    choose o ks hks c pick otherwise =
      if o.strict then halt (.mismatch c.lookahead (.oneOf ks)) else otherwise := by
  simp [choose, h]

end Run

/-! ## Induction along the recogniser -/

/-- **Induction along the recogniser.** A property of every rule and of every repetition, at every
cursor, follows from one step of each. A rule may use the property of any rule at a cursor where a
token has been accepted, of a rule of lower rank at a cursor no further on, and of any repetition at
a cursor no further on; a repetition may use the property of any rule or repetition once its
separator is accepted. These are the calls that `recognize` and `repetition` make, and the measure
of their termination proof decreases along each of them. -/
theorem recognize_induction {motive repMotive : Rule → Cursor → Prop}
    (rule : ∀ r c, (∀ r' d, d.weight < c.weight → motive r' d) →
      (∀ r' d, d.weight ≤ c.weight → r'.rank < r.rank → motive r' d) →
      (∀ r' d, d.weight ≤ c.weight → repMotive r' d) → motive r c)
    (rep : ∀ r c, (∀ r' d, d.weight < c.weight → motive r' d) →
      (∀ r' d, d.weight < c.weight → repMotive r' d) → repMotive r c) :
    (∀ r c, motive r c) ∧ ∀ r c, repMotive r c := by
  -- the measure is `5 * weight + rank + 1` for a rule and `5 * weight` for a repetition
  have key : ∀ n, (∀ r c, 5 * c.weight + r.rank + 1 ≤ n → motive r c) ∧
      ∀ r c, 5 * c.weight ≤ n → repMotive r c := by
    intro n
    induction n with
    | zero =>
      refine ⟨fun r c h => by omega, fun r c h => rep r c ?_ ?_⟩
      · intro r' d hd
        omega
      · intro r' d hd
        omega
    | succ n ih =>
      refine ⟨fun r c h => rule r c ?_ ?_ ?_, fun r c h => rep r c ?_ ?_⟩
      · intro r' d hd
        have := Rule.rank_le_two r'
        exact ih.1 r' d (by omega)
      · intro r' d hd hr
        exact ih.1 r' d (by omega)
      · intro r' d hd
        exact ih.2 r' d (by omega)
      · intro r' d hd
        have := Rule.rank_le_two r'
        exact ih.1 r' d (by omega)
      · intro r' d hd
        exact ih.2 r' d (by omega)
  exact ⟨fun r c => (key _).1 r c (Nat.le_refl _), fun r c => (key _).2 r c (Nat.le_refl _)⟩

end SyntaxCheck
