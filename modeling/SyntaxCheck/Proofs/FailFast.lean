import SyntaxCheck.Proofs.Programs
import SyntaxCheck.Report.Recognition

/-!
# Reading the source in order, and stopping at the first fault

Whatever the options, a recognition takes its tokens from the source one pull after the other and
accepts each token it pulls before it pulls the next one. Its terminals are therefore the first
`k` tokens of the source, for some `k`, and the recognition made exactly one pull more: the token
it ended at, the token it found unexpected, or a pull that failed. A syntax error names the
unexpected token, with its file, its line and its display; a source that fails is not a syntax
error, and no message is reported for it (`Recognition.FollowsSource`).

This holds of every run that accepts what its cursor hands out (`Run.Consumes.followsSource`),
which all runs of the recogniser do. A program adds the end of file after its statement part: it
is the last terminal of a program that succeeds, and the only end of file it accepts, while a
single rule never accepts one (`recognitions_follow_source`).
-/

namespace SyntaxCheck

open Run

namespace Recognition

/-- How a recognition from the first token of `s` went through it. Its terminals are the first
tokens that `s` hands out, in order, and after them it either ended at the next token, with the
rest of `s` behind it; or it stopped at the next token with a syntax error, whose message gives
that token's file and line, what was expected and the token itself; or the pull after them
failed, and no syntax error was reported. -/
def FollowsSource (s : TokenSource) (rec : Recognition) : Prop :=
  match rec.outcome with
  | .ok d =>
    s.take (rec.trace.terminals.length + 1) = .ok (rec.trace.terminals ++ [d.lookahead], d.source)
  | .error (.mismatch t x) =>
    (∃ s', s.take (rec.trace.terminals.length + 1) = .ok (rec.trace.terminals ++ [t], s')) ∧
    rec.trace.error = some ("[File: " ++ t.pos.file ++ " - Line " ++ toString t.line ++
      "] - Expected: " ++ x.describe ++ " but got: " ++ t.display) ∧
    rec.diagnostic? = rec.trace.error.map (Diagnostic.unexpected t)
  | .error (.unreadable e _) =>
    (∃ s', s.take rec.trace.terminals.length = .ok (rec.trace.terminals, s') ∧
      s'.pull = .error e) ∧
    rec.trace.error = none ∧ rec.diagnostic? = some e

variable {s : TokenSource} {es : List Event}

/-- A recognition that ends where a cursor read from the first token of `s` ends. -/
theorem followsSource_ok {c d : Cursor} (hs : s.pull = .ok (c.lookahead, c.source))
    (h : c.Reads (Event.terminals es) d) : FollowsSource s ⟨es, .ok d⟩ :=
  TokenSource.take_of_reads hs h

/-- A recognition that stops at a mismatch with the lookahead of a cursor read from the first
token of `s`. -/
theorem followsSource_mismatch {c d : Cursor} (hs : s.pull = .ok (c.lookahead, c.source))
    (h : c.Reads (Event.terminals es) d) (x : Expected) :
    FollowsSource s ⟨es, .error (.mismatch d.lookahead x)⟩ :=
  ⟨⟨_, TokenSource.take_of_reads hs h⟩, rfl, rfl⟩

/-- A recognition that stops because the pull after the lookahead of a cursor read from the first
token of `s` failed, once it has accepted that lookahead. -/
theorem followsSource_unreadable {c d : Cursor} {u : List Token}
    (hs : s.pull = .ok (c.lookahead, c.source)) (h : c.Reads u d) {e : Diagnostic}
    (hp : d.source.pull = .error e) (hu : Event.terminals es = u ++ [d.lookahead]) :
    FollowsSource s ⟨es, .error (.unreadable e d.lookahead)⟩ := by
  refine ⟨⟨d.source, ?_, hp⟩, rfl, rfl⟩
  show s.take (Event.terminals es).length = .ok (Event.terminals es, d.source)
  rw [hu, List.length_append, List.length_singleton]
  exact TokenSource.take_of_reads hs h

end Recognition

open Recognition

/-- **A run that accepts what its cursor hands out follows the source** from which its cursor
was pulled. -/
theorem Run.Consumes.followsSource {c : Cursor} {r : Run c} (h : r.Consumes) {s : TokenSource}
    (hs : s.pull = .ok (c.lookahead, c.source)) : r.recognition.FollowsSource s := by
  obtain ⟨es, out⟩ := r
  cases out with
  | ok d => exact followsSource_ok hs h.1
  | error halt =>
    cases halt with
    | mismatch t x =>
      obtain ⟨d, hacc, rfl, -⟩ := h
      exact followsSource_mismatch hs hacc.1 x
    | unreadable e last =>
      obtain ⟨v, d, hu, hacc, rfl, -, hp⟩ := h
      exact followsSource_unreadable hs hacc.1 hp hu

/-- A run that accepts what its cursor hands out accepts no end of file, however it ends. -/
theorem Run.Consumes.terminals_ne_endOfFile {c : Cursor} {r : Run c} (h : r.Consumes) :
    ∀ t ∈ Event.terminals r.events, t.kind ≠ .endOfFile := by
  obtain ⟨es, out⟩ := r
  cases out with
  | ok d => exact h.2
  | error halt =>
    cases halt with
    | mismatch t x =>
      obtain ⟨d, hacc, -⟩ := h
      exact hacc.2
    | unreadable e last =>
      obtain ⟨v, d, hu, hacc, -, hlast, -⟩ := h
      intro t ht
      rw [hu, List.mem_append, List.mem_singleton] at ht
      rcases ht with ht | rfl
      · exact hacc.2 t ht
      · exact hlast

namespace Recognition

variable {o : Options} {s : TokenSource}

/-- A program is refused exactly when the first pull of its source fails, with that pull's
diagnostic. -/
theorem program_eq_error_iff (e : Diagnostic) : program o s = .error e ↔ s.pull = .error e := by
  unfold program Cursor.start
  cases s.pull <;> simp [Except.map]

/-- A single rule is refused exactly when the first pull of its source fails, with that pull's
diagnostic. -/
theorem single_eq_error_iff (r : Rule) (e : Diagnostic) :
    single o r s = .error e ↔ s.pull = .error e := by
  unfold single Cursor.start
  cases s.pull <;> simp [Except.map]

/-- **A single rule follows its source**, and accepts no end of file. -/
theorem single_followsSource {r : Rule} {rec : Recognition} (h : single o r s = .ok rec) :
    rec.FollowsSource s ∧ ∀ t ∈ rec.trace.terminals, t.kind ≠ .endOfFile := by
  obtain ⟨t₀, s₀, hs, rfl⟩ := single_of_ok h
  have hc := (recognize_consumes o).1 r ⟨t₀, s₀⟩
  exact ⟨hc.followsSource hs, hc.terminals_ne_endOfFile⟩

/-- **A program follows its source.** When it succeeds, its last terminal is an end of file, and
it is the only one it accepted. -/
theorem program_followsSource {rec : Recognition} (h : program o s = .ok rec) :
    rec.FollowsSource s ∧ (rec.succeeded = true → ∃ w e, rec.trace.terminals = w ++ [e] ∧
      e.kind = .endOfFile ∧ ∀ t ∈ w, t.kind ≠ .endOfFile) := by
  obtain ⟨t₀, s₀, hs, hcase⟩ := program_cases h
  have hc := (recognize_consumes o).1 .statementPart ⟨t₀, s₀⟩
  rcases hcase with ⟨es, e, hrun, rfl⟩ | ⟨es, d, e, hrun, -, hp, rfl⟩ |
    ⟨es, d, t, s', hrun, heof, hp, rfl⟩ | ⟨es, d, hrun, -, rfl⟩
  · -- a halt of the statement part is the program's halt
    exact ⟨hrun ▸ hc.followsSource hs, fun hsucc => by cases hsucc⟩
  · have hacc := hc.of_recognition_ok hrun
    exact ⟨followsSource_unreadable hs hacc.1 hp (by simp), fun hsucc => by cases hsucc⟩
  · -- the end of file is the last terminal, after those of the statement part
    have hacc := hc.of_recognition_ok hrun
    have hterm : Event.terminals (es ++ [.terminal d.lookahead]) =
        Event.terminals es ++ [d.lookahead] := by simp
    refine ⟨?_, fun _ => ⟨_, _, hterm, heof, hacc.2⟩⟩
    apply followsSource_ok (c := ⟨t₀, s₀⟩) hs
    rw [hterm]
    exact hacc.1.append (.cons hp (.nil _))
  · exact ⟨followsSource_mismatch hs (hc.of_recognition_ok hrun).1 _, fun hsucc => by cases hsucc⟩

end Recognition

/-- **Every recognition reads its source in order and stops at the first fault.** For any
options and any source, a program or a single rule is refused exactly when the first pull fails;
otherwise its terminals are the first tokens the source hands out, and it ended at the next
token, stopped there with a syntax error that names it, or found the next pull failing. A program
that succeeds accepted exactly one end of file, as its last terminal; a single rule accepts
none. -/
theorem recognitions_follow_source (o : Options) (s : TokenSource) :
    (∀ e, Recognition.program o s = .error e ↔ s.pull = .error e) ∧
    (∀ rec, Recognition.program o s = .ok rec → rec.FollowsSource s ∧
      (rec.succeeded = true → ∃ w e, rec.trace.terminals = w ++ [e] ∧ e.kind = .endOfFile ∧
        ∀ t ∈ w, t.kind ≠ .endOfFile)) ∧
    ∀ r, (∀ e, Recognition.single o r s = .error e ↔ s.pull = .error e) ∧
      ∀ rec, Recognition.single o r s = .ok rec → rec.FollowsSource s ∧
        ∀ t ∈ rec.trace.terminals, t.kind ≠ .endOfFile :=
  ⟨Recognition.program_eq_error_iff, fun _ h => Recognition.program_followsSource h,
    fun r => ⟨Recognition.single_eq_error_iff r, fun _ h => Recognition.single_followsSource h⟩⟩

end SyntaxCheck
