import SyntaxCheck.Proofs.Transport
import SyntaxCheck.Proofs.Programs

/-!
# Lenient choices only carry on

Where no alternative of a choice matches the lookahead, a strict recogniser stops at a mismatch and
a lenient one recognises nothing and goes on; everywhere else the two do the same. So the lenient
recognition carries on from the strict one (`Recognition.Prolongs`): it is the strict recognition
itself, unless that stopped at a mismatch, and then it begins with the strict one's events.

Carrying on is kept by the five steps of a run, so the transport of
`SyntaxCheck.Proofs.Transport` carries it to every rule, in either shape
(`recognize_prolongs`). A program and a single rule only add what they do around the recognition of
their rule, and start from the same first pull.
-/

namespace SyntaxCheck

open Run

/-! ## Recognitions that carry on -/

namespace Recognition

/-- The recognition stopped at a mismatch. -/
def Mismatched (rec : Recognition) : Prop := ∃ t x, rec.outcome = .error (.mismatch t x)

/-- `rec'` carries on from `rec`: it is `rec`, unless `rec` stopped at a mismatch, and then it
begins with the events of `rec`. -/
def Prolongs (rec rec' : Recognition) : Prop :=
  rec' = rec ∨ rec.Mismatched ∧ rec.events <+: rec'.events

namespace Prolongs

variable {rec rec' : Recognition}

theorem refl (rec : Recognition) : rec.Prolongs rec := .inl rfl

theorem prefix_events (h : rec.Prolongs rec') : rec.events <+: rec'.events := by
  rcases h with rfl | ⟨-, hpre⟩
  · exact List.prefix_refl _
  · exact hpre

/-- Events before both keep a recognition carrying on from another. -/
theorem prepend (h : rec.Prolongs rec') (es : List Event) :
    (rec.prepend es).Prolongs (rec'.prepend es) := by
  rcases h with rfl | ⟨⟨t, x, hout⟩, hpre⟩
  · exact refl _
  · exact .inr ⟨⟨t, x, hout⟩, (List.prefix_append_right_inj es).2 hpre⟩

/-- **What the strict recognition tells of the lenient one.** Its events and accepted tokens begin
the lenient one's; and where it got to its end, or stopped at a failed source, the lenient
recognition is the same. -/
theorem trace (h : rec.Prolongs rec') :
    rec.trace.events <+: rec'.trace.events ∧ rec.trace.terminals <+: rec'.trace.terminals ∧
      (rec.succeeded = true → rec' = rec) ∧
      ∀ e t, rec.halt? = some (.unreadable e t) → rec' = rec := by
  have hev : rec.trace.events <+: rec'.trace.events := h.prefix_events
  refine ⟨hev, hev.filterMap _, fun hs => ?_, fun e t hh => ?_⟩
  · -- a recognition that got to its end did not stop at a mismatch
    rcases h with heq | ⟨⟨t, x, hout⟩, -⟩
    · exact heq
    · simp [succeeded, hout] at hs
  · rcases h with heq | ⟨⟨t', x, hout⟩, -⟩
    · exact heq
    · simp [halt?, hout] at hh

end Prolongs

/-- What a program does after its statement part: accept an end of file and pull once more, or stop
expecting one. -/
def endProgram (r : Recognition) : Recognition :=
  match r.outcome with
  | .error h => ⟨r.events, .error h⟩
  | .ok d =>
    if d.lookahead.kind = .endOfFile then
      match d.source.pull with
      | .error e => ⟨r.events ++ [.terminal d.lookahead], .error (.unreadable e d.lookahead)⟩
      | .ok (t, s') => ⟨r.events ++ [.terminal d.lookahead], .ok ⟨t, s'⟩⟩
    else ⟨r.events, .error (.mismatch d.lookahead (.kind .endOfFile))⟩

theorem program_eq_endProgram (o : Options) (s : TokenSource) :
    program o s =
      (Cursor.start s).map fun c => (recognize o .statementPart c).recognition.endProgram :=
  rfl

theorem events_prefix_endProgram (r : Recognition) : r.events <+: r.endProgram.events := by
  unfold endProgram
  split
  · exact List.prefix_refl _
  · split
    · split
      · exact List.prefix_append _ _
      · exact List.prefix_append _ _
    · exact List.prefix_refl _

/-- The end of a program keeps a recognition carrying on from another: a mismatch of the statement
part passes through, and the end only adds events. -/
theorem Prolongs.endProgram {rec rec' : Recognition} (h : rec.Prolongs rec') :
    rec.endProgram.Prolongs rec'.endProgram := by
  rcases h with rfl | ⟨⟨t, x, hout⟩, hpre⟩
  · exact Prolongs.refl _
  · have hend : rec.endProgram = rec := by
      obtain ⟨es, out⟩ := rec
      simp only at hout
      subst hout
      rfl
    rw [hend]
    exact .inr ⟨⟨t, x, hout⟩, hpre.trans (events_prefix_endProgram rec')⟩

/-- Two recognitions made from the same start, one carrying on from the other wherever the start
hands out a cursor: they fail alike at the start, and otherwise the second carries on from the
first. -/
theorem map_prolongs (start : Except Diagnostic Cursor) {f f' : Cursor → Recognition}
    (h : ∀ c, (f c).Prolongs (f' c)) :
    (∀ d, start.map f = .error d ↔ start.map f' = .error d) ∧
      ∀ rec, start.map f = .ok rec →
        ∃ rec', start.map f' = .ok rec' ∧ rec.Prolongs rec' := by
  cases start with
  | error d => simp [Except.map]
  | ok c =>
    refine ⟨fun d => by simp [Except.map], fun rec hrec => ⟨f' c, rfl, ?_⟩⟩
    simp only [Except.map, Except.ok.injEq] at hrec
    exact hrec ▸ h c

end Recognition

/-! ## Runs that carry on -/

namespace Run

variable {c : Cursor}

/-- The run `r'` carries on from the run `r`. -/
def Prolongs (r r' : Run c) : Prop := r.recognition.Prolongs r'.recognition

/-- A run is its recognition: the bound on its end cursor is a proof. -/
theorem eq_of_recognition_eq {r r' : Run c} (h : r.recognition = r'.recognition) : r = r' := by
  obtain ⟨es, out⟩ := r
  obtain ⟨es', out'⟩ := r'
  simp only [recognition, Recognition.mk.injEq] at h
  obtain ⟨rfl, hout⟩ := h
  cases out <;> cases out' <;> simp_all [Except.map, Subtype.ext_iff]

/-- A run that stopped at a mismatch is the recognition of its events and that mismatch. -/
theorem recognition_of_mismatched {r : Run c} {t : Token} {x : Expected}
    (h : r.recognition.outcome = .error (.mismatch t x)) :
    r.recognition = ⟨r.events, .error (.mismatch t x)⟩ := by
  rw [← h]
  rfl

theorem cons_prefix_events_within (x : Rule) (b : Run c) :
    .enter x :: b.events <+: (within x b).events := by
  obtain ⟨es, (h | e)⟩ := b
  · exact List.prefix_refl _
  · exact List.prefix_append _ _

theorem prefix_events_bind (r : Run c) (k : (d : Cursor) → d.weight ≤ c.weight → Run d) :
    r.events <+: (r.bind k).events := by
  obtain ⟨es, (h | ⟨d, hd⟩)⟩ := r
  · exact List.prefix_refl _
  · exact List.prefix_append _ _

namespace Prolongs

theorem done : (Run.done c).Prolongs (Run.done c) := Recognition.Prolongs.refl _

theorem within (x : Rule) {b b' : Run c} (h : b.Prolongs b') :
    (Run.within x b).Prolongs (Run.within x b') := by
  rcases h with heq | ⟨⟨t, y, hout⟩, hpre⟩
  · rw [eq_of_recognition_eq heq]
    exact Recognition.Prolongs.refl _
  -- the strict body stopped at a mismatch, and so does the strict rule, its entry before it
  have hw := recognition_within_error (x := x) (recognition_of_mismatched hout)
  refine .inr ⟨⟨t, y, by rw [hw]⟩, ?_⟩
  rw [hw]
  exact (List.cons_prefix_cons.2 ⟨rfl, hpre⟩).trans (cons_prefix_events_within x b')

theorem acceptThen {k : TokenKind} {hk : k ≠ .endOfFile}
    {next next' : (d : Cursor) → d.weight < c.weight → Run d}
    (h : ∀ t s hd, (next ⟨t, s⟩ hd).Prolongs (next' ⟨t, s⟩ hd)) :
    (Run.acceptThen k hk c next).Prolongs (Run.acceptThen k hk c next') := by
  unfold Prolongs
  by_cases hkind : c.lookahead.kind = k
  · cases hp : c.source.pull with
    | error e =>
      rw [recognition_acceptThen_of_error hkind hp, recognition_acceptThen_of_error hkind hp]
      exact Recognition.Prolongs.refl _
    | ok p =>
      obtain ⟨t, s⟩ := p
      rw [recognition_acceptThen_of_pull hkind hp, recognition_acceptThen_of_pull hkind hp]
      exact (h t s _).prepend _
  · rw [recognition_acceptThen_of_ne hkind, recognition_acceptThen_of_ne hkind]
    exact Recognition.Prolongs.refl _

theorem bind {r r' : Run c} {k k' : (d : Cursor) → d.weight ≤ c.weight → Run d}
    (h : r.Prolongs r') (hk : ∀ d hd, (k d hd).Prolongs (k' d hd)) :
    (r.bind k).Prolongs (r'.bind k') := by
  rcases h with heq | ⟨⟨t, y, hout⟩, hpre⟩
  · rw [eq_of_recognition_eq heq]
    unfold Prolongs
    -- the same first run: it stops for both, or both go on from where it ended
    cases hr : r.recognition with
    | mk es out =>
      cases out with
      | error e =>
        rw [recognition_bind_error hr, recognition_bind_error hr]
        exact Recognition.Prolongs.refl _
      | ok d =>
        rw [recognition_bind_ok hr, recognition_bind_ok hr]
        exact (hk d _).prepend es
  · have hb := recognition_bind_error (k := k) (recognition_of_mismatched hout)
    refine .inr ⟨⟨t, y, by rw [hb]⟩, ?_⟩
    rw [hb]
    exact hpre.trans (prefix_events_bind r' k')

/-- Where the strict choice finds no alternative it stops at once, with no events. -/
theorem choose {shape : Shape} {ks : List TokenKind} {hks : TokenKind.endOfFile ∉ ks}
    {pick pick' : (k : TokenKind) → k ≠ .endOfFile → Run c} {otherwise otherwise' : Run c}
    (hpick : ∀ k hk, (pick k hk).Prolongs (pick' k hk)) :
    (Run.choose ⟨shape, true⟩ ks hks c pick otherwise).Prolongs
      (Run.choose ⟨shape, false⟩ ks hks c pick' otherwise') := by
  by_cases hmem : c.lookahead.kind ∈ ks
  · rw [choose_of_mem hmem, choose_of_mem hmem]
    exact hpick _ _
  · rw [choose_of_not_mem hmem, choose_of_not_mem hmem]
    exact .inr ⟨⟨_, _, rfl⟩, List.nil_prefix⟩

end Prolongs

end Run

/-- Every step keeps the lenient run carrying on from the strict one. -/
theorem prolongs_kept (shape : Shape) :
    Run.Kept ⟨shape, true⟩ ⟨shape, false⟩ Run.Prolongs :=
  ⟨fun _ => Run.Prolongs.done, fun x _ _ h => Run.Prolongs.within x h,
    fun _ _ _ _ h => Run.Prolongs.acceptThen h, fun h hk => Run.Prolongs.bind h hk,
    fun _ _ _ _ _ _ hpick _ => Run.Prolongs.choose hpick⟩

/-- **The lenient recognition of a rule carries on from the strict one**, from every cursor and in
either shape. -/
theorem recognize_prolongs (shape : Shape) (r : Rule) (c : Cursor) :
    (recognize ⟨shape, true⟩ r c).Prolongs (recognize ⟨shape, false⟩ r c) :=
  ((prolongs_kept shape).recognize rfl).1 r c

/-- **Lenient recognition only carries on from strict recognition.** For a program, or a single
rule, over any source and in either shape: the two fail alike where the source hands out no first
token; otherwise the lenient recognition's events and accepted tokens begin with the strict one's,
so a lenient recognition that stops at a mismatch does so after at least as many tokens as the
strict one; and where the strict recognition got to its end, or stopped at a failed source, the
lenient one is the same. -/
theorem lenient_extends_strict (shape : Shape) (s : TokenSource) :
    ((∀ d, Recognition.program ⟨shape, true⟩ s = .error d ↔
        Recognition.program ⟨shape, false⟩ s = .error d) ∧
      ∀ rec, Recognition.program ⟨shape, true⟩ s = .ok rec →
        ∃ rec', Recognition.program ⟨shape, false⟩ s = .ok rec' ∧
          rec.trace.events <+: rec'.trace.events ∧ rec.trace.terminals <+: rec'.trace.terminals ∧
          (rec.succeeded = true → rec' = rec) ∧
          ∀ e t, rec.halt? = some (.unreadable e t) → rec' = rec) ∧
    ∀ r, (∀ d, Recognition.single ⟨shape, true⟩ r s = .error d ↔
        Recognition.single ⟨shape, false⟩ r s = .error d) ∧
      ∀ rec, Recognition.single ⟨shape, true⟩ r s = .ok rec →
        ∃ rec', Recognition.single ⟨shape, false⟩ r s = .ok rec' ∧
          rec.trace.events <+: rec'.trace.events ∧ rec.trace.terminals <+: rec'.trace.terminals ∧
          (rec.succeeded = true → rec' = rec) ∧
          ∀ e t, rec.halt? = some (.unreadable e t) → rec' = rec := by
  rw [Recognition.program_eq_endProgram, Recognition.program_eq_endProgram]
  -- a program ends the recognition of its statement part, which carries on from the strict one
  have hprog := Recognition.map_prolongs (Cursor.start s)
    fun c => (recognize_prolongs shape .statementPart c).endProgram
  refine ⟨⟨hprog.1, fun rec h => ?_⟩, fun r => ?_⟩
  · obtain ⟨rec', h', hp⟩ := hprog.2 rec h
    exact ⟨rec', h', hp.trace⟩
  · have hsingle := Recognition.map_prolongs (Cursor.start s) (recognize_prolongs shape r)
    refine ⟨hsingle.1, fun rec h => ?_⟩
    obtain ⟨rec', h', hp⟩ := hsingle.2 rec h
    exact ⟨rec', h', hp.trace⟩

end SyntaxCheck
