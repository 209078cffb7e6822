import SyntaxCheck.Token.Source
import SyntaxCheck.Grammar.Event

/-!
# Runs of the recogniser

The recogniser reads with one token of lookahead. A cursor is that lookahead and the source of
the tokens after it. A run from a cursor reports its events and ends either at a later cursor
or in a halt: a mismatch between the lookahead and what the grammar expects there, or a source
that failed while the next token was pulled.

The weight of a cursor counts the tokens that can still be accepted: the pending tokens, and the
lookahead unless it is an end of file. Accepting a token that is not an end of file makes the
weight drop (`weight_lt_of_pull`), and a run never ends at a heavier cursor than it started
from; the cursor a run ends at carries that bound, so that the recogniser can recurse on it.

Everything that a recognition can do to the position in the input goes through two steps:
`acceptThen`, which accepts the lookahead if it has the expected kind, and `choose`, which picks
an alternative by the kind of the lookahead.
-/

namespace SyntaxCheck

/-- How list rules report their repetitions. -/
inductive Shape where
  /-- One bracket around the whole list. -/
  | flat
  /-- After each separator the list rule is entered again, so the brackets nest to the right. -/
  | nested
  deriving DecidableEq, Repr

/-- How the recogniser behaves at its two points of freedom. -/
structure Options where
  shape : Shape := .flat
  /-- Whether a choice that no alternative matches is a mismatch (strict) or recognises nothing,
  leaving the mismatch to the next token that must be accepted (lenient). -/
  strict : Bool := true
  deriving DecidableEq, Repr

/-- The lookahead token and the source of the tokens after it. -/
structure Cursor where
  lookahead : Token
  source : TokenSource

namespace Cursor

/-- The tokens that can still be accepted from a cursor. -/
def weight (c : Cursor) : Nat := c.source.pending.length + TokenSource.lookaheadWeight c.lookahead

/-- The cursor at the first token of a source. -/
def start (s : TokenSource) : Except Diagnostic Cursor :=
  s.pull.map fun (t, s') => ⟨t, s'⟩

/-- Pulling the token after a lookahead that is not an end of file lowers the weight. -/
theorem weight_lt_of_pull {c : Cursor} {t : Token} {s : TokenSource}
    (hk : c.lookahead.kind ≠ .endOfFile) (h : c.source.pull = .ok (t, s)) :
    Cursor.weight ⟨t, s⟩ < c.weight := by
  have := TokenSource.weight_pull_le h
  simp only [weight, TokenSource.lookaheadWeight, hk, if_false] at *
  omega

end Cursor

/-- What the grammar expected where a mismatch happened. -/
inductive Expected where
  | kind (k : TokenKind)
  | oneOf (ks : List TokenKind)
  deriving DecidableEq, Repr

namespace Expected

/-- A kind in single quotes; a list of kinds as `one of` followed by the quoted kinds. -/
def describe : Expected → String
  | kind k => "'" ++ k.name ++ "'"
  | oneOf ks => "one of " ++ ", ".intercalate (ks.map fun k => "'" ++ k.name ++ "'")

end Expected

/-- Why a run stopped before the end of its rule. -/
inductive Halt where
  /-- The lookahead `found` is not what the grammar expected. -/
  | mismatch (found : Token) (expected : Expected)
  /-- The source failed on the pull after `last` was accepted. -/
  | unreadable (d : Diagnostic) (last : Token)
  deriving DecidableEq, Repr

namespace Halt

/-- The text of a mismatch: where it happened, what was expected and what was found. -/
def mismatchMessage (found : Token) (expected : Expected) : String :=
  "[File: " ++ found.pos.file ++ " - Line " ++ toString found.line ++ "] - Expected: " ++
    expected.describe ++ " but got: " ++ found.display

/-- The diagnostic a halt is reported as. -/
def diagnostic : Halt → Diagnostic
  | mismatch t e => .unexpected t (mismatchMessage t e)
  | unreadable d _ => d

/-- The lookahead when the run stopped: the mismatched token, or the last token accepted. -/
def lookahead : Halt → Token
  | mismatch t _ => t
  | unreadable _ t => t

/-- The message a syntax error hands to whoever listens to the events; a failed source is no
syntax error and reports none. -/
def reported : Halt → Option String
  | mismatch t e => some (mismatchMessage t e)
  | unreadable _ _ => none

end Halt

/-- The events of a run from `c`, and where it ended: a halt, or a cursor no heavier than `c`. -/
structure Run (c : Cursor) where
  events : List Event
  outcome : Except Halt { d : Cursor // d.weight ≤ c.weight }

namespace Run

/-- The run that does nothing. -/
def done (c : Cursor) : Run c := ⟨[], .ok ⟨c, Nat.le_refl _⟩⟩

/-- The run that stops at once. -/
def halt {c : Cursor} (h : Halt) : Run c := ⟨[], .error h⟩

/-- Forget that the end cursor of a run from `d` is bounded by `d`, keeping a bound by a
heavier `c`. -/
def weaken {c d : Cursor} (r : Run d) (h : d.weight ≤ c.weight) : Run c :=
  ⟨r.events, r.outcome.map fun e => ⟨e.1, Nat.le_trans e.2 h⟩⟩

/-- Run `r`, then, from where it ended, the run that `k` gives. -/
def bind {c : Cursor} (r : Run c) (k : (d : Cursor) → d.weight ≤ c.weight → Run d) : Run c :=
  match r.outcome with
  | .error h => ⟨r.events, .error h⟩
  | .ok ⟨d, hd⟩ =>
    let s := (k d hd).weaken hd
    ⟨r.events ++ s.events, s.outcome⟩

/-- A run of the rule `r`: its entry, the body, and its exit if the body got to its end. -/
def within {c : Cursor} (r : Rule) (body : Run c) : Run c :=
  match body.outcome with
  | .ok e => ⟨.enter r :: body.events ++ [.exit r], .ok e⟩
  | .error h => ⟨.enter r :: body.events, .error h⟩

/-- Accept the lookahead if it is of kind `k`, and continue with `next` from the token after it.
Any other lookahead is a mismatch. -/
def acceptThen (k : TokenKind) (hk : k ≠ .endOfFile) (c : Cursor)
    (next : (d : Cursor) → d.weight < c.weight → Run d) : Run c :=
  if hkind : c.lookahead.kind = k then
    match hp : c.source.pull with
    | .error e => ⟨[.terminal c.lookahead], .error (.unreadable e c.lookahead)⟩
    | .ok (t, s) =>
      have hd : Cursor.weight ⟨t, s⟩ < c.weight := Cursor.weight_lt_of_pull (hkind ▸ hk) hp
      let r := (next ⟨t, s⟩ hd).weaken (Nat.le_of_lt hd)
      ⟨.terminal c.lookahead :: r.events, r.outcome⟩
  else halt (.mismatch c.lookahead (.kind k))

/-- Pick the alternative that starts with the kind of the lookahead, among the kinds `ks`. When
none does, a strict choice is a mismatch that lists `ks`, and a lenient one runs `otherwise`. -/
def choose (o : Options) (ks : List TokenKind) (hks : TokenKind.endOfFile ∉ ks) (c : Cursor)
    (pick : (k : TokenKind) → k ≠ .endOfFile → Run c) (otherwise : Run c) : Run c :=
  if h : c.lookahead.kind ∈ ks then
    pick c.lookahead.kind (fun he => hks (he ▸ h))
  else if o.strict then halt (.mismatch c.lookahead (.oneOf ks))
  else otherwise

end Run

end SyntaxCheck
