import SyntaxCheck.Token.Scan

/-!
# Token sources

A token source hands out tokens one pull at a time: first the tokens still pending, then what its
tail says. A source over a finished token list ends in an end-of-file token that every further
pull hands out again; an end-of-file token taken from the pending list becomes that repeated
token. A broken source fails with the same diagnostic on every pull once its pending tokens are
used up.

Pulling never lengthens the pending list, and pulls from an exhausted source hand out only
end-of-file tokens or fail: `weight_pull_le` is the resulting bound that the recogniser relies on
to terminate.
-/

namespace SyntaxCheck

/-- What a token source yields once its pending tokens are used up. -/
inductive Tail where
  /-- The end-of-file token with this spelling and position, again and again. -/
  | ends (value : String) (pos : Position)
  /-- This diagnostic, on every pull. -/
  | breaks (d : Diagnostic)
  deriving DecidableEq, Repr

/-- The tail after handing out `t`: an end-of-file token replaces the repeated one. -/
def Tail.after (tail : Tail) (t : Token) : Tail :=
  match tail with
  | .ends _ _ => if t.kind = .endOfFile then .ends t.value t.pos else tail
  | .breaks d => .breaks d

/-- A token source: the tokens not yet handed out, then the tail. -/
structure TokenSource where
  pending : List Token
  tail : Tail
  deriving DecidableEq, Repr

namespace TokenSource

/-- A source over a token list. Its repeated end of file takes the position of the last token,
or the null position when there is none. -/
def ofTokens (ts : List Token) : TokenSource :=
  ⟨ts, .ends "" ((ts.getLast?.map Token.pos).getD Position.null)⟩

/-- A source that yields `ts` and then fails with `d`. -/
def failing (ts : List Token) (d : Diagnostic) : TokenSource := ⟨ts, .breaks d⟩

/-- A source over the tokens of a text named `file`. -/
def ofText (source : String) (file : Option String) : Except Diagnostic TokenSource :=
  (tokenize source file).map ofTokens

/-- The number of tokens not yet handed out. -/
def remaining (s : TokenSource) : Nat := s.pending.length

/-- Hand out the next token. -/
def pull (s : TokenSource) : Except Diagnostic (Token × TokenSource) :=
  match s.pending, s.tail with
  | t :: ts, tail => .ok (t, ⟨ts, tail.after t⟩)
  | [], .ends v p => .ok (⟨.endOfFile, v, p⟩, s)
  | [], .breaks d => .error d

@[simp] theorem pull_cons (t : Token) (ts : List Token) (tail : Tail) :
    pull ⟨t :: ts, tail⟩ = .ok (t, ⟨ts, tail.after t⟩) := rfl

@[simp] theorem pull_ends (v : String) (p : Position) :
    pull ⟨[], .ends v p⟩ = .ok (⟨.endOfFile, v, p⟩, ⟨[], .ends v p⟩) := rfl

@[simp] theorem pull_breaks (d : Diagnostic) : pull ⟨[], .breaks d⟩ = .error d := rfl

/-- How much a lookahead token adds to the work left: an end of file adds nothing. -/
def lookaheadWeight (t : Token) : Nat := if t.kind = .endOfFile then 0 else 1

/-- A pull hands out a token and a source that together weigh no more than the pending tokens
before it. -/
theorem weight_pull_le {s s' : TokenSource} {t : Token} (h : s.pull = .ok (t, s')) :
    s'.pending.length + lookaheadWeight t ≤ s.pending.length := by
  obtain ⟨pending, tail⟩ := s
  cases pending with
  | cons u us =>
    simp only [pull, Except.ok.injEq, Prod.mk.injEq] at h
    obtain ⟨rfl, rfl⟩ := h
    simp only [List.length_cons, lookaheadWeight]
    split <;> omega
  | nil =>
    cases tail with
    | ends v p =>
      simp only [pull, Except.ok.injEq, Prod.mk.injEq] at h
      obtain ⟨rfl, rfl⟩ := h
      simp [lookaheadWeight]
    | breaks d => simp [pull] at h

end TokenSource

end SyntaxCheck
