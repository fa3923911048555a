/-
# Tokens

A source falls into markers and the runs of text between them. It is read from
the left: where a marker starts it is taken whole, and every other character
joins the run of text it stands in. Writing the tokens out gives the source
back, so a token needs no position of its own; `located` finds the byte range
of each by adding up lengths.

Key definitions: `Token`, `tokenize`, `Token.writeAll`, `Token.located`.
Key theorem: `Token.writeAll_tokenize`.
-/
import FieldSelection.Markers

namespace FieldSelection

/-- A marker, or a run of characters at which no marker starts. -/
inductive Token where
  | mark (k : Mark)
  | text (s : Text)
  deriving DecidableEq, Repr

/-- The mark whose marker starts the text, if one does. -/
def Markers.markAt? (m : Markers) (s : Text) : Option Mark :=
  Mark.all.find? fun k => (m.text k).isPrefixOf s

namespace Token

variable (m : Markers)

/-- Whether a prefix may start right after the token. -/
def isBoundary : Token → Bool
  | mark .opener | mark .delimiter => true
  | mark .closer | text _ => false

/-- Whether the token opens or closes a group. -/
def isBracket : Token → Bool
  | mark .opener | mark .closer => true
  | mark .delimiter | text _ => false

/-- The text of a token. -/
def write : Token → Text
  | mark k => m.text k
  | text s => s

/-- The text of a list of tokens. -/
def writeAll (ts : List Token) : Text := ts.flatMap (write m)

@[simp] theorem writeAll_nil : writeAll m [] = [] := rfl

@[simp] theorem writeAll_cons (t : Token) (ts : List Token) :
    writeAll m (t :: ts) = t.write m ++ writeAll m ts := rfl

@[simp] theorem writeAll_append (ts us : List Token) :
    writeAll m (ts ++ us) = writeAll m ts ++ writeAll m us := by
  simp [writeAll]

/-- A character put in front of a list of tokens: it joins a run of text that
stands there, or starts one. -/
def consChar (c : Char) : List Token → List Token
  | text s :: ts => text (c :: s) :: ts
  | ts => text [c] :: ts

@[simp] theorem writeAll_consChar (c : Char) (ts : List Token) :
    writeAll m (consChar c ts) = c :: writeAll m ts := by
  cases ts with
  | nil => rfl
  | cons t ts => cases t <;> rfl

/-- The tokens of a source, once `skip` characters that belong to the last
marker are passed over. -/
def tokenizeFrom : Nat → Text → List Token
  | _, [] => []
  | skip + 1, _ :: s => tokenizeFrom skip s
  | 0, c :: s =>
    match m.markAt? (c :: s) with
    | some k => mark k :: tokenizeFrom ((m.text k).length - 1) s
    | none => consChar c (tokenizeFrom 0 s)

theorem tokenizeFrom_eq_drop : ∀ (skip : Nat) (s : Text),
    tokenizeFrom m skip s = tokenizeFrom m 0 (s.drop skip)
  | 0, _ => rfl
  | skip + 1, [] => by simp [tokenizeFrom]
  | skip + 1, c :: s => by
    rw [tokenizeFrom, tokenizeFrom_eq_drop skip s, List.drop_succ_cons]

/-- Each token with its byte range, the first one starting at `start`. -/
def located : Nat → List Token → List (Token × Span)
  | _, [] => []
  | start, t :: ts =>
    let stop := start + (t.write m).byteLength
    (t, ⟨start, stop⟩) :: located stop ts

end Token

/-- The tokens of a source. -/
def tokenize (m : Markers) (s : Text) : List Token := Token.tokenizeFrom m 0 s

namespace Token

variable {m : Markers}

theorem writeAll_tokenize (s : Text) : writeAll m (tokenize m s) = s := by
  suffices h : ∀ (n : Nat) (s : Text), s.length ≤ n → writeAll m (tokenizeFrom m 0 s) = s from
    h s.length s (Nat.le_refl _)
  intro n
  induction n with
  | zero => intro s h; simp_all [tokenizeFrom]
  | succ n ih =>
    intro s h
    cases s with
    | nil => rfl
    | cons c s =>
      simp only [List.length_cons, Nat.add_le_add_iff_right] at h
      rw [tokenizeFrom]
      split
      · rename_i k hk
        have hp : m.text k <+: c :: s := by
          simpa using List.find?_some hk
        obtain ⟨rest, hrest⟩ := hp
        cases hm : m.text k with
        | nil => exact absurd hm (m.ne_nil k)
        | cons d marker =>
          simp only [hm, List.cons_append, List.cons.injEq] at hrest
          obtain ⟨rfl, rfl⟩ := hrest
          rw [tokenizeFrom_eq_drop]
          simp only [writeAll_cons, write, hm, List.length_cons, Nat.add_sub_cancel,
            List.drop_left, List.cons_append, List.cons.injEq, List.append_cancel_left_eq, true_and]
          exact ih rest (by simp at h; omega)
      · rw [writeAll_consChar, ih s h]

end Token
end FieldSelection
