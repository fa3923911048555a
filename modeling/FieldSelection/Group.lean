/-
# Groups that can be spread

A group is a list of alternatives between an opener and a closer. To spread it
is to write each alternative out with the text before the group and what comes
after it, up to the next delimiter, closer or opener that is never closed. It can
be spread now if it holds no group itself, if it stands at the front of the source
or right after an opener or a delimiter, with at most one run of text between, and
if nothing to its right nests.

`pieces` cuts a token list from the left into such groups and the tokens
between them; a search goes on behind a group once one is found.

Key definitions: `Group`, `Group.atFront?`, `Group.alternatives`,
`Group.spread`, `Piece`, `pieces`, `Piece.locatedGroups`.
-/
import FieldSelection.Group.Nesting

namespace FieldSelection

/-- A group that can be spread: the text before it, the tokens between its
markers, and the tokens after it that go with it. -/
structure Group where
  lead : Option Text
  content : List Token
  trail : List Token
  deriving DecidableEq, Repr

namespace Group

/-- What goes with a group after its closer: text, and stretches from an opener
to the first closer after it. `inside` says whether such a stretch is open. -/
def trailFrom : (inside : Bool) → List Token → List Token
  | _, [] => []
  | false, .text s :: ts => .text s :: trailFrom false ts
  | false, .mark .opener :: ts =>
    if .mark .closer ∈ ts then .mark .opener :: trailFrom true ts else []
  | false, .mark .closer :: _ | false, .mark .delimiter :: _ => []
  | true, .mark .closer :: ts => .mark .closer :: trailFrom false ts
  | true, t :: ts => t :: trailFrom true ts

/-- The group whose opener has just been read, if it holds no bracket and
nothing nests behind its closer. `nested` says for each position of the tokens
whether something nests from there on. -/
def ofOpened? (lead : Option Text) (ts : List Token) (nested : List Bool) : Option Group :=
  let content := ts.takeWhile (!·.isBracket)
  match ts.dropWhile (!·.isBracket) with
  | .mark .closer :: rest =>
    if nested.getD (content.length + 1) false then none
    else some { lead := lead, content := content, trail := trailFrom false rest }
  | _ => none

/-- The group that starts with the first token, if one does. `nested` says for
each position of the tokens whether something nests from there on. -/
def atFront? : List Token → (nested : List Bool) → Option Group
  | .text s :: .mark .opener :: ts, nested => ofOpened? (some s) ts (nested.drop 2)
  | .mark .opener :: ts, nested => ofOpened? none ts (nested.drop 1)
  | _, _ => none

/-- The tokens of a group and of what goes with it. -/
def tokens (g : Group) : List Token :=
  (g.lead.map Token.text).toList
    ++ .mark .opener :: g.content ++ .mark .closer :: g.trail

variable (m : Markers)

/-- The text before a group. -/
def leadText (g : Group) : Text := g.lead.getD []

/-- The text between the markers of a group. -/
def contentText (g : Group) : Text := Token.writeAll m g.content

/-- The text after a group that goes with it. -/
def trailText (g : Group) : Text := Token.writeAll m g.trail

/-- The alternatives of a group. An empty group has one, the empty text. -/
def alternatives (g : Group) : List Text :=
  Text.splitOn (m.text .delimiter) (g.contentText m)

/-- The group spread: each alternative with the text before and after the group. -/
def spread (g : Group) : Text :=
  Text.joinWith (m.text .delimiter)
    ((g.alternatives m).map fun a => g.leadText ++ a ++ g.trailText m)

end Group

/-- A part of a token list: a group that can be spread, or a token that
belongs to none. -/
inductive Piece where
  | token (t : Token)
  | group (g : Group)
  deriving DecidableEq, Repr

namespace Piece

/-- The tokens of a piece. -/
def tokens : Piece → List Token
  | token t => [t]
  | group g => g.tokens

/-- The group that a piece is, if it is one. -/
def group? : Piece → Option Group
  | token _ => none
  | group g => some g

variable (m : Markers)

/-- The text of a piece after a pass. -/
def spread : Piece → Text
  | token t => t.write m
  | group g => g.spread m

/-- The groups among the pieces with the bytes they take, the first piece
starting at `start`. -/
def locatedGroups : Nat → List Piece → List (Group × Span)
  | _, [] => []
  | start, p :: ps =>
    let stop := start + (Token.writeAll m p.tokens).byteLength
    (p.group?.map (·, ⟨start, stop⟩)).toList ++ locatedGroups stop ps

end Piece

/-- The pieces of a token list once `skip` tokens of the last group are passed
over. `boundary` says whether a group may start at the first token, and `nested`
for each position whether something nests from there on. -/
def piecesFrom : (skip : Nat) → (boundary : Bool) → List Token → (nested : List Bool) → List Piece
  | _, _, [], _ => []
  | skip + 1, _, t :: ts, nested => piecesFrom skip t.isBoundary ts nested.tail
  | 0, boundary, t :: ts, nested =>
    match if boundary then Group.atFront? (t :: ts) nested else none with
    | some g => .group g :: piecesFrom (g.tokens.length - 1) t.isBoundary ts nested.tail
    | none => .token t :: piecesFrom 0 t.isBoundary ts nested.tail

/-- The tokens cut into the groups that can be spread and what is between them. -/
def pieces (ts : List Token) : List Piece := piecesFrom 0 true ts (nestingAhead ts)

/-- The groups of a source that can be spread in one pass, from left to
right, with the bytes they take. -/
def scan (m : Markers) (s : Text) : List (Group × Span) :=
  Piece.locatedGroups m 0 (pieces (tokenize m s))

end FieldSelection
