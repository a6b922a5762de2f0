import TaggedGraph.Tag.Uri
import TaggedGraph.Text.Offset

namespace TaggedGraph

/-- A `*` stands for any text without `/`, and a `**` for any text at all. -/
inductive Piece
  | literal (text : List Char)
  | segment
  | any
deriving DecidableEq

namespace Piece

/-- A literal piece takes up a character before it. -/
def prepend (c : Char) : List Piece → List Piece
  | literal text :: ps => literal (c :: text) :: ps
  | ps => literal [c] :: ps

def isLiteral : Piece → Bool
  | literal _ => true
  | _ => false

def source : Piece → List Char
  | literal text => text
  | segment => ['*']
  | any => ['*', '*']

/-- The texts a single piece stands for. -/
def Covers : Piece → List Char → Prop
  | literal text, s => s = text
  | segment, s => '/' ∉ s
  | any, _ => True

/-- The texts that split into consecutive parts, one for each piece. -/
def CoverAll : List Piece → List Char → Prop
  | [], s => s = []
  | p :: ps, s => ∃ part rest, s = part ++ rest ∧ p.Covers part ∧ CoverAll ps rest

end Piece

structure TagPattern where
  source : String
  pieces : List Piece
deriving DecidableEq

namespace TagPattern

/-- Reads the pieces of a pattern. A wildcard is allowed once `named` holds, that is after a colon
or after another wildcard. -/
def readPieces : (named : Bool) → List Char → Except PatternFault (List Piece)
  | _, [] => .ok []
  | _, '*' :: '*' :: '*' :: _ => .error .longStar
  | named, '*' :: '*' :: r =>
    if named then (Piece.any :: ·) <$> readPieces true r else .error .wildcardBeforeNamespace
  | named, '*' :: r =>
    if named then (Piece.segment :: ·) <$> readPieces true r else .error .wildcardBeforeNamespace
  | named, c :: r => Piece.prepend c <$> readPieces (named || c == ':') r

def parse (source : String) : Except TagError TagPattern :=
  let refuse fault := .error (.malformedPattern source fault)
  if source = "" then refuse .empty
  else if !Text.allSolid source then refuse .forbiddenCharacter
  else match readPieces false source.toList with
    | .ok pieces => .ok ⟨source, pieces⟩
    | .error fault => refuse fault

def isLiteral (p : TagPattern) : Bool :=
  p.pieces.all Piece.isLiteral

/-- For every byte offset of a text, whether the pieces seen so far can end there. -/
abbrev Marks := Array Bool

namespace Marks

def blank (s : List Char) : Marks :=
  Array.replicate (Text.byteSize s + 1) false

/-- Marks an offset or takes its mark away, none if the text has no such offset. -/
def put? (m : Marks) (i : Nat) (reached : Bool) : Option Marks :=
  if h : i < m.size then some (m.set i reached) else none

def offsets (m : Marks) : List Nat :=
  (List.range m.size).filter fun i => m[i]? == some true

end Marks

/-- Marks the end of the literal that begins at `i`, if it stands there. -/
def literalEnd (text s : List Char) (next : Marks) (i : Nat) : Option Marks :=
  if (Text.tail? s i).any text.isPrefixOf then next.put? (i + Text.byteSize text) true
  else some next

def literalEnds (text s : List Char) (marks : Marks) : Option Marks :=
  marks.offsets.foldlM (literalEnd text s) (Marks.blank s)

/-- Marks all that a wildcard reaches from the offset `i` on, where `rest` stands. `isOpen` holds
when the wildcard reaches `i` from an earlier mark. -/
def wildcardEnds (crossesSlash : Bool) (marks : Marks) :
    (isOpen : Bool) → (i : Nat) → (rest : List Char) → (next : Marks) → Option Marks
  | isOpen, i, [], next => do
    next.put? i (isOpen || (← marks[i]?))
  | isOpen, i, c :: rest, next => do
    let reached := isOpen || (← marks[i]?)
    let next ← next.put? i reached
    wildcardEnds crossesSlash marks (reached && (crossesSlash || c != '/')) (i + c.utf8Size)
      rest next

def pieceEnds (s : List Char) (marks : Marks) : Piece → Option Marks
  | .literal text => literalEnds text s marks
  | .segment => wildcardEnds false marks false 0 s (Marks.blank s)
  | .any => wildcardEnds true marks false 0 s (Marks.blank s)

/-- Stops as soon as no offset is marked. -/
def matchFrom (s : List Char) : List Piece → Marks → Option Bool
  | [], marks => marks[Text.byteSize s]?
  | p :: ps, marks => do
    let next ← pieceEnds s marks p
    if next.toList.contains true then matchFrom s ps next else some false

/-- Matches piece by piece, with a mark on every offset the pieces seen so far can end at. None
stands for an access outside of the marks. -/
def matchPieces (pieces : List Piece) (s : List Char) : Option Bool := do
  matchFrom s pieces (← (Marks.blank s).put? 0 true)

/-- A pattern without wildcards is compared as a whole. -/
def accepts (p : TagPattern) (u : TagUri) : Bool :=
  if p.isLiteral then p.source == u.text
  else (matchPieces p.pieces u.text.toList).getD false

end TagPattern

end TaggedGraph
