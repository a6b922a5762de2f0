import TaggedGraph.Tag.Version
import TaggedGraph.Text.Blank

namespace TaggedGraph

inductive PatternFault
  | empty
  | forbiddenCharacter
  | longStar
  | wildcardBeforeNamespace
deriving DecidableEq

def PatternFault.reason : PatternFault → String
  | empty => "pattern is empty"
  | forbiddenCharacter => "pattern contains whitespace or control characters"
  | longStar => "more than two consecutive '*'"
  | wildcardBeforeNamespace => "wildcard appears before the namespace"

inductive TagError
  | empty
  | invalidCharacter (text : String)
  | malformedPattern (pattern : String) (fault : PatternFault)
deriving DecidableEq

def TagError.message : TagError → String
  | empty => "tag URI must not be empty"
  | invalidCharacter text =>
    "tag URI '" ++ text ++ "' contains whitespace or control characters"
  | malformedPattern pattern fault =>
    "malformed tag pattern '" ++ pattern ++ "': " ++ fault.reason

/-- An opaque text: two tags are the same iff their texts are. -/
structure TagUri where
  text : String
  nonempty : text ≠ ""
  solid : Text.allSolid text = true
deriving DecidableEq

namespace TagUri

def parse (text : String) : Except TagError TagUri :=
  if hne : text = "" then .error .empty
  else if hs : Text.allSolid text = true then .ok ⟨text, hne, hs⟩
  else .error (.invalidCharacter text)

def le (u v : TagUri) : Bool :=
  decide (u.text ≤ v.text)

/-- The text before the last `-`, when a version follows it, and that version. -/
def split (u : TagUri) : Option (String × Version) := do
  let (a, b) ← Text.cutLast '-' u.text.toList
  return (String.ofList a, ← Version.parse (String.ofList b))

def base (u : TagUri) : String :=
  match u.split with
  | some (a, _) => a
  | none => u.text

def version (u : TagUri) : Option Version :=
  u.split.map Prod.snd

def isSeparator (c : Char) : Bool :=
  c == '/' || c == ':'

def name (u : TagUri) : String :=
  String.ofList (u.base.toList.reverse.takeWhile (!isSeparator ·)).reverse

end TagUri

end TaggedGraph
