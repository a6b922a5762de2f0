import TaggedGraph.Text.Quoted

namespace TaggedGraph.Inspect

def commas (items : List String) : String :=
  ", ".intercalate items

def list (items : List String) : String :=
  "[" ++ commas items ++ "]"

def call (name : String) (arguments : List String) : String :=
  name ++ "(" ++ commas arguments ++ ")"

def field (entry : String × String) : String :=
  entry.1 ++ ": " ++ entry.2

def record (name : String) (fields : List (String × String)) : String :=
  name ++ " \x7b " ++ commas (fields.map field) ++ " \x7d"

def openRecord (name : String) (fields : List (String × String)) : String :=
  name ++ " \x7b " ++ commas (fields.map field ++ [".."]) ++ " \x7d"

def map (entries : List (String × String)) : String :=
  "\x7b" ++ commas (entries.map field) ++ "\x7d"

def optional : Option String → String
  | none => "None"
  | some s => call "Some" [s]

def bool (b : Bool) : String :=
  if b then "true" else "false"

def strings (items : List String) : String :=
  list (items.map Text.quote)

end TaggedGraph.Inspect
