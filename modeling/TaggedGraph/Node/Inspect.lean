import TaggedGraph.Decimal.Layout
import TaggedGraph.Node.Basic
import TaggedGraph.Text.Inspect

namespace TaggedGraph

def Scalar.inspect : Scalar → String
  | null => "Null"
  | bool b => Inspect.call "Bool" [Inspect.bool b]
  | int i => Inspect.call "Int" [Int.repr i.toInt]
  | float x => Inspect.call "Float" [Decimal.write .marked x]
  | string s => Inspect.call "String" [Text.quote s]
  | binary b => Inspect.call "Binary" [Inspect.list (b.map fun x => Nat.repr x.toNat)]

def NodeId.inspect (n : NodeId) : String :=
  Inspect.call "NodeId" [Nat.repr n]

def Content.inspectField : Content → String × String
  | mapping entries => ("keys", Inspect.strings entries.keys)
  | sequence items => ("len", Nat.repr items.length)
  | scalar s => ("scalar", s.inspect)

def NodeGraph.inspect (g : NodeGraph) (n : NodeId) : String :=
  let tag := (g.tag n).map fun t => ("tag", Text.quote t.text)
  Inspect.record "Node" ([("id", NodeId.inspect n)] ++ tag.toList ++ [(g.content n).inspectField])

end TaggedGraph
