import TaggedGraph.Extension.Basic
import TaggedGraph.OrderedMap
import TaggedGraph.Ascending

namespace TaggedGraph

abbrev ByteList := List UInt8

structure ResourceMapping where
  className : Except Panic String
  get : String → Option ByteList
  uris : List String
  contains : String → Bool

namespace ResourceMapping

def ofLookup (className : Except Panic String) (get : String → Option ByteList)
    (uris : List String) : ResourceMapping :=
  ⟨className, get, uris, fun uri => (get uri).isSome⟩

def ofInsertion (className : String) (m : OrderedMap ByteList) : ResourceMapping :=
  ofLookup (.ok className) m.get? m.keys

def ofAscending (className : String) (m : OrderedMap ByteList) : ResourceMapping :=
  ofLookup (.ok className) m.get? (Ascending.ofList id m.keys)

end ResourceMapping

/-- A mapping with the package it comes from. -/
structure ProvidedMapping where
  mapping : ResourceMapping
  package : Option PackageInfo

namespace ProvidedMapping

def inspect (m : ProvidedMapping) : Except Panic String := do
  return "<ResourceMappingProxy class: " ++ (← m.mapping.className) ++ " package: " ++
    PackageInfo.describe m.package ++ ">"

end ProvidedMapping

structure ResourceManager where
  mappings : List ProvidedMapping

namespace ResourceManager

/-- The first mapping that has the resource gives its content. -/
def get (r : ResourceManager) (uri : String) : Option ByteList :=
  r.mappings.findSome? fun m => m.mapping.get uri

def contains (r : ResourceManager) (uri : String) : Bool :=
  r.mappings.any fun m => m.mapping.contains uri

/-- The URIs of all mappings, each once and at its first place. -/
def uris (r : ResourceManager) : List String :=
  (r.mappings.flatMap (·.mapping.uris)).foldl
    (fun seen uri => if uri ∈ seen then seen else seen ++ [uri]) []

def inspect (r : ResourceManager) : Except Panic String := do
  return Inspect.record "ResourceManager"
    [("mappings", Inspect.list (← r.mappings.mapM (·.inspect)))]

end ResourceManager

end TaggedGraph
