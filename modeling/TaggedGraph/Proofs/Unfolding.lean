import TaggedGraph.Object.Inspect
import TaggedGraph.Proofs.Alike
import TaggedGraph.Proofs.Forall2
import TaggedGraph.Proofs.Reachable

namespace TaggedGraph

/-- A list or a map without its parts. -/
inductive Container
  | list
  | map (keys : List String)

namespace Container

def text (texts : List String) : Container → String
  | list => Inspect.call "List" [Inspect.list texts]
  | map keys => Inspect.call "Map" [Inspect.map ((keys.map Text.quote).zip texts)]

def mark : Container → String
  | list => Inspect.call "List" ["[...]"]
  | map _ => Inspect.call "Map" ["\x7b...\x7d"]

end Container

def Cell.container? : Cell → Option Container
  | list _ => some .list
  | map entries => some (.map entries.keys)
  | native .. => none

inductive Unfolding
  | plain (o : Object)
  | container (c : Container) (parts : List Unfolding)
  | again (c : Container)
  | native (type : NativeType) (payload : Unfolding)

namespace Unfolding

mutual

def text : Unfolding → String
  | plain o => o.inspectPlain
  | container c parts => c.text (texts parts)
  | again c => c.mark
  | native type payload => Inspect.call "Native" [Inspect.call type.label [payload.text]]

def texts : List Unfolding → List String
  | [] => []
  | t :: ts => t.text :: texts ts

end

theorem texts_eq_map (ts : List Unfolding) : texts ts = ts.map text := by
  induction ts with
  | nil => rfl
  | cons t ts ih => rw [texts, ih, List.map_cons]

end Unfolding

namespace ObjectGraph

/-- Inside the containers `path` an object unfolds to a tree. -/
inductive Unfolds (g : ObjectGraph) : (path : List ObjectId) → Object → Unfolding → Prop
  | plain {path : List ObjectId} {o : Object} (ho : o.id? = none) : Unfolds g path o (.plain o)
  | container {path : List ObjectId} {i : ObjectId} {c : Container} {ts : List Unfolding}
      (hc : (g.read i).container? = some c) (hnew : i ∉ path)
      (hlen : (g.read i).parts.length = ts.length)
      (hparts : ∀ (k : Nat) (o : Object) (t : Unfolding), (g.read i).parts[k]? = some o →
        ts[k]? = some t → Unfolds g (i :: path) o t) :
      Unfolds g path (.ref i) (.container c ts)
  | again {path : List ObjectId} {i : ObjectId} {c : Container}
      (hc : (g.read i).container? = some c) (hin : i ∈ path) : Unfolds g path (.ref i) (.again c)
  | native {path : List ObjectId} {i : ObjectId} {type : NativeType} {payload : Object}
      {t : Unfolding} (hcell : g.read i = .native type payload) (ht : Unfolds g path payload t) :
      Unfolds g path (.ref i) (.native type t)

variable {g h : ObjectGraph} {path : List ObjectId} {o a b r r' : Object} {t t' : Unfolding}
  {type : NativeType} {payload : Object} {i : ObjectId} {c : Container}

theorem container?_ne_some (hcell : g.read i = .native type payload) :
    (g.read i).container? ≠ some c := by
  rw [hcell]
  rintro ⟨⟩

theorem Unfolds.unique (ht : g.Unfolds path o t) (ht' : g.Unfolds path o t') : t = t' := by
  induction ht generalizing t' with
  | plain ho =>
    cases ht' with
    | plain => rfl
    | _ => cases ho
  | @container path i c ts hc hnew hlen _ ih =>
    cases ht' with
    | plain ho => cases ho
    | @container _ _ c' ts' hc' _ hlen' hparts' =>
      obtain rfl : c = c' := Option.some.inj (hc.symm.trans hc')
      obtain rfl : ts = ts' := by
        refine List.ext_getElem (hlen.symm.trans hlen') fun k hk hk' => ?_
        have ho := List.getElem?_eq_getElem (hlen ▸ hk : k < (g.read i).parts.length)
        exact ih k _ _ ho (List.getElem?_eq_getElem hk)
          (hparts' k _ _ ho (List.getElem?_eq_getElem hk'))
      rfl
    | again _ hin => exact absurd hin hnew
    | native hcell => exact absurd hc (container?_ne_some hcell)
  | again hc hin =>
    cases ht' with
    | plain ho => cases ho
    | container _ hnew => exact absurd hin hnew
    | again hc' => rw [Option.some.inj (hc.symm.trans hc')]
    | native hcell => exact absurd hc (container?_ne_some hcell)
  | native hcell _ ih =>
    cases ht' with
    | plain ho => cases ho
    | container hc => exact absurd hc (container?_ne_some hcell)
    | again hc => exact absurd hc (container?_ne_some hcell)
    | native hcell' ht' =>
      cases hcell.symm.trans hcell'
      rw [ih ht']

theorem Unfolds.again_iff (ht : g.Unfolds path (.ref i) t) :
    (∃ c, t = .again c) ↔ (g.read i).container?.isSome ∧ i ∈ path := by
  cases ht with
  | plain ho => cases ho
  | container _ hnew => exact iff_of_false (by simp) fun hc => hnew hc.2
  | again hc hin => exact iff_of_true ⟨_, rfl⟩ ⟨Option.isSome_iff_exists.2 ⟨_, hc⟩, hin⟩
  | native hcell => exact iff_of_false (by simp) (by simp [hcell, Cell.container?])

end ObjectGraph

theorem Cell.SameShape.container?_eq {cell cell' : Cell} (h : cell.SameShape cell') :
    cell.container? = cell'.container? := by
  cases cell <;> cases cell' <;> simp only [SameShape] at h
  · rfl
  · rw [container?, container?, h]
  · rfl

namespace ObjectGraph

/-- Containers that are shared in the same way are inside themselves at the same places. -/
theorem Isomorphic.mem_iff (hiso : Isomorphic g h r r') {path path' : List ObjectId}
    (hpath : List.Forall₂ (fun i j => SamePlace g h r r' (.ref i) (.ref j)) path path')
    {i j : ObjectId} (hij : SamePlace g h r r' (.ref i) (.ref j)) : i ∈ path ↔ j ∈ path' := by
  constructor
  · intro hi
    obtain ⟨k, hk, hik⟩ := forall₂_exists_right hpath hi
    have hsame := (hiso.shared _ _ _ _ hij hik).2 ((Object.isSame_iff _ _).2 ⟨i, rfl, rfl⟩)
    obtain ⟨_, ⟨⟩, ⟨⟩⟩ := (Object.isSame_iff _ _).1 hsame
    exact hk
  · intro hj
    obtain ⟨k, hk, hkj⟩ := forall₂_exists_left hpath hj
    have hsame := (hiso.shared _ _ _ _ hij hkj).1 ((Object.isSame_iff _ _).2 ⟨j, rfl, rfl⟩)
    obtain ⟨_, ⟨⟩, ⟨⟩⟩ := (Object.isSame_iff _ _).1 hsame
    exact hk

theorem Alike.exists_ref (halike : Alike g h r r') (hib : SamePlace g h r r' (.ref i) b) :
    ∃ j, b = .ref j ∧ (g.read i).SameShape (h.read j) := by
  have hshape := halike _ b hib
  obtain ⟨j, rfl⟩ := hshape.exists_ref_iff.1 ⟨i, rfl⟩
  exact ⟨j, rfl, hshape⟩

/-- Isomorphic graphs unfold to the same tree. -/
theorem Unfolds.of_isomorphic (hiso : Isomorphic g h r r') {path' : List ObjectId}
    (ht : g.Unfolds path a t) (hab : SamePlace g h r r' a b)
    (hpath : List.Forall₂ (fun i j => SamePlace g h r r' (.ref i) (.ref j)) path path') :
    h.Unfolds path' b t := by
  induction ht generalizing b path' with
  | @plain path a ha =>
    have hshape := hiso.alike a b hab
    cases a with
    | ref => cases ha
    | _ =>
      obtain rfl := hshape
      exact .plain rfl
  | @container path i c ts hc hnew hlen _ ih =>
    obtain ⟨j, rfl, hshape⟩ := hiso.alike.exists_ref hab
    refine .container (hshape.container?_eq ▸ hc) (fun hj => hnew ((hiso.mem_iff hpath hab).2 hj))
      (hshape.length_eq ▸ hlen) fun k q t hq hk => ?_
    have hlt : k < (g.read i).parts.length := by
      rw [hlen]
      exact (List.getElem?_eq_some_iff.1 hk).1
    have hp := List.getElem?_eq_getElem hlt
    exact ih k _ t hp hk (.part hab hp hq) (.cons hab hpath)
  | again hc hin =>
    obtain ⟨j, rfl, hshape⟩ := hiso.alike.exists_ref hab
    exact .again (hshape.container?_eq ▸ hc) ((hiso.mem_iff hpath hab).1 hin)
  | @native path i type payload t hcell _ ih =>
    obtain ⟨j, rfl, hshape⟩ := hiso.alike.exists_ref hab
    rw [hcell] at hshape
    cases hcell' : h.read j with
    | native type' payload' =>
      rw [hcell'] at hshape
      obtain rfl : type = type' := hshape
      have hpart : SamePlace g h r r' payload payload' :=
        .part (i := 0) hab (by rw [parts_native hcell]; rfl) (by rw [parts_native hcell']; rfl)
      exact .native hcell' (ih hpart hpath)
    | list | map =>
      rw [hcell'] at hshape
      cases hshape

end ObjectGraph

section Renaming

variable (f : NodeId → NodeId)

def Object.renamePending : Object → Object
  | pending n => pending (f n)
  | o => o

def Cell.renamePending : Cell → Cell
  | list items => list (items.map (Object.renamePending f))
  | map entries => map (entries.map (Object.renamePending f))
  | native type payload => native type (payload.renamePending f)

namespace Unfolding

mutual

def renamePending : Unfolding → Unfolding
  | plain o => plain (o.renamePending f)
  | container c parts => container c (renamePendingAll parts)
  | again c => again c
  | native type payload => native type payload.renamePending

def renamePendingAll : List Unfolding → List Unfolding
  | [] => []
  | t :: ts => t.renamePending :: renamePendingAll ts

end

theorem renamePendingAll_eq_map (ts : List Unfolding) :
    renamePendingAll f ts = ts.map (renamePending f) := by
  induction ts with
  | nil => rfl
  | cons t ts ih => rw [renamePendingAll, ih, List.map_cons]

end Unfolding

theorem Object.id?_renamePending (o : Object) : (o.renamePending f).id? = o.id? := by
  cases o <;> rfl

theorem Cell.parts_renamePending (cell : Cell) :
    (cell.renamePending f).parts = cell.parts.map (Object.renamePending f) := by
  cases cell with
  | list | native => rfl
  | map entries =>
    simp [renamePending, parts, OrderedMap.map, OrderedMap.values, List.map_map,
      Function.comp_def]

theorem Cell.container?_renamePending (cell : Cell) :
    (cell.renamePending f).container? = cell.container? := by
  cases cell with
  | list | native => rfl
  | map entries =>
    simp [renamePending, container?, OrderedMap.map, OrderedMap.keys, List.map_map,
      Function.comp_def]

namespace ObjectGraph

/-- The same graph with other ids in the pending references. -/
def renamePending (g : ObjectGraph) : ObjectGraph :=
  ⟨g.cells.map (Cell.renamePending f)⟩

variable (g : ObjectGraph)

theorem read_renamePending (i : ObjectId) :
    (g.renamePending f).read i = (g.read i).renamePending f := by
  simp only [renamePending, Heap.read, Array.getD_eq_getD_getElem?, Array.getElem?_map]
  cases g.cells[i]? <;> rfl

variable {g} in
theorem Unfolds.renamePending {path : List ObjectId} {o : Object} {t : Unfolding}
    (ht : g.Unfolds path o t) :
    (g.renamePending f).Unfolds path (o.renamePending f) (t.renamePending f) := by
  induction ht with
  | plain ho => exact .plain ((Object.id?_renamePending f _).trans ho)
  | @container path i c ts hc hnew hlen _ ih =>
    rw [Unfolding.renamePending, Unfolding.renamePendingAll_eq_map]
    refine .container ?_ hnew ?_ fun k o t ho ht => ?_
    · rwa [read_renamePending, Cell.container?_renamePending]
    · rw [read_renamePending, Cell.parts_renamePending, List.length_map, List.length_map, hlen]
    · rw [read_renamePending, Cell.parts_renamePending, List.getElem?_map] at ho
      rw [List.getElem?_map] at ht
      obtain ⟨p, hp, rfl⟩ := Option.map_eq_some_iff.1 ho
      obtain ⟨u, hu, rfl⟩ := Option.map_eq_some_iff.1 ht
      exact ih k p u hp hu
  | again hc hin =>
    refine .again ?_ hin
    rwa [read_renamePending, Cell.container?_renamePending]
  | native hcell _ ih => exact .native (by rw [read_renamePending, hcell]; rfl) ih

end ObjectGraph

end Renaming

end TaggedGraph
