import TaggedGraph.Proofs.Reachable
import TaggedGraph.Proofs.RoundTrip.Upholds
import TaggedGraph.Proofs.Save.Finished

namespace TaggedGraph

namespace ObjectGraph

/-- The object is a primitive, or it is in the heap. -/
def Has (g : ObjectGraph) (o : Object) : Prop :=
  ∀ id ∈ o.id?, id < g.size

/-- What is in the heap refers to nothing outside. -/
def Whole (g : ObjectGraph) : Prop :=
  ∀ i < g.size, ∀ o ∈ (g.read i).parts, g.Has o

variable {g h : ObjectGraph} {o : Object}

theorem Has.mono (ho : g.Has o) (hsize : g.size ≤ h.size) : h.Has o :=
  fun id hid => Nat.lt_of_lt_of_le (ho id hid) hsize

theorem has_ref {id : ObjectId} : g.Has (.ref id) ↔ id < g.size := by
  simp [Has, Object.id?]

end ObjectGraph

/-- To write an instance the behaviour may add cells. It changes none, and it answers with something
that is in the heap. -/
structure Behaviour.AddsOnly (ctx : Context) (b : Behaviour) : Prop where
  fixes : ∀ {o t g raw h}, Yields (b.toTree ctx o t) g raw h → Fixes (· < g.size) g h
  whole : ∀ {o t g raw h}, g.Whole → g.Has o → Yields (b.toTree ctx o t) g raw h →
    h.Whole ∧ h.Has raw

/-- No converter of the session changes the graph when it writes. -/
def Session.AddsOnly (session : Session) : Prop :=
  ∀ c ∈ session.registry.converters, c.converter.behaviour.AddsOnly session.context

namespace Save

/-- In `g` the object `id` is what its node was made from: a list or a map, or an instance for which
a converter was called while the graph grew from `start` to `g`. -/
inductive Read (session : Session) (start g : ObjectGraph) (id : ObjectId) : Source → Prop
  | container {src : Source} (hsrc : (g.read id).source? = some src) : Read session start g id src
  | answer {type : NativeType} {payload raw : Object} {c : LoadedConverter Behaviour}
      {tag : Option TagUri} {h h' : ObjectGraph} (hcell : g.read id = .native type payload)
      (hc : session.registry.converterForInstance type = some c)
      (hstart : Fixes (· < start.size) start h)
      (htag : tag = c.selectTag session.context h (.ref id))
      (hcall : Yields (c.converter.behaviour.toTree session.context (.ref id) tag) h raw h')
      (hend : Fixes (· < h'.size) h' g) : Read session start g id (.answer tag raw)

/-- The graph has grown from `start` to that of `s`, and the nodes are made from what is in it. -/
structure Faithful (session : Session) (start : ObjectGraph) (s : SaveState) : Prop where
  grown : Fixes (· < start.size) start s.objects
  whole : s.objects.Whole
  sources : ∀ id src, s.sources.lookup id = some src →
    id < s.objects.size ∧ Read session start s.objects id src

variable {session : Session} {start g g' objects : ObjectGraph} {s : SaveState} {id : ObjectId}
  {src : Source} {calls : List Call}

theorem Read.mono (h : Read session start g id src) (hid : id < g.size)
    (hg : Fixes (· < g.size) g g') : Read session start g' id src := by
  cases h with
  | container hsrc => exact .container (by rwa [hg.read id hid])
  | answer hcell hc hstart htag hcall hend =>
    exact .answer ((hg.read id hid).trans hcell) hc hstart htag hcall (hend.grow hg)

theorem Reads.fixes (h : session.AddsOnly) (hreads : Reads session s id src objects calls) :
    Fixes (· < s.objects.size) s.objects objects := by
  cases hreads with
  | answer _ hc _ hcall => exact (h _ (List.mem_of_find?_eq_some hc)).fixes hcall
  | _ => exact Fixes.refl _ _

theorem Faithful.reads (h : session.AddsOnly) (hs : Faithful session start s)
    (hid : id < s.objects.size) (hreads : Reads session s id src objects calls) :
    objects.Whole ∧ Read session start objects id src ∧ ∀ o ∈ src.parts, objects.Has o := by
  have hfixes := hreads.fixes h
  cases hreads with
  | list hcell =>
    refine ⟨hs.whole, .container (by rw [hcell]; rfl), fun o ho => hs.whole id hid o ?_⟩
    rw [hcell]
    exact ho
  | map hcell =>
    refine ⟨hs.whole, .container (by rw [hcell]; rfl), fun o ho => hs.whole id hid o ?_⟩
    rw [hcell]
    exact ho
  | answer hcell hc htag hcall =>
    obtain ⟨hwhole, hraw⟩ := (h _ (List.mem_of_find?_eq_some hc)).whole hs.whole
      (ObjectGraph.has_ref.2 hid) hcall
    refine ⟨hwhole, ?_, fun o ho => List.mem_singleton.1 ho ▸ hraw⟩
    exact .answer ((hfixes.read id hid).trans hcell) hc hs.grown htag hcall (Fixes.refl _ _)

theorem faithful_upholds (h : session.AddsOnly) :
    Upholds session (Faithful session start) fun s o => s.objects.Has o where
  nodes _ hs := ⟨hs.grown, hs.whole, hs.sources⟩
  grow ho hgrow := ho.mono hgrow.objects.size
  enter {s id src objects calls} hs hid _ hreads := by
    have hid := ObjectGraph.has_ref.1 hid
    have hfixes := hreads.fixes h
    obtain ⟨hwhole, hread, hparts⟩ := hs.reads h hid hreads
    refine ⟨hfixes, ⟨hs.grown.grow hfixes, hwhole, fun x src' hx => ?_⟩, hparts⟩
    rw [SaveState.lookup_sources_enter] at hx
    split at hx
    · rename_i he
      cases hx
      subst he
      exact ⟨Nat.lt_of_lt_of_le hid hfixes.size, hread⟩
    · obtain ⟨hlt, hold⟩ := hs.sources x src' hx
      exact ⟨Nat.lt_of_lt_of_le hlt hfixes.size, hold.mono hlt hfixes⟩

theorem save_faithful (h : session.AddsOnly) {depth : Nat} {root : Object} {n : NodeId}
    (hwhole : start.Whole) (hroot : start.Has root)
    (hsave : save session depth root start = (.ok n, s)) : Faithful session start s :=
  (convert_upholds (faithful_upholds h) depth root _ n s ⟨Fixes.refl _ _, hwhole, by simp⟩ hroot
    hsave).1

end Save

end TaggedGraph
