import Mathlib.Data.List.Forall2
import TaggedGraph.Proofs.Save.Copies

namespace TaggedGraph

open Traversal Event

/-- What the node of a list or a map is made from. -/
def Cell.source? : Cell → Option Source
  | list items => some (.list items)
  | map entries => some (.map entries)
  | native _ _ => none

theorem Cell.parts_of_source? {cell : Cell} {src : Source} (h : cell.source? = some src) :
    src.parts = cell.parts := by
  cases cell <;> cases h <;> rfl

/-- The content has a child for each part of the list or map, under the same key. -/
def Cell.WrittenAs (stands : Object → NodeId → Prop) (ct : Content) : Cell → Prop
  | list items => ∃ ns, ct = .sequence ns ∧ List.Forall₂ stands items ns
  | map entries => ∃ m, ct = .mapping m ∧ m.keys = entries.keys ∧
    List.Forall₂ stands entries.values m.values
  | native _ _ => False

theorem Source.Holds.writtenAs {cell : Cell} {src : Source} {ms : List NodeId} {node : Node}
    {stands : Object → NodeId → Prop} (h : src.Holds ms node) (hsrc : cell.source? = some src)
    (hkids : List.Forall₂ stands src.parts ms) :
    node.tag = none ∧ cell.WrittenAs stands node.content := by
  cases cell with
  | list items =>
    obtain rfl : Source.list items = src := Option.some.inj hsrc
    obtain rfl : node = _ := h
    exact ⟨rfl, ms, rfl, hkids⟩
  | map entries =>
    obtain rfl : Source.map entries = src := Option.some.inj hsrc
    obtain ⟨m, rfl, hm⟩ := h
    have hlen : entries.keys.length = ms.length := by
      simpa [Source.parts, OrderedMap.keys, OrderedMap.values] using hkids.length_eq
    have hvalues : m.values = ms := by
      rw [OrderedMap.values, hm, List.map_snd_zip (Nat.le_of_eq hlen.symm)]
    refine ⟨rfl, m, rfl, ?_, by rwa [hvalues]⟩
    rw [OrderedMap.keys, hm, List.map_fst_zip (Nat.le_of_eq hlen)]
  | native => cases hsrc

namespace Content

/-- Content that was complete, or that is added to until it is `c`. -/
def Begins : Content → Content → Prop
  | .sequence items, .sequence items' => items <+: items'
  | .mapping entries, .mapping entries' => entries.entries <+: entries'.entries
  | c, c' => c = c' ∨ c = .scalar .null

theorem Begins.refl (c : Content) : c.Begins c := by
  cases c with
  | scalar => exact .inl rfl
  | _ => exact List.prefix_rfl

theorem null_begins (c : Content) : (scalar .null).Begins c := by
  cases c <;> exact .inr rfl

theorem Begins.trans {a b c : Content} (h : a.Begins b) (h' : b.Begins c) : a.Begins c := by
  cases a with
  | scalar v =>
    rcases h with rfl | hv
    · exact h'
    · exact hv ▸ null_begins c
  | sequence items =>
    cases b with
    | sequence items' =>
      cases c with
      | sequence => exact List.IsPrefix.trans h h'
      | _ => rcases h' with h' | h' <;> cases h'
    | _ => rcases h with h | h <;> cases h
  | mapping entries =>
    cases b with
    | mapping entries' =>
      cases c with
      | mapping => exact List.IsPrefix.trans h h'
      | _ => rcases h' with h' | h' <;> cases h'
    | _ => rcases h with h | h <;> cases h

end Content

theorem zip_isPrefix_zip {α β : Type} (ks : List α) {l l' : List β} (h : l <+: l') :
    ks.zip l <+: ks.zip l' := by
  obtain ⟨r, rfl⟩ := h
  induction ks generalizing l with
  | nil => exact List.nil_prefix
  | cons k ks ih =>
    cases l with
    | nil => exact List.nil_prefix
    | cons v l => simpa using ih

namespace Source.Holds

theorem begins {src : Source} {ms : List NodeId} {m : NodeId} {node node' : Node}
    (h : src.Holds ms node) (h' : src.Holds (ms ++ [m]) node')
    (hlt : ms.length < src.parts.length) : node.content.Begins node'.content := by
  cases src with
  | list items =>
    obtain rfl : node = _ := h
    obtain rfl : node' = _ := h'
    exact List.prefix_append _ _
  | map entries =>
    obtain ⟨e, rfl, he⟩ := h
    obtain ⟨e', rfl, he'⟩ := h'
    change e.entries <+: e'.entries
    rw [he, he']
    exact zip_isPrefix_zip _ (List.prefix_append _ _)
  | answer tag raw =>
    have hms : ms = [] := List.eq_nil_of_length_eq_zero (by simpa [parts] using hlt)
    rw [h hms]
    exact Content.null_begins _

end Source.Holds

namespace Save

variable {session : Session} {ms : ObjectId → List NodeId} {s s' : SaveState}
  {es es' : List (Event Object)} {id : ObjectId} {src : Source}

theorem save_scalar {depth : Nat} {root : Object} {g : ObjectGraph} {m : NodeId}
    (hroot : root.scalar?.isSome) (hsave : save session depth root g = (.ok m, s)) :
    depth ≠ 0 ∧ s = SaveState.meet ⟨g, ∅, [], [], []⟩ root ∧ s.Stands root m := by
  obtain ⟨v, hv⟩ := Option.isSome_iff_exists.1 hroot
  cases depth with
  | zero => exact absurd hsave (not_yields_throw _ _ _ _)
  | succ depth =>
    obtain ⟨rfl, rfl⟩ := (yields_convert_scalar session depth root hroot _ m s).1 hsave
    have hstands := SaveState.stands_meet (s := ⟨g, ∅, [], [], []⟩) (o := root) nofun (by simp [hv])
    rw [SaveState.nodeId_scalar _ hv] at hstands
    exact ⟨Nat.succ_ne_zero depth, rfl, hstands⟩

/-- An object that was left has given its node a child for each of its parts. -/
theorem Nodes.children (h : Nodes ms s es) (ht : Tracks s es)
    (hs : s.sources.lookup id = some src) (hl : leave (.ref id) ∈ es) :
    List.Forall₂ s.Stands src.parts (ms id) := by
  have hlen := h.length_of_left ht hs hl
  refine List.forall₂_iff_get.2 ⟨hlen.symm, fun i hi hi' => ?_⟩
  have hlink : (s.links (.ref id))[i]? = some src.parts[i] := by
    rw [SaveState.links_eq hs, List.getElem?_eq_getElem hi]
  have hr := ht.trace.full _ i _ hl hlink
  exact h.stands id i _ _ hr (List.getElem?_eq_getElem hi')

/-- An instance that has taken its answer begins as the node of the answer does. -/
def Copied (s : SaveState) (es : List (Event Object)) : Prop :=
  ∀ id tag raw n, s.sources.lookup id = some (.answer tag raw) → s.memo.lookup id = some n →
    refer (.ref id) 0 raw ∈ es → (s.nodes.content n).Begins (s.nodeOf raw).content

theorem Copied.nil (objects : ObjectGraph) : Copied ⟨objects, ∅, [], [], []⟩ [] := by
  intro id tag raw n hs
  cases hs

theorem Copied.snoc_leave (h : Copied s es) (p : Object) : Copied s (es ++ [leave p]) := by
  simpa [Copied] using h

theorem Tracks.refer_cases (ht : Tracks s es) {p d : Object} {i : Nat} (hr : refer p i d ∈ es) :
    d.scalar?.isSome ∨ ∃ x k, d = .ref x ∧ s.memo.lookup x = some k := by
  have he := (ht.trace.refers p i d hr).2.1
  cases d with
  | ref x =>
    obtain ⟨k, hk⟩ := ht.exists_memo he
    exact .inr ⟨x, k, rfl, hk⟩
  | pending m => exact absurd he (ht.pending m)
  | _ => exact .inl rfl

theorem Copied.snoc_enter (h : Copied s es) (hnodes : Nodes ms s es) (ht : Tracks s es)
    (hid : enter (.ref id) ∉ es) (src : Source) (objects : ObjectGraph) (calls : List Call) :
    Copied (s.enter id src objects calls) (es ++ [enter (.ref id)]) := by
  intro x tag raw n hs hx hr
  replace hr : refer (.ref x) 0 raw ∈ es := by simpa using hr
  have hne : x ≠ id := by
    rintro rfl
    exact hid (ht.trace.refers _ 0 raw hr).1
  rw [SaveState.lookup_sources_enter, if_neg hne] at hs
  rw [SaveState.lookup_memo_enter, if_neg hne] at hx
  rw [NodeGraph.content, SaveState.read_enter_of_lt _ _ _ (hnodes.bound x n hx),
    SaveState.nodeOf_enter hnodes.bound (ht.memo_none hid) (ht.refer_cases hr)]
  exact h x tag raw n hs hx hr

section
variable {index : Nat} {o : Object} {n : NodeId} (hnodes : Nodes ms s es)
  (hnext : IsNext s es id src index o) (hn : s.memo.lookup id = some n)
include hnodes hnext hn

theorem Nodes.begins_next : (s.nodes.content n).Begins
    (((s.meet o).put id src index (s.nodeId o)).nodes.content n) := by
  have hlen := hnodes.length_next hnext
  have hlt : (ms id).length < src.parts.length :=
    hlen ▸ (List.getElem?_eq_some_iff.1 hnext.part).1
  have hnew := hnodes.holds_refer hnext hn hnext.source hn
  rw [withChild, if_pos rfl] at hnew
  exact (hnodes.holds id src n hnext.source hn).begins hnew hlt

/-- An instance takes the content of its answer's node. -/
theorem Nodes.content_next (ht : Tracks s es) {tag : Option TagUri} (hsrc : src = .answer tag o) :
    ((s.meet o).put id src index (s.nodeId o)).nodes.content n = (s.nodeOf o).content := by
  subst hsrc
  have hlt := Nat.lt_of_lt_of_le (hnodes.bound id n hn) (s.size_le_meet o)
  rw [NodeGraph.content, nodes_put hn, Source.read_put_answer _ _ hlt, hnodes.read_next ht hnext]

theorem Nodes.nodeOf_begins {p : Object}
    (hp : p.scalar?.isSome ∨ ∃ x k, p = .ref x ∧ s.memo.lookup x = some k) :
    (s.nodeOf p).content.Begins
      (((s.meet o).put id src index (s.nodeId o)).nodeOf p).content := by
  by_cases hne : p = .ref id
  · subst hne
    rw [SaveState.nodeOf_ref hn, SaveState.nodeOf_ref (by simpa using hn)]
    exact hnodes.begins_next hnext hn
  · rw [SaveState.nodeOf_put hnodes.bound hnodes.inj hn hp hne]
    exact .refl _

end

theorem Copied.snoc_refer {index : Nat} {o : Object} (h : Copied s es) (hnodes : Nodes ms s es)
    (ht : Tracks s es) (hnext : IsNext s es id src index o) :
    Copied ((s.meet o).put id src index (s.nodeId o)) (meet o es ++ [refer (.ref id) index o]) := by
  obtain ⟨n, hn⟩ := ht.exists_memo hnext.entered
  intro x tag raw k hs hx hr
  replace hs : s.sources.lookup x = some (.answer tag raw) := by simpa using hs
  replace hx : s.memo.lookup x = some k := by simpa using hx
  rcases mem_refer_snoc.1 hr with hold | ⟨rfl, rfl, rfl⟩
  · have hne : n ≠ k := by
      rintro rfl
      -- an instance takes its answer once
      obtain rfl := hnodes.inj x id n hx hn
      cases hs.symm.trans hnext.source
      have hfirst := ((hnext.refers 0 raw).1 hold).1
      have hindex := (List.getElem?_eq_some_iff.1 hnext.part).1
      simp [Source.parts] at hindex
      omega
    rw [NodeGraph.content, read_nodes_put hn (hnodes.bound x k hx) hne]
    exact (h x tag raw k hs hx hold).trans
      (hnodes.nodeOf_begins hnext hn (ht.refer_cases hold))
  · cases hx.symm.trans hn
    rw [hnodes.content_next hnext hn ht (Option.some.inj (hnext.source.symm.trans hs))]
    apply hnodes.nodeOf_begins hnext hn
    cases hv : raw.scalar? with
    | some v => exact .inl rfl
    | none => exact .inr (hnext.part_memo ht hv)

theorem Steps.copied (h : Steps session (s, es) (s', es')) (ht : Tracks s es)
    (hnodes : Nodes ms s es) (hc : Copied s es) : Copied s' es' := by
  refine (h.keeps (J := fun s es => Tracks s es ∧ (∃ ms, Nodes ms s es) ∧ Copied s es) ?_
    ⟨ht, ⟨ms, hnodes⟩, hc⟩).2.2
  intro s es s' es' hstep ⟨ht, ⟨ms, hnodes⟩, h⟩
  have hsteps : Steps session (s, es) (s', es') := .single hstep
  refine ⟨ht.step hstep, hsteps.nodes ht ⟨ms, hnodes⟩, ?_⟩
  cases hstep with
  | enter hn hreads => exact h.snoc_enter hnodes ht hn _ _ _
  | refer hnext => exact h.snoc_refer hnodes ht hnext
  | leave => exact h.snoc_leave _

end Save

end TaggedGraph
