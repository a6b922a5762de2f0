import TaggedGraph.Proofs.RoundTrip.Mirrors
import TaggedGraph.Proofs.RoundTrip.Upholds
import TaggedGraph.Proofs.Save.Copies

namespace TaggedGraph

open Traversal

def Content.SourceWith (res : NodeId → Object) (src : Source) : Content → Prop
  | scalar _ => False
  | sequence items => src = .list (items.map res)
  | mapping entries => src = .map (entries.map res)

theorem Content.SourceWith.parts {res : NodeId → Object} {src : Source} {ct : Content}
    (h : ct.SourceWith res src) : src.parts = ct.children.map res := by
  cases ct with
  | scalar => exact h.elim
  | sequence items =>
    obtain rfl : src = _ := h
    rfl
  | mapping entries =>
    obtain rfl : src = _ := h
    simp [Source.parts, children, OrderedMap.values, OrderedMap.map]

theorem Load.scalar?_ofScalar (v : Scalar) : (ofScalar v).scalar? = some v := by
  cases v <;> rfl

theorem Mirrors.isTreeValue {session : Session} {nodes : NodeGraph} {root : NodeId}
    {res raw : NodeId → Object} {g k : ObjectGraph} {n : NodeId}
    (h : Mirrors (Wrapper.Serves session) nodes root res raw g) (hn : nodes.Reachable root n)
    (hk : Fixes (· < g.size) g k) (t : Option TagUri) : Save.isTreeValue k t (raw n) = true := by
  rcases h.raw_cases hn with ⟨v, -, hv⟩ | ⟨id, hid, hlt, hbuilt⟩
  · rw [hv]
    cases v <;> rfl
  · have hcell := hbuilt.isContainer
    rw [← hk.read id hlt] at hcell
    rw [hid]
    cases hread : k.read id with
    | native => simp [hread, Cell.isContainer] at hcell
    | _ => simp [Save.isTreeValue, Object.isPending, ObjectGraph.native?, ObjectGraph.cell?, hread]

namespace Save

section
variable (nodes : NodeGraph) (root : NodeId) (res raw : NodeId → Object)

def Known (o : Object) : Prop :=
  ∃ n, nodes.Reachable root n ∧ (o = res n ∨ o = raw n)

/-- What the node of a list, map or instance is made from. -/
inductive MadeFrom (id : ObjectId) (src : Source) : Prop
  | container {n : NodeId} (hn : nodes.Reachable root n) (hid : raw n = .ref id)
      (hsrc : (nodes.content n).SourceWith res src)
  | wrapper {n : NodeId} {t : TagUri} (hn : nodes.Reachable root n) (ht : nodes.tag n = some t)
      (hid : res n = .ref id) (hsrc : src = .answer (some t) (raw n))

/-- The save has changed no cell of `g`. -/
structure Follows (g : ObjectGraph) (s : SaveState) : Prop where
  objects : Fixes (· < g.size) g s.objects
  sources : ∀ id src, s.sources.lookup id = some src → MadeFrom nodes root res raw id src

end

variable {session : Session} {nodes : NodeGraph} {root : NodeId} {res raw : NodeId → Object}
  {g : ObjectGraph} {s s' : SaveState}

theorem known_cases (hm : Mirrors (Wrapper.Serves session) nodes root res raw g) {o : Object}
    (ho : Known nodes root res raw o) : o.scalar?.isSome ∨ ∃ id, o = .ref id := by
  have hraw (n : NodeId) (hn : nodes.Reachable root n) :
      (raw n).scalar?.isSome ∨ ∃ id, raw n = .ref id := by
    rcases hm.raw_cases hn with ⟨v, -, hv⟩ | ⟨id, hid, -⟩
    · rw [hv, Load.scalar?_ofScalar]
      exact .inl rfl
    · exact .inr ⟨id, hid⟩
  obtain ⟨n, hn, rfl | rfl⟩ := ho
  · cases ht : nodes.tag n with
    | none =>
      rw [hm.untagged n hn ht]
      exact hraw n hn
    | some t =>
      obtain ⟨w, -, -, -, hw, -⟩ := hm.tagged n t hn ht
      exact .inr ⟨w.id, hw⟩
  · exact hraw n hn

theorem known_parts {id : ObjectId} {src : Source} (h : MadeFrom nodes root res raw id src) :
    ∀ o ∈ src.parts, Known nodes root res raw o := by
  intro o ho
  cases h with
  | @container n hn hid hsrc =>
    rw [hsrc.parts] at ho
    obtain ⟨c, hc, rfl⟩ := List.mem_map.1 ho
    exact ⟨c, hn.step hc, .inl rfl⟩
  | @wrapper n t hn ht hid hsrc =>
    subst hsrc
    obtain rfl := List.mem_singleton.1 ho
    exact ⟨n, hn, .inr rfl⟩

theorem Follows.reads (h : Follows nodes root res raw g s)
    (hm : Mirrors (Wrapper.Serves session) nodes root res raw g) {id : ObjectId}
    (hid : Known nodes root res raw (.ref id)) : id < g.size ∧ ∃ src objects calls,
      Reads session s id src objects calls ∧ Fixes (· < s.objects.size) s.objects objects ∧
      MadeFrom nodes root res raw id src := by
  -- the raw value of a node is the list or map that was built for it
  have hraw (n : NodeId) (hn : nodes.Reachable root n) (hid : raw n = .ref id) : id < g.size ∧
      ∃ src objects calls, Reads session s id src objects calls ∧
        Fixes (· < s.objects.size) s.objects objects ∧ MadeFrom nodes root res raw id src := by
    obtain ⟨hlt, hbuilt⟩ := hm.builtWith hn hid
    have hread := h.objects.read id hlt
    refine ⟨hlt, ?_⟩
    cases hct : nodes.content n with
    | scalar v =>
      rw [hct] at hbuilt
      exact hbuilt.elim
    | sequence items =>
      rw [hct] at hbuilt
      exact ⟨_, _, _, .list (hread.trans hbuilt), Fixes.refl _ _,
        .container hn hid (by rw [hct]; rfl)⟩
    | mapping entries =>
      rw [hct] at hbuilt
      exact ⟨_, _, _, .map (hread.trans hbuilt), Fixes.refl _ _,
        .container hn hid (by rw [hct]; rfl)⟩
  obtain ⟨n, hn, hres | hres⟩ := hid
  · cases ht : nodes.tag n with
    | none => exact hraw n hn ((hm.untagged n hn ht).symm.trans hres.symm)
    | some t =>
      obtain ⟨w, -, rfl, hwraw, hwid, hlt, hserves⟩ := hm.tagged n t hn ht
      cases hres.trans hwid
      obtain ⟨⟨type, payload, hread, hc⟩, htag, objects, hcall, hfixes⟩ := hserves _ h.objects
      rw [hwraw] at hcall
      have hobjects := h.objects.grow hfixes
      exact ⟨hlt, _, objects, _, .answer hread hc htag.symm hcall (hm.isTreeValue hn hobjects _),
        hfixes, .wrapper hn ht hwid rfl⟩
  · exact hraw n hn hres.symm

theorem follows_upholds (hm : Mirrors (Wrapper.Serves session) nodes root res raw g) :
    Upholds session (Follows nodes root res raw g) fun _ o => Known nodes root res raw o where
  nodes nodes h := ⟨h.objects, h.sources⟩
  grow h _ := h
  enter {s id src objects calls} h hid _ hreads := by
    obtain ⟨-, src', objects', calls', hreads', hfixes, hfrom⟩ := h.reads hm hid
    obtain ⟨rfl, rfl, rfl⟩ := hreads.unique hreads'
    refine ⟨hfixes, ⟨?_, fun x src hx => ?_⟩, known_parts hfrom⟩
    · exact h.objects.grow hfixes
    · rw [SaveState.lookup_sources_enter] at hx
      split at hx
      · rename_i he
        cases hx
        exact he ▸ hfrom
      · exact h.sources x src hx

theorem follows_affords (hm : Mirrors (Wrapper.Serves session) nodes root res raw g) :
    Affords session (Follows nodes root res raw g) (fun _ o => Known nodes root res raw o)
      fun s _ => unsaved g s where
  cases _ ho := known_cases hm ho
  reads h hid hmemo := by
    obtain ⟨hlt, src, objects, calls, hreads, -⟩ := h.reads hm hid
    exact ⟨src, objects, calls, hreads, fun _ _ => unsaved_enter hlt hmemo⟩
  grow h := remaining_le _ h.memo

theorem save_succeeds (hm : Mirrors (Wrapper.Serves session) nodes root res raw g) {depth : Nat}
    (hdepth : g.size < depth) : ∃ m s, save session depth (res root) g = (.ok m, s) ∧
      Follows nodes root res raw g s := by
  have hstart : Follows nodes root res raw g ⟨g, ∅, [], [], []⟩ := ⟨Fixes.refl _ g, by simp⟩
  have hroot : Known nodes root res raw (res root) := ⟨root, .refl root, .inl rfl⟩
  obtain ⟨m, s, hyields⟩ := convert_succeeds (follows_upholds hm) (follows_affords hm) depth
    (res root) _ hstart hroot (Nat.lt_of_le_of_lt (remaining_le_size _) hdepth)
  exact ⟨m, s, hyields, (convert_upholds (follows_upholds hm) depth _ _ m s hstart hroot hyields).1⟩

end Save

end TaggedGraph
