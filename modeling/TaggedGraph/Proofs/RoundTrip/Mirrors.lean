import TaggedGraph.Proofs.RoundTrip.LoadSucceeds

namespace TaggedGraph

/-- In `g` every node that can be reached stands as its raw value, or, if it has a tag, as an
instance, which is as `P` says. -/
structure Mirrors (P : Wrapper → ObjectGraph → Prop) (nodes : NodeGraph) (root : NodeId)
    (res raw : NodeId → Object) (g : ObjectGraph) : Prop where
  scalar : ∀ n, nodes.Reachable root n → ∀ v, nodes.content n = .scalar v → raw n = Load.ofScalar v
  container : ∀ n, nodes.Reachable root n → (∀ v, nodes.content n ≠ .scalar v) →
    ∃ id, raw n = .ref id ∧ id < g.size ∧ (nodes.content n).BuiltWith res (g.read id)
  raw_inj : ∀ n m id, nodes.Reachable root n → nodes.Reachable root m → raw n = .ref id →
    raw m = .ref id → n = m
  untagged : ∀ n, nodes.Reachable root n → nodes.tag n = none → res n = raw n
  tagged : ∀ n t, nodes.Reachable root n → nodes.tag n = some t → ∃ w : Wrapper,
    w.node = n ∧ w.tag = t ∧ w.raw = raw n ∧ res n = .ref w.id ∧ w.id < g.size ∧
      ∀ k, Fixes (· < g.size) g k → P w k
  instance_ne_raw : ∀ {m n id}, nodes.Reachable root m → nodes.tag m ≠ none →
    nodes.Reachable root n → raw n = .ref id → res m ≠ .ref id
  instance_inj : ∀ n m id, nodes.Reachable root n → nodes.Reachable root m → nodes.tag n ≠ none →
    nodes.tag m ≠ none → res n = .ref id → res m = .ref id → n = m

theorem Content.BuiltWith.isContainer {ct : Content} {res : NodeId → Object} {cell : Cell}
    (h : ct.BuiltWith res cell) : cell.isContainer := by
  cases ct with
  | scalar => exact h.elim
  | sequence =>
    obtain rfl : cell = _ := h
    rfl
  | mapping =>
    obtain rfl : cell = _ := h
    rfl

namespace Mirrors

variable {P : Wrapper → ObjectGraph → Prop} {nodes : NodeGraph} {root : NodeId}
  {res raw : NodeId → Object} {g : ObjectGraph} {n m : NodeId} {id : ObjectId}

theorem raw_cases (h : Mirrors P nodes root res raw g) (hn : nodes.Reachable root n) :
    (∃ v, nodes.content n = .scalar v ∧ raw n = Load.ofScalar v) ∨
      ∃ id, raw n = .ref id ∧ id < g.size ∧ (nodes.content n).BuiltWith res (g.read id) := by
  by_cases hct : ∃ v, nodes.content n = .scalar v
  · obtain ⟨v, hct⟩ := hct
    exact .inl ⟨v, hct, h.scalar n hn v hct⟩
  · exact .inr (h.container n hn (not_exists.1 hct))

theorem builtWith (h : Mirrors P nodes root res raw g) (hn : nodes.Reachable root n)
    (hid : raw n = .ref id) : id < g.size ∧ (nodes.content n).BuiltWith res (g.read id) := by
  rcases h.raw_cases hn with ⟨v, -, hv⟩ | ⟨id', hid', hlt, hbuilt⟩
  · rw [hid] at hv
    cases v <;> cases hv
  · cases hid.symm.trans hid'
    exact ⟨hlt, hbuilt⟩

theorem res_ne_raw (h : Mirrors P nodes root res raw g) (hm : nodes.Reachable root m)
    (hn : nodes.Reachable root n) (ht : nodes.tag n ≠ none) (hid : raw n = .ref id) :
    res m ≠ .ref id := by
  intro hres
  by_cases htm : nodes.tag m = none
  · obtain rfl := h.raw_inj m n id hm hn ((h.untagged m hm htm).symm.trans hres) hid
    exact ht htm
  · exact h.instance_ne_raw hm htm hn hid hres

theorem res_inj (h : Mirrors P nodes root res raw g) (hn : nodes.Reachable root n)
    (hm : nodes.Reachable root m) (hnid : res n = .ref id) (hmid : res m = .ref id) : n = m := by
  by_cases htn : nodes.tag n = none <;> by_cases htm : nodes.tag m = none
  · exact h.raw_inj n m id hn hm ((h.untagged n hn htn).symm.trans hnid)
      ((h.untagged m hm htm).symm.trans hmid)
  · exact absurd hmid (h.instance_ne_raw hm htm hn ((h.untagged n hn htn).symm.trans hnid))
  · exact absurd hnid (h.instance_ne_raw hn htn hm ((h.untagged m hm htm).symm.trans hmid))
  · exact h.instance_inj n m id hn hm htn htm hnid hmid

end Mirrors

namespace Load

variable {P : Wrapper → ObjectGraph → Prop} {session : Session} {nodes : NodeGraph} {root : NodeId}
  {s : LoadState}

theorem GivesResults.isRaw_unique {o : Object} (h : GivesResults session nodes root s o)
    {n : NodeId} {raw raw' : Object} (hraw : s.IsRaw n (nodes.content n) raw)
    (hraw' : s.IsRaw n (nodes.content n) raw') : raw = raw' := by
  cases hct : nodes.content n with
  | scalar v =>
    rw [hct] at hraw hraw'
    exact Eq.trans hraw (Eq.symm hraw')
  | sequence | mapping =>
    rw [hct] at hraw hraw'
    obtain ⟨id, hb, rfl⟩ := hraw
    obtain ⟨id', hb', rfl⟩ := hraw'
    cases h.one _ hb _ hb' (.inl rfl)
    rfl

theorem mem_built_of_isRaw {n : NodeId} {id : ObjectId}
    (h : s.IsRaw n (nodes.content n) (.ref id)) : (n, id) ∈ s.built := by
  cases hct : nodes.content n with
  | scalar v =>
    rw [hct, LoadState.IsRaw] at h
    cases v <;> cases h
  | sequence | mapping =>
    rw [hct] at h
    obtain ⟨id', hb, h⟩ := h
    cases h
    exact hb

theorem isRaw_of_mem_built {n : NodeId} {id : ObjectId} (hb : (n, id) ∈ s.built)
    (hct : ∀ v, nodes.content n ≠ .scalar v) : s.IsRaw n (nodes.content n) (.ref id) := by
  cases h : nodes.content n with
  | scalar v => exact absurd h (hct v)
  | sequence | mapping => exact ⟨id, hb, rfl⟩

theorem GivesResults.exists_isRaw {o : Object} (h : GivesResults session nodes root s o)
    {n : NodeId} (hn : nodes.Reachable root n) : ∃ raw, s.IsRaw n (nodes.content n) raw := by
  by_cases hct : ∃ v, nodes.content n = .scalar v
  · obtain ⟨v, hct⟩ := hct
    rw [hct]
    exact ⟨_, rfl⟩
  · have hct := not_exists.1 hct
    obtain ⟨id, hb⟩ := h.built n hn hct
    exact ⟨_, isRaw_of_mem_built hb hct⟩

theorem GivesResults.exists_raw {o : Object} (h : GivesResults session nodes root s o) :
    ∃ raw : NodeId → Object, ∀ n, nodes.Reachable root n →
      s.IsRaw n (nodes.content n) (raw n) := by
  have hraws (n : NodeId) : ∃ raw, nodes.Reachable root n → s.IsRaw n (nodes.content n) raw := by
    by_cases hn : nodes.Reachable root n
    · obtain ⟨raw, hraw⟩ := h.exists_isRaw hn
      exact ⟨raw, fun _ => hraw⟩
    · exact ⟨.null, fun h => absurd h hn⟩
  choose raw hraw using hraws
  exact ⟨raw, hraw⟩

section
variable {raw : NodeId → Object} {ready : List Wrapper} {n m : NodeId}
  (hgives : GivesResults session nodes root s (s.result root))
  (hraw : ∀ n, nodes.Reachable root n → s.IsRaw n (nodes.content n) (raw n))
  (hbound : ∀ b ∈ s.built, b.2 < s.objects.size)
include hgives hraw

theorem result_of_untagged (hn : nodes.Reachable root n) (ht : nodes.tag n = none) :
    s.result n = raw n := by
  have hat : session.converterAt nodes n = none := by simp [Session.converterAt, ht]
  have hresult := (LoadState.isResult_of_none hat).1 (hgives.isResult n hn)
  exact hgives.isRaw_unique hresult (hraw n hn)

include hbound

theorem raw_of_container (hn : nodes.Reachable root n) (hct : ∀ v, nodes.content n ≠ .scalar v) :
    ∃ id, raw n = .ref id ∧ id < s.objects.size ∧
      (nodes.content n).BuiltWith s.result (s.objects.read id) := by
  obtain ⟨id, hb⟩ := hgives.built n hn hct
  have hid := hgives.isRaw_unique (hraw n hn) (isRaw_of_mem_built hb hct)
  exact ⟨id, hid, hbound _ hb, hgives.builtWith n id hb⟩

theorem shows_raw (hn : nodes.Reachable root n) : Shows nodes n (raw n) s.objects := by
  have hleaf (c : NodeId) (hc : c ∈ nodes.children n) (v : Scalar) (ht : nodes.tag c = none)
      (hct : nodes.content c = .scalar v) : s.result c = ofScalar v := by
    have h := hraw c (hn.step hc)
    rw [hct] at h
    exact (result_of_untagged hgives hraw (hn.step hc) ht).trans h
  unfold NodeGraph.children at hleaf
  have hbuilt := raw_of_container hgives hraw hbound hn
  unfold Shows
  cases hct : nodes.content n with
  | scalar v =>
    have h := hraw n hn
    rwa [hct] at h
  | sequence | mapping =>
    rw [hct] at hleaf hbuilt
    obtain ⟨id, hid, hlt, hbuilt⟩ := hbuilt nofun
    exact ⟨id, s.result, hid, hlt, hbuilt, hleaf⟩

variable (hinst : Instances P nodes ready [] s)
  (hall : ∀ n, nodes.Reachable root n → nodes.tag n ≠ none → ∃ w ∈ ready, w.node = n)
include hinst hall

theorem result_of_tagged {t : TagUri} (hn : nodes.Reachable root n) (ht : nodes.tag n = some t) :
    ∃ w : Wrapper, w.node = n ∧ w.tag = t ∧ w.raw = raw n ∧ s.result n = .ref w.id ∧
      w.id < s.objects.size ∧ ∀ k, Fixes (· < s.objects.size) s.objects k → P w k := by
  obtain ⟨w, hw, rfl⟩ := hall n hn (by simp [ht])
  have hmade := hinst.made w (List.mem_append_left _ hw)
  have hresult : s.result w.node = .ref w.id := by
    rw [LoadState.result, hmade.result]
    rfl
  have hwraw := hgives.isRaw_unique hmade.raw (hraw _ hn)
  refine ⟨w, rfl, Option.some.inj (hmade.tag.symm.trans ht), hwraw, hresult,
    hmade.bound _ hmade.id, fun k hk => ?_⟩
  apply hinst.keeps w hw k (hk.mono hmade.bound)
  have hshows := shows_raw hgives hraw hbound hn
  rw [← hwraw] at hshows
  exact hshows.mono hk fun id hid => hbound _ (mem_built_of_isRaw (hid ▸ hmade.raw))

omit hgives hraw hbound in
theorem node_eq_of_result {id : ObjectId} (hn : nodes.Reachable root n)
    (hm : nodes.Reachable root m) (htn : nodes.tag n ≠ none) (htm : nodes.tag m ≠ none)
    (hnid : s.result n = .ref id) (hmid : s.result m = .ref id) : n = m := by
  obtain ⟨w, hw, rfl⟩ := hall n hn htn
  obtain ⟨w', hw', rfl⟩ := hall m hm htm
  have hmade := hinst.made w (List.mem_append_left _ hw)
  have hmade' := hinst.made w' (List.mem_append_left _ hw')
  rw [LoadState.result, hmade.result] at hnid
  rw [LoadState.result, hmade'.result] at hmid
  have hid : w'.id = w.id := Object.ref.inj (hmid.trans hnid.symm)
  by_contra hne
  -- different instances have no cell in common
  have hapart := hinst.apart.forall (List.mem_append_left _ hw)
    (List.mem_append_left _ hw') fun he => hne (he ▸ rfl)
  exact hapart w.id hmade.id (hid ▸ hmade'.id)

end

theorem load_mirrors (hcov : session.CoversAs P nodes root) (objects : ObjectGraph)
    (warnings : Warnings) : ∃ s raw,
      load session nodes root objects warnings = (.ok (s.result root), s) ∧
      Mirrors P nodes root s.result raw s.objects := by
  obtain ⟨s, ready, hload, hgives, hinst, hbound, hall⟩ := load_succeeds hcov objects warnings
  obtain ⟨raw, hraw⟩ := hgives.exists_raw
  refine ⟨s, raw, hload, ?_⟩
  constructor
  case scalar =>
    intro n hn v hct
    have h := hraw n hn
    rwa [hct] at h
  case container => exact fun n hn hct => raw_of_container hgives hraw hbound hn hct
  case raw_inj =>
    intro n m id hn hm hnid hmid
    have hbn := mem_built_of_isRaw (hnid ▸ hraw n hn)
    have hbm := mem_built_of_isRaw (hmid ▸ hraw m hm)
    exact congrArg Prod.fst (hgives.one _ hbn _ hbm (.inr rfl))
  case untagged => exact fun n hn ht => result_of_untagged hgives hraw hn ht
  case tagged => exact fun n t hn ht => result_of_tagged hgives hraw hbound hinst hall hn ht
  case instance_ne_raw =>
    -- the cells of an instance belong to no list or map that was built
    intro m n id hm ht hn hid hres
    obtain ⟨w, hw, rfl⟩ := hall m hm ht
    have hmade := hinst.made w (List.mem_append_left _ hw)
    rw [LoadState.result, hmade.result] at hres
    obtain rfl : w.id = id := Object.ref.inj hres
    exact hmade.free _ (mem_built_of_isRaw (hid ▸ hraw n hn)) hmade.id
  case instance_inj =>
    exact fun n m id hn hm htn htm hnid hmid =>
      node_eq_of_result hinst hall hn hm htn htm hnid hmid

end Load

end TaggedGraph
