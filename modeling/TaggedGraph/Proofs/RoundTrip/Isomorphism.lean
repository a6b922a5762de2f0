import TaggedGraph.Proofs.RoundTrip.Saved

namespace TaggedGraph

open Traversal Event NodeGraph

variable {session : Session} {nodes : NodeGraph} {root : NodeId} {res raw : NodeId → Object}
  {g : ObjectGraph}

theorem Mirrors.isPlain_iff (h : Mirrors (Wrapper.Serves session) nodes root res raw g) {n : NodeId}
    (hn : nodes.Reachable root n) : nodes.IsPlain n ↔ (res n).scalar?.isSome := by
  constructor
  · intro ⟨ht, v, hct⟩
    rw [h.untagged n hn ht, h.scalar n hn v hct, Load.scalar?_ofScalar]
    rfl
  · intro hv
    cases ht : nodes.tag n with
    | none =>
      refine ⟨ht, ?_⟩
      rcases h.raw_cases hn with ⟨v, hct, -⟩ | ⟨id, hid, -⟩
      · exact ⟨v, hct⟩
      · rw [h.untagged n hn ht, hid] at hv
        cases hv
    | some t =>
      obtain ⟨w, -, -, -, hw, -⟩ := h.tagged n t hn ht
      rw [hw] at hv
      cases hv

namespace Save

namespace Saved

variable {ms : ObjectId → List NodeId} {s : SaveState} {es : List (Event Object)} {m : NodeId}

theorem samePlace (h : Saved session nodes root res raw g ms s es) (hm : s.Stands (res root) m)
    {p : Place} {a b : NodeId} (hab : SamePlace nodes s.nodes root m p a b) :
    nodes.Reachable root a ∧ s.Stands (res a) b ∧
      (p = .start ∧ a = root ∨ ∃ n i, p = .child n i ∧ nodes.Reachable root n ∧
        (nodes.children n)[i]? = some a ∧ (kids ms (raw n))[i]? = some b) := by
  induction hab with
  | start => exact ⟨.refl root, hm, .inl ⟨rfl, rfl⟩⟩
  | @child p a b c d i _ hc hd ih =>
    obtain ⟨ha, hb, -⟩ := ih
    rw [(h.node ha hb).2.2] at hd
    exact ⟨ha.step (List.mem_of_getElem? hc), h.child ha hc hd, .inr ⟨a, i, rfl, ha, hc, hd⟩⟩

theorem eq_iff (h : Saved session nodes root res raw g ms s es) {a a' b b' : NodeId}
    (ha : nodes.Reachable root a) (ha' : nodes.Reachable root a') (hb : s.Stands (res a) b)
    (hb' : s.Stands (res a') b') (hplain : ¬ nodes.IsPlain a) : b = b' ↔ a = a' := by
  rw [h.mirrors.isPlain_iff ha, Bool.not_eq_true, Option.isSome_eq_false_iff,
    Option.isNone_iff_eq_none] at hplain
  rw [SaveState.Stands, hplain] at hb
  obtain ⟨id, hid, hk⟩ := hb
  constructor
  · rintro rfl
    unfold SaveState.Stands at hb'
    split at hb'
    · exact absurd hk (hb'.2.2 id)
    · obtain ⟨id', hid', hk'⟩ := hb'
      obtain rfl := h.nodes.inj id id' b hk hk'
      exact h.mirrors.res_inj ha ha' hid hid'
  · rintro rfl
    rw [SaveState.Stands, hplain] at hb'
    obtain ⟨id', hid', hk'⟩ := hb'
    cases hid.symm.trans hid'
    exact Option.some.inj (hk.symm.trans hk')

theorem place_eq_iff (h : Saved session nodes root res raw g ms s es) {a b b' n n' : NodeId}
    {i i' : Nat} (ha : nodes.Reachable root a) (hn : nodes.Reachable root n)
    (hn' : nodes.Reachable root n') (hplain : nodes.IsPlain a)
    (hc : (nodes.children n)[i]? = some a) (hd : (kids ms (raw n))[i]? = some b)
    (hd' : (kids ms (raw n'))[i']? = some b') : b = b' ↔ n = n' ∧ i = i' := by
  constructor
  · rintro rfl
    obtain ⟨id, hid, hd⟩ := eq_ref_of_kids hd
    obtain ⟨id', hid', hd'⟩ := eq_ref_of_kids hd'
    have hr := h.refer hn hid hc hd
    have hscalar := (h.mirrors.isPlain_iff ha).1 hplain
    obtain ⟨rfl, rfl⟩ := h.nodes.once id i _ id' i' b hr hscalar hd hd'
    exact ⟨h.mirrors.raw_inj n n' id hn hn' hid hid', rfl⟩
  · rintro ⟨rfl, rfl⟩
    exact Option.some.inj (hd.symm.trans hd')

theorem isomorphic (h : Saved session nodes root res raw g ms s es) (hm : s.Stands (res root) m)
    (hroot : ¬ nodes.IsPlain root) : Isomorphic nodes s.nodes root m where
  tag p a b hab := by
    obtain ⟨ha, hb, -⟩ := h.samePlace hm hab
    exact (h.node ha hb).1.symm
  shape p a b hab := by
    obtain ⟨ha, hb, -⟩ := h.samePlace hm hab
    exact (h.node ha hb).2.1
  shared p a b p' a' b' hab hab' hplain := by
    obtain ⟨ha, hb, -⟩ := h.samePlace hm hab
    obtain ⟨ha', hb', -⟩ := h.samePlace hm hab'
    exact h.eq_iff ha ha' hb hb' hplain
  unshared p a b p' a' b' hab hab' hplain := by
    obtain ⟨ha, hb, hp⟩ := h.samePlace hm hab
    obtain ⟨ha', hb', hp'⟩ := h.samePlace hm hab'
    obtain ⟨-, rfl⟩ | ⟨n, i, rfl, hn, hc, hd⟩ := hp
    · exact absurd hplain hroot
    obtain ⟨rfl, rfl⟩ | ⟨n', i', rfl, hn', hc', hd'⟩ := hp'
    · refine iff_of_false (fun he => ?_) nofun
      have he := (h.eq_iff ha' ha hb' hb hroot).1 he.symm
      exact hroot (he ▸ hplain)
    · rw [h.place_eq_iff ha hn hn' hplain hc hd hd', Place.child.injEq]

end Saved

/-- The node of an instance is copied from the node of its raw value when that is finished. -/
theorem leave_mem_of_answer (hm : Mirrors (Wrapper.Serves session) nodes root res raw g)
    {s : SaveState} (hf : Follows nodes root res raw g s) {depth : Nat} {x id z : ObjectId}
    {tag : Option TagUri} (hx : res root = .ref x)
    (hs : s.sources.lookup id = some (.answer tag (.ref z))) {pre : List (Event Object)}
    (hp : pre ++ [refer (.ref id) 0 (.ref z)] <+: walk s.links depth [] (.ref x))
    (hmet : enter (.ref z) ∈ pre) : leave (.ref z) ∈ pre := by
  obtain ⟨n, t, hn, ht, hid, hz⟩ : ∃ n t, nodes.Reachable root n ∧ nodes.tag n = some t ∧
      res n = .ref id ∧ raw n = .ref z := by
    cases hf.sources id _ hs with
    | @container n hn hid hsrc => cases hct : nodes.content n <;> rw [hct] at hsrc <;> cases hsrc
    | wrapper hn ht hid hsrc => exact ⟨_, _, hn, ht, hid, (Source.answer.inj hsrc).2.symm⟩
  have htag : nodes.tag n ≠ none := by simp [ht]
  -- the raw value of a node with a tag is a part of its instance only
  have honly (p : Object) (hzp : .ref z ∈ s.links p) : p = .ref id := by
    cases p with
    | ref y =>
      cases hy : s.sources.lookup y with
      | none => simp [SaveState.links, hy] at hzp
      | some src =>
        rw [SaveState.links_eq hy] at hzp
        cases hf.sources y src hy with
        | container hm' hmid hsrc =>
          rw [hsrc.parts] at hzp
          obtain ⟨c, hc, hres⟩ := List.mem_map.1 hzp
          exact absurd hres (hm.res_ne_raw (hm'.step hc) hn htag hz)
        | wrapper hm' htm hmid hsrc =>
          subst hsrc
          obtain rfl := hm.raw_inj _ n z hm' hn (List.mem_singleton.1 hzp).symm hz
          exact hmid.symm.trans hid
    | _ => simp [SaveState.links] at hzp
  have hne : Object.ref z ≠ .ref id := fun he =>
    hm.instance_ne_raw hn htag hn hz (hid.trans he.symm)
  have hroot : Object.ref x ≠ .ref z := fun he =>
    hm.res_ne_raw (.refl root) hn htag hz (hx.trans he)
  -- so it is not met before the instance, and left when the instance refers to it
  have halone := alone_walk (SaveState.links_eq hs) honly hne depth [] (.ref x) hroot
    ⟨by simp, by simp, by simp⟩
  exact halone.left pre hp hmet

theorem exists_saved (hm : Mirrors (Wrapper.Serves session) nodes root res raw g) {s : SaveState}
    (hf : Follows nodes root res raw g s) {depth : Nat} {x : ObjectId} {m : NodeId}
    (hx : res root = .ref x) (hsave : save session depth (.ref x) g = (.ok m, s)) :
    ∃ ms es, Saved session nodes root res raw g ms s es ∧ s.Stands (res root) m := by
  obtain ⟨hsteps, rfl, hroot⟩ := save_steps hsave
  have ht := hsteps.tracks (.nil g)
  obtain ⟨ms, hnodes⟩ := hsteps.nodes (.nil g) ⟨_, .nil g⟩
  refine ⟨ms, _, ⟨hm, hf, ht, hnodes, fun _ => leave_mem_walk, fun id tag o pre hs hp => ?_⟩, ?_⟩
  · by_contra hl
    have he := (ht.trace.refers _ 0 o (mem_of_split hp)).1
    obtain ⟨n, hn⟩ := ht.exists_memo he
    obtain ⟨node, -, -, hopen⟩ := hnodes.copies id tag o n pre hs hn hp
    obtain ⟨z, src, ms', rfl, -⟩ := hopen hl
    exact hl (leave_mem_of_answer hm hf hx hs hp (ht.trace.met _ 0 _ pre hp))
  · obtain ⟨n, hn⟩ := ht.exists_memo hroot
    rw [hx]
    exact ⟨x, rfl, by simp [SaveState.nodeId, hn]⟩

end Save

/-- Every graph whose tags have converters that wrap is loaded, and the result is saved as the same
graph. -/
theorem save_load_isomorphic (hcov : session.Covers nodes root) (objects : ObjectGraph)
    (warnings : Warnings) : ∃ o s, load session nodes root objects warnings = (.ok o, s) ∧
      ∀ depth, s.objects.size < depth → ∃ m s', save session depth o s.objects = (.ok m, s') ∧
        Isomorphic nodes s'.nodes root m := by
  obtain ⟨s, raw, hload, hm⟩ := Load.load_mirrors hcov.coversAs objects warnings
  refine ⟨s.result root, s, hload, fun depth hdepth => ?_⟩
  obtain ⟨m, s', hsave, hf⟩ := Save.save_succeeds hm hdepth
  refine ⟨m, s', hsave, ?_⟩
  by_cases hplain : nodes.IsPlain root
  · obtain ⟨depth, rfl⟩ : ∃ d, depth = d + 1 := ⟨depth - 1, by omega⟩
    have hscalar := (hm.isPlain_iff (.refl root)).1 hplain
    obtain ⟨rfl, rfl⟩ := (Save.yields_convert_scalar session depth _ hscalar _ m s').1 hsave
    obtain ⟨ht, v, hct⟩ := hplain
    rw [hm.untagged root (.refl root) ht, hm.scalar root (.refl root) v hct]
    exact isomorphic_of_scalar ht hct (by cases v <;> exact Heap.read_alloc_self _ _)
  · have hknown := Save.known_cases hm ⟨root, .refl root, .inl rfl⟩
    obtain ⟨x, hx⟩ := hknown.resolve_left fun hv => hplain ((hm.isPlain_iff (.refl root)).2 hv)
    rw [hx] at hsave
    obtain ⟨ms, es, hsaved, hroot⟩ := Save.exists_saved hm hf hx hsave
    exact hsaved.isomorphic hroot hplain

theorem holdingSession_covers : holdingSession.Covers holdingNodes 0 := by
  intro n t _ ht
  match n, ht with
  | 0, ht => cases ht
  | 1, ht =>
    obtain rfl : tagNow = t := Option.some.inj ht
    exact ⟨_, rfl, holding_wraps 1 rfl rfl fun _ _ => rfl⟩
  | 2, ht =>
    obtain rfl : tagLater = t := Option.some.inj ht
    exact ⟨_, rfl, holdingLater_wraps 2 rfl rfl fun _ _ => rfl⟩
  | 3, ht => cases ht
  | n + 4, ht =>
    rw [NodeGraph.tag, Heap.read_of_size_le _ _ (Nat.le_add_left 4 n)] at ht
    cases ht

theorem save_load_isomorphic_holding : holdingSession.Covers holdingNodes 0 ∧
    ∃ o s, load holdingSession holdingNodes 0 ∅ ⟨[], []⟩ = (.ok o, s) ∧
      ∀ depth, s.objects.size < depth →
        ∃ m s', save holdingSession depth o s.objects = (.ok m, s') ∧
          Isomorphic holdingNodes s'.nodes 0 m :=
  ⟨holdingSession_covers, save_load_isomorphic holdingSession_covers ∅ ⟨[], []⟩⟩

end TaggedGraph
