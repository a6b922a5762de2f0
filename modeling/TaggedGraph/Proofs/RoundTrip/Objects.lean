import TaggedGraph.Proofs.Load.Unresolved
import TaggedGraph.Proofs.RoundTrip.Reloaded

namespace TaggedGraph

variable {session : Session} {g : ObjectGraph} {root : Object} {nodes : NodeGraph} {m : NodeId}
  {stands : Object → NodeId → Prop} {depth : Nat}

theorem ObjectGraph.Raw.restorable (hraw : g.Raw root) (hclosed : g.Closed root)
    (session : Session) : Restorable session g root where
  closed := hclosed
  restores _ _ _ hid hcell := absurd hcell (hraw.ne_native hid)
  payload hid hcell := absurd hcell (hraw.ne_native hid)

theorem ObjectGraph.Raw.not_carries (hraw : g.Raw root) (a : Object) (b : NodeId) :
    ¬ Carries g root stands a b := by
  rintro ⟨id, type, hid, hcell, -⟩
  exact hraw.ne_native hid hcell

theorem Written.any_session (h : Written session g root nodes m stands) (hraw : g.Raw root)
    (session' : Session) : Written session' g root nodes m stands where
  start := h.start
  raw := h.raw
  instances {id type payload b} hid hcell hstands :=
    absurd ⟨id, type, hid, hcell, hstands⟩ (hraw.not_carries payload b)
  inj := h.inj
  unique := h.unique

theorem Written.tag_eq_none (h : Written session g root nodes m stands) (hraw : g.Raw root)
    {b : NodeId} (hb : nodes.Reachable m b) : nodes.tag b = none := by
  obtain ⟨a, ha, hstands⟩ := h.exists_object hb
  exact (h.raw ha (hraw a ha) hstands).1

theorem Load.warnings_of_untagged {objects : ObjectGraph} {warnings : Warnings} {o : Object}
    {s : LoadState} (h : load session nodes m objects warnings = (.ok o, s))
    (ht : ∀ n, nodes.Reachable m n → nodes.tag n = none) : s.warnings = warnings := by
  obtain ⟨order, -, horder, hw⟩ := load_notes h
  obtain rfl := horder o rfl
  have hnone : unresolvedTags session nodes (nodes.postorder m) = [] := by
    apply List.eq_nil_iff_forall_not_mem.2
    intro t hmem
    obtain ⟨n, hn, htag, -⟩ := mem_unresolvedTags.1 hmem
    rw [ht n (NodeGraph.mem_postorder.1 hn)] at htag
    cases htag
  rw [hw, unresolvedWarnings, hnone]
  split <;> exact Warnings.append_nil _

/-- Lists, maps and primitives can be saved iff nothing among them is pending. Then every session
loads the same graph again, with the same cycles and the same sharing. -/
theorem save_load_raw (session : Session) (hclosed : g.Closed root) (hraw : g.Raw root)
    (hdepth : 2 * g.size < depth) :
    ((∃ m s, save session depth root g = (.ok m, s)) ↔ g.Complete root) ∧
      ∀ m s, save session depth root g = (.ok m, s) → ∀ session' objects warnings,
        ∃ o s', load session' s.nodes m objects warnings = (.ok o, s') ∧
          s'.warnings = warnings ∧ g.Isomorphic s'.objects root o := by
  have hrestorable := hraw.restorable hclosed session
  have hwritten (m : NodeId) (s : SaveState) (hsave : save session depth root g = (.ok m, s)) :
      Written session g root s.nodes m s.Stands :=
    Save.save_written hrestorable (.inr hraw) hsave
  refine ⟨⟨?_, fun hcomplete => Save.save_restorable hrestorable hcomplete hdepth⟩, ?_⟩
  · rintro ⟨m, s, hsave⟩
    exact fun o ho => (hwritten m s hsave).isPending ho
  · intro m s hsave session' objects warnings
    have h := (hwritten m s hsave).any_session hraw session'
    obtain ⟨s', raw, hload, hm⟩ := Load.load_mirrors h.covers objects warnings
    refine ⟨s'.result m, s', hload, ?_, alike_of_mirrors h hm, fun a b a' b' hab hab' => ?_⟩
    · exact Load.warnings_of_untagged hload fun n hn => h.tag_eq_none hraw hn
    · exact isSame_iff_of_samePlace h hm (hraw.not_carries a) hab hab'

def mutualObjects : ObjectGraph :=
  ⟨#[.list [.ref 1, .bytes [0, 255], .ref 1], .map (.ofList [("back", .ref 0), ("x", .float ⟨1⟩)])]⟩

theorem save_load_raw_mutual : mutualObjects.Closed (.ref 0) ∧ mutualObjects.Raw (.ref 0) ∧
    2 * mutualObjects.size < 5 ∧
    ((∃ m s, save holdingSession 5 (.ref 0) mutualObjects = (.ok m, s)) ↔
      mutualObjects.Complete (.ref 0)) ∧
    ∀ m s, save holdingSession 5 (.ref 0) mutualObjects = (.ok m, s) →
      ∀ session' objects warnings, ∃ o s', load session' s.nodes m objects warnings = (.ok o, s') ∧
        s'.warnings = warnings ∧ mutualObjects.Isomorphic s'.objects (.ref 0) o := by
  have hclosed : mutualObjects.Closed (.ref 0) :=
    ObjectGraph.closed_of_lt (by decide) (by decide)
  have hraw : mutualObjects.Raw (.ref 0) :=
    ObjectGraph.forall_reachable (by decide) (by decide)
  have hdepth : 2 * mutualObjects.size < 5 := by decide
  exact ⟨hclosed, hraw, hdepth, save_load_raw holdingSession hclosed hraw hdepth⟩

/-- A graph without cycles whose instances have converters that restore them is saved, and loaded
as an equal graph with the same instances. -/
theorem save_load_restored (hclosed : g.Closed root) (hacyclic : g.Acyclic root)
    (hcomplete : g.Complete root) (hholds : g.HoldsRaw root) (hrestores : session.Restores g root)
    (hdepth : 2 * g.size < depth) : ∃ m s, save session depth root g = (.ok m, s) ∧
      ∀ objects warnings, ∃ o s', load session s.nodes m objects warnings = (.ok o, s') ∧
        g.Restored s'.objects root o := by
  have hrestorable : Restorable session g root := by
    refine ⟨hclosed, hrestores, fun {id type payload} hid hcell => ?_⟩
    exact ⟨hcomplete payload (hid.held hcell), hholds id type payload hid hcell⟩
  obtain ⟨m, s, hsave⟩ := Save.save_restorable hrestorable hcomplete hdepth
  have h := Save.save_written hrestorable (.inl hacyclic) hsave
  refine ⟨m, s, hsave, fun objects warnings => ?_⟩
  obtain ⟨s', raw, hload, hm⟩ := Load.load_mirrors h.covers objects warnings
  refine ⟨s'.result m, s', hload, alike_of_mirrors h hm, fun a b a' b' hab hab' hnative => ?_⟩
  refine isSame_iff_of_samePlace h hm (fun c hcarries => ?_) hab hab'
  obtain ⟨id, type, hid, hcell, -⟩ := hcarries
  rw [hholds id type a hid hcell] at hnative
  cases hnative

/-- The converters of `holdingSession` restore the instances of their types. -/
theorem holdingSession_restores (hclosed : g.Closed root)
    (htypes : ∀ i < g.size, ∀ held ∈ g.native? (.ref i),
      held.1 = typeNow ∨ held.1 = typeLater) : holdingSession.Restores g root := by
  intro id type payload hid hcell
  have hlt : id < g.size := hclosed id hid
  have htype : type = typeNow ∨ type = typeLater :=
    htypes id hlt _ (ObjectGraph.native?_ref hcell)
  rcases htype with rfl | rfl
  · exact ⟨_, tagNow, rfl, rfl, holding_writes hlt hcell rfl fun _ _ => rfl, holding_rebuilds rfl⟩
  · exact ⟨_, tagLater, rfl, rfl, holding_writes hlt hcell rfl fun _ _ => rfl,
      holdingLater_rebuilds rfl⟩

/-- An instance that is held twice. Its payload is a list that is held as well, and which contains
another instance. -/
def heldObjects : ObjectGraph :=
  ⟨#[.list [.ref 1, .ref 2, .ref 1], .native typeNow (.ref 2), .list [.int 1, .ref 3],
    .native typeLater (.string "x")]⟩

theorem save_load_restored_held : heldObjects.Closed (.ref 0) ∧ heldObjects.Acyclic (.ref 0) ∧
    heldObjects.Complete (.ref 0) ∧ heldObjects.HoldsRaw (.ref 0) ∧
    holdingSession.Restores heldObjects (.ref 0) ∧ 2 * heldObjects.size < 9 ∧
    ∃ m s, save holdingSession 9 (.ref 0) heldObjects = (.ok m, s) ∧ ∀ objects warnings,
      ∃ o s', load holdingSession s.nodes m objects warnings = (.ok o, s') ∧
        heldObjects.Restored s'.objects (.ref 0) o := by
  have hclosed : heldObjects.Closed (.ref 0) :=
    ObjectGraph.closed_of_lt (by decide) (by decide)
  have hacyclic : heldObjects.Acyclic (.ref 0) :=
    ObjectGraph.acyclic_of_lt hclosed (by decide)
  have hcomplete : heldObjects.Complete (.ref 0) :=
    ObjectGraph.forall_reachable rfl (by decide)
  have hflat : ∀ i < heldObjects.size, ∀ held ∈ heldObjects.native? (.ref i),
      heldObjects.native? held.2 = none := by decide
  have hholds : heldObjects.HoldsRaw (.ref 0) := fun id _ _ hid hcell =>
    hflat id (hclosed id hid) _ (ObjectGraph.native?_ref hcell)
  have hrestores : holdingSession.Restores heldObjects (.ref 0) :=
    holdingSession_restores hclosed (by decide)
  have hdepth : 2 * heldObjects.size < 9 := by decide
  exact ⟨hclosed, hacyclic, hcomplete, hholds, hrestores, hdepth,
    save_load_restored hclosed hacyclic hcomplete hholds hrestores hdepth⟩

end TaggedGraph
