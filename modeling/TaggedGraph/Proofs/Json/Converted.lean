import TaggedGraph.Proofs.Json.Encoders
import TaggedGraph.Proofs.Load.Unconverted
import TaggedGraph.Proofs.RoundTrip.Objects
import TaggedGraph.Proofs.RoundTrip.SaveSucceeds

namespace TaggedGraph

section
variable {g : ObjectGraph} {R S : Object → NodeId → Prop} {a : Object} {ct : Content} {cell : Cell}

theorem Content.BuiltWith.writtenAs {res : NodeId → Object} (h : ct.BuiltWith res cell)
    (hR : ∀ c ∈ ct.children, R (res c) c) : cell.WrittenAs R ct := by
  cases ct with
  | scalar => exact h.elim
  | sequence items =>
    obtain rfl : cell = _ := h
    exact ⟨items, rfl, List.forall₂_map_left_iff.2 (List.forall₂_same.2 hR)⟩
  | mapping entries =>
    obtain rfl : cell = _ := h
    refine ⟨entries, rfl, (OrderedMap.keys_map res entries).symm, ?_⟩
    rw [OrderedMap.values_map]
    exact List.forall₂_map_left_iff.2 (List.forall₂_same.2 hR)

theorem Cell.WrittenAs.imp (h : cell.WrittenAs R ct) (hRS : ∀ o ∈ cell.parts, ∀ c, R o c → S o c) :
    cell.WrittenAs S ct := by
  have hparts {os : List Object} {cs : List NodeId} (hos : ∀ o ∈ os, ∀ c, R o c → S o c)
      (hrel : List.Forall₂ R os cs) : List.Forall₂ S os cs :=
    List.forall₂_iff_zip.2 ⟨hrel.length_eq, fun hmem =>
      hos _ (List.of_mem_zip hmem).1 _ (List.forall₂_zip hrel hmem)⟩
  cases cell with
  | list items =>
    obtain ⟨ns, hct, hrel⟩ := h
    exact ⟨ns, hct, hparts hRS hrel⟩
  | map entries =>
    obtain ⟨m, hct, hkeys, hrel⟩ := h
    exact ⟨m, hct, hkeys, hparts hRS hrel⟩
  | native => exact h

theorem ObjectGraph.WrittenAs.imp (h : g.WrittenAs R a ct)
    (hRS : ∀ o ∈ g.parts a, ∀ c, R o c → S o c) : g.WrittenAs S a ct := by
  cases a with
  | ref i => exact Cell.WrittenAs.imp h hRS
  | _ => exact h

end

namespace Load

variable {session : Session} {nodes : NodeGraph} {root n : NodeId} {s : LoadState} {o : Object}

/-- The result of a node is its scalar, or the list or map that was built for it. -/
theorem GivesResults.result_cases (hgives : GivesResults session nodes root s o)
    (h : Unconverted session nodes root) (hn : nodes.Reachable root n) :
    (∃ v, nodes.content n = .scalar v ∧ s.result n = ofScalar v) ∨
      ∃ id, (n, id) ∈ s.built ∧ s.result n = .ref id := by
  have hraw := (LoadState.isResult_of_none (h.converterAt hn)).1 (hgives.isResult n hn)
  cases hct : nodes.content n with
  | scalar v =>
    rw [hct] at hraw
    exact .inl ⟨v, rfl, hraw⟩
  | sequence | mapping =>
    rw [hct] at hraw
    exact .inr hraw

theorem GivesResults.pictures (hgives : GivesResults session nodes root s o)
    (h : Unconverted session nodes root) :
    Pictures s.objects nodes fun a b => nodes.Reachable root b ∧ a = s.result b where
  written {a b} hab := by
    obtain ⟨hb, rfl⟩ := hab
    rcases hgives.result_cases h hb with ⟨v, hct, hv⟩ | ⟨id, hbuilt, hid⟩
    · rw [hct, hv]
      exact ObjectGraph.writtenAs_scalar (scalar?_ofScalar v)
    · rw [hid]
      exact (hgives.builtWith b id hbuilt).writtenAs fun c hc => ⟨hb.step hc, rfl⟩
  inj hi ha := ha.2.trans hi.2.symm
  unique {i b b'} hb hb' := by
    obtain ⟨hb, hi⟩ := hb
    obtain ⟨hb', hi'⟩ := hb'
    rcases hgives.result_cases h hb with ⟨v, -, hv⟩ | ⟨id, hbuilt, hid⟩
    · cases v <;> cases hi.trans hv
    rcases hgives.result_cases h hb' with ⟨v, -, hv⟩ | ⟨id', hbuilt', hid'⟩
    · cases v <;> cases hi'.trans hv
    cases hi.trans hid
    cases hi'.trans hid'
    exact congrArg Prod.fst (hgives.one _ hbuilt _ hbuilt' (.inr rfl))

/-- The objects of nodes without converters have the data of the nodes. -/
theorem load_keeps_json (h : Unconverted session nodes root) (objects : ObjectGraph)
    (warnings : Warnings) : ∃ o s, load session nodes root objects warnings = (.ok o, s) ∧
      s.objects.toJson? o = nodes.toJson? root := by
  obtain ⟨s, hload, hgives, -⟩ := load_unconverted h objects warnings
  exact ⟨_, s, hload, (hgives.pictures h).toJson?_eq ⟨.refl root, rfl⟩⟩

end Load

section
variable {session : Session} {g : ObjectGraph} {root : Object} {nodes : NodeGraph} {m : NodeId}
  {stands : Object → NodeId → Prop} {depth : Nat}

theorem Written.pictures (h : Written session g root nodes m stands) (hraw : g.Raw root) :
    Pictures g nodes fun a b => g.Reachable root a ∧ stands a b where
  written {a b} hab := by
    obtain ⟨ha, hstands⟩ := hab
    exact (h.raw ha (hraw a ha) hstands).2.imp fun o ho c hc => ⟨ha.step ho, hc⟩
  inj hi ha := h.inj hi.2 ha.2
  unique hb hb' := h.unique hb.2 hb'.2

/-- The nodes of lists, maps and primitives have the data of the objects. -/
theorem save_keeps_json (hclosed : g.Closed root) (hraw : g.Raw root) (hcomplete : g.Complete root)
    (hdepth : 2 * g.size < depth) : ∃ m s, save session depth root g = (.ok m, s) ∧
      s.nodes.toJson? m = g.toJson? root := by
  have hrestorable := hraw.restorable hclosed session
  obtain ⟨m, s, hsave⟩ := Save.save_restorable hrestorable hcomplete hdepth
  have hwritten := Save.save_written hrestorable (.inr hraw) hsave
  exact ⟨m, s, hsave, ((hwritten.pictures hraw).toJson?_eq ⟨.refl root, hwritten.start⟩).symm⟩

end

end TaggedGraph
