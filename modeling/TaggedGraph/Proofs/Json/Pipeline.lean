import TaggedGraph.Proofs.Json.LoadedTrees

namespace TaggedGraph

section Trees
variable {v : Json}

theorem NodeGraph.unconverted_addJson (session : Session) (hv : v.Valid) (g : NodeGraph) :
    Load.Unconverted session (g.addJson v).2 (g.addJson v).1 := by
  intro n t hn ht
  obtain ⟨w, hw⟩ := (addJson_grows hv g).2.spells.reachable hn
  cases hw.tag_eq_none.symm.trans ht

/-- The load of the nodes for the data is equal to the objects for the data. -/
theorem Load.load_addJson (session : Session) (hv : v.Valid) (nodes : NodeGraph)
    (objects : ObjectGraph) (warnings : Warnings) : ∃ o s,
      load session (nodes.addJson v).2 (nodes.addJson v).1 objects warnings = (.ok o, s) ∧
      (s.objects.addJson v).2.equal? o (s.objects.addJson v).1 = some true := by
  have h := nodes.unconverted_addJson session hv
  obtain ⟨s, hload, hgives, hbound⟩ := load_unconverted h objects warnings
  obtain ⟨hk, hrank, hspells⟩ := ObjectGraph.addJson_grows hv s.objects
  refine ⟨_, s, hload, hgives.equalWithin_of_spells h hbound hk
    (NodeGraph.addJson_grows hv nodes).2.spells (.refl _) hv hspells ?_ []⟩
  refine Nat.lt_succ_of_le (Nat.le_trans hrank ?_)
  exact Nat.le_trans (Nat.le_succ _) (Nat.le_mul_of_pos_left _ (Nat.succ_pos _))

/-- The nodes of the objects for the data have the same data as the nodes for the data. -/
theorem save_addJson (session : Session) (hv : v.Valid) (g : ObjectGraph) (nodes : NodeGraph)
    {depth : Nat} (hdepth : 2 * (g.addJson v).2.size < depth) : ∃ m s,
      save session depth (g.addJson v).1 (g.addJson v).2 = (.ok m, s) ∧
      s.nodes.toJson? m = (nodes.addJson v).2.toJson? (nodes.addJson v).1 := by
  have htree := (ObjectGraph.addJson_grows hv g).2
  obtain ⟨m, s, hsave, hjson⟩ := save_keeps_json htree.closed htree.raw htree.complete hdepth
  exact ⟨m, s, hsave, by rw [hjson, ObjectGraph.toJson?_addJson hv, NodeGraph.toJson?_addJson hv]⟩

end Trees

/-- Where no converter is called, a load and a save keep the data that there is, and data that
there is not stays away. Data that comes in as nodes is loaded as if it had come in as objects, and
data that comes in as objects is saved as if it had come in as nodes. -/
theorem conversions_keep_json (session : Session) :
    (∀ nodes root objects warnings, Load.Unconverted session nodes root →
      ∃ o s, load session nodes root objects warnings = (.ok o, s) ∧
        s.objects.toJson? o = nodes.toJson? root) ∧
    (∀ (g : ObjectGraph) root depth, g.Closed root → g.Raw root → g.Complete root →
      2 * g.size < depth → ∃ m s, save session depth root g = (.ok m, s) ∧
        s.nodes.toJson? m = g.toJson? root) ∧
    ∀ v : Json, v.Valid →
      (∀ (nodes : NodeGraph) objects warnings, ∃ o s,
        load session (nodes.addJson v).2 (nodes.addJson v).1 objects warnings = (.ok o, s) ∧
        (s.objects.addJson v).2.equal? o (s.objects.addJson v).1 = some true) ∧
      ∀ (g : ObjectGraph) (nodes : NodeGraph) depth, 2 * (g.addJson v).2.size < depth → ∃ m s,
        save session depth (g.addJson v).1 (g.addJson v).2 = (.ok m, s) ∧
        s.nodes.toJson? m = (nodes.addJson v).2.toJson? (nodes.addJson v).1 := by
  refine ⟨fun nodes root objects warnings h => ?_, fun g root depth hclosed hraw hcomplete hdepth =>
    ?_, fun v hv => ⟨fun nodes objects warnings => ?_, fun g nodes depth hdepth => ?_⟩⟩
  · exact Load.load_keeps_json h objects warnings
  · exact save_keeps_json hclosed hraw hcomplete hdepth
  · exact Load.load_addJson session hv nodes objects warnings
  · exact save_addJson session hv g nodes hdepth

def tangledNodes : NodeGraph :=
  ⟨#[⟨some tagUnknown, .sequence [0, 1]⟩,
    ⟨some tagUnknown, .mapping (.ofList [("b", 2), ("a", 2)])⟩, ⟨none, .sequence [3]⟩,
    ⟨none, .scalar (.int 5)⟩]⟩

def tangledObjects : ObjectGraph :=
  ⟨#[.list [.ref 0, .ref 1], .map (.ofList [("b", .ref 2), ("a", .ref 2)]), .list [.int 5]]⟩

/-- The number has no sign and needs all of 64 bits. -/
def sampleJson : Json :=
  .object [("list", .array [.null, .bool true]), ("number", .number (.int 0xFFFFFFFFFFFFFFFF))]

theorem sampleJson_valid : sampleJson.Valid := by
  have hlist : (Json.array [.null, .bool true]).Valid :=
    .array _ (by simp [Json.Valid.null, Json.Valid.bool])
  have hnumber : (Json.number (.int 0xFFFFFFFFFFFFFFFF)).Valid :=
    .number _ (by simp [JsonNumber.Valid])
  exact .object _ (by unfold Ascending.Sorted; decide +kernel) (by simp [hlist, hnumber])

theorem conversions_keep_json_tangled :
    (Load.Unconverted holdingSession tangledNodes 0 ∧ tangledNodes.toJson? 0 = none ∧
      ∃ o s, load holdingSession tangledNodes 0 ∅ ⟨[], []⟩ = (.ok o, s) ∧
        s.objects.toJson? o = tangledNodes.toJson? 0) ∧
    (tangledObjects.Closed (.ref 1) ∧ tangledObjects.Raw (.ref 1) ∧
      tangledObjects.Complete (.ref 1) ∧ (tangledObjects.toJson? (.ref 1)).isSome ∧
      ∃ m s, save holdingSession 7 (.ref 1) tangledObjects = (.ok m, s) ∧
        s.nodes.toJson? m = tangledObjects.toJson? (.ref 1)) ∧
    sampleJson.Valid ∧
    (∃ o s, load holdingSession (NodeGraph.addJson ∅ sampleJson).2
        (NodeGraph.addJson ∅ sampleJson).1 ∅ ⟨[], []⟩ = (.ok o, s) ∧
      (s.objects.addJson sampleJson).2.equal? o (s.objects.addJson sampleJson).1 = some true) ∧
    ∃ m s, save holdingSession 5 (ObjectGraph.addJson ∅ sampleJson).1
        (ObjectGraph.addJson ∅ sampleJson).2 = (.ok m, s) ∧
      s.nodes.toJson? m =
        (NodeGraph.addJson ∅ sampleJson).2.toJson? (NodeGraph.addJson ∅ sampleJson).1 := by
  obtain ⟨hload, hsave, hdata⟩ := conversions_keep_json holdingSession
  have hunconverted : Load.Unconverted holdingSession tangledNodes 0 :=
    Load.unconverted_of_forall (by decide +kernel)
  have hclosed : tangledObjects.Closed (.ref 1) := ObjectGraph.closed_of_lt (by decide) (by decide)
  have hraw : tangledObjects.Raw (.ref 1) := ObjectGraph.forall_reachable (by decide) (by decide)
  have hcomplete : tangledObjects.Complete (.ref 1) :=
    ObjectGraph.forall_reachable (by decide) (by decide)
  exact ⟨⟨hunconverted, by rfl, hload _ _ _ _ hunconverted⟩,
    ⟨hclosed, hraw, hcomplete, by rfl, hsave _ _ _ hclosed hraw hcomplete (by decide)⟩,
    sampleJson_valid, (hdata sampleJson sampleJson_valid).1 _ _ _,
    (hdata sampleJson sampleJson_valid).2 ∅ ∅ 5 (by decide +kernel)⟩

end TaggedGraph
