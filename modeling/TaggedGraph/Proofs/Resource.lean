import TaggedGraph.Proofs.Ascending
import TaggedGraph.Proofs.Bisimilar
import TaggedGraph.Proofs.FirstOfEach
import TaggedGraph.Resource

namespace TaggedGraph

theorem OrderedMap.keys_ofList {α : Type} (l : List (String × α)) :
    (ofList l).keys = firstOfEach id (l.map Prod.fst) := by
  have hstep (m : OrderedMap α) (e : String × α) :
      (if e.1 ∈ m.keys then m.keys else m.keys ++ [e.1]) = (m.insert e.1 e.2).keys :=
    (keys_insert m e.1 e.2).symm
  rw [← foldl_unseen, List.foldl_map, ofList]
  exact (List.foldl_hom keys hstep).symm

namespace ResourceMapping

variable {mapping : ResourceMapping} {uri : String}

/-- The mapping contains what it can get, and nothing else. -/
def Consistent (mapping : ResourceMapping) : Prop :=
  ∀ uri, mapping.contains uri = (mapping.get uri).isSome

theorem consistent_ofLookup (className : Except Panic String) (get : String → Option ByteList)
    (uris : List String) : (ofLookup className get uris).Consistent :=
  fun _ => rfl

/-- The mapping is a map, which lists its keys in the order of insertion or in ascending order. -/
inductive IsMap : ResourceMapping → Prop
  | insertion (className : String) (m : OrderedMap ByteList) : IsMap (ofInsertion className m)
  | ascending (className : String) (m : OrderedMap ByteList) : IsMap (ofAscending className m)

theorem firstsOf_uris_ofInsertion (className : String) (entries : List (String × ByteList)) :
    FirstsOf (ofInsertion className (.ofList entries)).uris (entries.map Prod.fst) := by
  have huris : (ofInsertion className (.ofList entries)).uris =
      firstOfEach id (entries.map Prod.fst) := OrderedMap.keys_ofList entries
  rw [huris]
  exact firstsOf_firstOfEach _

section
variable (className : String) (m : OrderedMap ByteList)

theorem sorted_uris_ofAscending : Ascending.Sorted id (ofAscending className m).uris :=
  Ascending.sorted_ofList id m.keys

theorem mem_uris_ofAscending : uri ∈ (ofAscending className m).uris ↔ uri ∈ m.keys :=
  Ascending.mem_ofList fun _ _ h => h

/-- In whatever order the map holds its keys, they are listed sorted. -/
theorem uris_ofAscending_eq_mergeSort {keys : List String} (hkeys : keys.Perm m.keys) :
    (ofAscending className m).uris = keys.mergeSort (· ≤ ·) := by
  have hnodup : (m.keys.map id).Nodup := (List.map_id m.keys).symm ▸ m.nodup
  have hperm : (ofAscending className m).uris.Perm (keys.mergeSort (· ≤ ·)) :=
    ((Ascending.ofList_perm hnodup).trans hkeys.symm).trans (List.mergeSort_perm keys _).symm
  have hle : (ofAscending className m).uris.Pairwise (· ≤ ·) :=
    (sorted_uris_ofAscending className m).imp Std.le_of_lt
  exact hperm.eq_of_pairwise (fun _ _ _ _ => String.le_antisymm) hle
    (List.pairwise_mergeSort' (· ≤ ·) keys)

end

theorem IsMap.consistent (h : mapping.IsMap) : mapping.Consistent := by
  cases h with
  | insertion className m => exact consistent_ofLookup _ _ _
  | ascending className m => exact consistent_ofLookup _ _ _

/-- A map lists what it can get. -/
theorem IsMap.mem_uris_iff (h : mapping.IsMap) :
    uri ∈ mapping.uris ↔ (mapping.get uri).isSome = true := by
  rw [Option.isSome_iff_exists]
  cases h with
  | insertion className m => exact OrderedMap.mem_keys
  | ascending className m => exact (mem_uris_ofAscending className m).trans OrderedMap.mem_keys

end ResourceMapping

namespace ResourceManager

variable {ms ms₁ ms₂ : List ProvidedMapping} {uri : String}

theorem get_eq_some_iff {content : ByteList} : (mk ms).get uri = some content ↔
    ∃ before m after, ms = before ++ m :: after ∧ m.mapping.get uri = some content ∧
      ∀ b ∈ before, b.mapping.get uri = none :=
  List.findSome?_eq_some_iff

theorem contains_eq_isSome (h : ∀ m ∈ ms, m.mapping.Consistent) (uri : String) :
    (mk ms).contains uri = ((mk ms).get uri).isSome := by
  rw [contains, get, List.isSome_findSome?, Bool.eq_iff_iff, List.any_eq_true, List.any_eq_true]
  exact exists_congr fun m => and_congr_right fun hm => by rw [h m hm uri]

theorem uris_eq_firstOfEach (ms : List ProvidedMapping) :
    (mk ms).uris = firstOfEach id (ms.flatMap (·.mapping.uris)) :=
  foldl_unseen _

theorem firstsOf_uris (ms : List ProvidedMapping) :
    FirstsOf (mk ms).uris (ms.flatMap (·.mapping.uris)) :=
  uris_eq_firstOfEach ms ▸ firstsOf_firstOfEach _

theorem mem_uris_iff (h : ∀ m ∈ ms, m.mapping.IsMap) :
    uri ∈ (mk ms).uris ↔ (mk ms).contains uri = true := by
  rw [contains_eq_isSome (fun m hm => (h m hm).consistent), get, List.findSome?_isSome_iff,
    (firstsOf_uris ms).mem_iff, List.mem_flatMap]
  exact exists_congr fun m => and_congr_right fun hm => (h m hm).mem_uris_iff

theorem get_append (h : ∀ m ∈ ms₁, m.mapping.Consistent) (uri : String) :
    (mk (ms₁ ++ ms₂)).get uri =
      if (mk ms₁).contains uri then (mk ms₁).get uri else (mk ms₂).get uri := by
  have happend : (mk (ms₁ ++ ms₂)).get uri = ((mk ms₁).get uri).or ((mk ms₂).get uri) :=
    List.findSome?_append
  rw [happend, contains_eq_isSome h]
  cases (mk ms₁).get uri with
  | none => rfl
  | some content => rfl

/-- The first mapping that can get a resource gives its content, and what is contained is what can
be got. The URIs of all mappings are listed at their first places; where the mappings are maps these
are the URIs of what is contained, and each map lists its own as they were inserted or sorted. More
mappings are asked only for what the first ones do not contain. -/
theorem first_mapping_wins (h : ∀ m ∈ ms, m.mapping.Consistent) :
    (∀ uri,
      (∀ content, (mk ms).get uri = some content ↔
        ∃ before m after, ms = before ++ m :: after ∧ m.mapping.get uri = some content ∧
          ∀ b ∈ before, b.mapping.get uri = none) ∧
      (mk ms).contains uri = ((mk ms).get uri).isSome) ∧
    FirstsOf (mk ms).uris (ms.flatMap (·.mapping.uris)) ∧
    ((∀ m ∈ ms, m.mapping.IsMap) → ∀ uri, uri ∈ (mk ms).uris ↔ (mk ms).contains uri = true) ∧
    (∀ className entries, FirstsOf (ResourceMapping.ofInsertion className (.ofList entries)).uris
      (entries.map Prod.fst)) ∧
    (∀ className m, Ascending.Sorted id (ResourceMapping.ofAscending className m).uris ∧
      ∀ keys : List String, keys.Perm m.keys →
        (ResourceMapping.ofAscending className m).uris = keys.mergeSort (· ≤ ·)) ∧
    ∀ ms₁ ms₂, ms = ms₁ ++ ms₂ → ∀ uri, (mk ms).get uri =
      if (mk ms₁).contains uri then (mk ms₁).get uri else (mk ms₂).get uri := by
  refine ⟨fun uri => ⟨fun content => get_eq_some_iff, contains_eq_isSome h uri⟩, firstsOf_uris ms,
    fun hmaps uri => mem_uris_iff hmaps, ResourceMapping.firstsOf_uris_ofInsertion,
    fun className m => ⟨ResourceMapping.sorted_uris_ofAscending className m,
      fun keys hkeys => ResourceMapping.uris_ofAscending_eq_mergeSort className m hkeys⟩, ?_⟩
  rintro ms₁ ms₂ rfl uri
  exact get_append (fun m hm => h m (List.mem_append_left _ hm)) uri

end ResourceManager

def hashedResources : OrderedMap ByteList :=
  .ofList [("u:c", [4]), ("u:a", [5])]

/-- The last two mappings have URIs of the mappings before them. -/
def layeredMappings : List ProvidedMapping :=
  [⟨.ofInsertion "Indexed" (.ofList [("u:b", [1]), ("u:a", [2]), ("u:b", [3])]), none⟩,
    ⟨.ofAscending "Hashed" hashedResources, none⟩,
    ⟨.ofAscending "Ordered" (.ofList [("u:d", [6]), ("u:c", [7])]), none⟩]

theorem layeredMappings_isMap : ∀ m ∈ layeredMappings, m.mapping.IsMap := by
  simp only [layeredMappings, List.forall_mem_cons, List.not_mem_nil, false_imp_iff, implies_true,
    and_true]
  exact ⟨.insertion _ _, .ascending _ _, .ascending _ _⟩

theorem first_mapping_wins_layered :
    (∀ m ∈ layeredMappings, m.mapping.Consistent) ∧
      (∀ m ∈ layeredMappings, m.mapping.IsMap) ∧
      (ResourceManager.mk layeredMappings).get "u:b" = some [3] ∧
      (ResourceManager.mk layeredMappings).get "u:c" = some [4] ∧
      (ResourceManager.mk layeredMappings).uris = ["u:b", "u:a", "u:c", "u:d"] ∧
      (∀ uri, uri ∈ (ResourceManager.mk layeredMappings).uris ↔
        (ResourceManager.mk layeredMappings).contains uri = true) ∧
      (ResourceMapping.ofAscending "Hashed" hashedResources).uris =
        ["u:a", "u:c"].mergeSort (· ≤ ·) ∧
      (ResourceManager.mk layeredMappings).get "u:d" =
        (ResourceManager.mk (layeredMappings.drop 1)).get "u:d" := by
  have hconsistent : ∀ m ∈ layeredMappings, m.mapping.Consistent :=
    fun m hm => (layeredMappings_isMap m hm).consistent
  obtain ⟨-, -, hmem, -, hsort, happend⟩ := ResourceManager.first_mapping_wins hconsistent
  refine ⟨hconsistent, layeredMappings_isMap, by decide +kernel, by decide +kernel,
    by decide +kernel, hmem layeredMappings_isMap, (hsort _ _).2 _ (by decide +kernel), ?_⟩
  exact happend (layeredMappings.take 1) (layeredMappings.drop 1) rfl "u:d"

end TaggedGraph
