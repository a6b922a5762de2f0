import TaggedGraph.Proofs.Save.Simulation

namespace TaggedGraph

open Traversal Event

namespace Source

/-- The node of an object whose first parts have the nodes `ms`. The node of an instance is settled
by its one part. -/
def Holds (ms : List NodeId) (node : Node) : Source → Prop
  | list _ => node = ⟨none, .sequence ms⟩
  | map entries => ∃ m : OrderedMap NodeId, node = ⟨none, .mapping m⟩ ∧
    m.entries = entries.keys.zip ms
  | answer _ _ => ms = [] → node = ⟨none, .scalar .null⟩

theorem holds_blank (src : Source) : src.Holds [] ⟨none, src.blank⟩ := by
  cases src with
  | list => rfl
  | map => exact ⟨∅, rfl, by simp; rfl⟩
  | answer => exact fun _ => rfl

variable (src : Source) (n m : NodeId) (i : Nat) (g : NodeGraph)

@[simp] theorem size_put : (src.put n m i g).size = g.size := by
  rcases src with _ | _ | ⟨_ | _, _⟩ <;>
    simp only [put, NodeGraph.push, NodeGraph.insert, NodeGraph.assume, NodeGraph.setTag,
      NodeGraph.setContent]
  all_goals first | split | skip
  all_goals simp [Heap.size_write]

variable {n} in
theorem read_put_of_ne {k : NodeId} (hk : n ≠ k) : (src.put n m i g).read k = g.read k := by
  rcases src with _ | _ | ⟨_ | _, _⟩ <;>
    simp only [put, NodeGraph.push, NodeGraph.insert, NodeGraph.assume, NodeGraph.setTag,
      NodeGraph.setContent]
  all_goals first | split | skip
  all_goals simp [Heap.read_write_of_ne _ _ _ _ hk]

variable {n g} in
theorem read_put_answer (hn : n < g.size) (tag : Option TagUri) (raw : Object) :
    ((answer tag raw).put n m i g).read n = ⟨tag.or (g.read m).tag, (g.read m).content⟩ := by
  cases tag with
  | none =>
    simp only [put, NodeGraph.assume]
    rw [Heap.read_write_self _ _ _ hn]
    rfl
  | some t =>
    simp only [put, NodeGraph.assume, NodeGraph.setTag]
    rw [Heap.read_write_self _ _ _ (by rwa [Heap.size_write]), Heap.read_write_self _ _ _ hn]
    rfl

variable {src n g} in
theorem Holds.put {ms : List NodeId} (h : src.Holds ms (g.read n)) (hn : n < g.size)
    (hlt : ms.length < src.parts.length) (m : NodeId) :
    src.Holds (ms ++ [m]) ((src.put n m ms.length g).read n) := by
  cases src with
  | list items =>
    have hc : g.content n = .sequence ms := congrArg Node.content h
    have ht : (g.read n).tag = none := congrArg Node.tag h
    simp only [Source.put, NodeGraph.push, hc, NodeGraph.setContent]
    rw [Heap.read_write_self _ _ _ hn]
    simp [Holds, ht]
  | map entries =>
    obtain ⟨e, he, hms⟩ := h
    have hc : g.content n = .mapping e := congrArg Node.content he
    have ht : (g.read n).tag = none := congrArg Node.tag he
    have hlt : ms.length < entries.keys.length := by
      simpa [parts, OrderedMap.values, OrderedMap.keys] using hlt
    simp only [Source.put, NodeGraph.insert, hc, NodeGraph.setContent]
    rw [Heap.read_write_self _ _ _ hn, ht]
    refine ⟨_, rfl, ?_⟩
    simp only [OrderedMap.insert, hms]
    exact OrderedMap.put_zip_length m entries.keys entries.nodup ms hlt
  | answer => exact fun h => absurd h (by simp)

end Source

namespace SaveState

/-- The node of an object; a primitive's is the same wherever it stands. -/
def nodeOf (s : SaveState) (o : Object) : Node :=
  match o.scalar? with
  | some v => ⟨none, .scalar v⟩
  | none => s.nodes.read (s.nodeId o)

/-- Node `m` was made for `o`; no list, map or instance shares the node of a primitive. -/
def Stands (s : SaveState) (o : Object) (m : NodeId) : Prop :=
  match o.scalar? with
  | some v => m < s.nodes.size ∧ s.nodes.read m = ⟨none, .scalar v⟩ ∧
    ∀ id, s.memo.lookup id ≠ some m
  | none => ∃ id, o = .ref id ∧ s.memo.lookup id = some m

/-- The node of `o` looks like this before all its parts have nodes. -/
def Unfinished (s : SaveState) (o : Object) (node : Node) : Prop :=
  ∃ id src ms, o = .ref id ∧ s.sources.lookup id = some src ∧ src.Holds ms node ∧
    ms.length < src.parts.length

variable {s s' : SaveState}

theorem nodeId_scalar (s : SaveState) {o : Object} {v : Scalar} (h : o.scalar? = some v) :
    s.nodeId o = s.nodes.size := by
  cases o <;> first | rfl | cases h

theorem nodeOf_ref {id : ObjectId} {n : NodeId} (h : s.memo.lookup id = some n) :
    s.nodeOf (.ref id) = s.nodes.read n := by
  simp [nodeOf, Object.scalar?, nodeId, h]

theorem nodeOf_scalar {o : Object} {v : Scalar} (h : o.scalar? = some v) :
    s.nodeOf o = ⟨none, .scalar v⟩ := by
  simp [nodeOf, h]

theorem Unfinished.mono {o : Object} {node : Node} (h : s.Unfinished o node)
    (hs : ∀ id src, s.sources.lookup id = some src → s'.sources.lookup id = some src) :
    s'.Unfinished o node := by
  obtain ⟨id, src, ms, ho, hsrc, hms, hlt⟩ := h
  exact ⟨id, src, ms, ho, hs id src hsrc, hms, hlt⟩

theorem Stands.mono {o : Object} {m : NodeId} (h : s.Stands o m)
    (hsize : s.nodes.size ≤ s'.nodes.size)
    (hread : m < s.nodes.size → (∀ id, s.memo.lookup id ≠ some m) →
      s'.nodes.read m = s.nodes.read m)
    (hmemo : ∀ id n, s.memo.lookup id = some n → s'.memo.lookup id = some n)
    (hnew : ∀ id n, s'.memo.lookup id = some n → s.memo.lookup id = some n ∨ s.nodes.size ≤ n) :
    s'.Stands o m := by
  unfold Stands at *
  cases hv : o.scalar? with
  | some v =>
    rw [hv] at h
    obtain ⟨hlt, hnode, hfree⟩ := h
    refine ⟨Nat.lt_of_lt_of_le hlt hsize, by rw [hread hlt hfree, hnode], fun id hid => ?_⟩
    rcases hnew id m hid with hid | hle
    · exact hfree id hid
    · exact absurd hlt (Nat.not_lt.2 hle)
  | none =>
    rw [hv] at h
    obtain ⟨id, ho, hid⟩ := h
    exact ⟨id, ho, hmemo id m hid⟩

theorem Stands.read_eq {o : Object} {m : NodeId} (h : s.Stands o m) : s.nodes.read m = s.nodeOf o ∧
    (o.scalar?.isSome ∨ ∃ id n, o = .ref id ∧ s.memo.lookup id = some n) := by
  unfold Stands at h
  cases hv : o.scalar? with
  | some v =>
    rw [hv] at h
    exact ⟨by rw [h.2.1, nodeOf_scalar hv], .inl rfl⟩
  | none =>
    rw [hv] at h
    obtain ⟨id, rfl, hm⟩ := h
    exact ⟨(nodeOf_ref hm).symm, .inr ⟨id, m, rfl, hm⟩⟩

theorem Stands.lt {o : Object} {m : NodeId} (h : s.Stands o m)
    (hb : ∀ id n, s.memo.lookup id = some n → n < s.nodes.size) : m < s.nodes.size := by
  unfold Stands at h
  split at h
  · exact h.1
  · obtain ⟨id, -, hid⟩ := h
    exact hb id m hid

section
variable (id : ObjectId) (src : Source) (objects : ObjectGraph) (calls : List Call)

theorem size_enter : (s.enter id src objects calls).nodes.size = s.nodes.size + 1 :=
  Heap.size_alloc _ _

theorem read_enter_self : (s.enter id src objects calls).nodes.read s.nodes.size =
    ⟨none, src.blank⟩ :=
  Heap.read_alloc_self _ _

variable {id}

theorem read_enter_of_lt {n : NodeId} (hn : n < s.nodes.size) :
    (s.enter id src objects calls).nodes.read n = s.nodes.read n :=
  Heap.read_alloc_of_lt _ _ _ hn

variable {src objects calls}

theorem memo_enter_cases {x : ObjectId} {n : NodeId}
    (hx : (s.enter id src objects calls).memo.lookup x = some n) :
    x = id ∧ n = s.nodes.size ∨ x ≠ id ∧ s.memo.lookup x = some n := by
  rw [lookup_memo_enter] at hx
  split at hx
  · rename_i he
    exact .inl ⟨he, (Option.some.inj hx).symm⟩
  · rename_i hne
    exact .inr ⟨hne, hx⟩

theorem memo_enter_of_some (hid : s.memo.lookup id = none) {x : ObjectId} {n : NodeId}
    (hx : s.memo.lookup x = some n) : (s.enter id src objects calls).memo.lookup x = some n := by
  have hne : x ≠ id := by
    rintro rfl
    simp [hid] at hx
  rw [lookup_memo_enter, if_neg hne, hx]

theorem Stands.enter (hid : s.memo.lookup id = none) {o : Object} {m : NodeId}
    (h : s.Stands o m) : (s.enter id src objects calls).Stands o m := by
  apply h.mono
  · rw [size_enter]
    exact Nat.le_succ _
  · exact fun hlt _ => read_enter_of_lt src objects calls hlt
  · exact fun x n hx => memo_enter_of_some hid hx
  · intro x n hx
    rcases memo_enter_cases hx with ⟨-, rfl⟩ | ⟨-, hx⟩
    · exact .inr (Nat.le_refl _)
    · exact .inl hx

theorem Unfinished.enter (hid : s.sources.lookup id = none) {o : Object} {node : Node}
    (h : s.Unfinished o node) : (s.enter id src objects calls).Unfinished o node := by
  apply h.mono
  intro x src' hx
  have hne : x ≠ id := by
    rintro rfl
    simp [hid] at hx
  rw [lookup_sources_enter, if_neg hne, hx]

theorem nodeOf_enter (hb : ∀ id n, s.memo.lookup id = some n → n < s.nodes.size)
    (hid : s.memo.lookup id = none) {p : Object}
    (hp : p.scalar?.isSome ∨ ∃ x k, p = .ref x ∧ s.memo.lookup x = some k) :
    (s.enter id src objects calls).nodeOf p = s.nodeOf p := by
  rcases hp with hp | ⟨x, k, rfl, hk⟩
  · obtain ⟨v, hv⟩ := Option.isSome_iff_exists.1 hp
    rw [nodeOf_scalar hv, nodeOf_scalar hv]
  · rw [nodeOf_ref hk, nodeOf_ref (memo_enter_of_some hid hk), read_enter_of_lt _ _ _ (hb x k hk)]

end

theorem size_le_meet (s : SaveState) (o : Object) : s.nodes.size ≤ (s.meet o).nodes.size := by
  unfold meet
  split
  · simp [NodeGraph.new, Heap.size_alloc]
  · exact Nat.le_refl _

theorem read_meet_of_lt (o : Object) {n : NodeId} (hn : n < s.nodes.size) :
    (s.meet o).nodes.read n = s.nodes.read n := by
  unfold meet
  split
  · exact Heap.read_alloc_of_lt _ _ _ hn
  · rfl

theorem stands_meet {o : Object} (hb : ∀ id n, s.memo.lookup id = some n → n < s.nodes.size)
    (ho : o.scalar? = none → ∃ id n, o = .ref id ∧ s.memo.lookup id = some n) :
    (s.meet o).Stands o (s.nodeId o) := by
  unfold Stands
  cases hv : o.scalar? with
  | some v =>
    have hid := s.nodeId_scalar hv
    have hnodes : (s.meet o).nodes = (s.nodes.new (.scalar v)).2 := by
      unfold meet
      rw [hv]
    rw [hid, hnodes, memo_meet]
    refine ⟨?_, Heap.read_alloc_self _ _, fun id hm => Nat.lt_irrefl _ (hb id _ hm)⟩
    exact (Heap.size_alloc s.nodes _).symm ▸ Nat.lt_succ_self _
  | none =>
    obtain ⟨id, n, rfl, hn⟩ := ho hv
    exact ⟨id, rfl, by simp [nodeId, hn]⟩

theorem nodeOf_put {id : ObjectId} {src : Source} {index : Nat} {o p : Object} {n : NodeId}
    (hb : ∀ id n, s.memo.lookup id = some n → n < s.nodes.size)
    (hinj : ∀ id id' n, s.memo.lookup id = some n → s.memo.lookup id' = some n → id = id')
    (hn : s.memo.lookup id = some n)
    (hp : p.scalar?.isSome ∨ ∃ x k, p = .ref x ∧ s.memo.lookup x = some k) (hne : p ≠ .ref id) :
    ((s.meet o).put id src index (s.nodeId o)).nodeOf p = s.nodeOf p := by
  rcases hp with hp | ⟨x, k, rfl, hk⟩
  · obtain ⟨v, hv⟩ := Option.isSome_iff_exists.1 hp
    rw [nodeOf_scalar hv, nodeOf_scalar hv]
  · have hkn : n ≠ k := by
      rintro rfl
      exact hne (congrArg Object.ref (hinj x id n hk hn))
    rw [nodeOf_ref hk, nodeOf_ref (by simpa using hk), put_meet src hn,
      src.read_put_of_ne _ _ _ hkn, read_meet_of_lt o (hb x k hk)]

end SaveState

namespace Save

/-- The node of an object has a child for each of its references so far, in their order; that of an
instance is a copy of the node of the converter's answer, as that was at the time. -/
structure Nodes (ms : ObjectId → List NodeId) (s : SaveState) (es : List (Event Object)) :
    Prop where
  bound : ∀ id n, s.memo.lookup id = some n → n < s.nodes.size
  inj : ∀ id id' n, s.memo.lookup id = some n → s.memo.lookup id' = some n → id = id'
  length : ∀ id i, i < (ms id).length ↔ ∃ d, refer (.ref id) i d ∈ es
  stands : ∀ id i d m, refer (.ref id) i d ∈ es → (ms id)[i]? = some m → s.Stands d m
  once : ∀ id i d id' i' m, refer (.ref id) i d ∈ es → d.scalar?.isSome → (ms id)[i]? = some m →
    (ms id')[i']? = some m → id = id' ∧ i = i'
  holds : ∀ id src n, s.sources.lookup id = some src → s.memo.lookup id = some n →
    src.Holds (ms id) (s.nodes.read n)
  copies : ∀ id tag raw n pre, s.sources.lookup id = some (.answer tag raw) →
    s.memo.lookup id = some n → pre ++ [refer (.ref id) 0 raw] <+: es →
    ∃ node : Node, s.nodes.read n = ⟨tag.or node.tag, node.content⟩ ∧
      (leave raw ∈ pre → node = s.nodeOf raw) ∧ (leave raw ∉ pre → s.Unfinished raw node)

variable {session : Session} {ms : ObjectId → List NodeId} {s s' : SaveState}
  {es es' : List (Event Object)}

theorem Nodes.nil (objects : ObjectGraph) :
    Nodes (fun _ => []) ⟨objects, ∅, [], [], []⟩ [] := by
  constructor <;> simp

theorem Nodes.snoc_leave (h : Nodes ms s es) (p : Object) : Nodes ms s (es ++ [leave p]) where
  bound := h.bound
  inj := h.inj
  length := by simpa using h.length
  stands := by simpa using h.stands
  once := by simpa using h.once
  holds := h.holds
  copies := by simpa [split_concat] using h.copies

theorem Nodes.lt (h : Nodes ms s es) {id : ObjectId} {i : Nat} {m : NodeId}
    (hm : (ms id)[i]? = some m) : m < s.nodes.size := by
  obtain ⟨d, hd⟩ := (h.length id i).1 (List.getElem?_eq_some_iff.1 hm).1
  exact (h.stands id i d m hd hm).lt h.bound

theorem Tracks.left_cases (ht : Tracks s es) {p : Object} (hp : leave p ∈ es) :
    p.scalar?.isSome ∨ ∃ id n, p = .ref id ∧ s.memo.lookup id = some n := by
  have he := ht.trace.left p hp
  cases p with
  | ref id =>
    obtain ⟨n, hn⟩ := ht.exists_memo he
    exact .inr ⟨id, n, rfl, hn⟩
  | pending m => exact absurd he (ht.pending m)
  | _ => exact .inl rfl

theorem Nodes.snoc_enter (h : Nodes ms s es) (ht : Tracks s es) {id : ObjectId}
    (hid : enter (.ref id) ∉ es) (src : Source) (objects : ObjectGraph) (calls : List Call) :
    Nodes ms (s.enter id src objects calls) (es ++ [enter (.ref id)]) := by
  have hmemo := ht.memo_none hid
  have hsource := ht.source_none hid
  have hempty : ms id = [] := by
    apply List.eq_nil_iff_forall_not_mem.2
    intro m hm
    obtain ⟨i, hi, -⟩ := List.mem_iff_getElem.1 hm
    obtain ⟨d, hd⟩ := (h.length id i).1 hi
    exact hid (ht.trace.refers _ i d hd).1
  constructor
  case bound =>
    intro x n hx
    rw [SaveState.size_enter]
    rcases SaveState.memo_enter_cases hx with ⟨-, rfl⟩ | ⟨-, hx⟩
    · exact Nat.lt_succ_self _
    · exact Nat.lt_succ_of_lt (h.bound x n hx)
  case inj =>
    intro x y n hx hy
    rcases SaveState.memo_enter_cases hx with ⟨hxi, hxn⟩ | ⟨-, hx'⟩ <;>
      rcases SaveState.memo_enter_cases hy with ⟨hyi, hyn⟩ | ⟨-, hy'⟩
    · rw [hxi, hyi]
    · exact absurd (h.bound y n hy') (hxn ▸ Nat.lt_irrefl _)
    · exact absurd (h.bound x n hx') (hyn ▸ Nat.lt_irrefl _)
    · exact h.inj x y n hx' hy'
  case length => simpa using h.length
  case stands =>
    intro x i d m hr hm
    exact (h.stands x i d m (by simpa using hr) hm).enter hmemo
  case once => simpa using h.once
  case holds =>
    intro x src' n hs hx
    rw [SaveState.lookup_sources_enter] at hs
    rcases SaveState.memo_enter_cases hx with ⟨rfl, rfl⟩ | ⟨hne, hx⟩
    · rw [if_pos rfl] at hs
      cases hs
      rw [hempty, SaveState.read_enter_self]
      exact src.holds_blank
    · rw [if_neg hne] at hs
      rw [SaveState.read_enter_of_lt _ _ _ (h.bound x n hx)]
      exact h.holds x src' n hs hx
  case copies =>
    intro x tag raw n pre hs hx hp
    -- the entered object has not referred to anything, so the copy is an old one
    have hp : pre ++ [refer (.ref x) 0 raw] <+: es := by simpa [split_concat] using hp
    have hne : x ≠ id := fun he => hid (he ▸ (ht.trace.refers _ 0 raw (mem_of_split hp)).1)
    rw [SaveState.lookup_sources_enter, if_neg hne] at hs
    rw [SaveState.lookup_memo_enter, if_neg hne] at hx
    obtain ⟨node, hnode, hleft, hopen⟩ := h.copies x tag raw n pre hs hx hp
    refine ⟨node, ?_, fun hl => ?_, fun hl => (hopen hl).enter hsource⟩
    · rw [SaveState.read_enter_of_lt _ _ _ (h.bound x n hx), hnode]
    · have hes : leave raw ∈ es := ((List.prefix_append _ _).trans hp).subset hl
      rw [hleft hl, SaveState.nodeOf_enter h.bound hmemo (ht.left_cases hes)]

theorem Nodes.length_eq (h : Nodes ms s es) {id : ObjectId} {src : Source} {index : Nat}
    (hi : index ≤ src.parts.length)
    (hr : ∀ i d, refer (.ref id) i d ∈ es ↔ i < index ∧ src.parts[i]? = some d) :
    (ms id).length = index :=
  count_refers hi hr (h.length id)

theorem Nodes.length_of_left (h : Nodes ms s es) (ht : Tracks s es) {id : ObjectId} {src : Source}
    (hs : s.sources.lookup id = some src) (hl : leave (.ref id) ∈ es) :
    (ms id).length = src.parts.length := by
  apply h.length_eq (Nat.le_refl _)
  intro i d
  rw [← SaveState.links_eq hs]
  constructor
  · intro hr
    have hi := (ht.trace.refers _ i d hr).2.2
    exact ⟨(List.getElem?_eq_some_iff.1 hi).1, hi⟩
  · intro hi
    exact ht.trace.full _ i d hl hi.2

theorem Nodes.unfinished (h : Nodes ms s es) (ht : Tracks s es) {p : Object}
    (he : enter p ∈ es) (hl : leave p ∉ es) (hw : Waits s es p) : s.Unfinished p (s.nodeOf p) := by
  cases p with
  | ref id =>
    obtain ⟨src, hs⟩ := ht.exists_source he
    obtain ⟨n, hn⟩ := ht.exists_memo he
    obtain ⟨i, d, hd, hr⟩ := hw he hl
    rw [SaveState.links_eq hs] at hd
    refine ⟨id, src, ms id, rfl, hs, ?_, ?_⟩
    · rw [SaveState.nodeOf_ref hn]
      exact h.holds id src n hs hn
    · refine Nat.lt_of_le_of_lt (Nat.le_of_not_lt fun hi => ?_) (List.getElem?_eq_some_iff.1 hd).1
      obtain ⟨d', hd'⟩ := (h.length id i).1 hi
      have hlink := (ht.trace.refers _ i d' hd').2.2
      rw [SaveState.links_eq hs, hd] at hlink
      exact hr (Option.some.inj hlink ▸ hd')
  | pending m => exact absurd he (ht.pending m)
  | _ => exact absurd (ht.scalar _ rfl he) hl

theorem split_meet {pre : List (Event Object)} {o p d : Object} {i : Nat} :
    pre ++ [refer p i d] <+: meet o es ↔ pre ++ [refer p i d] <+: es := by
  unfold meet
  split
  · rw [split_concat, split_concat]
    simp
  · rfl

theorem IsNext.part_memo {id : ObjectId} {src : Source} {index : Nat} {o : Object}
    (h : IsNext s es id src index o) (ht : Tracks s es) (hv : o.scalar? = none) :
    ∃ x k, o = .ref x ∧ s.memo.lookup x = some k := by
  cases o with
  | ref x =>
    obtain ⟨k, hk⟩ := ht.exists_memo (h.met hv)
    exact ⟨x, k, rfl, hk⟩
  | pending m => exact absurd (h.met hv) (ht.pending m)
  | _ => cases hv

section
variable {id : ObjectId} {src : Source} {index : Nat} {o : Object} {n : NodeId}

theorem nodes_put (hn : s.memo.lookup id = some n) :
    ((s.meet o).put id src index (s.nodeId o)).nodes =
      src.put n (s.nodeId o) index (s.meet o).nodes := by
  rw [SaveState.put_meet src hn]

theorem read_nodes_put (hn : s.memo.lookup id = some n) {k : NodeId} (hk : k < s.nodes.size)
    (hne : n ≠ k) :
    ((s.meet o).put id src index (s.nodeId o)).nodes.read k = s.nodes.read k := by
  rw [nodes_put hn, src.read_put_of_ne _ _ _ hne, SaveState.read_meet_of_lt o hk]

theorem size_nodes_put (hn : s.memo.lookup id = some n) :
    s.nodes.size ≤ ((s.meet o).put id src index (s.nodeId o)).nodes.size := by
  rw [nodes_put hn, Source.size_put]
  exact s.size_le_meet o

theorem Nodes.read_next (h : Nodes ms s es) (ht : Tracks s es)
    (hnext : IsNext s es id src index o) :
    (s.meet o).nodes.read (s.nodeId o) = s.nodeOf o := by
  have hs := SaveState.stands_meet h.bound (hnext.part_memo ht)
  unfold SaveState.Stands at hs
  cases hv : o.scalar? with
  | some v =>
    rw [hv] at hs
    rw [hs.2.1, SaveState.nodeOf_scalar hv]
  | none =>
    obtain ⟨x, k, rfl, hk⟩ := hnext.part_memo ht hv
    rw [SaveState.nodeOf_ref hk, SaveState.nodeId, hk]
    exact SaveState.read_meet_of_lt _ (h.bound x k hk)

/-- The copy of the answer's node is as good as that node is at the time. -/
theorem Nodes.copy {tag : Option TagUri} {raw : Object} (h : Nodes ms s es) (ht : Tracks s es)
    (hnext : IsNext s es id (.answer tag raw) 0 raw) (hn : s.memo.lookup id = some n) :
    ∃ node : Node,
      ((s.meet raw).put id (.answer tag raw) 0 (s.nodeId raw)).nodes.read n =
        ⟨tag.or node.tag, node.content⟩ ∧
      (leave raw ∈ meet raw es →
        node = ((s.meet raw).put id (.answer tag raw) 0 (s.nodeId raw)).nodeOf raw) ∧
      (leave raw ∉ meet raw es → s.Unfinished raw node) := by
  have hlt := h.bound id n hn
  refine ⟨s.nodeOf raw, ?_, fun hl => ?_, fun hl => ?_⟩
  · rw [nodes_put hn, Source.read_put_answer _ _ (Nat.lt_of_lt_of_le hlt (s.size_le_meet raw)),
      h.read_next ht hnext]
  · refine (SaveState.nodeOf_put h.bound h.inj hn ?_ ?_).symm
    · cases hv : raw.scalar? with
      | some v => exact .inl rfl
      | none => exact .inr (hnext.part_memo ht hv)
    · rintro rfl
      exact hnext.not_left (by simpa [meet_ref] using hl)
  · have hv : raw.scalar? = none := by
      refine Option.not_isSome_iff_eq_none.1 fun hv => hl (mem_meet_leave.2 ?_)
      by_cases he : enter raw ∈ es
      · exact .inl (ht.scalar raw hv he)
      · exact .inr ⟨hv, he, rfl⟩
    refine h.unfinished ht (hnext.met hv) (fun hl' => hl ?_) (hnext.waits raw)
    exact mem_meet_leave.2 (.inl hl')

end

theorem getElem?_snoc {m m' : NodeId} {l : List NodeId} {i : Nat} :
    (l ++ [m])[i]? = some m' ↔ l[i]? = some m' ∨ i = l.length ∧ m' = m := by
  rw [List.getElem?_append]
  split
  · rename_i hi
    exact (or_iff_left fun h => by omega).symm
  · rename_i hi
    rw [List.getElem?_eq_none (by omega : l.length ≤ i), List.getElem?_singleton]
    split
    · rename_i he
      have : i = l.length := by omega
      simp [this, eq_comm]
    · rename_i he
      have : i ≠ l.length := by omega
      simp [this]

def withChild (ms : ObjectId → List NodeId) (id : ObjectId) (m : NodeId) (x : ObjectId) :
    List NodeId :=
  if x = id then ms x ++ [m] else ms x

theorem getElem?_withChild {id x : ObjectId} {i : Nat} {m m' : NodeId}
    (h : (withChild ms id m x)[i]? = some m') :
    (ms x)[i]? = some m' ∨ x = id ∧ i = (ms id).length ∧ m' = m := by
  rw [withChild] at h
  split at h
  · rename_i hx
    subst hx
    rcases getElem?_snoc.1 h with h | h
    · exact .inl h
    · exact .inr ⟨rfl, h⟩
  · exact .inl h

section
variable {id : ObjectId} {src : Source} {index : Nat} {o : Object} {n : NodeId}

theorem mem_refer_snoc {x : ObjectId} {i : Nat} {d : Object} :
    refer (.ref x) i d ∈ meet o es ++ [refer (.ref id) index o] ↔
      refer (.ref x) i d ∈ es ∨ x = id ∧ i = index ∧ d = o := by
  simp [mem_meet_refer]

theorem Nodes.length_next (h : Nodes ms s es) (hnext : IsNext s es id src index o) :
    (ms id).length = index := by
  have hindex := (List.getElem?_eq_some_iff.1 hnext.part).1
  exact h.length_eq (Nat.le_of_lt hindex) hnext.refers

theorem Nodes.child_cases (h : Nodes ms s es) (hnext : IsNext s es id src index o) {x : ObjectId}
    {i : Nat} {d : Object} {k : NodeId}
    (hr : refer (.ref x) i d ∈ meet o es ++ [refer (.ref id) index o])
    (hk : (withChild ms id (s.nodeId o) x)[i]? = some k) :
    refer (.ref x) i d ∈ es ∧ (ms x)[i]? = some k ∨
      x = id ∧ i = index ∧ d = o ∧ k = s.nodeId o := by
  have hlen := h.length_next hnext
  rcases mem_refer_snoc.1 hr with hold | ⟨rfl, rfl, rfl⟩ <;>
    rcases getElem?_withChild hk with hm | ⟨hx, hi, hm⟩
  · exact .inl ⟨hold, hm⟩
  · subst hx
    have hlast := ((hnext.refers i d).1 hold).1
    omega
  · have hlast := (List.getElem?_eq_some_iff.1 hm).1
    omega
  · exact .inr ⟨rfl, rfl, rfl, hm⟩

variable (h : Nodes ms s es) (ht : Tracks s es) (hnext : IsNext s es id src index o)
  (hn : s.memo.lookup id = some n)
include h ht hnext hn

theorem Nodes.stands_next :
    ((s.meet o).put id src index (s.nodeId o)).Stands o (s.nodeId o) := by
  have hmet := SaveState.stands_meet h.bound (hnext.part_memo ht)
  apply hmet.mono
  · exact Nat.le_of_eq (by rw [nodes_put hn, Source.size_put])
  · intro _ hfree
    have hne : n ≠ s.nodeId o := fun he => hfree id (by simpa [← he] using hn)
    rw [nodes_put hn, src.read_put_of_ne _ _ _ hne]
  · exact fun x k hx => hx
  · exact fun x k hx => .inl hx

theorem Nodes.stands_refer {x : ObjectId} {i : Nat} {d : Object} {k : NodeId}
    (hr : refer (.ref x) i d ∈ meet o es ++ [refer (.ref id) index o])
    (hk : (withChild ms id (s.nodeId o) x)[i]? = some k) :
    ((s.meet o).put id src index (s.nodeId o)).Stands d k := by
  rcases h.child_cases hnext hr hk with ⟨hr, hk⟩ | ⟨-, -, rfl, rfl⟩
  · apply (h.stands x i d k hr hk).mono (size_nodes_put hn)
    · intro hlt hfree
      exact read_nodes_put hn hlt fun he => hfree id (he ▸ hn)
    · exact fun y m hy => by simpa using hy
    · exact fun y m hy => .inl (by simpa using hy)
  · exact h.stands_next ht hnext hn

omit hn in
theorem Nodes.ne_next {x : ObjectId} {i : Nat} {d : Object} {k : NodeId}
    (hr : refer (.ref x) i d ∈ es) (hk : (ms x)[i]? = some k)
    (hd : d.scalar?.isSome ∨ o.scalar?.isSome) : k ≠ s.nodeId o := by
  intro he
  cases ho : o.scalar? with
  | some v =>
    -- the node of a primitive is newer than all children so far
    rw [he, s.nodeId_scalar ho] at hk
    exact absurd (h.lt hk) (Nat.lt_irrefl _)
  | none =>
    -- the child is the node of a primitive, which no list, map or instance has
    obtain ⟨v, hv⟩ := Option.isSome_iff_exists.1 (hd.resolve_right (by simp [ho]))
    have hstands := h.stands x i d k hr hk
    simp only [SaveState.Stands, hv] at hstands
    obtain ⟨z, m, rfl, hz⟩ := hnext.part_memo ht ho
    rw [he, SaveState.nodeId, hz] at hstands
    exact hstands.2.2 z hz

omit hn in
theorem Nodes.once_refer {x y : ObjectId} {i j : Nat} {d : Object} {k : NodeId}
    (hr : refer (.ref x) i d ∈ meet o es ++ [refer (.ref id) index o]) (hd : d.scalar?.isSome)
    (hk : (withChild ms id (s.nodeId o) x)[i]? = some k)
    (hk' : (withChild ms id (s.nodeId o) y)[j]? = some k) : x = y ∧ i = j := by
  have hlen := h.length_next hnext
  rcases h.child_cases hnext hr hk with ⟨hold, hm⟩ | ⟨rfl, rfl, rfl, hko⟩ <;>
    rcases getElem?_withChild hk' with hm' | ⟨rfl, hj, hko'⟩
  · exact h.once x i d y j k hold hd hm hm'
  · exact absurd hko' (h.ne_next ht hnext hold hm (.inl hd))
  · obtain ⟨e, he⟩ := (h.length y j).1 (List.getElem?_eq_some_iff.1 hm').1
    exact absurd hko (h.ne_next ht hnext he hm' (.inr hd))
  · exact ⟨rfl, by rw [hj, hlen]⟩

omit ht in
theorem Nodes.holds_refer {x : ObjectId} {src' : Source} {k : NodeId}
    (hs : s.sources.lookup x = some src') (hx : s.memo.lookup x = some k) :
    src'.Holds (withChild ms id (s.nodeId o) x)
      (((s.meet o).put id src index (s.nodeId o)).nodes.read k) := by
  have hlt := h.bound x k hx
  by_cases hxid : x = id
  · subst hxid
    cases hnext.source.symm.trans hs
    cases hn.symm.trans hx
    have hindex := (List.getElem?_eq_some_iff.1 hnext.part).1
    have hlen := h.length_next hnext
    have hholds := h.holds x src n hs hx
    rw [← SaveState.read_meet_of_lt o hlt] at hholds
    rw [nodes_put hn, withChild, if_pos rfl, ← hlen]
    exact hholds.put (Nat.lt_of_lt_of_le hlt (s.size_le_meet o)) (hlen ▸ hindex) _
  · have hne : n ≠ k := fun he => hxid (h.inj x id n (he ▸ hx) hn)
    rw [withChild, if_neg hxid, read_nodes_put hn hlt hne]
    exact h.holds x src' k hs hx

theorem Nodes.copies_refer {x : ObjectId} {tag : Option TagUri} {raw : Object} {k : NodeId}
    {pre : List (Event Object)} (hs : s.sources.lookup x = some (.answer tag raw))
    (hx : s.memo.lookup x = some k)
    (hp : pre ++ [refer (.ref x) 0 raw] <+: meet o es ++ [refer (.ref id) index o]) :
    ∃ node : Node,
      ((s.meet o).put id src index (s.nodeId o)).nodes.read k = ⟨tag.or node.tag, node.content⟩ ∧
      (leave raw ∈ pre → node = ((s.meet o).put id src index (s.nodeId o)).nodeOf raw) ∧
      (leave raw ∉ pre → s.Unfinished raw node) := by
  rcases split_concat.1 hp with ⟨rfl, he⟩ | hpre
  · injection he with hx' hi hd
    cases hx'
    subst hi hd
    cases hs.symm.trans hnext.source
    cases hx.symm.trans hn
    exact h.copy ht hnext hn
  · -- an instance has one part, so this one was given its part before
    rw [split_meet] at hpre
    have hxid : x ≠ id := by
      intro he
      subst he
      cases hs.symm.trans hnext.source
      have hfirst := ((hnext.refers 0 raw).1 (mem_of_split hpre)).1
      have hindex := (List.getElem?_eq_some_iff.1 hnext.part).1
      simp [Source.parts] at hindex
      omega
    obtain ⟨node, hnode, hleft, hopen⟩ := h.copies x tag raw k pre hs hx hpre
    refine ⟨node, ?_, fun hl => ?_, hopen⟩
    · have hne : n ≠ k := fun he => hxid (h.inj x id n (he ▸ hx) hn)
      rw [read_nodes_put hn (h.bound x k hx) hne, hnode]
    · have hes : leave raw ∈ es := ((List.prefix_append _ _).trans hpre).subset hl
      have hraw : raw ≠ .ref id := fun he => hnext.not_left (he ▸ hes)
      rw [hleft hl, SaveState.nodeOf_put h.bound h.inj hn (ht.left_cases hes) hraw]

omit hn in
theorem Nodes.snoc_refer : Nodes (withChild ms id (s.nodeId o))
    ((s.meet o).put id src index (s.nodeId o)) (meet o es ++ [refer (.ref id) index o]) := by
  obtain ⟨n, hn⟩ := ht.exists_memo hnext.entered
  have hlen := h.length_next hnext
  constructor
  case bound =>
    intro x k hx
    exact Nat.lt_of_lt_of_le (h.bound x k (by simpa using hx)) (size_nodes_put hn)
  case inj =>
    intro x y k hx hy
    exact h.inj x y k (by simpa using hx) (by simpa using hy)
  case length =>
    intro x i
    simp only [mem_refer_snoc, exists_or, ← h.length, withChild]
    by_cases hx : x = id
    · subst hx
      simp [hlen]
      omega
    · simp [hx]
  case stands => exact fun x i d k hr hk => h.stands_refer ht hnext hn hr hk
  case once => exact fun x i d y j k hr hd hk hk' => h.once_refer ht hnext hr hd hk hk'
  case holds =>
    intro x src' k hs hx
    exact h.holds_refer hnext hn (by simpa using hs) (by simpa using hx)
  case copies =>
    intro x tag raw k pre hs hx hp
    obtain ⟨node, hnode, hleft, hopen⟩ :=
      h.copies_refer ht hnext hn (by simpa using hs) (by simpa using hx) hp
    exact ⟨node, hnode, hleft, fun hl => (hopen hl).mono fun y src' hy => by simpa using hy⟩

end

theorem Steps.nodes (h : Steps session (s, es) (s', es')) (ht : Tracks s es)
    (hnodes : ∃ ms, Nodes ms s es) : ∃ ms, Nodes ms s' es' := by
  refine (h.keeps (J := fun s es => Tracks s es ∧ ∃ ms, Nodes ms s es) ?_ ⟨ht, hnodes⟩).2
  intro s es s' es' hstep ⟨ht, ms, h⟩
  refine ⟨ht.step hstep, ?_⟩
  cases hstep with
  | enter hn hreads => exact ⟨ms, h.snoc_enter ht hn _ _ _⟩
  | refer hnext => exact ⟨_, h.snoc_refer ht hnext⟩
  | leave => exact ⟨ms, h.snoc_leave _⟩

end Save

end TaggedGraph
