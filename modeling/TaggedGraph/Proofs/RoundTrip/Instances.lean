import TaggedGraph.Proofs.RoundTrip.Wraps

namespace TaggedGraph

namespace Wrapper

def Apart (w w' : Wrapper) : Prop :=
  ∀ i, w.own i → ¬ w'.own i

theorem Apart.symm {w w' : Wrapper} (h : w.Apart w') : w'.Apart w :=
  fun i hw' hw => h i hw hw'

instance : Std.Symm Apart := ⟨fun _ _ h => h.symm⟩

theorem Apart.widen {w w' : Wrapper} {g k : ObjectGraph} (h : w.Apart w')
    (hbound : ∀ i, w'.own i → i < g.size) : (w.widen g k).Apart w' := by
  intro i hi hi'
  rcases hi with hi | hi
  · exact h i hi hi'
  · exact absurd (hbound i hi') (Nat.not_lt.2 hi.1)

end Wrapper

namespace Load

open Traversal Event

structure IsMade (nodes : NodeGraph) (s : LoadState) (w : Wrapper) : Prop where
  bound : ∀ i, w.own i → i < s.objects.size
  free : ∀ b ∈ s.built, ¬ w.own b.2
  id : w.own w.id
  result : s.done.lookup w.node = some (.ref w.id)
  tag : nodes.tag w.node = some w.tag
  raw : s.IsRaw w.node (nodes.content w.node) w.raw

/-- The instances in `ready` are as `P` says. Those in `late` will be when their deferred
conversions are completed. -/
structure Instances (P : Wrapper → ObjectGraph → Prop) (nodes : NodeGraph) (ready : List Wrapper)
    (late : List (Wrapper × Completion)) (s : LoadState) : Prop where
  made : ∀ w ∈ ready ++ late.map Prod.fst, IsMade nodes s w
  apart : (ready ++ late.map Prod.fst).Pairwise Wrapper.Apart
  keeps : ∀ w ∈ ready, w.KeepsAs P nodes s.objects
  later : ∀ p ∈ late, p.2.deferred.phase = .placeholderEmitted ∧
    p.1.KeepsLaterAs P nodes s.objects p.2.deferred.completion

/-- From `s` to `s'` no cells change but those of lists and maps that were built. -/
structure Grows (s s' : LoadState) : Prop where
  objects : Fixes (fun i => i < s.objects.size ∧ ∀ b ∈ s.built, b.2 ≠ i) s.objects s'.objects
  mem_built : ∀ b ∈ s.built, b ∈ s'.built
  built : ∀ b ∈ s'.built, b ∈ s.built ∨ s.objects.size ≤ b.2
  done : ∀ n o, s.done.lookup n = some o → s'.done.lookup n = some o

variable {P : Wrapper → ObjectGraph → Prop} {session : Session} {nodes : NodeGraph}
  {ready : List Wrapper}
  {late : List (Wrapper × Completion)} {w : Wrapper} {s s' s'' : LoadState}
  {es es' : List (Event NodeId)}

theorem Grows.trans (h : Grows s s') (h' : Grows s' s'') : Grows s s'' where
  objects := by
    refine h.objects.trans (h'.objects.mono fun i hi => ⟨?_, fun b hb => ?_⟩)
    · exact Nat.lt_of_lt_of_le hi.1 h.objects.size
    · rcases h.built b hb with hb | hb
      · exact hi.2 b hb
      · exact Nat.ne_of_gt (Nat.lt_of_lt_of_le hi.1 hb)
  mem_built b hb := h'.mem_built b (h.mem_built b hb)
  built b hb := by
    rcases h'.built b hb with hb | hb
    · exact h.built b hb
    · exact .inr (Nat.le_trans h.objects.size hb)
  done n o hn := h'.done n o (h.done n o hn)

theorem grows_begin (s : LoadState) (n : NodeId) (ct : Content) : Grows s (s.begin n ct).2 := by
  rcases begin_cases s n ct with ⟨v, -, hb⟩ | ⟨c, -, hb⟩
  · rw [hb]
    exact ⟨Fixes.refl _ _, fun _ hb => hb, fun _ hb => .inl hb, fun _ _ hn => hn⟩
  · rw [hb]
    refine ⟨⟨?_, fun i hi => Heap.read_alloc_of_lt _ _ i hi.1⟩, fun _ => List.mem_cons_of_mem _,
      fun b hb => ?_, fun _ _ hn => hn⟩
    · simp [LoadState.make, Heap.size_alloc]
    · rcases List.mem_cons.1 hb with rfl | hb
      · exact .inr (Nat.le_refl _)
      · exact .inl hb

theorem Slots.grows_record (h : Slots session nodes s es) {n : NodeId}
    (hn : s.done.lookup n = none) (o : Object) : Grows s (s.record n o) where
  objects := by
    refine ⟨Nat.le_of_eq (size_fillAll o _ s.objects).symm, fun i hi => ?_⟩
    apply read_fillAll_of_ne o _ s.objects
    intro w hw
    obtain ⟨b, hb, pre, j, c, -, hslot, -⟩ := (h.waiting w).1 (List.mem_of_mem_filter hw)
    rw [hslot, Content.container_slot]
    exact hi.2 b hb
  mem_built _ hb := hb
  built _ hb := .inl hb
  done m p hm := by
    have hne : m ≠ n := by
      rintro rfl
      simp [hn] at hm
    rw [lookup_record_of_ne hne, hm]

theorem grows_put {n : NodeId} {id : ObjectId} (hb : (n, id) ∈ s.built) (ct : Content) (i : Nat)
    (o : Object) : Grows s (s.put id ct i o) where
  objects := by
    rw [objects_put]
    refine ⟨Nat.le_of_eq (Slot.size_extend o _ _).symm, fun j hj => ?_⟩
    apply Slot.read_extend_of_ne
    rw [Content.container_slot]
    exact hj.2 _ hb
  mem_built _ hb := by rwa [LoadState.built_put]
  built _ hb := .inl (by rwa [LoadState.built_put] at hb)
  done m p hm := by rwa [LoadState.done_put]

theorem grows_noted (s : LoadState) (n : NodeId) : Grows s (s.noted session nodes n) := by
  rw [LoadState.noted_eq]
  exact ⟨Fixes.refl _ _, fun _ hb => hb, fun _ hb => .inl hb, fun _ _ hn => hn⟩

theorem grows_answered {objects : ObjectGraph} (h : Fixes (· < s.objects.size) s.objects objects)
    (n : NodeId) (c : LoadedConverter Behaviour) (t : TagUri) (raw : Object) (answer : FromTree) :
    Grows s ((s.answered c t raw answer objects).leave n) :=
  ⟨h.mono fun _ hi => hi.1, fun _ hb => hb, fun _ hb => .inl hb, fun _ _ hn => hn⟩

theorem IsMade.grow (h : IsMade nodes s w) (hs : Grows s s') : IsMade nodes s' w where
  bound i hi := Nat.lt_of_lt_of_le (h.bound i hi) hs.objects.size
  free b hb hi := by
    rcases hs.built b hb with hb | hb
    · exact h.free b hb hi
    · exact absurd (h.bound b.2 hi) (Nat.not_lt.2 hb)
  id := h.id
  result := hs.done _ _ h.result
  tag := h.tag
  raw := h.raw.mono hs.mem_built

theorem IsMade.fixes (h : IsMade nodes s w) (hs : Grows s s') :
    Fixes w.own s.objects s'.objects :=
  hs.objects.mono fun i hi => ⟨h.bound i hi, fun b hb he => h.free b hb (he ▸ hi)⟩

section
variable {k : ObjectGraph} (calls : List LoadCall)

theorem IsMade.replace (h : IsMade nodes s w) (hk : s.objects.size ≤ k.size) :
    IsMade nodes { s with objects := k, calls } w where
  bound i hi := Nat.lt_of_lt_of_le (h.bound i hi) hk
  free := h.free
  id := h.id
  result := h.result
  tag := h.tag
  raw := h.raw

theorem IsMade.widen (h : IsMade nodes s w) (hbuilt : ∀ b ∈ s.built, b.2 < s.objects.size)
    (hk : s.objects.size ≤ k.size) :
    IsMade nodes { s with objects := k, calls } (w.widen s.objects k) where
  bound i hi := by
    rcases hi with hi | hi
    · exact Nat.lt_of_lt_of_le (h.bound i hi) hk
    · exact hi.2
  free b hb hi := by
    rcases hi with hi | hi
    · exact h.free b hb hi
    · exact absurd (hbuilt b hb) (Nat.not_lt.2 hi.1)
  id := .inl h.id
  result := h.result
  tag := h.tag
  raw := h.raw

end

namespace Instances

theorem nil (objects : ObjectGraph) (warnings : Warnings) :
    Instances P nodes [] [] (LoadState.start objects warnings) := by
  constructor <;> simp

theorem grow (h : Instances P nodes ready late s) (hs : Grows s s') :
    Instances P nodes ready late s' where
  made w hw := (h.made w hw).grow hs
  apart := h.apart
  keeps w hw := (h.keeps w hw).mono ((h.made w (List.mem_append_left _ hw)).fixes hs)
  later p hp := by
    obtain ⟨hphase, hlater⟩ := h.later p hp
    have hmade := h.made p.1 (List.mem_append_right _ (List.mem_map_of_mem hp))
    exact ⟨hphase, hlater.mono (hmade.fixes hs)⟩

theorem cons (h : Instances P nodes ready late s) (hw : IsMade nodes s w)
    (hapart : ∀ w' ∈ ready ++ late.map Prod.fst, w.Apart w')
    (hkeeps : w.KeepsAs P nodes s.objects) : Instances P nodes (w :: ready) late s where
  made w' hw' := by
    rcases List.mem_cons.1 hw' with rfl | hw'
    · exact hw
    · exact h.made w' hw'
  apart := List.pairwise_cons.2 ⟨hapart, h.apart⟩
  keeps w' hw' := by
    rcases List.mem_cons.1 hw' with rfl | hw'
    · exact hkeeps
    · exact h.keeps w' hw'
  later := h.later

theorem snoc (h : Instances P nodes ready late s) (hw : IsMade nodes s w)
    (hapart : ∀ w' ∈ ready ++ late.map Prod.fst, w.Apart w') {d : Completion}
    (hphase : d.deferred.phase = .placeholderEmitted)
    (hlater : w.KeepsLaterAs P nodes s.objects d.deferred.completion) :
    Instances P nodes ready (late ++ [(w, d)]) s := by
  have hall : ready ++ (late ++ [(w, d)]).map Prod.fst = ready ++ late.map Prod.fst ++ [w] := by
    simp
  refine ⟨fun w' hw' => ?_, ?_, h.keeps, fun p hp => ?_⟩
  · rw [hall] at hw'
    rcases List.mem_append.1 hw' with hw' | hw'
    · exact h.made w' hw'
    · obtain rfl := List.mem_singleton.1 hw'
      exact hw
  · rw [hall]
    refine List.pairwise_append.2 ⟨h.apart, List.pairwise_singleton _ _, fun w' hw' v hv => ?_⟩
    obtain rfl := List.mem_singleton.1 hv
    exact (hapart w' hw').symm
  · rcases List.mem_append.1 hp with hp | hp
    · exact h.later p hp
    · obtain rfl := List.mem_singleton.1 hp
      exact ⟨hphase, hlater⟩

/-- The completion of the first deferred conversion changes no cells but those of its instance. -/
theorem finish {d : Completion} {rest : List (Wrapper × Completion)} {k : ObjectGraph}
    {calls : List LoadCall} (h : Instances P nodes ready ((w, d) :: rest) s)
    (hbuilt : ∀ b ∈ s.built, b.2 < s.objects.size)
    (hk : Fixes (fun i => i < s.objects.size ∧ ¬ w.own i) s.objects k)
    (hkeeps : (w.widen s.objects k).KeepsAs P nodes k) :
    Instances P nodes (w.widen s.objects k :: ready) rest { s with objects := k, calls } := by
  have hw := h.made w (by simp)
  obtain ⟨hapart, hrest⟩ :=
    List.pairwise_cons.1 ((List.pairwise_middle Wrapper.Apart.symm).1 h.apart)
  have hmade (w' : Wrapper) (hw' : w' ∈ ready ++ rest.map Prod.fst) : IsMade nodes s w' := by
    apply h.made w'
    rcases List.mem_append.1 hw' with hw' | hw'
    · exact List.mem_append_left _ hw'
    · exact List.mem_append_right _ (List.mem_cons_of_mem _ hw')
  have hfixes (w' : Wrapper) (hw' : w' ∈ ready ++ rest.map Prod.fst) : Fixes w'.own s.objects k :=
    hk.mono fun i hi => ⟨(hmade w' hw').bound i hi, fun hwi => hapart w' hw' i hwi hi⟩
  constructor
  case made =>
    intro w' hw'
    rcases List.mem_cons.1 hw' with rfl | hw'
    · exact hw.widen calls hbuilt hk.size
    · exact (hmade w' hw').replace calls hk.size
  case apart =>
    apply List.pairwise_cons.2
    exact ⟨fun w' hw' => (hapart w' hw').widen (hmade w' hw').bound, hrest⟩
  case keeps =>
    intro w' hw'
    rcases List.mem_cons.1 hw' with rfl | hw'
    · exact hkeeps
    · exact (h.keeps w' hw').mono (hfixes w' (List.mem_append_left _ hw'))
  case later =>
    intro p hp
    obtain ⟨hphase, hlater⟩ := h.later p (List.mem_cons_of_mem _ hp)
    exact ⟨hphase, hlater.mono (hfixes p.1 (List.mem_append_right _ (List.mem_map_of_mem hp)))⟩

theorem shows (h : Instances P nodes ready late s) {w' : Wrapper}
    (hw : w ∈ ready ++ late.map Prod.fst) (hw' : w' ∈ ready ++ late.map Prod.fst)
    (hbuilt : ∀ b ∈ s.built, b.2 < s.objects.size) {k : ObjectGraph}
    (hk : Fixes (fun i => i < s.objects.size ∧ ¬ w.own i) s.objects k)
    (hshows : Shows nodes w'.node w'.raw s.objects) : Shows nodes w'.node w'.raw k := by
  apply hshows.mono hk
  intro id hid
  have hraw := (h.made w' hw').raw
  cases hct : nodes.content w'.node with
  | scalar v =>
    rw [hct, LoadState.IsRaw, hid] at hraw
    cases v <;> cases hraw
  | sequence | mapping =>
    rw [hct] at hraw
    obtain ⟨id', hb, hraw⟩ := hraw
    cases hid.symm.trans hraw
    exact ⟨hbuilt _ hb, (h.made w hw).free _ hb⟩

theorem complete (h : Instances P nodes ready late s)
    (hbuilt : ∀ b ∈ s.built, b.2 < s.objects.size)
    (hshows : ∀ w ∈ ready ++ late.map Prod.fst, Shows nodes w.node w.raw s.objects) :
    ∃ ready' s', Yields (complete (late.map Prod.snd)) s () s' ∧
      Instances P nodes ready' [] s' ∧ Completes s.built s s' ∧
      ∀ w ∈ ready ++ late.map Prod.fst, ∃ w' ∈ ready', w'.node = w.node := by
  induction late generalizing ready s with
  | nil =>
    refine ⟨ready, s, (yields_pure _ _ _ _).2 ⟨rfl, rfl⟩, h, .refl _ s, fun w hw => ⟨w, ?_, rfl⟩⟩
    simpa using hw
  | cons p rest ih =>
    obtain ⟨w, d⟩ := p
    obtain ⟨hphase, hlater⟩ := h.later (w, d) List.mem_cons_self
    have hw : w ∈ ready ++ ((w, d) :: rest).map Prod.fst := by simp
    obtain ⟨k, hyields, hk, hkeeps⟩ := hlater s.objects (Fixes.refl _ _) (hshows w hw)
    obtain ⟨ready', s', hrest, hinst, hcompletes, hall⟩ := ih (h.finish hbuilt hk hkeeps)
      (fun b hb => Nat.lt_of_lt_of_le (hbuilt b hb) hk.size) fun w' hw' => by
        -- the instance is the same, only its cells are more
        obtain ⟨v, hv, hnode, hraw⟩ : ∃ v ∈ ready ++ ((w, d) :: rest).map Prod.fst,
            v.node = w'.node ∧ v.raw = w'.raw := by
          rcases List.mem_cons.1 hw' with rfl | hw'
          · exact ⟨w, hw, rfl, rfl⟩
          · exact ⟨w', by simpa [or_left_comm] using Or.inr hw', rfl, rfl⟩
        rw [← hnode, ← hraw]
        exact h.shows hw hv hbuilt hk (hshows v hv)
    refine ⟨ready', s', (yields_complete_cons _ _ _ _ _).2 ⟨hphase, k, hyields, hrest⟩, hinst,
      (completes_ran hk.size fun b hb hlt => ?_).trans hcompletes, fun v hv => ?_⟩
    · exact hk.read b.2 ⟨hlt, (h.made w hw).free b hb⟩
    · have hv : v = w ∨ v ∈ ready ++ rest.map Prod.fst := by simpa [or_left_comm] using hv
      rcases hv with rfl | hv
      · exact hall (v.widen s.objects k) List.mem_cons_self
      · exact hall v (List.mem_cons_of_mem _ hv)

end Instances

end Load

end TaggedGraph
