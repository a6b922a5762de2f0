import TaggedGraph.Proofs.Save.Program
import TaggedGraph.Proofs.Save.Tracks

namespace TaggedGraph.Save

open Traversal Event

variable {session : Session} {s s' : SaveState} {es es' : List (Event Object)}

theorem Steps.tracks (h : Steps session (s, es) (s', es')) (ht : Tracks s es) : Tracks s' es' :=
  h.keeps (J := Tracks) (fun _ _ _ _ hstep => Tracks.step hstep) ht

theorem Step.lookup_memo {id : ObjectId} {n : NodeId} (h : Step session (s, es) (s', es'))
    (ht : Tracks s es) (hn : s.memo.lookup id = some n) : s'.memo.lookup id = some n := by
  cases h with
  | @enter _ _ x src objects calls hx hreads =>
    have hne : id ≠ x := by
      rintro rfl
      exact hx ((ht.memo id).1 (by simp [hn]))
    rw [SaveState.lookup_memo_enter, if_neg hne, hn]
  | refer => simpa using hn
  | leave => exact hn

theorem Step.lookup_sources {id : ObjectId} {src : Source} (h : Step session (s, es) (s', es'))
    (ht : Tracks s es) (hs : s.sources.lookup id = some src) :
    s'.sources.lookup id = some src := by
  cases h with
  | @enter _ _ x src' objects calls hx hreads =>
    have hne : id ≠ x := by
      rintro rfl
      exact hx ((ht.sources id).1 (by simp [hs]))
    rw [SaveState.lookup_sources_enter, if_neg hne, hs]
  | refer => simpa using hs
  | leave => exact hs

theorem Steps.lookup_memo {id : ObjectId} {n : NodeId} (h : Steps session (s, es) (s', es'))
    (ht : Tracks s es) (hn : s.memo.lookup id = some n) : s'.memo.lookup id = some n :=
  (h.keeps (J := fun s es => Tracks s es ∧ s.memo.lookup id = some n)
    (fun _ _ _ _ hstep h => ⟨h.1.step hstep, hstep.lookup_memo h.1 h.2⟩) ⟨ht, hn⟩).2

theorem Steps.lookup_sources {id : ObjectId} {src : Source} (h : Steps session (s, es) (s', es'))
    (ht : Tracks s es) (hs : s.sources.lookup id = some src) : s'.sources.lookup id = some src :=
  (h.keeps (J := fun s es => Tracks s es ∧ s.sources.lookup id = some src)
    (fun _ _ _ _ hstep h => ⟨h.1.step hstep, hstep.lookup_sources h.1 h.2⟩) ⟨ht, hs⟩).2

theorem Steps.links {p : Object} (h : Steps session (s, es) (s', es')) (ht : Tracks s es)
    (hp : enter p ∈ es) : s'.links p = s.links p := by
  cases p with
  | ref id =>
    obtain ⟨src, hs⟩ := ht.exists_source hp
    rw [SaveState.links_eq hs, SaveState.links_eq (h.lookup_sources ht hs)]
  | _ => rfl

/-- The links of a save that has gone this far, or further. -/
structure Agrees (links : Object → List Object) (s : SaveState) : Prop where
  scalar : ∀ o : Object, o.scalar?.isSome → links o = []
  ref : ∀ id src, s.sources.lookup id = some src → links (.ref id) = src.parts

theorem agrees_links (s : SaveState) : Agrees s.links s :=
  ⟨fun o ho => s.links_of_scalar o ho, fun _ _ hs => SaveState.links_eq hs⟩

theorem Agrees.of_steps {links : Object → List Object} (h : Agrees links s')
    (hsteps : Steps session (s, es) (s', es')) (ht : Tracks s es) : Agrees links s :=
  ⟨h.scalar, fun id src hs => h.ref id src (hsteps.lookup_sources ht hs)⟩

theorem Waits.goesOn {own : Object → Prop} {p : Object} (hw : Waits s es p)
    (hgo : GoesOn own es es') (hp : ¬ own p) (hlinks : enter p ∈ es → s'.links p = s.links p) :
    Waits s' es' p := by
  intro he hl
  have he : enter p ∈ es := (hgo.left p he).resolve_right hl
  obtain ⟨i, d, hd, hr⟩ := hw he fun h => hl (hgo.mem h)
  exact ⟨i, d, hlinks he ▸ hd, fun h => hr (hgo.refers p i d he hp h)⟩

theorem goesOn_meet (o : Object) (es : List (Event Object)) :
    GoesOn (fun _ => False) es (meet o es) := by
  unfold meet
  split
  · rename_i h
    exact GoesOn.snoc_enter_leave es h.2
  · exact GoesOn.refl _ es

/-- Node `n` of the object `id` was given its children up to `index`; the parts in `r` are to
come. -/
structure Filling (s : SaveState) (es : List (Event Object)) (id : ObjectId) (src : Source)
    (n : NodeId) (index : Nat) (r : List Object) : Prop where
  tracks : Tracks s es
  source : s.sources.lookup id = some src
  memo : s.memo.lookup id = some n
  entered : enter (.ref id) ∈ es
  not_left : leave (.ref id) ∉ es
  waits : ∀ p, p ≠ .ref id → Waits s es p
  rest : src.parts.drop index = r
  refers : ∀ i d, refer (.ref id) i d ∈ es ↔ i < index ∧ src.parts[i]? = some d

section
variable {id : ObjectId} {src : Source} {n : NodeId} {index : Nat} {o : Object} {r : List Object}
  {s₁ : SaveState} {es₁ : List (Event Object)}

theorem Filling.start {objects : ObjectGraph} {calls : List Call} (ht : Tracks s es)
    (hw : ∀ p, Waits s es p) (hn : enter (.ref id) ∉ es)
    (hreads : Reads session s id src objects calls) :
    Filling (s.enter id src objects calls) (es ++ [enter (.ref id)]) id src s.nodes.size 0
      src.parts where
  tracks := ht.step (.enter hn hreads)
  source := by simp [SaveState.lookup_sources_enter]
  memo := by simp [SaveState.lookup_memo_enter]
  entered := by simp
  not_left := by simpa using fun h => hn (ht.trace.left _ h)
  waits p hp := by
    intro he hl
    have hlinks := s.links_enter_of_ne id src objects calls hp
    obtain ⟨i, d, hd, hr⟩ := hw p (by simpa [hp] using he) (by simpa using hl)
    exact ⟨i, d, hlinks ▸ hd, by simpa using hr⟩
  rest := rfl
  refers i d := by simpa using fun h => hn (ht.trace.refers _ i d h).1

theorem Filling.getElem? (h : Filling s es id src n index (o :: r)) :
    src.parts[index]? = some o := by
  rw [← List.head?_drop, h.rest]
  rfl

theorem Filling.all_wait (h : Filling s es id src n index (o :: r)) (p : Object) :
    Waits s es p := by
  by_cases hp : p = .ref id
  · intro _ _
    refine ⟨index, o, ?_, fun hr => ?_⟩
    · rw [hp, SaveState.links_eq h.source, h.getElem?]
    · have := ((h.refers _ _).1 (hp ▸ hr)).1
      omega
  · exact h.waits p hp

theorem Filling.next (h : Filling s es id src n index (o :: r))
    (hsteps : Steps session (s, es) (s₁, es₁)) (hgo : GoesOn (fun _ => False) es es₁)
    (hmet : o.scalar? = none → enter o ∈ es₁) :
    Step session (s₁, es₁) ((s₁.meet o).put id src index (s₁.nodeId o),
      meet o es₁ ++ [refer (.ref id) index o]) ∧
    Filling ((s₁.meet o).put id src index (s₁.nodeId o)) (meet o es₁ ++ [refer (.ref id) index o])
      id src n (index + 1) r := by
  have hs := hsteps.lookup_sources h.tracks h.source
  have hn := hsteps.lookup_memo h.tracks h.memo
  have he : enter (.ref id) ∈ es₁ := hgo.mem h.entered
  have hl : leave (.ref id) ∉ es₁ := fun hl => h.not_left (hgo.leaves _ h.entered hl)
  have hr (i : Nat) (d : Object) :
      refer (.ref id) i d ∈ es₁ ↔ i < index ∧ src.parts[i]? = some d := by
    rw [← h.refers]
    exact ⟨hgo.refers _ i d h.entered not_false, hgo.mem⟩
  have hw (p : Object) : Waits s₁ es₁ p :=
    (h.all_wait p).goesOn hgo not_false (hsteps.links h.tracks)
  have hstep : Step session (s₁, es₁) ((s₁.meet o).put id src index (s₁.nodeId o),
      meet o es₁ ++ [refer (.ref id) index o]) :=
    .refer ⟨hs, h.getElem?, he, hl, hr, hmet, hw⟩
  have hsteps₂ : Steps session (s₁, es₁) _ := .single hstep
  have ht := hsteps.tracks h.tracks
  have hgo₂ : GoesOn (· = .ref id) es₁ (meet o es₁ ++ [refer (.ref id) index o]) :=
    (goesOn_meet o es₁).weaken.trans (GoesOn.snoc_refer _ rfl)
  refine ⟨hstep, ht.step hstep, hsteps₂.lookup_sources ht hs, hsteps₂.lookup_memo ht hn,
    hgo₂.mem he, fun h => hl (hgo₂.leaves _ he h), fun p hp => ?_, ?_, ?_⟩
  · exact (hw p).goesOn hgo₂ hp (hsteps₂.links ht)
  · rw [← List.tail_drop, h.rest, List.tail_cons]
  · apply refers_snoc h.getElem?
    intro i d
    rw [mem_meet_refer, hr]

theorem Filling.ends (h : Filling s es id src n index []) (i : Nat) (d : Object)
    (hd : (s.links (.ref id))[i]? = some d) : refer (.ref id) i d ∈ es := by
  rw [SaveState.links_eq h.source] at hd
  have := List.drop_eq_nil_iff.1 h.rest
  have := (List.getElem?_eq_some_iff.1 hd).1
  exact (h.refers i d).2 ⟨by omega, hd⟩

end

variable (session) in
/-- Every visit that ends well takes the steps of `go`. A primitive takes none; it is met when its
node is used. -/
def Visits (visit : Object → SaveM NodeId)
    (go : (Object → List Object) → List (Event Object) → Object → List (Event Object)) : Prop :=
  ∀ o s es m s', Tracks s es → (∀ p, Waits s es p) → Yields (visit o) s m s' → ∃ s₁ es₁,
    Steps session (s, es) (s₁, es₁) ∧ s' = s₁.meet o ∧ m = s₁.nodeId o ∧
    (o.scalar? = none → enter o ∈ es₁) ∧ GoesOn (fun _ => False) es es₁ ∧
    ∀ links, Agrees links s₁ → go links es o = meet o es₁

variable {visit : Object → SaveM NodeId}
  {go : (Object → List Object) → List (Event Object) → Object → List (Event Object)}

theorem fill_steps (hv : Visits session visit go) (id : ObjectId) (src : Source) (n : NodeId)
    (r : List Object) (index : Nat) (s : SaveState) (es : List (Event Object)) (s' : SaveState)
    (h : Filling s es id src n index r) (hfill : Yields (fill visit n src index r) s () s') :
    ∃ es', Steps session (s, es) (s', es') ∧ GoesOn (· = .ref id) es es' ∧
      Filling s' es' id src n (index + r.length) [] ∧
      ∀ links, Agrees links s' → walkChildren (go links) (.ref id) index r es = es' := by
  induction r generalizing index s es with
  | nil =>
    obtain ⟨-, rfl⟩ := (yields_pure _ _ _ _).1 hfill
    exact ⟨es, .refl, GoesOn.refl _ es, h, fun _ _ => rfl⟩
  | cons o r ih =>
    simp only [fill, modifyNodes, yields_bind, yields_modify] at hfill
    obtain ⟨m, _, hvisit, _, _, rfl, hfill⟩ := hfill
    obtain ⟨s₁, es₁, hsteps, rfl, rfl, hmet, hgo, hevents⟩ :=
      hv o s es m _ h.tracks h.all_wait hvisit
    obtain ⟨hstep, hnext⟩ := h.next hsteps hgo hmet
    rw [← SaveState.put_meet src (hsteps.lookup_memo h.tracks h.memo)] at hfill
    have hgo₂ : GoesOn (· = .ref id) es (meet o es₁ ++ [refer (.ref id) index o]) :=
      (hgo.weaken.trans (goesOn_meet o es₁).weaken).trans (GoesOn.snoc_refer _ rfl)
    obtain ⟨es', hrest, hgo', hend, hwalk⟩ := ih (index + 1) _ _ hnext hfill
    rw [List.length_cons, Nat.add_comm r.length, ← Nat.add_assoc]
    refine ⟨es', (hsteps.tail hstep).trans hrest, hgo₂.trans hgo', hend, fun links hlinks => ?_⟩
    -- later steps give no object other parts
    have hlinks₁ : Agrees links s₁ :=
      hlinks.of_steps ((Relation.ReflTransGen.single hstep).trans hrest) (hsteps.tracks h.tracks)
    rw [walkChildren, hevents links hlinks₁, hwalk links hlinks]

theorem meet_ref (id : ObjectId) (es : List (Event Object)) : meet (.ref id) es = es := by
  simp [meet, Object.scalar?]

theorem walk_scalar {links : Object → List Object} {o : Object} (h : links o = [])
    (ho : o.scalar?.isSome) (depth : Nat) (es : List (Event Object)) :
    walk links (depth + 1) es o = meet o es := by
  by_cases he : enter o ∈ es
  · simp [walk, meet, he]
  · simp [walk, meet, he, h, ho, walkChildren]

theorem visits_convert (depth : Nat) :
    Visits session (convert session depth) fun links es o => walk links depth es o := by
  induction depth with
  | zero => exact fun o s es m s' _ _ h => absurd h (not_yields_throw _ _ _ _)
  | succ depth ih =>
    intro o s es m s' ht hw h
    cases hv : o.scalar? with
    | some v =>
      have ho : o.scalar?.isSome := by simp [hv]
      -- a primitive takes no step; it is met when its node is used
      obtain ⟨rfl, rfl⟩ := (yields_convert_scalar session depth o ho s m s').1 h
      refine ⟨s, es, .refl, rfl, ?_, nofun, GoesOn.refl _ es, fun links hlinks => ?_⟩
      · cases o <;> first | rfl | cases ho
      · exact walk_scalar (hlinks.scalar o ho) ho depth es
    | none =>
      cases o with
      | pending x => exact absurd h (not_yields_convert_pending session _ x s m s')
      | ref id =>
        rw [yields_convert_ref] at h
        by_cases hn : enter (.ref id) ∈ es
        · rw [if_pos ((ht.memo id).2 hn)] at h
          obtain ⟨rfl, rfl⟩ := h
          refine ⟨s', es, .refl, rfl, rfl, fun _ => hn, GoesOn.refl _ es, fun links _ => ?_⟩
          change walk links (depth + 1) es (.ref id) = _
          rw [walk, if_pos hn, meet_ref]
        rw [if_neg fun h => hn ((ht.memo id).1 h)] at h
        obtain ⟨rfl, src, objects, calls, hreads, hfill⟩ :=
          (yields_convertNew _ session id s m s').1 h
        have hstart := Filling.start ht hw hn hreads
        obtain ⟨es', hsteps, hgo, hend, hevents⟩ :=
          fill_steps ih id src s.nodes.size src.parts 0 _ _ s' hstart hfill
        have hwalk (links : Object → List Object) (hlinks : Agrees links s') :
            walk links (depth + 1) es (.ref id) = es' ++ [leave (.ref id)] := by
          rw [walk, if_neg hn, hlinks.ref id src hend.source, hevents links hlinks]
        have henter : Steps session (s, es) _ := .single (.enter hn hreads)
        have hleave : Step session (s', es') (s', es' ++ [leave (.ref id)]) :=
          .leave hend.entered hend.not_left hend.ends
        refine ⟨s', es' ++ [leave (.ref id)], (henter.trans hsteps).tail hleave, rfl, ?_, ?_, ?_,
          fun links hlinks => ?_⟩
        · simp [SaveState.nodeId, hend.memo]
        · simp [hend.entered]
        · exact hwalk _ (agrees_links s') ▸ goesOn_walk s'.links (depth + 1) es (.ref id)
        · rw [meet_ref]
          exact hwalk links hlinks
      | _ => cases hv

end TaggedGraph.Save
