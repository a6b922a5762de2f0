import TaggedGraph.Proofs.Equality
import TaggedGraph.Proofs.Unfolding
import TaggedGraph.Proofs.Walk

namespace TaggedGraph

namespace InspectM

variable {α β : Type} {id : ObjectId} {path : List ObjectId} {a : α}

theorem run_visit_of_mem (h : id ∈ path) (inside : InspectM α) :
    (visit id inside).run path = some (none, path) := by
  simp [visit, h]

/-- A container is taken away again from where it was put. -/
theorem run_visit_of_not_mem (h : id ∉ path) {inside : InspectM α}
    (hrun : inside.run (id :: path) = some (a, id :: path)) :
    (visit id inside).run path = some (some a, path) := by
  simp [visit, h, hrun]

theorem run_mapM {f : α → InspectM β} {as : List α} {bs : List β}
    (h : List.Forall₂ (fun a b => (f a).run path = some (b, path)) as bs) :
    (as.mapM f).run path = some (bs, path) := by
  induction h with
  | nil => rfl
  | cons hab _ ih => simp [List.mapM_cons, hab, ih]

end InspectM

namespace ObjectGraph

open Traversal

variable {g h : ObjectGraph} {path : List ObjectId} {o : Object} {i : ObjectId} {c : Container}
  {inside : Object → InspectM String}

theorem run_inspectOn_again {fuel : Nat} (hc : (g.read i).container? = some c) (hin : i ∈ path) :
    (g.inspectOn (fuel + 1) (.ref i)).run path = some (c.mark, path) := by
  cases hcell : g.read i with
  | native => exact absurd hc (container?_ne_some hcell)
  | list | map =>
    rw [hcell] at hc
    cases hc
    simp [inspectOn, hcell, inspectCell, InspectM.run_visit_of_mem hin, Cell.label, Container.mark]

theorem run_inspectOn_container {fuel : Nat} (hc : (g.read i).container? = some c) (hnew : i ∉ path)
    {texts : List String} (hparts : List.Forall₂
      (fun o s => (g.inspectOn fuel o).run (i :: path) = some (s, i :: path))
      (g.read i).parts texts) :
    (g.inspectOn (fuel + 1) (.ref i)).run path = some (c.text texts, path) := by
  have hvisit := InspectM.run_visit_of_not_mem hnew (InspectM.run_mapM hparts)
  cases hcell : g.read i with
  | native => exact absurd hc (container?_ne_some hcell)
  | list | map =>
    rw [hcell] at hc hvisit
    cases hc
    simp only [Cell.parts] at hvisit
    simp [inspectOn, hcell, inspectCell, hvisit, Cell.label, Container.text]

theorem run_inspectOn_native {fuel : Nat} {type : NativeType} {payload : Object}
    (hcell : g.read i = .native type payload) {text : String}
    (hpayload : (g.inspectOn fuel payload).run path = some (text, path)) :
    (g.inspectOn (fuel + 1) (.ref i)).run path =
      some (Inspect.call "Native" [Inspect.call type.label [text]], path) := by
  simp [inspectOn, hcell, inspectCell, hpayload, Cell.label]

theorem run_inspectOn_plain {fuel : Nat} (ho : o.id? = none) :
    (g.inspectOn (fuel + 1) o).run path = some (o.inspectPlain, path) := by
  cases o with
  | ref => cases ho
  | _ => rfl

/-- No text goes deeper than this: each container leaves fewer that are not being shown, and between
two of them each instance leaves fewer enclosed. -/
noncomputable def textDepth (g : ObjectGraph) (path : List ObjectId) (o : Object) : Nat :=
  remaining g.size (· ∈ path) * (g.size + 1) + (g.enclosed o).card

theorem textDepth_part (hnew : i ∉ path) (ho : o ∈ (g.read i).parts) :
    g.textDepth (i :: path) o < g.textDepth path (.ref i) := by
  have hlt : remaining g.size (· ∈ i :: path) < remaining g.size (· ∈ path) :=
    remaining_lt _ (fun _ => List.mem_cons_of_mem i) (lt_size_of_mem_parts ho) hnew
      List.mem_cons_self
  exact Nat.lt_of_lt_of_le (depth_lt_of_fewer hlt (card_enclosed_le g o)) (Nat.le_add_right _ _)

theorem textDepth_lt_inspectDepth (g : ObjectGraph) (path : List ObjectId) (o : Object) :
    g.textDepth path o < g.inspectDepth := by
  have hle : remaining g.size (· ∈ path) ≤ g.size := remaining_le_size g.size
  have hremaining := Nat.mul_le_mul_right (g.size + 1) hle
  have henclosed := card_enclosed_le g o
  rw [textDepth, inspectDepth, Nat.succ_mul]
  omega

/-- With enough fuel an object has the text of what it unfolds to. -/
theorem exists_unfolds (hends : g.PayloadsEnd) {fuel : Nat} (hfuel : g.textDepth path o < fuel) :
    ∃ t, g.Unfolds path o t ∧ (g.inspectOn fuel o).run path = some (t.text, path) := by
  induction fuel generalizing path o with
  | zero => exact absurd hfuel (Nat.not_lt_zero _)
  | succ fuel ih =>
    cases ho : o.id? with
    | none => exact ⟨_, .plain ho, run_inspectOn_plain ho⟩
    | some i =>
      obtain rfl : o = .ref i := by
        cases o with
        | ref => rw [Option.some.inj ho]
        | _ => cases ho
      cases hc : (g.read i).container? with
      | none =>
        cases hcell : g.read i with
        | list | map =>
          rw [hcell] at hc
          cases hc
        | native type payload =>
          have hlt : g.textDepth path payload < fuel := by
            have := card_enclosed_lt hends hcell
            simp only [textDepth] at *
            omega
          obtain ⟨t, ht, hrun⟩ := ih hlt
          exact ⟨_, .native hcell ht, run_inspectOn_native hcell hrun⟩
      | some c =>
        by_cases hin : i ∈ path
        · exact ⟨_, .again hc hin, run_inspectOn_again hc hin⟩
        · have hlt (o : Object) (ho : o ∈ (g.read i).parts) : g.textDepth (i :: path) o < fuel :=
            Nat.lt_of_lt_of_le (textDepth_part hin ho) (Nat.le_of_lt_succ hfuel)
          obtain ⟨ts, hts⟩ := exists_forall₂ fun o ho => ih (hlt o ho)
          refine ⟨_, .container hc hin hts.length_eq fun k o t ho ht => ?_, ?_⟩
          · exact (forall₂_getElem? hts ho ht).1
          · rw [Unfolding.text, Unfolding.texts_eq_map]
            refine run_inspectOn_container hc hin ?_
            exact List.forall₂_map_right_iff.2 (hts.imp fun _ _ h => h.2)

theorem inspect?_eq_of_run {text : String}
    (hrun : (g.inspectOn g.inspectDepth o).run [] = some (text, [])) :
    g.inspect? o = some text := by
  change ((g.inspectOn g.inspectDepth o).run []).map Prod.fst = some text
  rw [hrun]
  rfl

theorem inspect?_eq_text (hends : g.PayloadsEnd) {t : Unfolding} (ht : g.Unfolds [] o t) :
    g.inspect? o = some t.text := by
  obtain ⟨t', ht', hrun⟩ := exists_unfolds hends (textDepth_lt_inspectDepth g [] o)
  rw [inspect?_eq_of_run hrun, ht'.unique ht]

theorem inspectContainer?_eq (hends : g.PayloadsEnd) (hc : (g.read i).container? = some c) :
    ∃ text, g.inspectContainer? i = some text ∧
      g.inspect? (.ref i) = some (Inspect.call (g.read i).label [text]) := by
  have hdepth := Nat.lt_succ_of_lt (textDepth_lt_inspectDepth g [] (.ref i))
  obtain ⟨t, ht, hrun⟩ := exists_unfolds hends hdepth
  rw [inspectOn, StateT.run_bind] at hrun
  obtain ⟨⟨text, path⟩, hcell, hlabel⟩ := Option.bind_eq_some_iff.1 hrun
  obtain ⟨hlabel, -⟩ := Prod.mk.inj (Option.some.inj hlabel)
  refine ⟨text, ?_, by rw [inspect?_eq_text hends ht, ← hlabel]⟩
  have hcontainer : g.inspectContainer? i =
      (inspectCell (g.inspectOn g.inspectDepth) i (g.read i)).run' [] := by
    unfold inspectContainer?
    split
    · rename_i hnative
      exact absurd hc (container?_ne_some hnative)
    · rfl
  rw [hcontainer]
  change ((inspectCell (g.inspectOn g.inspectDepth) i (g.read i)).run []).map Prod.fst = some text
  rw [hcell]
  rfl

/-- An object has the text of what it unfolds to, in which a container is marked where it is inside
itself and is shown in full everywhere else. A text leaves nothing behind that is being shown, so
texts do not depend on what was shown before. Isomorphic graphs unfold to the same tree, but for the
ids of pending references. -/
theorem inspect_marks_containers_inside_themselves (hends : g.PayloadsEnd) :
    (∀ path o, ∃ t, (∀ t', g.Unfolds path o t' ↔ t' = t) ∧
      ∀ fuel, g.inspectDepth ≤ fuel → (g.inspectOn fuel o).run path = some (t.text, path)) ∧
    (∀ path i t, g.Unfolds path (.ref i) t →
      ((∃ c, t = .again c) ↔ (g.read i).container?.isSome ∧ i ∈ path)) ∧
    (∀ o t, g.Unfolds [] o t → g.inspect? o = some t.text) ∧
    (∀ i, (g.read i).container?.isSome → ∃ text, g.inspectContainer? i = some text ∧
      g.inspect? (.ref i) = some (Inspect.call (g.read i).label [text])) ∧
    (∀ os : List Object, ∃ texts, os.map g.inspect? = texts.map some ∧
      (os.mapM (g.inspectOn g.inspectDepth)).run [] = some (texts, [])) ∧
    ∀ h : ObjectGraph, h.PayloadsEnd → ∀ o o',
      (Isomorphic g h o o' → g.inspect? o = h.inspect? o') ∧
      ∀ f f', Isomorphic (g.renamePending f) (h.renamePending f') (o.renamePending f)
          (o'.renamePending f') →
        ∃ t t' : Unfolding, g.inspect? o = some t.text ∧ h.inspect? o' = some t'.text ∧
          t.renamePending f = t'.renamePending f' := by
  refine ⟨fun path o => ?_, fun _ _ _ ht => ht.again_iff, fun o t ht => inspect?_eq_text hends ht,
    fun i hi => ?_, fun os => ?_, fun h hends' o o' => ⟨fun hiso => ?_, fun f f' hiso => ?_⟩⟩
  · obtain ⟨t, ht, -⟩ := exists_unfolds hends (textDepth_lt_inspectDepth g path o)
    refine ⟨t, fun t' => ⟨fun ht' => ht'.unique ht, fun he => he ▸ ht⟩, fun fuel hfuel => ?_⟩
    obtain ⟨t', ht', hrun⟩ :=
      exists_unfolds hends (Nat.lt_of_lt_of_le (textDepth_lt_inspectDepth g path o) hfuel)
    rw [hrun, ht'.unique ht]
  · obtain ⟨c, hc⟩ := Option.isSome_iff_exists.1 hi
    exact inspectContainer?_eq hends hc
  · have hrun (o : Object) (_ : o ∈ os) :
        ∃ text, (g.inspectOn g.inspectDepth o).run [] = some (text, []) := by
      obtain ⟨t, -, hrun⟩ := exists_unfolds hends (textDepth_lt_inspectDepth g [] o)
      exact ⟨t.text, hrun⟩
    obtain ⟨texts, htexts⟩ := exists_forall₂ hrun
    refine ⟨texts, ?_, InspectM.run_mapM htexts⟩
    rw [← List.forall₂_eq_eq_eq, List.forall₂_map_left_iff, List.forall₂_map_right_iff]
    exact htexts.imp fun _ _ h => inspect?_eq_of_run h
  · obtain ⟨t, ht, -⟩ := exists_unfolds hends (textDepth_lt_inspectDepth g [] o)
    rw [inspect?_eq_text hends ht, inspect?_eq_text hends' (ht.of_isomorphic hiso .start .nil)]
  · obtain ⟨t, ht, -⟩ := exists_unfolds hends (textDepth_lt_inspectDepth g [] o)
    obtain ⟨t', ht', -⟩ := exists_unfolds hends' (textDepth_lt_inspectDepth h [] o')
    refine ⟨t, t', inspect?_eq_text hends ht, inspect?_eq_text hends' ht', ?_⟩
    exact ((ht.renamePending f).of_isomorphic hiso .start .nil).unique (ht'.renamePending f')

/-- A list that contains itself stands in a map twice, once inside an instance, and is shown in full
at both places. -/
theorem inspect_marks_containers_inside_themselves_mutual :
    mutualObjects.PayloadsEnd ∧
      (∃ t, (∀ t', mutualObjects.Unfolds [] (.ref 5) t' ↔ t' = t) ∧
        mutualObjects.inspect? (.ref 5) = some t.text) ∧
      mutualObjects.inspect? (.ref 5) = some ("Map(\x7b\"a\": Native(Box(List([List([...])]))), " ++
        "\"b\": List([List([...])])\x7d)") := by
  have h := inspect_marks_containers_inside_themselves mutualObjects_payloadsEnd
  obtain ⟨t, ht, -⟩ := h.1 [] (.ref 5)
  exact ⟨mutualObjects_payloadsEnd, ⟨t, ht, h.2.2.1 _ t ((ht t).2 rfl)⟩, by decide +kernel⟩

end ObjectGraph

end TaggedGraph
