import TaggedGraph.Proofs.Load.Calls
import TaggedGraph.Proofs.Preorder

namespace TaggedGraph.Load

open Traversal Event

variable {session : Session} {nodes : NodeGraph} {root : NodeId} {s s' : LoadState}
  {es es' : List (Event NodeId)}

/-- `vertices` holds the nodes with children that can be met. -/
structure Covers (nodes : NodeGraph) (P : NodeId → Prop) (vertices : Finset NodeId) : Prop where
  children : ∀ n c, P n → c ∈ nodes.children n → P c
  mem : ∀ n, P n → nodes.children n ≠ [] → n ∈ vertices

section
variable {P : NodeId → Prop} {vertices : Finset NodeId} {depth : Nat}

/-- If one more level makes no difference to the children, it makes none to their list or map. -/
theorem fill_succ
    (hv : ∀ n s es, P n → Tracks session nodes s es → unmetIn vertices es < depth →
      (convert session nodes (depth + 1) n).run s = (convert session nodes depth n).run s)
    (n : NodeId) (id : ObjectId) (r : List NodeId) (hr : ∀ c ∈ r, P c) (index : Nat)
    (s : LoadState) (es : List (Event NodeId)) (h : Filling session nodes s es n id index r)
    (hd : r ≠ [] → unmetIn vertices es < depth) :
    (fill (convert session nodes (depth + 1)) id (nodes.content n) index r).run s =
      (fill (convert session nodes depth) id (nodes.content n) index r).run s := by
  induction r generalizing index s es with
  | nil => rfl
  | cons c r ih =>
    have hd := hd (by simp)
    have hc := hv c s es (hr c List.mem_cons_self) h.tracks hd
    simp only [fill]
    rcases yields_or_fails (convert session nodes depth c) s with ⟨o, s₁, hvisit⟩ | ⟨e, s₁, hvisit⟩
    · rw [run_bind_ok hvisit, run_bind_ok (hc.trans hvisit)]
      obtain ⟨hsteps, rfl, hec⟩ := convert_steps depth c s es o s₁ h.tracks hvisit
      obtain ⟨-, hnext⟩ := h.next hsteps (goesOn_walk nodes.children depth es c) hec
      refine ih (fun d hd => hr d (List.mem_cons_of_mem _ hd)) (index + 1) _ _ hnext fun _ => ?_
      refine Nat.lt_of_le_of_lt (unmetIn_le ?_) hd
      exact (goesOn_walk nodes.children depth es c).isPrefix.trans (List.prefix_append _ _)
    · rw [run_bind_error hvisit, run_bind_error (hc.trans hvisit)]

/-- Nodes whose lists and maps are filled alike are converted alike. -/
theorem convertNew_run_eq {visit visit' : NodeId → LoadM Object} {n : NodeId}
    (hraw : session.converterAt nodes n = none →
      (fill visit' s.objects.size (nodes.content n) 0 (nodes.children n)).run
          ((s.begin n (nodes.content n)).2.record n (s.begin n (nodes.content n)).1) =
        (fill visit s.objects.size (nodes.content n) 0 (nodes.children n)).run
          ((s.begin n (nodes.content n)).2.record n (s.begin n (nodes.content n)).1))
    (hconverted : session.converterAt nodes n ≠ none →
      (fill visit' s.objects.size (nodes.content n) 0 (nodes.children n)).run
          ((s.enter n).begin n (nodes.content n)).2 =
        (fill visit s.objects.size (nodes.content n) 0 (nodes.children n)).run
          ((s.enter n).begin n (nodes.content n)).2) :
    (convertNew session nodes visit' n).run s = (convertNew session nodes visit n).run s := by
  by_cases hc : session.converterAt nodes n = none
  · have hfill := hraw hc
    apply run_eq_of_outcomes
    · intro o s' h
      obtain ⟨rfl, s₂, hf, rfl⟩ := (yields_convertNew_raw _ _ _ _ hc _ _ _).1 h
      exact (yields_convertNew_raw _ _ _ _ hc _ _ _).2 ⟨rfl, s₂, hfill.trans hf, rfl⟩
    · intro e s' h
      have h := (fails_convertNew_raw _ _ _ _ hc _ _ _).1 h
      exact (fails_convertNew_raw _ _ _ _ hc _ _ _).2 (hfill.trans h)
  · have hfill := hconverted hc
    obtain ⟨c, hat⟩ := Option.ne_none_iff_exists'.1 hc
    obtain ⟨t, htag, hconv⟩ := Option.bind_eq_some_iff.1 hat
    apply run_eq_of_outcomes
    · intro o s' h
      obtain ⟨s₂, answer, objects, hf, hcall, rfl, rfl⟩ :=
        (yields_convertNew_converted _ _ _ n t c htag hconv _ _ _).1 h
      exact (yields_convertNew_converted _ _ _ n t c htag hconv _ _ _).2
        ⟨s₂, answer, objects, hfill.trans hf, hcall, rfl, rfl⟩
    · intro e s' h
      apply (fails_convertNew_converted _ _ _ n t c htag hconv _ _ _).2
      rcases (fails_convertNew_converted _ _ _ n t c htag hconv _ _ _).1 h with hf | ⟨s₂, hf, hcall⟩
      · exact .inl (hfill.trans hf)
      · exact .inr ⟨s₂, hfill.trans hf, hcall⟩

/-- A depth above the number of nodes that are still to be met is as good as the next one. -/
theorem convert_succ (hcovers : Covers nodes P vertices) (depth : Nat) (n : NodeId) (s : LoadState)
    (es : List (Event NodeId)) (hn : P n) (ht : Tracks session nodes s es)
    (hd : unmetIn vertices es < depth) :
    (convert session nodes (depth + 1) n).run s = (convert session nodes depth n).run s := by
  induction depth generalizing n s es with
  | zero => exact absurd hd (Nat.not_lt_zero _)
  | succ depth ih =>
    rw [run_convert, run_convert]
    split
    · rfl
    rename_i hmet
    have he : enter n ∉ es := fun he => hmet ((ht.met_iff n).2 he)
    -- the children are visited with one node less to be met
    have hdepth (hr : nodes.children n ≠ []) : unmetIn vertices (es ++ [enter n]) < depth := by
      have := unmetIn_enter (hcovers.mem n hn hr) he
      omega
    apply convertNew_run_eq
    · intro hc
      exact fill_succ ih n _ _ (hcovers.children n · hn) 0 _ _
        (.start ht he (.enterRaw he hc) (s.begin_built n _)) hdepth
    · intro hc
      exact fill_succ ih n _ _ (hcovers.children n · hn) 0 _ _
        (.start ht he (.enterConverted he hc) ((s.enter n).begin_built n _)) hdepth

theorem convert_eq_of_le (hcovers : Covers nodes P vertices) {depth depth' : Nat} {n : NodeId}
    (hn : P n) (ht : Tracks session nodes s es) (hd : unmetIn vertices es < depth)
    (hle : depth ≤ depth') :
    (convert session nodes depth' n).run s = (convert session nodes depth n).run s := by
  induction depth', hle using Nat.le_induction with
  | base => rfl
  | succ k hk ih => exact (convert_succ hcovers k n s es hn ht (by omega)).trans ih

end

theorem covers_size (nodes : NodeGraph) (root : NodeId) :
    Covers nodes (nodes.Reachable root) (Finset.range nodes.size) where
  children _ _ hn hc := hn.step hc
  mem _ _ hr := Finset.mem_range.2 (NodeGraph.lt_size_of_children hr)

/-- One level more than there are nodes that can be reached is deep enough. -/
theorem convert_reachable (reachable : Finset NodeId)
    (hreachable : ∀ n, n ∈ reachable ↔ nodes.Reachable root n) (objects : ObjectGraph)
    (warnings : Warnings) {depth : Nat} (hd : reachable.card < depth) :
    (convert session nodes depth root).run (.start objects warnings) =
      (convert session nodes (nodes.size + 1) root).run (.start objects warnings) := by
  have hcovers : Covers nodes (nodes.Reachable root) reachable :=
    ⟨fun _ _ hn hc => hn.step hc, fun n hn _ => (hreachable n).2 hn⟩
  have ht : Tracks session nodes (.start objects warnings) [] := .nil objects warnings
  have hsize := unmetIn_le_card (Finset.range nodes.size) []
  rw [Finset.card_range] at hsize
  -- both are as good as a depth above both
  exact (convert_eq_of_le hcovers (.refl root) ht (Nat.lt_of_le_of_lt (unmetIn_le_card _ _) hd)
      (Nat.le_max_left depth (nodes.size + 1))).symm.trans
    (convert_eq_of_le (covers_size nodes root) (.refl root) ht (Nat.lt_succ_of_le hsize)
      (Nat.le_max_right _ _))

section
variable {objects : ObjectGraph} {warnings : Warnings}

theorem Step.tables (hstep : Step session nodes (s, es) (s', es')) (ht : Tracks session nodes s es)
    (hnodup : (entering es).Nodup) (h : (s.done.map Prod.fst ++ s.active).Perm (entering es)) :
    (entering es').Nodup ∧ (s'.done.map Prod.fst ++ s'.active).Perm (entering es') := by
  have hsnoc {n : NodeId} (hn : enter n ∉ es) : (entering (es ++ [enter n])).Nodup := by
    rw [entering_snoc_enter]
    exact hnodup.append (List.nodup_singleton n) (by simpa [mem_entering] using hn)
  cases hstep with
  | @enterRaw _ _ n hn hc =>
    refine ⟨hsnoc hn, ?_⟩
    rw [entering_snoc_enter]
    simp only [LoadState.record, LoadState.done_begin, LoadState.active_begin, List.map_cons]
    exact (h.cons n).trans (List.perm_append_singleton n _).symm
  | @enterConverted _ _ n hn hc =>
    refine ⟨hsnoc hn, ?_⟩
    rw [entering_snoc_enter]
    simp only [LoadState.done_begin, LoadState.active_begin, LoadState.done_enter,
      LoadState.active_enter]
    exact List.perm_middle.trans ((h.cons n).trans (List.perm_append_singleton n _).symm)
  | refer => simpa using ⟨hnodup, h⟩
  | leaveRaw => simpa using ⟨hnodup, h⟩
  | @leaveConverted _ _ n c t raw answer g hcalls =>
    rw [entering_snoc_leave]
    refine ⟨hnodup, .trans ?_ h⟩
    have hactive : n ∈ s.active := (ht.active n).2 ⟨hcalls.ends.entered, hcalls.not_settled⟩
    have honce : s.active.Nodup := (h.nodup_iff.2 hnodup).of_append_right
    -- the node moves from one table to the other
    have hleave : s.active.filter (· ≠ n) = s.active.erase n := by
      rw [honce.erase_eq_filter]
      exact List.filter_congr fun x _ => by rw [Bool.eq_iff_iff]; simp
    change ((n :: s.done.map Prod.fst) ++ s.active.filter (· ≠ n)).Perm _
    rw [hleave]
    exact List.perm_middle.symm.trans ((List.perm_cons_erase hactive).symm.append_left _)

/-- The tables hold the nodes that were met, each of them once. -/
theorem Steps.tables (h : Steps session nodes (.start objects warnings, []) (s, es)) :
    (entering es).Nodup ∧ (s.done.map Prod.fst ++ s.active).Perm (entering es) :=
  (h.keeps (J := fun s es => Tracks session nodes s es ∧ (entering es).Nodup ∧
      (s.done.map Prod.fst ++ s.active).Perm (entering es))
    (fun _ _ _ _ hstep ⟨ht, hnodup, hperm⟩ => ⟨ht.step hstep, hstep.tables ht hnodup hperm⟩)
    ⟨.nil objects warnings, List.nodup_nil, .nil⟩).2

/-- However a load ends, until then it has taken steps of the traversal, and after that nothing has
changed but the objects and the calls. -/
theorem load_pass (session : Session) (nodes : NodeGraph) (root : NodeId) (objects : ObjectGraph)
    (warnings : Warnings) : ∃ s es g calls,
      Steps session nodes (.start objects warnings, []) (s, es) ∧ es <+: nodes.events root ∧
      (load session nodes root objects warnings).2 = s.ran g calls := by
  rcases yields_or_fails (run session nodes root) (.start objects warnings) with
    ⟨o, s', h⟩ | ⟨e, s', h⟩
  · obtain ⟨s, hsteps, -, hcomplete, -⟩ := load_steps h
    obtain ⟨calls, g, -, rfl⟩ := (yields_complete _ _ _ _).1 hcomplete
    exact ⟨s, _, g, calls, hsteps, List.prefix_rfl, congrArg Prod.snd h⟩
  · rcases fails_run root _ e s' h with hconvert | ⟨o, s, hconvert, hcomplete⟩
    · obtain ⟨s, es, n, hsteps, hevents, c, t, raw, message, g, -, -, rfl, rfl⟩ :=
        convert_fails _ root _ [] e s' (.nil _ _) (Nat.lt_succ_of_le (remaining_le_size _)) hconvert
      exact ⟨s, es, g, _, hsteps, (List.prefix_append _ _).trans hevents, congrArg Prod.snd h⟩
    · obtain ⟨hsteps, -, -⟩ := convert_steps _ root _ [] o s (.nil _ _) hconvert
      obtain ⟨before, d, after, calls, g, error, more, k, -, -, -, rfl, rfl⟩ :=
        fails_complete _ _ _ _ hcomplete
      exact ⟨s, _, k, _, hsteps, List.prefix_rfl, congrArg Prod.snd h⟩

end

/-- How far a load goes. -/
structure Bounded (session : Session) (nodes : NodeGraph) (root : NodeId) (objects : ObjectGraph)
    (warnings : Warnings) : Prop where
  /-- It does not go too deep. -/
  ends : (load session nodes root objects warnings).1 ≠ .error .tooDeep
  /-- One level more than there are nodes that can be reached is enough. -/
  depth : ∃ reachable : Finset NodeId, (∀ n, n ∈ reachable ↔ nodes.Reachable root n) ∧
    ∀ depth, reachable.card < depth → (runWithin session nodes depth root).run
      (.start objects warnings) = load session nodes root objects warnings
  /-- It takes steps that enter each node at most once, and the nodes that were entered are in one
  of the two tables. -/
  once : ∃ s es g calls, Steps session nodes (.start objects warnings, []) (s, es) ∧
    (load session nodes root objects warnings).2 = s.ran g calls ∧ (entering es).Nodup ∧
    (s.done.map Prod.fst ++ s.active).Perm (entering es) ∧ ∀ n ∈ entering es, nodes.Reachable root n
  /-- A node that was entered is answered from the tables. -/
  again : ∀ s es n, Steps session nodes (.start objects warnings, []) (s, es) → enter n ∈ es →
    ((s.done.lookup n).isSome ∨ n ∈ s.active) ∧
      ∀ depth, Yields (convert session nodes (depth + 1) n) s (s.result n) s

theorem bounded (session : Session) (nodes : NodeGraph) (root : NodeId) (objects : ObjectGraph)
    (warnings : Warnings) : Bounded session nodes root objects warnings where
  ends h := by
    have hfailed : Accounts session nodes root objects (.error .tooDeep, _) :=
      load_failed (Prod.ext h rfl)
    cases hfailed
  depth := by
    refine ⟨(nodes.postorder root).toFinset, fun n => ?_, fun depth hd => ?_⟩
    · rw [List.mem_toFinset, NodeGraph.mem_postorder]
    · refine run_bind_congr (convert_reachable _ (fun n => ?_) objects warnings hd) _
      rw [List.mem_toFinset, NodeGraph.mem_postorder]
  once := by
    obtain ⟨s, es, g, calls, hsteps, hevents, h⟩ := load_pass session nodes root objects warnings
    obtain ⟨hnodup, hperm⟩ := hsteps.tables
    refine ⟨s, es, g, calls, hsteps, h, hnodup, hperm, fun n hn => ?_⟩
    exact NodeGraph.reachable_of_enter (hevents.subset (mem_entering.1 hn))
  again s es n hsteps hn := by
    have hmet := ((hsteps.tracks (.nil objects warnings)).met_iff n).2 hn
    exact ⟨hmet, fun depth => (run_convert session nodes depth n s).trans (if_pos hmet)⟩

end TaggedGraph.Load
