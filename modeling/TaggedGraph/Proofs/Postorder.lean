import TaggedGraph.Node.Basic
import TaggedGraph.Proofs.Walk

namespace TaggedGraph

namespace Traversal

open Event

section
variable {α : Type}

def Event.left? : Event α → Option α
  | .leave n => some n
  | _ => none

def leaving (es : List (Event α)) : List α :=
  es.filterMap Event.left?

variable {es : List (Event α)} {n : α}

theorem mem_leaving : n ∈ leaving es ↔ leave n ∈ es := by
  rw [leaving, List.mem_filterMap]
  constructor
  · intro ⟨e, he, hn⟩
    cases e with
    | leave m =>
      cases hn
      exact he
    | _ => cases hn
  · exact fun h => ⟨_, h, rfl⟩

@[simp] theorem leaving_snoc_enter (es : List (Event α)) (n : α) :
    leaving (es ++ [enter n]) = leaving es := by
  simp [leaving, Event.left?]

@[simp] theorem leaving_snoc_refer (es : List (Event α)) (n : α) (i : Nat) (c : α) :
    leaving (es ++ [refer n i c]) = leaving es := by
  simp [leaving, Event.left?]

@[simp] theorem leaving_snoc_leave (es : List (Event α)) (n : α) :
    leaving (es ++ [leave n]) = leaving es ++ [n] := by
  simp [leaving, Event.left?]

theorem leaving_mono {es' : List (Event α)} (h : es <+: es') : leaving es <+: leaving es' :=
  h.filterMap _

variable {visit : List (Event α) → α → List (Event α)}

/-- No vertex is left twice, nor before it is entered. -/
structure LeftOnce (es : List (Event α)) : Prop where
  nodup : (leaving es).Nodup
  entered : ∀ n, leave n ∈ es → enter n ∈ es

theorem leftOnce_walkChildren (hv : ∀ es c, LeftOnce es → LeftOnce (visit es c)) (n : α)
    (r : List α) (index : Nat) (es : List (Event α)) (h : LeftOnce es) :
    LeftOnce (walkChildren visit n index r es) := by
  induction r generalizing index es with
  | nil => exact h
  | cons c r ih =>
    have hc := hv es c h
    apply ih
    refine ⟨by simpa using hc.nodup, fun m hm => ?_⟩
    simpa using hc.entered m (by simpa using hm)

theorem leftOnce_walk [DecidableEq α] (children : α → List α) (depth : Nat) (es : List (Event α))
    (n : α) (h : LeftOnce es) : LeftOnce (walk children depth es n) := by
  induction depth generalizing es n with
  | zero => exact h
  | succ depth ih =>
    rw [walk]
    split
    · exact h
    rename_i hn
    have henter : LeftOnce (es ++ [enter n]) :=
      ⟨by simpa using h.nodup, fun m hm => by simpa using Or.inl (h.entered m (by simpa using hm))⟩
    have hall := leftOnce_walkChildren ih n (children n) 0 _ henter
    have hgo := goesOn_walkChildren (goesOn_walk children depth) n (children n) 0 (es ++ [enter n])
    generalize walkChildren (walk children depth) n 0 (children n) (es ++ [enter n]) = es' at *
    have hl : leave n ∉ es' := fun hl => by
      have hl : leave n ∈ es := by simpa using hgo.leaves n (by simp) hl
      exact hn (h.entered n hl)
    refine ⟨?_, fun m hm => ?_⟩
    · rw [leaving_snoc_leave, List.nodup_append]
      refine ⟨hall.nodup, List.nodup_singleton n, fun a ha b hb => ?_⟩
      obtain rfl := List.mem_singleton.1 hb
      rintro rfl
      exact hl (mem_leaving.1 ha)
    · rcases List.mem_append.1 hm with hm | hm
      · exact List.mem_append_left _ (hall.entered m hm)
      · cases List.mem_singleton.1 hm
        exact List.mem_append_left _ (hgo.mem (by simp))

theorem walkChildren_keeps {P : α → Prop}
    (hv : ∀ es c, P c → (∀ m, enter m ∈ es → P m) → ∀ m, enter m ∈ visit es c → P m) (n : α)
    (r : List α) (hr : ∀ c ∈ r, P c) (index : Nat) (es : List (Event α))
    (h : ∀ m, enter m ∈ es → P m) : ∀ m, enter m ∈ walkChildren visit n index r es → P m := by
  induction r generalizing index es with
  | nil => exact h
  | cons c r ih =>
    have hc := hv es c (hr c List.mem_cons_self) h
    refine ih (fun d hd => hr d (List.mem_cons_of_mem _ hd)) _ _ fun m hm => ?_
    exact hc m (by simpa using hm)

theorem walk_keeps [DecidableEq α] {children : α → List α} {P : α → Prop}
    (hP : ∀ n c, P n → c ∈ children n → P c) (depth : Nat) (es : List (Event α)) (n : α) (hn : P n)
    (h : ∀ m, enter m ∈ es → P m) : ∀ m, enter m ∈ walk children depth es n → P m := by
  induction depth generalizing es n with
  | zero => exact h
  | succ depth ih =>
    rw [walk]
    split
    · exact h
    have henter : ∀ m, enter m ∈ es ++ [enter n] → P m := by
      intro m hm
      rcases List.mem_append.1 hm with hm | hm
      · exact h m hm
      · cases List.mem_singleton.1 hm
        exact hn
    intro m hm
    exact walkChildren_keeps (fun es c hc h => ih es c hc h) n (children n)
      (fun c hc => hP n c hn hc) 0 _ henter m (by simpa using hm)

end

section
variable {children : Nat → List Nat} {size : Nat} {es : List (Event Nat)}

theorem traced_walkChildren {depth : Nat}
    (hv : ∀ es c, Traced children es → remaining size (fun i => enter i ∈ es) < depth →
      Traced children (walk children depth es c) ∧ enter c ∈ walk children depth es c)
    {n : Nat} (r : List Nat) (index : Nat) (es : List (Event Nat)) (h : Traced children es)
    (he : enter n ∈ es) (hl : leave n ∉ es) (hrest : (children n).drop index = r)
    (hr : ∀ i c, refer n i c ∈ es ↔ i < index ∧ (children n)[i]? = some c)
    (hd : r ≠ [] → remaining size (fun i => enter i ∈ es) < depth) :
    Traced children (walkChildren (walk children depth) n index r es) ∧
      ∀ i c, (children n)[i]? = some c →
        refer n i c ∈ walkChildren (walk children depth) n index r es := by
  induction r generalizing index es with
  | nil =>
    refine ⟨h, fun i c hc => (hr i c).2 ⟨?_, hc⟩⟩
    have := List.drop_eq_nil_iff.1 hrest
    have := (List.getElem?_eq_some_iff.1 hc).1
    omega
  | cons c r ih =>
    have hc : (children n)[index]? = some c := by rw [← List.head?_drop, hrest]; rfl
    have hgo := goesOn_walk children depth es c
    obtain ⟨ht, hec⟩ := hv es c h (hd (by simp))
    have hr' (i : Nat) (d : Nat) :
        refer n i d ∈ walk children depth es c ↔ i < index ∧ (children n)[i]? = some d := by
      rw [← hr]
      exact ⟨hgo.refers n i d he not_false, hgo.mem⟩
    apply ih
    · exact ht.snoc_refer (hgo.mem he) hec hc (by simp [hr'])
    · exact List.mem_append_left _ (hgo.mem he)
    · intro hm
      exact hl (hgo.leaves n he (by simpa using hm))
    · rw [← List.tail_drop, hrest, List.tail_cons]
    · exact refers_snoc hc hr'
    · intro _
      refine Nat.lt_of_le_of_lt (remaining_le _ fun i hi => ?_) (hd (by simp))
      exact List.mem_append_left _ (hgo.mem hi)

/-- A walk that may go deep enough visits all children of what it enters. -/
theorem traced_walk (hsize : ∀ n, children n ≠ [] → n < size) (depth : Nat) (es : List (Event Nat))
    (n : Nat) (h : Traced children es) (hd : remaining size (fun i => enter i ∈ es) < depth) :
    Traced children (walk children depth es n) ∧ enter n ∈ walk children depth es n := by
  induction depth generalizing es n with
  | zero => exact absurd hd (Nat.not_lt_zero _)
  | succ depth ih =>
    rw [walk]
    split
    · rename_i hn
      exact ⟨h, hn⟩
    rename_i hn
    obtain ⟨ht, hr⟩ := traced_walkChildren ih (children n) 0 (es ++ [enter n]) (h.snoc_enter n)
      (by simp) (by simpa using fun hl => hn (h.left n hl)) rfl
      (by simpa using fun i c hr => hn (h.refers n i c hr).1) fun hne => by
        have : remaining size (fun i => enter i ∈ es ++ [enter n]) <
            remaining size (fun i => enter i ∈ es) :=
          remaining_lt _ (fun i hi => List.mem_append_left _ hi) (hsize n hne) hn (by simp)
        omega
    have hgo := goesOn_walkChildren (goesOn_walk children depth) n (children n) 0 (es ++ [enter n])
    have he := hgo.mem (e := enter n) (by simp)
    exact ⟨ht.snoc_leave he hr, List.mem_append_left _ he⟩

end

end Traversal

namespace NodeGraph

open Traversal Event

variable {g : NodeGraph} {root n : NodeId}

/-- The events of the traversal that starts at `root`. -/
abbrev events (g : NodeGraph) (root : NodeId) : List (Event NodeId) :=
  walk g.children (g.size + 1) [] root

/-- The nodes that can be reached, in the order in which a depth-first traversal leaves them. -/
def postorder (g : NodeGraph) (root : NodeId) : List NodeId :=
  leaving (g.events root)

theorem lt_size_of_children (h : g.children n ≠ []) : n < g.size := by
  apply Nat.lt_of_not_le
  intro hle
  apply h
  rw [children, content, Heap.read_of_size_le _ _ hle]
  rfl

theorem traced_events (g : NodeGraph) (root : NodeId) :
    Traced g.children (g.events root) ∧ enter root ∈ g.events root :=
  traced_walk (fun _ => lt_size_of_children) _ [] root .nil
    (Nat.lt_succ_of_le (remaining_le_size _))

theorem enter_of_reachable (h : g.Reachable root n) : enter n ∈ g.events root := by
  obtain ⟨ht, hroot⟩ := g.traced_events root
  induction h with
  | refl => exact hroot
  | step _ hc ih =>
    obtain ⟨i, hi⟩ := List.mem_iff_getElem?.1 hc
    exact (ht.refers _ i _ (ht.full _ i _ (leave_mem_walk ih) hi)).2.1

theorem reachable_of_enter (h : enter n ∈ g.events root) : g.Reachable root n :=
  walk_keeps (P := g.Reachable root) (fun _ _ hn hc => hn.step hc) _ [] root (.refl root)
    (by simp) n h

theorem mem_postorder : n ∈ g.postorder root ↔ g.Reachable root n := by
  rw [postorder, mem_leaving]
  constructor
  · exact fun h => reachable_of_enter ((g.traced_events root).1.left n h)
  · exact fun h => leave_mem_walk (enter_of_reachable h)

theorem nodup_postorder (g : NodeGraph) (root : NodeId) : (g.postorder root).Nodup :=
  (leftOnce_walk g.children _ [] root ⟨List.nodup_nil, by simp⟩).nodup

-- the sequence 1 contains itself and is shared
example : postorder ⟨#[⟨none, .sequence [1, 2, 1]⟩, ⟨none, .sequence [1, 3]⟩,
    ⟨none, .sequence [3, 1]⟩, ⟨none, .scalar .null⟩]⟩ 0 = [3, 1, 2, 0] := by
  decide

end NodeGraph

end TaggedGraph
