import TaggedGraph.Proofs.Postorder
import TaggedGraph.Traversal

namespace TaggedGraph.Traversal

open Event

variable {α : Type}

def Event.entered? : Event α → Option α
  | .enter n => some n
  | _ => none

def entering (es : List (Event α)) : List α :=
  es.filterMap Event.entered?

variable {es : List (Event α)} {n : α}

theorem mem_entering : n ∈ entering es ↔ enter n ∈ es := by
  rw [entering, List.mem_filterMap]
  constructor
  · intro ⟨e, he, hn⟩
    cases e with
    | enter m =>
      cases hn
      exact he
    | _ => cases hn
  · exact fun h => ⟨_, h, rfl⟩

@[simp] theorem entering_snoc_enter (es : List (Event α)) (n : α) :
    entering (es ++ [enter n]) = entering es ++ [n] := by
  simp [entering, Event.entered?]

@[simp] theorem entering_snoc_refer (es : List (Event α)) (n : α) (i : Nat) (c : α) :
    entering (es ++ [refer n i c]) = entering es := by
  simp [entering, Event.entered?]

@[simp] theorem entering_snoc_leave (es : List (Event α)) (n : α) :
    entering (es ++ [leave n]) = entering es := by
  simp [entering, Event.entered?]

theorem entering_walkChildren {visit : List (Event α) → α → List (Event α)}
    {next : List α → α → List α} (hv : ∀ es c, entering (visit es c) = next (entering es) c) (n : α)
    (r : List α) (index : Nat) (es : List (Event α)) :
    entering (walkChildren visit n index r es) = r.foldl next (entering es) := by
  induction r generalizing index es with
  | nil => rfl
  | cons c r ih => rw [walkChildren, ih, entering_snoc_refer, hv, List.foldl_cons]

section
variable [DecidableEq α]

/-- A walk enters the vertices in preorder. -/
theorem entering_walk (children : α → List α) (depth : Nat) (es : List (Event α)) (n : α) :
    entering (walk children depth es n) = visit children depth (entering es) n := by
  induction depth generalizing es n with
  | zero => rfl
  | succ depth ih =>
    rw [walk, visit]
    by_cases hn : enter n ∈ es
    · rw [if_pos hn, if_pos (mem_entering.2 hn)]
    · rw [if_neg hn, if_neg fun h => hn (mem_entering.1 h), entering_snoc_leave,
        entering_walkChildren ih, entering_snoc_enter]

theorem nodup_visit (children : α → List α) (depth : Nat) (seen : List α) (n : α)
    (h : seen.Nodup) : (visit children depth seen n).Nodup := by
  induction depth generalizing seen n with
  | zero => exact h
  | succ depth ih =>
    rw [visit]
    split
    · exact h
    rename_i hn
    have hsnoc : (seen ++ [n]).Nodup := h.append (List.nodup_singleton n) (by simpa using hn)
    generalize seen ++ [n] = seen at hsnoc
    induction children n generalizing seen with
    | nil => exact hsnoc
    | cons c r ihr => exact ihr _ (ih seen c hsnoc)

theorem mem_visit {children : α → List α} {depth : Nat} {root p : α} :
    p ∈ visit children depth [] root ↔ enter p ∈ walk children depth [] root := by
  rw [← mem_entering, entering_walk]
  rfl

/-- A walk that visits all children of what it enters comes to all that can be reached. -/
theorem mem_visit_iff {children : α → List α} {depth : Nat} {root p : α}
    (h : Traced children (walk children depth [] root))
    (hroot : enter root ∈ walk children depth [] root) :
    p ∈ visit children depth [] root ↔
      Relation.ReflTransGen (fun a b => b ∈ children a) root p := by
  rw [mem_visit]
  constructor
  · exact walk_keeps (P := Relation.ReflTransGen (fun a b => b ∈ children a) root)
      (fun _ _ hn hc => hn.tail hc) depth [] root .refl (by simp) p
  · intro hpath
    induction hpath with
    | refl => exact hroot
    | tail _ hc ih =>
      obtain ⟨i, hi⟩ := List.mem_iff_getElem?.1 hc
      exact (h.refers _ i _ (h.full _ i _ (leave_mem_walk ih) hi)).2.1

end

end TaggedGraph.Traversal
