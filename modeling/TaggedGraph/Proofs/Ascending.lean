import Mathlib.Data.List.Sort
import TaggedGraph.Ascending

namespace TaggedGraph.Ascending

variable {α : Type} {key : α → String} {l l' : List α}

theorem Sorted.eq_of_perm (h : Sorted key l) (h' : Sorted key l') (hperm : l.Perm l') : l = l' :=
  hperm.eq_of_pairwise
    (fun _ _ _ _ hab hba => absurd (String.lt_trans hab hba) (String.lt_irrefl _)) h h'

theorem Sorted.nodup (h : Sorted key l) : (l.map key).Nodup :=
  List.pairwise_map.2 (h.imp fun {a b} hlt (he : key a = key b) => String.lt_irrefl _ (he ▸ hlt))

theorem Sorted.eq_of_mem (h : Sorted key l) (h' : Sorted key l') (hmem : ∀ x, x ∈ l ↔ x ∈ l') :
    l = l' :=
  h.eq_of_perm h' ((List.perm_ext_iff_of_nodup h.nodup.of_map h'.nodup.of_map).mpr hmem)

theorem place_perm {x : α} (hx : key x ∉ l.map key) : (place key x l).Perm (x :: l) := by
  induction l with
  | nil => exact .refl _
  | cons y r ih =>
    rw [List.map_cons, List.mem_cons, not_or] at hx
    rw [place, if_neg hx.1]
    split
    · exact .refl _
    · exact ((ih hx.2).cons y).trans (.swap x y r)

theorem ofList_perm (h : (l.map key).Nodup) : (ofList key l).Perm l := by
  suffices hacc : ∀ acc, ((acc ++ l).map key).Nodup →
      (l.foldl (fun acc x => place key x acc) acc).Perm (acc ++ l) from hacc [] h
  clear h
  induction l with
  | nil => exact fun acc _ => by simp
  | cons x r ih =>
    intro acc hacc
    have hmiddle : (acc ++ x :: r).Perm (x :: acc ++ r) := List.perm_middle
    have hx : (x :: acc).map key |>.Nodup :=
      ((hmiddle.map key).nodup_iff.mp hacc).sublist ((List.sublist_append_left _ _).map key)
    have hplace : (place key x acc).Perm (x :: acc) := place_perm (List.nodup_cons.mp hx).1
    have hrest := (hplace.append_right r).trans hmiddle.symm
    exact (ih _ ((hrest.map key).nodup_iff.mpr hacc)).trans hrest

theorem ofList_of_sorted (h : Sorted key l) : ofList key l = l :=
  (sorted_ofList key l).eq_of_perm h (ofList_perm h.nodup)

theorem mem_of_mem_ofList {x : α} (h : x ∈ ofList key l) : x ∈ l := by
  suffices hacc : ∀ acc, x ∈ l.foldl (fun acc x => place key x acc) acc → x ∈ acc ∨ x ∈ l by
    simpa using hacc [] h
  clear h
  induction l with
  | nil => simp
  | cons y r ih =>
    intro acc hmem
    rcases ih _ hmem with hmem | hmem
    · rcases mem_place_imp key y x acc hmem with rfl | hmem
      · exact .inr List.mem_cons_self
      · exact .inl hmem
    · exact .inr (List.mem_cons_of_mem y hmem)

end TaggedGraph.Ascending
