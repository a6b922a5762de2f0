namespace TaggedGraph

/-- Keys stay in the order of their first insertion. -/
structure OrderedMap (α : Type) where
  entries : List (String × α)
  nodup : (entries.map Prod.fst).Nodup
deriving DecidableEq

namespace OrderedMap

variable {α β : Type}

def empty : OrderedMap α := ⟨[], List.nodup_nil⟩

instance : EmptyCollection (OrderedMap α) := ⟨empty⟩
instance : Inhabited (OrderedMap α) := ⟨empty⟩

def keys (m : OrderedMap α) : List String :=
  m.entries.map Prod.fst

def values (m : OrderedMap α) : List α :=
  m.entries.map Prod.snd

def size (m : OrderedMap α) : Nat :=
  m.entries.length

def get? (m : OrderedMap α) (k : String) : Option α :=
  m.entries.lookup k

/-- A key that is present keeps its place and takes the new value. -/
def put (k : String) (v : α) : List (String × α) → List (String × α)
  | [] => [(k, v)]
  | e :: r => if e.1 = k then (k, v) :: r else e :: put k v r

theorem keys_put (k : String) (v : α) (l : List (String × α)) :
    (put k v l).map Prod.fst =
      if k ∈ l.map Prod.fst then l.map Prod.fst else l.map Prod.fst ++ [k] := by
  induction l with
  | nil => rfl
  | cons e r ih =>
    by_cases h : e.1 = k
    · simp [put, h]
    · simp only [put, if_neg h, List.map_cons, ih, List.mem_cons, Ne.symm h, false_or]
      split <;> simp

theorem nodup_put (k : String) (v : α) (l : List (String × α)) (h : (l.map Prod.fst).Nodup) :
    ((put k v l).map Prod.fst).Nodup := by
  rw [keys_put]
  split
  · exact h
  · rename_i hk
    exact List.nodup_append.2 ⟨h, by simp, by
      intro a ha b hb
      obtain rfl := List.mem_singleton.1 hb
      rintro rfl
      exact hk ha⟩

def insert (m : OrderedMap α) (k : String) (v : α) : OrderedMap α :=
  ⟨put k v m.entries, nodup_put k v m.entries m.nodup⟩

def ofList (l : List (String × α)) : OrderedMap α :=
  l.foldl (fun m e => m.insert e.1 e.2) empty

def map (f : α → β) (m : OrderedMap α) : OrderedMap β :=
  ⟨m.entries.map fun e => (e.1, f e.2), by
    simpa [List.map_map, Function.comp_def] using m.nodup⟩

theorem keys_insert (m : OrderedMap α) (k : String) (v : α) :
    (m.insert k v).keys = if k ∈ m.keys then m.keys else m.keys ++ [k] :=
  keys_put k v m.entries

theorem lookup_put (k : String) (v : α) (l : List (String × α)) (j : String) :
    (put k v l).lookup j = if j = k then some v else l.lookup j := by
  induction l with
  | nil => simp only [put, List.lookup_cons, List.lookup_nil]; grind
  | cons e r ih =>
    obtain ⟨a, b⟩ := e
    simp only [put]
    split
    · simp only [List.lookup_cons]; grind
    · simp only [List.lookup_cons, ih]; grind

theorem get?_insert (m : OrderedMap α) (k : String) (v : α) (j : String) :
    (m.insert k v).get? j = if j = k then some v else m.get? j :=
  lookup_put k v m.entries j

theorem not_eq_getD {k : String} {ks : List String} (hk : k ∉ ks) {i : Nat} (hi : i < ks.length) :
    k ≠ ks.getD i "" := by
  rintro rfl
  apply hk
  rw [List.getD_eq_getElem?_getD, List.getElem?_eq_getElem hi]
  exact List.getElem_mem hi

theorem put_zip_length (v : α) (ks : List String) (hk : ks.Nodup) (vs : List α)
    (h : vs.length < ks.length) :
    put (ks.getD vs.length "") v (ks.zip vs) = ks.zip (vs ++ [v]) := by
  induction ks generalizing vs with
  | nil => simp at h
  | cons k ks ih =>
    obtain ⟨hk, hks⟩ := List.nodup_cons.1 hk
    cases vs with
    | nil => simp [put]
    | cons w vs =>
      have hlt : vs.length < ks.length := by simpa using h
      have hput : put ((k :: ks).getD (w :: vs).length "") v ((k, w) :: ks.zip vs) =
          (k, w) :: put (ks.getD vs.length "") v (ks.zip vs) := if_neg (not_eq_getD hk hlt)
      simp only [List.zip_cons_cons, List.cons_append]
      rw [hput, ih hks vs hlt]

theorem put_zip_set (v : α) (ks : List String) (hk : ks.Nodup) (vs : List α) (i : Nat)
    (hi : i < vs.length) (h : vs.length ≤ ks.length) :
    put (ks.getD i "") v (ks.zip vs) = ks.zip (vs.set i v) := by
  induction ks generalizing vs i with
  | nil => simp at h; simp [h] at hi
  | cons k ks ih =>
    obtain ⟨hk, hks⟩ := List.nodup_cons.1 hk
    cases vs with
    | nil => simp at hi
    | cons w vs =>
      cases i with
      | zero => simp [put]
      | succ i =>
        have hle : vs.length ≤ ks.length := by simpa using h
        have hlt : i < vs.length := by simpa using hi
        have hput : put ((k :: ks).getD (i + 1) "") v ((k, w) :: ks.zip vs) =
            (k, w) :: put (ks.getD i "") v (ks.zip vs) := if_neg (not_eq_getD hk (by omega))
        simp only [List.zip_cons_cons, List.set_cons_succ]
        rw [hput, ih hks vs i hlt hle]

end OrderedMap

end TaggedGraph
