import Mathlib.Data.List.Nodup
import TaggedGraph.Proofs.Load.Step

namespace TaggedGraph

def Slot.container : Slot → ObjectId
  | item list _ => list
  | entry map _ => map

namespace Slot

variable (o : Object) (g : ObjectGraph) (w : Slot)

@[simp] theorem size_fill : (w.fill o g).size = g.size := by
  cases w <;> simp only [fill, ObjectGraph.set, ObjectGraph.insert] <;> split <;>
    simp [Heap.size_write]

@[simp] theorem size_extend : (w.extend o g).size = g.size := by
  cases w <;> simp only [extend, ObjectGraph.push, ObjectGraph.insert] <;> split <;>
    simp [Heap.size_write]

theorem read_fill_of_ne {id : ObjectId} (h : w.container ≠ id) :
    (w.fill o g).read id = g.read id := by
  cases w <;> simp only [fill, ObjectGraph.set, ObjectGraph.insert] <;> split
  all_goals first | rfl | exact Heap.read_write_of_ne _ _ _ _ h

theorem read_extend_of_ne {id : ObjectId} (h : w.container ≠ id) :
    (w.extend o g).read id = g.read id := by
  cases w <;> simp only [extend, ObjectGraph.push, ObjectGraph.insert] <;> split
  all_goals first | rfl | exact Heap.read_write_of_ne _ _ _ _ h

end Slot

namespace Content

@[simp] theorem container_slot (ct : Content) (id : ObjectId) (i : Nat) :
    (ct.slot id i).container = id := by
  cases ct <;> rfl

theorem slot_inj (ct : Content) {id id' : ObjectId} {i j : Nat} (hi : i < ct.children.length)
    (hj : j < ct.children.length) (h : ct.slot id i = ct.slot id' j) : i = j := by
  cases ct with
  | scalar => cases h; rfl
  | sequence => cases h; rfl
  | mapping entries =>
    have hlen : entries.keys.length = entries.values.length := by
      simp [OrderedMap.keys, OrderedMap.values]
    simp only [children, ← hlen] at hi hj
    have hkey := (Slot.entry.inj h).2
    simp only [List.getD_eq_getElem?_getD, List.getElem?_eq_getElem hi, List.getElem?_eq_getElem hj,
      Option.getD_some] at hkey
    exact (List.Nodup.getElem_inj_iff entries.nodup).1 hkey

/-- The cell holds the values `vs` for the first children of this content. -/
def Holds (vs : List Object) (cell : Cell) : Content → Prop
  | scalar _ => False
  | sequence items => cell = .list vs ∧ vs.length ≤ items.length
  | mapping entries => ∃ m : OrderedMap Object, cell = .map m ∧ m.entries = entries.keys.zip vs ∧
    vs.length ≤ entries.keys.length

variable {ct : Content} {vs : List Object}

theorem Holds.length_le {cell : Cell} (h : ct.Holds vs cell) : vs.length ≤ ct.children.length := by
  cases ct with
  | scalar => exact h.elim
  | sequence => exact h.2
  | mapping entries =>
    obtain ⟨m, rfl, hm, hle⟩ := h
    simpa [OrderedMap.keys, children, OrderedMap.values] using hle

theorem Holds.parts {cell : Cell} (h : ct.Holds vs cell) : cell.parts = vs := by
  cases ct with
  | scalar => exact h.elim
  | sequence =>
    obtain ⟨rfl, -⟩ := h
    rfl
  | mapping entries =>
    obtain ⟨m, rfl, hm, hle⟩ := h
    simp only [Cell.parts, OrderedMap.values, hm]
    exact List.map_snd_zip hle

theorem Holds.extend {g : ObjectGraph} {id : ObjectId} (h : ct.Holds vs (g.read id))
    (hid : id < g.size) (hlt : vs.length < ct.children.length) (o : Object) :
    ct.Holds (vs ++ [o]) (((ct.slot id vs.length).extend o g).read id) := by
  cases ct with
  | scalar => exact h.elim
  | sequence items =>
    obtain ⟨hc, -⟩ := h
    simp only [slot, Slot.extend, ObjectGraph.push, hc, Heap.read_write_self _ _ _ hid]
    exact ⟨rfl, by simpa [children, Nat.succ_le_iff] using hlt⟩
  | mapping entries =>
    obtain ⟨m, hc, hm, -⟩ := h
    have hlt : vs.length < entries.keys.length := by
      simpa [OrderedMap.keys, children, OrderedMap.values] using hlt
    simp only [slot, Slot.extend, ObjectGraph.insert, hc, Heap.read_write_self _ _ _ hid]
    refine ⟨_, rfl, ?_, by simpa [Nat.succ_le_iff] using hlt⟩
    simp only [OrderedMap.insert, hm]
    exact OrderedMap.put_zip_length o entries.keys entries.nodup vs hlt

theorem Holds.fill {g : ObjectGraph} {id : ObjectId} {i : Nat} (h : ct.Holds vs (g.read id))
    (hid : id < g.size) (hi : i < vs.length) (o : Object) :
    ct.Holds (vs.set i o) (((ct.slot id i).fill o g).read id) := by
  cases ct with
  | scalar => exact h.elim
  | sequence items =>
    obtain ⟨hc, hle⟩ := h
    simp only [slot, Slot.fill, ObjectGraph.set, hc, Heap.read_write_self _ _ _ hid]
    exact ⟨rfl, by simpa using hle⟩
  | mapping entries =>
    obtain ⟨m, hc, hm, hle⟩ := h
    simp only [slot, Slot.fill, ObjectGraph.insert, hc, Heap.read_write_self _ _ _ hid]
    refine ⟨_, rfl, ?_, by simpa using hle⟩
    simp only [OrderedMap.insert, hm]
    exact OrderedMap.put_zip_set o entries.keys entries.nodup vs i hi hle

end Content

def fillAll (o : Object) (ws : List (NodeId × Slot)) (g : ObjectGraph) : ObjectGraph :=
  ws.foldl (fun g w => w.2.fill o g) g

@[simp] theorem size_fillAll (o : Object) (ws : List (NodeId × Slot)) (g : ObjectGraph) :
    (fillAll o ws g).size = g.size := by
  induction ws generalizing g with
  | nil => rfl
  | cons w ws ih =>
    rw [fillAll, List.foldl_cons, ← fillAll, ih, Slot.size_fill]

theorem read_fillAll_of_ne (o : Object) (ws : List (NodeId × Slot)) (g : ObjectGraph)
    {id : ObjectId} (h : ∀ w ∈ ws, w.2.container ≠ id) : (fillAll o ws g).read id = g.read id := by
  induction ws generalizing g with
  | nil => rfl
  | cons w ws ih =>
    rw [fillAll, List.foldl_cons, ← fillAll, ih _ fun w hw => h w (List.mem_cons_of_mem _ hw)]
    exact Slot.read_fill_of_ne o g w.2 (h w List.mem_cons_self)

/-- In a list or map the filled slots hold the object, the others what they held. -/
theorem Content.Holds.fillAll {ct : Content} {id : ObjectId} (o : Object)
    (ws : List (NodeId × Slot)) (vs : List Object) (g : ObjectGraph) (h : ct.Holds vs (g.read id))
    (hid : id < g.size)
    (hws : ∀ w ∈ ws, w.2.container = id → ∃ i < vs.length, w.2 = ct.slot id i) :
    ∃ vs', ct.Holds vs' ((fillAll o ws g).read id) ∧ vs'.length = vs.length ∧ ∀ i < vs.length,
      (ct.slot id i ∈ ws.map Prod.snd → vs'[i]? = some o) ∧
      (ct.slot id i ∉ ws.map Prod.snd → vs'[i]? = vs[i]?) := by
  induction ws generalizing vs g with
  | nil => exact ⟨vs, h, rfl, by simp⟩
  | cons w ws ih =>
    have hrest : ∀ w ∈ ws, w.2.container = id → ∃ i < vs.length, w.2 = ct.slot id i :=
      fun w hw => hws w (List.mem_cons_of_mem _ hw)
    simp only [List.map_cons, List.mem_cons, not_or]
    by_cases hw : w.2.container = id
    · obtain ⟨j, hj, hslot⟩ := hws w List.mem_cons_self hw
      have hfill := hslot ▸ h.fill hid hj o
      obtain ⟨vs', hh, hlen, hall⟩ := ih (vs.set j o) (w.2.fill o g) hfill (by simpa using hid)
        (by simpa using hrest)
      refine ⟨vs', hh, by simpa using hlen, fun i hi => ?_⟩
      obtain ⟨hin, hout⟩ := hall i (by simpa using hi)
      have hle := h.length_le
      have hinj : ct.slot id i = w.2 ↔ i = j := by
        rw [hslot]
        exact ⟨ct.slot_inj (by omega) (by omega), fun h => h ▸ rfl⟩
      constructor
      · rintro (he | he)
        · obtain rfl := hinj.1 he
          -- the slot may be filled once more, with the same object
          by_cases hm : ct.slot id i ∈ ws.map Prod.snd
          · exact hin hm
          · simp [hout hm, hi]
        · exact hin he
      · intro ⟨hne, hm⟩
        rw [hout hm, List.getElem?_set_ne (fun h => hne (hinj.2 h.symm))]
    · have hread := Slot.read_fill_of_ne o g w.2 hw
      obtain ⟨vs', hh, hlen, hall⟩ := ih vs (w.2.fill o g) (hread ▸ h) (by simpa using hid) hrest
      have hne (i : Nat) : ct.slot id i ≠ w.2 := fun h => hw (by rw [← h, container_slot])
      refine ⟨vs', hh, hlen, fun i hi => ⟨?_, fun h => (hall i hi).2 h.2⟩⟩
      exact fun h => (hall i hi).1 (h.resolve_left (hne i))

end TaggedGraph
