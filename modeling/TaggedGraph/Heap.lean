namespace TaggedGraph

/-- A cell is known by its position, never moves and is never freed. Reading outside of the heap
gives the default cell. -/
structure Heap (α : Type) where
  cells : Array α
deriving DecidableEq

namespace Heap

variable {α : Type}

def empty : Heap α := ⟨#[]⟩

instance : EmptyCollection (Heap α) := ⟨empty⟩
instance : Inhabited (Heap α) := ⟨empty⟩

def size (h : Heap α) : Nat := h.cells.size

def alloc (h : Heap α) (a : α) : Nat × Heap α :=
  (h.size, ⟨h.cells.push a⟩)

/-- Writing outside the heap does nothing. -/
def write (h : Heap α) (i : Nat) (a : α) : Heap α :=
  ⟨h.cells.setIfInBounds i a⟩

section Reading
variable [Inhabited α]

def read (h : Heap α) (i : Nat) : α :=
  h.cells.getD i default

def modify (h : Heap α) (i : Nat) (f : α → α) : Heap α :=
  h.write i (f (h.read i))

theorem read_of_size_le (h : Heap α) (i : Nat) (hi : h.size ≤ i) : h.read i = default := by
  simp only [read, size, Array.getD_eq_getD_getElem?] at *
  rw [Array.getElem?_eq_none hi]; rfl

theorem read_alloc_self (h : Heap α) (a : α) : (h.alloc a).2.read h.size = a := by
  simp [read, alloc, size]

theorem read_alloc_of_lt (h : Heap α) (a : α) (i : Nat) (hi : i < h.size) :
    (h.alloc a).2.read i = h.read i := by
  simp only [read, alloc, size, Array.getD_eq_getD_getElem?] at *
  rw [Array.getElem?_push_lt hi, Array.getElem?_eq_getElem hi]

theorem read_write_self (h : Heap α) (i : Nat) (a : α) (hi : i < h.size) :
    (h.write i a).read i = a := by
  simp only [read, write, size, Array.getD_eq_getD_getElem?] at *
  simp [hi]

theorem read_write_of_ne (h : Heap α) (i j : Nat) (a : α) (hij : i ≠ j) :
    (h.write i a).read j = h.read j := by
  simp only [read, write, Array.getD_eq_getD_getElem?]
  rw [Array.getElem?_setIfInBounds_ne hij]

end Reading

theorem size_alloc (h : Heap α) (a : α) : (h.alloc a).2.size = h.size + 1 := by
  simp [size, alloc]

theorem size_write (h : Heap α) (i : Nat) (a : α) : (h.write i a).size = h.size := by
  simp [size, write]

end Heap

end TaggedGraph
