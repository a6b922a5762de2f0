import TaggedGraph.Proofs.RoundTrip.Restores
import TaggedGraph.Proofs.RoundTrip.Upholds
import TaggedGraph.Proofs.Save.Finished

namespace TaggedGraph

open Traversal

theorem isContainer_of_native? {g : ObjectGraph} {i : ObjectId} (h : g.native? (.ref i) = none) :
    (g.read i).isContainer := by
  cases hc : g.read i with
  | native => simp [ObjectGraph.native?_ref hc] at h
  | _ => rfl

/-- The converters restore what can be reached, and no instance holds another one. -/
structure Restorable (session : Session) (g : ObjectGraph) (root : Object) : Prop where
  closed : g.Closed root
  restores : session.Restores g root
  payload : ∀ {id type payload}, g.Reachable root (.ref id) → g.read id = .native type payload →
    payload.isPending = false ∧ g.native? payload = none

namespace Save

section
variable (session : Session) (g : ObjectGraph) (root : Object) (k : ObjectGraph)

/-- In `k`, which has grown from `g`, object `o` is `a` or a copy of the list or map `a`. -/
def Echoes (a o : Object) : Prop :=
  o = a ∨ ∃ i j, a = .ref i ∧ o = .ref j ∧ (g.read i).isContainer ∧ g.size ≤ j ∧ j < k.size ∧
    k.read j = g.read i

/-- What the node of `id` is made from: a list or map of `g`, or the payload of an instance. -/
inductive Renders (id : ObjectId) : Source → Prop
  | container {i : ObjectId} {src : Source} (hi : g.Reachable root (.ref i))
      (hecho : Echoes g k (.ref i) (.ref id)) (hsrc : (g.read i).source? = some src) :
      Renders id src
  | payload {type : NativeType} {payload raw : Object} {c : LoadedConverter Behaviour} {t : TagUri}
      (hid : g.Reachable root (.ref id)) (hcell : g.read id = .native type payload)
      (hecho : Echoes g k payload raw) (hc : session.registry.converterForTag t = some c)
      (hrebuilds : Rebuilds session g type payload c t) : Renders id (.answer (some t) raw)

/-- The save has changed no cell of `g`. -/
structure Rendered (s : SaveState) : Prop where
  objects : Fixes (· < g.size) g s.objects
  sources : ∀ id src, s.sources.lookup id = some src → Renders session g root s.objects id src

/-- The object echoes one that can be reached. -/
def Comes (s : SaveState) (o : Object) : Prop :=
  ∃ a, g.Reachable root a ∧ Echoes g s.objects a o

end

variable {session : Session} {g k k' : ObjectGraph} {root a b o : Object} {s : SaveState}
  {id : ObjectId} {src : Source}

theorem Echoes.mono (h : Echoes g k a o) (hk : Fixes (· < k.size) k k') : Echoes g k' a o := by
  rcases h with rfl | ⟨i, j, rfl, rfl, hi, hj, hlt, hread⟩
  · exact .inl rfl
  · refine .inr ⟨i, j, rfl, rfl, hi, hj, Nat.lt_of_lt_of_le hlt hk.size, ?_⟩
    rw [hk.read j hlt, hread]

theorem Echoes.eq_ref (h : Echoes g k a (.ref id)) : ∃ i, a = .ref i := by
  rcases h with rfl | ⟨i, -, rfl, -⟩
  · exact ⟨id, rfl⟩
  · exact ⟨i, rfl⟩

theorem Renders.mono (h : Renders session g root k id src) (hk : Fixes (· < k.size) k k') :
    Renders session g root k' id src := by
  cases h with
  | container hi hecho hsrc => exact .container hi (hecho.mono hk) hsrc
  | payload hid hcell hecho hc hrebuilds => exact .payload hid hcell (hecho.mono hk) hc hrebuilds

theorem Renders.parts (h : Renders session g root k id src) : ∃ a, g.Reachable root a ∧
    Echoes g k a (.ref id) ∧ ∀ o ∈ src.parts, ∃ b ∈ g.parts a, Echoes g k b o := by
  cases h with
  | @container i src hi hecho hsrc =>
    refine ⟨_, hi, hecho, fun o ho => ⟨o, ?_, .inl rfl⟩⟩
    rw [Cell.parts_of_source? hsrc] at ho
    exact ho
  | @payload type payload raw c t hid hcell hecho =>
    refine ⟨_, hid, .inl rfl, fun o ho => ⟨payload, ?_, ?_⟩⟩
    · simp [ObjectGraph.parts_native hcell]
    · obtain rfl : o = raw := List.mem_singleton.1 ho
      exact hecho

section
variable (h : Restorable session g root)
include h

theorem Echoes.unique {i j : ObjectId} (hi : g.Reachable root (.ref i))
    (hj : g.Reachable root (.ref j)) (hecho : Echoes g k (.ref i) o)
    (hecho' : Echoes g k (.ref j) o) : g.read i = g.read j := by
  rcases hecho with rfl | ⟨_, x, ⟨⟩, rfl, -, hx, -, hread⟩ <;>
    rcases hecho' with ho | ⟨_, y, ⟨⟩, ho, -, hy, -, hread'⟩ <;> cases ho
  · rfl
  · exact absurd (h.closed i hi) (Nat.not_lt.2 hy)
  · exact absurd (h.closed _ hj) (Nat.not_lt.2 hx)
  · exact hread.symm.trans hread'

theorem Echoes.parts_eq (ha : g.Reachable root a) (hb : g.Reachable root b)
    (hecho : Echoes g k a (.ref id)) (hecho' : Echoes g k b (.ref id)) : g.parts a = g.parts b := by
  obtain ⟨i, rfl⟩ := hecho.eq_ref
  obtain ⟨j, rfl⟩ := hecho'.eq_ref
  exact congrArg Cell.parts (hecho.unique h ha hb hecho')

theorem echoes_of_isCopy {type : NativeType} {payload raw : Object}
    (hid : g.Reachable root (.ref id)) (hcell : g.read id = .native type payload)
    (hk : Fixes (· < g.size) g k) (hk' : Fixes (· < k.size) k k')
    (hcopy : k.IsCopy k' payload raw) : Echoes g k' payload raw := by
  rcases hcopy with rfl | ⟨i, j, rfl, rfl, hj, hlt, hread⟩
  · exact .inl rfl
  · have hi : i < g.size := h.closed i (hid.held hcell)
    refine .inr ⟨i, j, rfl, rfl, ?_, Nat.le_trans hk.size hj, hlt, ?_⟩
    · exact isContainer_of_native? (h.payload hid hcell).2
    · rw [hread, hk'.read i (Nat.lt_of_lt_of_le hi hk.size), hk.read i hi]

theorem isTreeValue_of_echoes {type : NativeType} {payload raw : Object}
    (hid : g.Reachable root (.ref id)) (hcell : g.read id = .native type payload)
    (hk : Fixes (· < g.size) g k) (hecho : Echoes g k payload raw) (t : Option TagUri) :
    isTreeValue k t raw = true := by
  obtain ⟨hpending, hnative⟩ := h.payload hid hcell
  rcases hecho with rfl | ⟨i, j, rfl, rfl, hi, -, -, hread⟩
  · have hraw : k.native? raw = none := by
      cases raw with
      | ref i =>
        have hi : i < g.size := h.closed i (hid.held hcell)
        simpa [ObjectGraph.native?, ObjectGraph.cell?, hk.read i hi] using hnative
      | _ => rfl
    simp [isTreeValue, hpending, hraw]
  · cases hc : g.read i with
    | native => simp [hc, Cell.isContainer] at hi
    | _ => simp [isTreeValue, Object.isPending, ObjectGraph.native?, ObjectGraph.cell?, hread, hc]

/-- Every object that a save comes to can be entered. -/
theorem Rendered.reads (hs : Rendered session g root s) (hid : Comes g root s (.ref id)) :
    ∃ src objects calls, Reads session s id src objects calls ∧
      Fixes (· < s.objects.size) s.objects objects ∧
      Renders session g root objects id src := by
  obtain ⟨a, ha, hecho⟩ := hid
  obtain ⟨i, rfl, hread⟩ : ∃ i, a = .ref i ∧ s.objects.read id = g.read i := by
    rcases hecho with rfl | ⟨i, j, rfl, ⟨⟩, -, -, -, hread⟩
    · exact ⟨id, rfl, hs.objects.read id (h.closed id ha)⟩
    · exact ⟨i, rfl, hread⟩
  cases hcell : g.read i with
  | list items =>
    exact ⟨_, _, _, .list (hread.trans hcell), Fixes.refl _ _,
      .container ha hecho (by rw [hcell]; rfl)⟩
  | map entries =>
    exact ⟨_, _, _, .map (hread.trans hcell), Fixes.refl _ _,
      .container ha hecho (by rw [hcell]; rfl)⟩
  | native type payload =>
    -- copies are made of lists and maps only
    obtain rfl : id = i := by
      rcases hecho with he | ⟨_, _, ⟨⟩, -, hi, -⟩
      · exact Object.ref.inj he
      · simp [hcell, Cell.isContainer] at hi
    obtain ⟨c, t, hc, ht, hwrites, hrebuilds⟩ := h.restores id type payload ha hcell
    obtain ⟨htag, raw, objects, hcall, hfixes, hcopy⟩ := hwrites s.objects hs.objects
    have hraw := echoes_of_isCopy h ha hcell hs.objects hfixes hcopy
    have htree := isTreeValue_of_echoes h ha hcell (hs.objects.grow hfixes) hraw (some t)
    exact ⟨_, objects, _, .answer (hread.trans hcell) hc htag.symm hcall htree, hfixes,
      .payload ha hcell hraw ht hrebuilds⟩

theorem rendered_upholds : Upholds session (Rendered session g root) (Comes g root) where
  nodes nodes hs := ⟨hs.objects, hs.sources⟩
  grow hK hgrow := by
    obtain ⟨a, ha, hecho⟩ := hK
    exact ⟨a, ha, hecho.mono hgrow.objects⟩
  enter {s id src objects calls} hs hid _ hreads := by
    obtain ⟨src', objects', calls', hreads', hfixes, hrenders⟩ := hs.reads h hid
    obtain ⟨rfl, rfl, rfl⟩ := hreads.unique hreads'
    refine ⟨hfixes, ⟨?_, fun x src hx => ?_⟩, fun o ho => ?_⟩
    · exact hs.objects.grow hfixes
    · rw [SaveState.lookup_sources_enter] at hx
      split at hx
      · rename_i he
        cases hx
        exact he ▸ hrenders
      · exact (hs.sources x src hx).mono hfixes
    · obtain ⟨a, ha, -, hparts⟩ := hrenders.parts
      obtain ⟨b, hb, hecho⟩ := hparts o ho
      exact ⟨b, ha.step hb, hecho⟩

end

/-- The objects that have no node yet count twice, since each may be preceded by a copy. -/
def cost (g : ObjectGraph) (s : SaveState) (o : Object) : Nat :=
  2 * unsaved g s + match o with
    | .ref id => if g.size ≤ id then 1 else 0
    | _ => 0

theorem cost_of_lt (hid : id < g.size) : cost g s (.ref id) = 2 * unsaved g s := by
  simp [cost, Nat.not_le.2 hid]

theorem cost_le (s : SaveState) (o : Object) : cost g s o ≤ 2 * unsaved g s + 1 := by
  unfold cost
  split
  · split <;> omega
  · omega

section
variable (h : Restorable session g root)
include h

theorem Renders.cost_parts (hrenders : Renders session g root k id src)
    (hmemo : s.memo.lookup id = none) (calls : List Call) (ho : o ∈ src.parts) :
    cost g (s.enter id src k calls) o < cost g s (.ref id) := by
  by_cases hid : id < g.size
  · have hlt : unsaved g (s.enter id src k calls) < unsaved g s := unsaved_enter hid hmemo
    have hle := cost_le (g := g) (s.enter id src k calls) o
    rw [cost_of_lt hid]
    omega
  · -- only a list or a map is copied, and its parts are not
    cases hrenders with
    | payload hreach => exact absurd (h.closed id hreach) hid
    | @container i _ hi _ hsrc =>
      rw [Cell.parts_of_source? hsrc] at ho
      have hle : unsaved g (s.enter id src k calls) ≤ unsaved g s :=
        remaining_le _ fun x hx => by
          rw [SaveState.lookup_memo_enter]
          split
          · rfl
          · exact hx
      have hpart : cost g (s.enter id src k calls) o = 2 * unsaved g (s.enter id src k calls) := by
        cases o with
        | ref x => exact cost_of_lt (h.closed x (hi.step ho))
        | _ => rfl
      have hcopy : cost g s (.ref id) = 2 * unsaved g s + 1 := by
        simp [cost, Nat.not_lt.1 hid]
      omega

theorem rendered_affords (hcomplete : g.Complete root) :
    Affords session (Rendered session g root) (Comes g root) (cost g) where
  cases {s o} _ ho := by
    obtain ⟨a, ha, rfl | ⟨i, j, rfl, rfl, -⟩⟩ := ho
    · cases o with
      | ref id => exact .inr ⟨id, rfl⟩
      | pending m => cases hcomplete _ ha
      | _ => exact .inl rfl
    · exact .inr ⟨j, rfl⟩
  reads {s id} hs hid hmemo := by
    obtain ⟨src, objects, calls, hreads, -, hrenders⟩ := hs.reads h hid
    exact ⟨src, objects, calls, hreads, fun o ho => hrenders.cost_parts h hmemo calls ho⟩
  grow {s s' o} hgrow := by
    have hle : unsaved g s' ≤ unsaved g s := remaining_le _ hgrow.memo
    unfold cost
    omega

omit h in
theorem Rendered.start : Rendered session g root ⟨g, ∅, [], [], []⟩ :=
  ⟨Fixes.refl _ g, by simp⟩

theorem save_rendered {depth : Nat} {m : NodeId}
    (hsave : save session depth root g = (.ok m, s)) : Rendered session g root s :=
  (convert_upholds (rendered_upholds h) depth root _ m s .start ⟨root, .refl root, .inl rfl⟩
    hsave).1

/-- If nothing is pending the save ends well. -/
theorem save_restorable (hcomplete : g.Complete root) {depth : Nat}
    (hdepth : 2 * g.size < depth) : ∃ m s, save session depth root g = (.ok m, s) := by
  refine convert_succeeds (rendered_upholds h) (rendered_affords h hcomplete) depth root _ .start
    ⟨root, .refl root, .inl rfl⟩ (Nat.lt_of_le_of_lt ?_ hdepth)
  have hle : unsaved g ⟨g, ∅, [], [], []⟩ ≤ g.size := remaining_le_size _
  have hroot : cost g ⟨g, ∅, [], [], []⟩ root = 2 * unsaved g ⟨g, ∅, [], [], []⟩ := by
    cases root with
    | ref id => exact cost_of_lt (h.closed id (.refl _))
    | _ => rfl
  omega

theorem Rendered.link (hs : Rendered session g root s) {p : Object} (hp : p ∈ s.links o)
    (ha : g.Reachable root a) (hecho : Echoes g s.objects a o) :
    ∃ b ∈ g.parts a, Echoes g s.objects b p := by
  cases o with
  | ref id =>
    cases hsrc : s.sources.lookup id with
    | none => simp [SaveState.links, hsrc] at hp
    | some src =>
      rw [SaveState.links_eq hsrc] at hp
      obtain ⟨b, hb, hbecho, hparts⟩ := (hs.sources id src hsrc).parts
      rw [hecho.parts_eq h ha hb hbecho]
      exact hparts p hp
  | _ => cases hp

theorem Rendered.path (hs : Rendered session g root s) {p : Object}
    (hpath : Relation.ReflTransGen (fun a b => b ∈ s.links a) o p) (ha : g.Reachable root a)
    (hecho : Echoes g s.objects a o) : ∃ b, g.Reachable a b ∧ Echoes g s.objects b p := by
  induction hpath with
  | refl => exact ⟨a, .refl a, hecho⟩
  | @tail p q _ hq ih =>
    obtain ⟨b, hb, hbp⟩ := ih
    obtain ⟨c, hc, hcq⟩ := hs.link h hq (ha.trans hb) hbp
    exact ⟨c, hb.step hc, hcq⟩

/-- A save of a graph without cycles finishes each node before it refers to it. -/
theorem Rendered.bottomUp (hs : Rendered session g root s) (hacyclic : g.Acyclic root)
    (depth : Nat) : BottomUp (walk s.links depth [] root) := by
  apply bottomUp_walk
  · intro o p hp hpath
    cases o with
    | ref id =>
      cases hsrc : s.sources.lookup id with
      | none => simp [SaveState.links, hsrc] at hp
      | some src =>
        obtain ⟨a, ha, hecho, -⟩ := (hs.sources id src hsrc).parts
        obtain ⟨b, hb, hbecho⟩ := hs.link h hp ha hecho
        obtain ⟨c, hc, hcecho⟩ := hs.path h hpath (ha.step hb) hbecho
        -- what the path comes back to has the parts that it started from
        have hparts := hecho.parts_eq h ha ((ha.step hb).trans hc) hcecho
        exact hacyclic c b ((ha.step hb).trans hc) (hparts ▸ hb) hc
    | _ => cases hp
  · intro p hp
    cases hp
  · intro n i c pre hp
    simp at hp

end

end Save

end TaggedGraph
