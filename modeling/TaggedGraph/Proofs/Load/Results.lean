import TaggedGraph.Proofs.Converters
import TaggedGraph.Proofs.Load.Calls

namespace TaggedGraph

namespace Content

/-- The cell is a list or map with this content, the children replaced by objects. -/
def BuiltWith (res : NodeId → Object) (cell : Cell) : Content → Prop
  | scalar _ => False
  | sequence items => cell = .list (items.map res)
  | mapping entries => cell = .map (entries.map res)

theorem Holds.builtWith {ct : Content} {res : NodeId → Object} {cell : Cell}
    (h : ct.Holds (ct.children.map res) cell) : ct.BuiltWith res cell := by
  cases ct with
  | scalar => exact h
  | sequence => exact h.1
  | mapping entries =>
    obtain ⟨m, rfl, hm, -⟩ := h
    have hentries : m.entries = (entries.map res).entries := by
      rw [hm]
      simp [OrderedMap.keys, children, OrderedMap.values, OrderedMap.map, List.zip_map']
    cases m
    exact congrArg Cell.map (by simpa [OrderedMap.map] using hentries)

end Content

namespace Load

open Traversal Event

variable {session : Session} {nodes : NodeGraph} {s : LoadState} {root : NodeId}

/-- Without a pending result there is nothing to wait for but the result itself. -/
theorem held_eq_result {c : NodeId} (h : ∀ m, s.result c = .pending m → m = c)
    (pre : List (Event NodeId)) : held session nodes s pre c = s.result c := by
  unfold held given
  by_cases hc : Settled session nodes pre c
  · rw [if_pos hc]
    cases hr : s.result c with
    | pending m =>
      obtain rfl := h m hr
      simp [hc]
    | _ => rfl
  · simp [hc]

/-- The list or map of a node that has referred to all its children holds their results. -/
theorem Slots.builtWith {es : List (Event NodeId)} (h : Slots session nodes s es) {n : NodeId}
    {id : ObjectId} (hb : (n, id) ∈ s.built)
    (hr : ∀ i c, (nodes.children n)[i]? = some c → refer n i c ∈ es)
    (hres : ∀ c ∈ nodes.children n, ∀ m, s.result c = .pending m → m = c) :
    (nodes.content n).BuiltWith s.result (s.objects.read id) := by
  obtain ⟨vs, hvs, hlen, hheld⟩ := h.cell (n, id) hb
  have hvs' : vs = (nodes.content n).children.map s.result := by
    refine List.ext_getElem? fun i => ?_
    rw [List.getElem?_map]
    cases hc : (nodes.content n).children[i]? with
    | some c =>
      obtain ⟨pre, hp⟩ := exists_split (hr i c hc)
      rw [hheld pre i c hp, held_eq_result (hres c (List.mem_of_getElem? hc))]
      rfl
    | none =>
      have : vs.length ≤ (nodes.content n).children.length := hvs.length_le
      have := List.getElem?_eq_none_iff.1 hc
      exact List.getElem?_eq_none (by omega)
  exact (hvs' ▸ hvs).builtWith

/-- The objects of a load stand for the nodes: whatever refers to a node refers to its one
result. -/
structure GivesResults (session : Session) (nodes : NodeGraph) (root : NodeId) (s : LoadState)
    (o : Object) : Prop where
  root_eq : o = s.result root
  isResult : ∀ n, nodes.Reachable root n → s.IsResult session nodes n (s.result n)
  built : ∀ n, nodes.Reachable root n → (∀ v, nodes.content n ≠ .scalar v) →
    ∃ id, (n, id) ∈ s.built
  builtWith : ∀ n id, (n, id) ∈ s.built →
    (nodes.content n).BuiltWith s.result (s.objects.read id)
  one : ∀ b ∈ s.built, ∀ b' ∈ s.built, b.1 = b'.1 ∨ b.2 = b'.2 → b = b'

theorem Loaded.lookup_result {es : List (Event NodeId)} (h : Loaded session nodes s es)
    (hl : ∀ n, enter n ∈ es → leave n ∈ es) {n : NodeId} (hn : enter n ∈ es) :
    s.done.lookup n = some (s.result n) := by
  have hs : Settled session nodes es n := by
    by_cases hc : session.converterAt nodes n = none
    · exact (settled_of_none hc).2 hn
    · exact (settled_of_ne_none hc).2 (hl n hn)
  obtain ⟨r, hr⟩ := Option.isSome_iff_exists.1 ((h.done n).2 hs)
  rw [LoadState.result, hr]
  rfl

theorem Loaded.givesResults
    (h : Loaded session nodes s (walk nodes.children (nodes.size + 1) [] root))
    (hroot : enter root ∈ walk nodes.children (nodes.size + 1) [] root)
    (hready : ∀ n r, s.done.lookup n = some r → r.isPending = false) :
    GivesResults session nodes root s (s.follow (s.result root)) := by
  have hres {n : NodeId} (hn : enter n ∈ walk nodes.children (nodes.size + 1) [] root) :=
    h.lookup_result (fun _ => leave_mem_walk) hn
  have hmet {n : NodeId} (hn : nodes.Reachable root n) := NodeGraph.enter_of_reachable hn
  refine ⟨?_, fun n hn => h.isResult n _ (hres (hmet hn)),
    fun n hn => h.slots.exists_built (hmet hn), fun n id hb => ?_, fun b hb b' hb' he => ?_⟩
  · have hr := hready root _ (hres hroot)
    cases ho : s.result root with
    | pending m => simp [ho, Object.isPending] at hr
    | _ => rfl
  · have hall := h.trace.full n
    have hleft := leave_mem_walk (h.slots.entered (n, id) hb)
    apply h.slots.builtWith hb (fun i c => hall i c hleft)
    intro c hc m hm
    obtain ⟨i, hi⟩ := List.mem_iff_getElem?.1 hc
    have hr := hready c _ (hres (h.trace.refers n i c (hall i c hleft hi)).2.1)
    simp [hm, Object.isPending] at hr
  · exact he.elim (h.slots.node_inj b hb b' hb') (h.slots.id_inj b hb b' hb')

/-- If a load ends well, and none of its calls changes what was built or gives a pending reference
as the result, then its objects stand for the nodes. The result of a node with a converter is what
the one call for this node has answered, on the objects as they then were. -/
theorem load_gives_results {objects : ObjectGraph} {warnings : Warnings} {o : Object}
    (hload : load session nodes root objects warnings = (.ok o, s))
    (hspares : ∀ call ∈ s.calls, call.Spares session.context s.built)
    (hready : ∀ n r, s.done.lookup n = some r → r.isPending = false) :
    GivesResults session nodes root s o ∧ Accounts session nodes root objects (.ok o, s) := by
  refine ⟨?_, load_finished hload⟩
  obtain ⟨hloaded, hroot, rfl⟩ := load_loaded hload hspares
  exact hloaded.givesResults hroot hready

end Load

/-- Every node is met before, during and after its conversion. -/
def holdingNodes : NodeGraph :=
  ⟨#[⟨none, .sequence [1, 2, 0, 1]⟩, ⟨some tagNow, .sequence [0, 1, 2]⟩,
    ⟨some tagLater, .mapping (.ofList [("a", 1), ("b", 2), ("c", 3)])⟩, ⟨none, .scalar (.int 5)⟩]⟩

def holdingLoad : Except Halt Object × LoadState :=
  load holdingSession holdingNodes 0 ∅ ⟨[], []⟩

theorem holdingLoad_eq : holdingLoad = (.ok (.ref 0), holdingLoad.2) := by
  have h : holdingLoad.1 = .ok (.ref 0) := by decide +kernel
  rw [← h]

theorem holdingLoad_ready (n : NodeId) (r : Object) (h : holdingLoad.2.done.lookup n = some r) :
    r.isPending = false := by
  have hall : ∀ e ∈ holdingLoad.2.done, e.2.isPending = false := by decide +kernel
  obtain ⟨pre, post, hdone, -⟩ := List.lookup_eq_some_iff.1 h
  exact hall (n, r) (by simp [hdone])

theorem holdingLoad_spares : ∀ call ∈ holdingLoad.2.calls,
    call.Spares holdingSession.context holdingLoad.2.built := by
  decide +kernel

theorem load_gives_results_holding :
    load holdingSession holdingNodes 0 ∅ ⟨[], []⟩ = (.ok (.ref 0), holdingLoad.2) ∧
      (∀ call ∈ holdingLoad.2.calls,
        call.Spares holdingSession.context holdingLoad.2.built) ∧
      (∀ n r, holdingLoad.2.done.lookup n = some r → r.isPending = false) ∧
      Load.GivesResults holdingSession holdingNodes 0 holdingLoad.2 (.ref 0) ∧
      Load.Accounts holdingSession holdingNodes 0 ∅ (.ok (.ref 0), holdingLoad.2) :=
  ⟨holdingLoad_eq, holdingLoad_spares, holdingLoad_ready,
    Load.load_gives_results holdingLoad_eq holdingLoad_spares holdingLoad_ready⟩

end TaggedGraph
