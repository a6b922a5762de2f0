import TaggedGraph.Proofs.Load.Containers
import TaggedGraph.Proofs.Load.Simulation

namespace TaggedGraph

namespace LoadCall

def objects : LoadCall → ObjectGraph
  | fromTree _ _ _ objects => objects
  | finish _ _ _ _ objects => objects

def after (ctx : Context) : LoadCall → ObjectGraph
  | fromTree c t raw objects => ((c.converter.behaviour.fromTree ctx raw t).run objects).2
  | finish _ _ _ completion objects => (completion.run objects).2

/-- The call frees no cells and leaves the lists and maps in `built` as they are. -/
structure Spares (ctx : Context) (built : List (NodeId × ObjectId)) (call : LoadCall) : Prop where
  size : call.objects.size ≤ (call.after ctx).size
  read : ∀ b ∈ built, b.2 < call.objects.size → (call.after ctx).read b.2 = call.objects.read b.2

instance (ctx : Context) (built : List (NodeId × ObjectId)) (call : LoadCall) :
    Decidable (call.Spares ctx built) :=
  decidable_of_iff (call.objects.size ≤ (call.after ctx).size ∧ ∀ b ∈ built,
      b.2 < call.objects.size → (call.after ctx).read b.2 = call.objects.read b.2)
    ⟨fun ⟨hsize, hread⟩ => ⟨hsize, hread⟩, fun h => ⟨h.size, h.read⟩⟩

theorem Spares.mono {ctx : Context} {built built' : List (NodeId × ObjectId)} {call : LoadCall}
    (h : call.Spares ctx built') (hb : ∀ b ∈ built, b ∈ built') : call.Spares ctx built :=
  ⟨h.size, fun b hmem => h.read b (hb b hmem)⟩

end LoadCall

namespace Load

open Traversal Event

/-- The cells of `h` that belong to none of the lists and maps in `built` are cells of `g`. -/
structure Builds (built : List (NodeId × ObjectId)) (g h : ObjectGraph) : Prop where
  size : g.size ≤ h.size
  read : ∀ i < h.size, (∀ b ∈ built, b.2 ≠ i) → i < g.size ∧ h.read i = g.read i

section
variable {built built' : List (NodeId × ObjectId)} {g h k : ObjectGraph}

theorem Builds.refl (built : List (NodeId × ObjectId)) (g : ObjectGraph) : Builds built g g :=
  ⟨Nat.le_refl _, fun _ hi _ => ⟨hi, rfl⟩⟩

theorem Builds.trans (hgh : Builds built g h) (hhk : Builds built h k) : Builds built g k where
  size := Nat.le_trans hgh.size hhk.size
  read i hi hb := by
    obtain ⟨hlt, hread⟩ := hhk.read i hi hb
    obtain ⟨hlt, hread'⟩ := hgh.read i hlt hb
    exact ⟨hlt, hread.trans hread'⟩

theorem Builds.mono (hgh : Builds built g h) (hb : ∀ b ∈ built, b ∈ built') :
    Builds built' g h :=
  ⟨hgh.size, fun i hi hne => hgh.read i hi fun b hmem => hne b (hb b hmem)⟩

end

/-- The calls were made from `g` on, each on the object graph that the one before has led to.
Between them only the lists and maps in `built` were made and filled. -/
inductive Leads (ctx : Context) (built : List (NodeId × ObjectId)) (g : ObjectGraph) :
    List LoadCall → ObjectGraph → Prop
  | start {h : ObjectGraph} (hbuilds : Builds built g h) : Leads ctx built g [] h
  | call {calls : List LoadCall} {c : LoadCall} {h : ObjectGraph}
      (hcalls : Leads ctx built g calls c.objects) (hbuilds : Builds built (c.after ctx) h) :
      Leads ctx built g (calls ++ [c]) h

section
variable {ctx : Context} {built built' : List (NodeId × ObjectId)} {g h k : ObjectGraph}
  {calls : List LoadCall}

theorem Leads.builds (hcalls : Leads ctx built g calls h) (hbuilds : Builds built h k) :
    Leads ctx built g calls k := by
  cases hcalls with
  | start hstart => exact .start (hstart.trans hbuilds)
  | call hcalls hcall => exact .call hcalls (hcall.trans hbuilds)

theorem Leads.mono (hcalls : Leads ctx built g calls h) (hb : ∀ b ∈ built, b ∈ built') :
    Leads ctx built' g calls h := by
  induction hcalls with
  | start hstart => exact .start (hstart.mono hb)
  | call _ hcall ih => exact .call ih (hcall.mono hb)

end

/-- The slots that wait are in lists and maps that were built. -/
def Waits (s : LoadState) : Prop :=
  ∀ w ∈ s.waiting, ∃ b ∈ s.built, b.2 = w.2.container

variable {session : Session} {nodes : NodeGraph} {s s' : LoadState} {es es' : List (Event NodeId)}

theorem builds_begin (s : LoadState) (n : NodeId) (ct : Content) :
    Builds (s.begin n ct).2.built s.objects (s.begin n ct).2.objects := by
  have hmake (c : Cell) : Builds (s.make n c).built s.objects (s.make n c).objects := by
    refine ⟨?_, fun i hi hne => ?_⟩
    · simp [LoadState.make, Heap.size_alloc]
    · -- the new cell is that of node `n`
      have hnew : s.objects.size ≠ i := hne (n, s.objects.size) List.mem_cons_self
      have hlt : i < s.objects.size := by
        simp only [LoadState.make, Heap.size_alloc] at hi
        omega
      exact ⟨hlt, Heap.read_alloc_of_lt _ _ i hlt⟩
  cases ct with
  | scalar => exact .refl _ _
  | sequence | mapping => exact hmake _

theorem builds_record (hs : Waits s) (n : NodeId) (o : Object) :
    Builds (s.record n o).built s.objects (s.record n o).objects := by
  refine ⟨Nat.le_of_eq (size_fillAll o _ s.objects).symm, fun i hi hne => ⟨?_, ?_⟩⟩
  · rwa [← size_fillAll o (s.waiting.filter (·.1 = n)) s.objects]
  · apply read_fillAll_of_ne o _ s.objects
    intro w hw
    obtain ⟨b, hb, hcontainer⟩ := hs w (List.mem_of_mem_filter hw)
    rw [← hcontainer]
    exact hne b hb

theorem builds_put {n : NodeId} {id : ObjectId} (hb : (n, id) ∈ s.built) (ct : Content) (i : Nat)
    (o : Object) : Builds (s.put id ct i o).built s.objects (s.put id ct i o).objects := by
  have hobjects : (s.put id ct i o).objects = (ct.slot id i).extend o s.objects := by
    rw [LoadState.put, LoadState.await_eq]
  rw [hobjects]
  refine ⟨Nat.le_of_eq (Slot.size_extend o _ _).symm, fun j hj hne => ⟨?_, ?_⟩⟩
  · rwa [Slot.size_extend] at hj
  · apply Slot.read_extend_of_ne
    rw [Content.container_slot]
    exact hne (n, id) (by rwa [LoadState.built_put])

theorem Waits.begin (hs : Waits s) (n : NodeId) (ct : Content) : Waits (s.begin n ct).2 := by
  intro w hw
  rw [LoadState.waiting_begin] at hw
  obtain ⟨b, hb, hcontainer⟩ := hs w hw
  exact ⟨b, LoadState.mem_built_begin s n ct hb, hcontainer⟩

theorem Waits.record (hs : Waits s) (n : NodeId) (o : Object) : Waits (s.record n o) :=
  fun w hw => hs w (List.mem_of_mem_filter hw)

theorem Waits.put {n : NodeId} {id : ObjectId} (hs : Waits s) (hb : (n, id) ∈ s.built)
    (ct : Content) (i : Nat) (o : Object) : Waits (s.put id ct i o) := by
  intro w hw
  rw [LoadState.built_put]
  have hw : w ∈ (s.await o (ct.slot id i)).waiting := hw
  have hw : w ∈ s.waiting ∨ w.2 = ct.slot id i := by
    cases o with
    | pending m =>
      rcases List.mem_append.1 hw with hw | hw
      · exact .inl hw
      · exact .inr (congrArg Prod.snd (List.mem_singleton.1 hw))
    | _ => exact .inl hw
  rcases hw with hw | hslot
  · exact hs w hw
  · exact ⟨(n, id), hb, by rw [hslot, Content.container_slot]⟩

theorem Step.waits (hstep : Step session nodes (s, es) (s', es')) (hs : Waits s) : Waits s' := by
  cases hstep with
  | enterRaw hn hc => exact (hs.begin _ _).record _ _
  | @enterConverted _ _ n hn hc => exact Waits.begin (s := s.enter n) hs _ _
  | refer hb hc he hn hr hec => exact hs.put hb _ _ _
  | leaveRaw hends hc =>
    rw [LoadState.noted_eq]
    exact hs
  | @leaveConverted _ _ n c t raw answer objects hcalls hcall =>
    exact Waits.record (s := (s.answered c t raw answer objects).leave n) hs n answer.object

/-- Only the step that leaves a node with a converter makes a call. -/
theorem Step.calls_cases (hstep : Step session nodes (s, es) (s', es')) :
    s'.calls = s.calls ∨ ∃ n c t raw answer objects, Calls session nodes s es n c t raw ∧
      Yields (c.converter.behaviour.fromTree session.context raw t) s.objects answer objects ∧
      s'.calls = s.calls ++ [.fromTree c t raw s.objects] := by
  cases hstep with
  | @leaveConverted _ _ n c t raw answer objects hcalls hcall =>
    exact .inr ⟨n, c, t, raw, answer, objects, hcalls, hcall, rfl⟩
  | _ => exact .inl (by simp)

theorem Step.calls_grow (hstep : Step session nodes (s, es) (s', es')) :
    ∀ call ∈ s.calls, call ∈ s'.calls := by
  intro call hcall
  rcases hstep.calls_cases with he | ⟨_, _, _, _, _, _, -, -, he⟩
  · rwa [he]
  · rw [he]
    exact List.mem_append_left _ hcall

theorem Step.leads {g : ObjectGraph} (hstep : Step session nodes (s, es) (s', es')) (hs : Waits s)
    (h : Leads session.context s.built g s.calls s.objects) :
    Leads session.context s'.built g s'.calls s'.objects := by
  have hold := h.mono fun _ => hstep.mem_built
  cases hstep with
  | @enterRaw _ _ n hn hc =>
    simp only [LoadState.calls_record, LoadState.calls_begin]
    exact hold.builds ((builds_begin s n _).trans (builds_record (hs.begin n _) n _))
  | @enterConverted _ _ n hn hc =>
    rw [LoadState.calls_begin]
    exact hold.builds (builds_begin (s.enter n) n _)
  | refer hb hc he hn hr hec =>
    rw [LoadState.calls_put]
    exact hold.builds (builds_put hb _ _ _)
  | leaveRaw hends hc =>
    rw [LoadState.noted_eq]
    exact h
  | @leaveConverted _ _ n c t raw answer objects hcalls hcall =>
    have hafter : (LoadCall.fromTree c t raw s.objects).after session.context = objects :=
      congrArg Prod.snd hcall
    refine .call (c := .fromTree c t raw s.objects) hold ?_
    rw [hafter]
    exact builds_record (s := (s.answered c t raw answer objects).leave n) hs n _

theorem Steps.leads {objects : ObjectGraph} {warnings : Warnings}
    (h : Steps session nodes (LoadState.start objects warnings, []) (s', es')) :
    Leads session.context s'.built objects s'.calls s'.objects :=
  (h.keeps (J := fun s _ => Waits s ∧ Leads session.context s.built objects s.calls s.objects)
    (fun _ _ _ _ hstep ⟨hs, hl⟩ => ⟨hstep.waits hs, hstep.leads hs hl⟩)
    ⟨by simp [Waits, LoadState.start], .start (.refl _ _)⟩).2

end Load

end TaggedGraph
