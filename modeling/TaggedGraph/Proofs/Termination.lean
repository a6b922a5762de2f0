import TaggedGraph.Proofs.Converters
import TaggedGraph.Proofs.Load.Depth
import TaggedGraph.Proofs.Save.Depth

namespace TaggedGraph

/-- To write an object the behaviour makes no instances. -/
def Behaviour.MakesNoInstance (ctx : Context) (b : Behaviour) : Prop :=
  ∀ {o t g raw h}, Yields (b.toTree ctx o t) g raw h →
    ∀ id, (h.native? (.ref id)).isSome → (g.native? (.ref id)).isSome

theorem Session.bringsNoInstance {session : Session}
    (h : ∀ c ∈ session.registry.converters, c.converter.behaviour.MakesNoInstance session.context)
    (start : ObjectGraph) (root : Object) : session.BringsNoInstance start root := by
  -- every instance of a graph that `start` becomes is one of `start`
  have hmeets {g : ObjectGraph} {o : Object} (ho : session.Meets start root g o) (i : ObjectId)
      (hi : (g.native? (.ref i)).isSome) : (start.native? (.ref i)).isSome := by
    have hwrites {g g' : ObjectGraph} {id : ObjectId} {raw : Object}
        (hw : session.Writes g id raw g') (hi : (g'.native? (.ref i)).isSome) :
        (g.native? (.ref i)).isSome := by
      obtain ⟨-, hc, hcall⟩ := hw
      exact h _ (List.mem_of_find?_eq_some hc) hcall i hi
    induction ho with
    | root => exact hi
    | item _ _ _ ih => exact ih hi
    | value _ _ _ ih => exact ih hi
    | answer _ hw ih => exact ih (hwrites hw hi)
    | later _ _ hw ih _ => exact ih (hwrites hw hi)
  intro g id type payload hid hcell
  obtain ⟨⟨type', payload'⟩, hstart⟩ := Option.isSome_iff_exists.1
    (hmeets hid id (by rw [ObjectGraph.native?_ref hcell]; rfl))
  obtain ⟨j, hj, hcell'⟩ := ObjectGraph.exists_of_native? hstart
  cases hj
  exact ObjectGraph.lt_size_of_native hcell'

/-- Loads and saves go no deeper than there are nodes or objects, and come to each only once. For a
save the converters must not bring in instances for ever. -/
theorem conversions_terminate (session : Session) :
    (∀ nodes root objects warnings, Load.Bounded session nodes root objects warnings) ∧
      ∀ start root, session.BringsNoInstance start root →
        ∃ r, Save.Bounded session start root r :=
  ⟨Load.bounded session, fun _ _ hb => Save.exists_bounded hb⟩

def ringingSession : Session :=
  ⟨⟨[], [.forTag 0 tagNow [.direct typeNow] .ringing]⟩, ⟨false⟩⟩

def ringedObjects : ObjectGraph :=
  ⟨#[.list [.ref 1, .ref 0, .ref 1], .native typeNow .null]⟩

def ringedNodes : NodeGraph :=
  ⟨#[⟨some tagNow, .sequence [1, 0]⟩, ⟨none, .sequence [0, 1]⟩]⟩

theorem ringing_makesNoInstance (ctx : Context) : Behaviour.ringing.MakesNoInstance ctx := by
  intro o t g raw h hcall id hid
  rw [Yields, Behaviour.run_toTree_ringing] at hcall
  obtain rfl : (g.alloc (.list [o])).2 = h := congrArg Prod.snd hcall
  obtain ⟨⟨type, payload⟩, hnative⟩ := Option.isSome_iff_exists.1 hid
  obtain ⟨i, hi, hcell⟩ := ObjectGraph.exists_of_native? hnative
  cases hi
  have hlt := ObjectGraph.lt_size_of_native hcell
  rw [Heap.size_alloc] at hlt
  rcases Nat.lt_succ_iff_lt_or_eq.1 hlt with hlt | rfl
  · rw [Heap.read_alloc_of_lt g _ _ hlt] at hcell
    rw [ObjectGraph.native?_ref hcell]
    rfl
  · -- the new cell is a list
    rw [Heap.read_alloc_self] at hcell
    cases hcell

theorem ringingSession_bringsNoInstance (start : ObjectGraph) (root : Object) :
    ringingSession.BringsNoInstance start root := by
  refine Session.bringsNoInstance (fun c hc => ?_) start root
  obtain rfl := List.mem_singleton.1 hc
  exact ringing_makesNoInstance _

theorem conversions_terminate_ringed :
    Load.Bounded ringingSession ringedNodes 0 ∅ ⟨[], []⟩ ∧
      ringingSession.BringsNoInstance ringedObjects (.ref 0) ∧
      ∃ r, Save.Bounded ringingSession ringedObjects (.ref 0) r := by
  have hb := ringingSession_bringsNoInstance ringedObjects (.ref 0)
  obtain ⟨hload, hsave⟩ := conversions_terminate ringingSession
  exact ⟨hload ringedNodes 0 ∅ ⟨[], []⟩, hb, hsave ringedObjects (.ref 0) hb⟩

-- with the list that stands for the instance there are three objects
example : (save ringingSession 4 (.ref 0) ringedObjects).1 = .ok 0 ∧
    (save ringingSession 3 (.ref 0) ringedObjects).1 = .error .tooDeep :=
  ⟨rfl, rfl⟩

end TaggedGraph
