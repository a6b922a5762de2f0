import Mathlib.Data.Prod.Lex
import TaggedGraph.Proofs.Reachable
import TaggedGraph.Proofs.Save.Program
import TaggedGraph.Proofs.Save.Tracks

namespace TaggedGraph

namespace Session

/-- To write the instance `id` its converter answers with `raw`, and the graph `g` becomes `h`. -/
inductive Writes (session : Session) (g : ObjectGraph) (id : ObjectId) (raw : Object)
    (h : ObjectGraph) : Prop
  | intro {type : NativeType} {payload : Object} {c : LoadedConverter Behaviour}
      (hcell : g.read id = .native type payload)
      (hc : session.registry.converterForInstance type = some c)
      (hcall : Yields (c.converter.behaviour.toTree session.context (.ref id)
        (c.selectTag session.context g (.ref id))) g raw h)

/-- The objects that a save of `root` comes to, each in a graph that `start` may have become while
instances were written. -/
inductive Meets (session : Session) (start : ObjectGraph) (root : Object) :
    ObjectGraph → Object → Prop
  | root : Meets session start root start root
  | item {g : ObjectGraph} {id : ObjectId} {items : List Object} {o : Object}
      (h : Meets session start root g (.ref id)) (hcell : g.read id = .list items)
      (ho : o ∈ items) : Meets session start root g o
  | value {g : ObjectGraph} {id : ObjectId} {entries : OrderedMap Object} {o : Object}
      (h : Meets session start root g (.ref id)) (hcell : g.read id = .map entries)
      (ho : o ∈ entries.values) : Meets session start root g o
  | answer {g g' : ObjectGraph} {id : ObjectId} {raw : Object}
      (h : Meets session start root g (.ref id)) (hwrites : session.Writes g id raw g') :
      Meets session start root g' raw
  | later {g g' : ObjectGraph} {id : ObjectId} {raw o : Object}
      (ho : Meets session start root g o) (h : Meets session start root g (.ref id))
      (hwrites : session.Writes g id raw g') : Meets session start root g' o

/-- Every instance that a save of `root` comes to is one of the graph at the start. A converter may
make instances for itself, as long as the save does not come to them. -/
def BringsNoInstance (session : Session) (start : ObjectGraph) (root : Object) : Prop :=
  ∀ g id type payload, session.Meets start root g (.ref id) → g.read id = .native type payload →
    id < start.size

end Session

namespace Save

open Traversal

variable {session : Session} {start objects : ObjectGraph} {root : Object} {s s' : SaveState}
  {id : ObjectId} {src : Source} {calls : List Call} {α β : Type}

def unmet (size : Nat) (s : SaveState) : Nat :=
  remaining size fun i => (s.memo.lookup i).isSome

/-- The instances below `size` that are still to be met, and then the cells. -/
def ahead (size : Nat) (s : SaveState) : ℕ ×ₗ ℕ :=
  toLex (unmet size s, unmet s.objects.size s)

theorem lookup_memo_enter_isSome (i : ObjectId) (hi : (s.memo.lookup i).isSome) :
    ((s.enter id src objects calls).memo.lookup i).isSome := by
  rw [SaveState.lookup_memo_enter]
  split
  · rfl
  · exact hi

theorem unmet_enter_le (size : Nat) : unmet size (s.enter id src objects calls) ≤ unmet size s :=
  remaining_le size fun i => lookup_memo_enter_isSome i

theorem ahead_enter_le (size : Nat) :
    ahead size (s.enter id src s.objects calls) ≤ ahead size s :=
  Prod.Lex.toLex_mono (Prod.mk_le_mk.2 ⟨unmet_enter_le size, unmet_enter_le s.objects.size⟩)

section
variable (hmemo : s.memo.lookup id = none)
include hmemo

theorem unmet_enter_lt {size : Nat} (hid : id < size) :
    unmet size (s.enter id src objects calls) < unmet size s :=
  remaining_lt size (fun i => lookup_memo_enter_isSome i) hid (by simp [hmemo])
    (by simp [SaveState.lookup_memo_enter])

theorem ahead_enter_instance {size : Nat} (hid : id < size) :
    ahead size (s.enter id src objects calls) < ahead size s :=
  Prod.Lex.toLex_lt_toLex.2 (.inl (unmet_enter_lt hmemo hid))

theorem ahead_enter_container (size : Nat) (hid : id < s.objects.size) :
    ahead size (s.enter id src s.objects calls) < ahead size s := by
  rcases Nat.lt_or_eq_of_le (unmet_enter_le (s := s) size) with hlt | heq
  · exact Prod.Lex.toLex_lt_toLex.2 (.inl hlt)
  · exact Prod.Lex.toLex_lt_toLex.2 (.inr ⟨heq, unmet_enter_lt hmemo hid⟩)

end

/-- What a save of `root` may rely on after it has gone on from `s` to `s'`. -/
structure Proceeds (session : Session) (start : ObjectGraph) (root : Object) (s s' : SaveState) :
    Prop where
  meets : ∀ o, session.Meets start root s.objects o → session.Meets start root s'.objects o
  ahead : ahead start.size s' ≤ ahead start.size s

theorem Proceeds.refl (s : SaveState) : Proceeds session start root s s :=
  ⟨fun _ ho => ho, le_rfl⟩

theorem Proceeds.trans {s'' : SaveState} (h : Proceeds session start root s s')
    (h' : Proceeds session start root s' s'') : Proceeds session start root s s'' where
  meets o ho := h'.meets o (h.meets o ho)
  ahead := h'.ahead.trans h.ahead

/-- From `s` the steps come to the end `r`, at every depth that is greater than the number of
objects they enter. No object is entered twice, and `Q` is true after them unless they fail. -/
structure EndsWith (m : (depth : Nat) → SaveM α) (s : SaveState) (Q : SaveState → Prop)
    (r : Except Halt α × SaveState) : Prop where
  halts : r.1 ≠ .error .tooDeep
  run : ∀ depth, r.2.memo.length < s.memo.length + depth → (m depth).run s = r
  grows : s.memo.length ≤ r.2.memo.length
  once : (r.2.memo.map Prod.fst).Nodup
  after : ∀ a, r.1 = .ok a → Q r.2

def Ends (m : (depth : Nat) → SaveM α) (s : SaveState) (Q : SaveState → Prop) : Prop :=
  ∃ r, EndsWith m s Q r

section
variable {m : Nat → SaveM α} {Q Q' : SaveState → Prop}

theorem Ends.mono (h : Ends m s Q) (hQ : ∀ s', Q s' → Q' s') : Ends m s Q' := by
  obtain ⟨r, h⟩ := h
  exact ⟨r, h.halts, h.run, h.grows, h.once, fun a ha => hQ _ (h.after a ha)⟩

theorem ends_yield {a : α} (hrun : ∀ depth, Yields (m (depth + 1)) s a s')
    (hgrows : s.memo.length ≤ s'.memo.length) (honce : (s'.memo.map Prod.fst).Nodup) (hQ : Q s') :
    Ends m s Q := by
  refine ⟨(.ok a, s'), ?_, fun depth hd => ?_, hgrows, honce, fun _ _ => hQ⟩
  · rintro ⟨⟩
  · obtain _ | depth := depth
    · exact absurd hd (Nat.not_lt.2 hgrows)
    · exact hrun depth

theorem ends_fail {e : ConversionError} (hrun : ∀ depth, Fails (m (depth + 1)) s (.failed e) s')
    (hgrows : s.memo.length ≤ s'.memo.length) (honce : (s'.memo.map Prod.fst).Nodup) :
    Ends m s Q := by
  refine ⟨(.error (.failed e), s'), ?_, fun depth hd => ?_, hgrows, honce, ?_⟩
  · rintro ⟨⟩
  · obtain _ | depth := depth
    · exact absurd hd (Nat.not_lt.2 hgrows)
    · exact hrun depth
  · rintro _ ⟨⟩

theorem ends_pure (a : α) (honce : (s.memo.map Prod.fst).Nodup) (hQ : Q s) :
    Ends (fun _ => return a) s Q :=
  ends_yield (fun _ => rfl) le_rfl honce hQ

theorem Ends.bind {f : α → Nat → SaveM β} (h : Ends m s Q)
    (hf : ∀ a s', (s'.memo.map Prod.fst).Nodup → Q s' → Ends (f a) s' Q') :
    Ends (fun depth => m depth >>= fun a => f a depth) s Q' := by
  obtain ⟨⟨r, s'⟩, hhalts, hrun, hgrows, honce, hafter⟩ := h
  cases r with
  | error e =>
    refine ⟨(.error e, s'), fun h => ?_, fun depth hd => run_bind_error (hrun depth hd), hgrows,
      honce, ?_⟩
    · exact hhalts (congrArg Except.error (Except.error.inj h))
    · rintro _ ⟨⟩
  | ok a =>
    obtain ⟨r, h⟩ := hf a s' honce (hafter a rfl)
    have hle := h.grows
    refine ⟨r, h.halts, fun depth hd => ?_, hgrows.trans hle, h.once, h.after⟩
    rw [run_bind_ok (hrun depth (by simp only; omega))]
    exact h.run depth (by simp only at hgrows; omega)

theorem Ends.of_run {m' : Nat → SaveM α} (hrun : ∀ depth, (m' depth).run s = (m depth).run s')
    (hmemo : s'.memo = s.memo) (h : Ends m s' Q) : Ends m' s Q := by
  obtain ⟨r, h⟩ := h
  refine ⟨r, h.halts, fun depth hd => ?_, ?_, h.once, h.after⟩
  · rw [hrun]
    exact h.run depth (by rwa [hmemo])
  · rw [← hmemo]
    exact h.grows

end

/-- Reading what a list, map or instance is made from leads to objects that the save comes to. -/
theorem Reads.proceeds (hb : session.BringsNoInstance start root)
    (hreads : Reads session s id src objects calls) (hmemo : s.memo.lookup id = none)
    (hid : session.Meets start root s.objects (.ref id)) :
    Proceeds session start root s (s.enter id src objects calls) ∧
      (src.parts ≠ [] →
        ahead start.size (s.enter id src objects calls) < ahead start.size s) ∧
      ∀ o ∈ src.parts, session.Meets start root objects o := by
  cases hreads with
  | list hcell =>
    refine ⟨⟨fun _ ho => ho, ahead_enter_le _⟩, fun hne => ?_, fun o ho => hid.item hcell ho⟩
    obtain ⟨o, ho⟩ := List.exists_mem_of_ne_nil _ hne
    refine ahead_enter_container hmemo _ (ObjectGraph.lt_size_of_mem_parts (o := o) ?_)
    rwa [hcell]
  | map hcell =>
    refine ⟨⟨fun _ ho => ho, ahead_enter_le _⟩, fun hne => ?_, fun o ho => hid.value hcell ho⟩
    obtain ⟨o, ho⟩ := List.exists_mem_of_ne_nil _ hne
    refine ahead_enter_container hmemo _ (ObjectGraph.lt_size_of_mem_parts (o := o) ?_)
    rwa [hcell]
  | answer hcell hc htag hcall hraw =>
    subst htag
    have hlt : id < start.size := hb _ _ _ _ hid hcell
    have hwrites : session.Writes s.objects id _ objects := .intro hcell hc hcall
    have hahead (src : Source) (calls : List Call) :
        ahead start.size (s.enter id src objects calls) < ahead start.size s :=
      ahead_enter_instance hmemo hlt
    refine ⟨⟨fun o ho => ho.later hid hwrites, (hahead _ _).le⟩, fun _ => hahead _ _,
      fun o ho => ?_⟩
    rw [List.mem_singleton.1 ho]
    exact hid.answer hwrites

theorem fill_ends {bound : ℕ ×ₗ ℕ}
    (hv : ∀ s o, ahead start.size s < bound → (s.memo.map Prod.fst).Nodup →
      session.Meets start root s.objects o →
      Ends (fun depth => convert session depth o) s (Proceeds session start root s))
    (n : NodeId) (src : Source) (r : List Object) (index : Nat) (s : SaveState)
    (honce : (s.memo.map Prod.fst).Nodup) (hr : ∀ o ∈ r, session.Meets start root s.objects o)
    (hahead : r ≠ [] → ahead start.size s < bound) :
    Ends (fun depth => fill (convert session depth) n src index r) s
      (Proceeds session start root s) := by
  induction r generalizing index s with
  | nil => exact ends_pure () honce (.refl s)
  | cons o r ih =>
    have hahead := hahead (by simp)
    refine (hv s o hahead honce (hr o List.mem_cons_self)).bind fun m s₁ honce₁ hproceeds => ?_
    have hrest := ih (index + 1) { s₁ with nodes := src.put n m index s₁.nodes } honce₁
      (fun p hp => hproceeds.meets p (hr p (List.mem_cons_of_mem _ hp)))
      fun _ => hproceeds.ahead.trans_lt hahead
    refine Ends.of_run (fun depth => run_modify_bind _ _ _) rfl (hrest.mono fun s₂ h => ?_)
    exact hproceeds.trans ⟨h.meets, h.ahead⟩

/-- The first steps that enter something need one more level than what they lead to. -/
theorem Ends.of_enter {m m' : Nat → SaveM α} {Q : SaveState → Prop}
    (hrun : ∀ depth, (m' (depth + 1)).run s = (m depth).run s')
    (hmemo : s'.memo.length = s.memo.length + 1) (h : Ends m s' Q) : Ends m' s Q := by
  obtain ⟨r, h⟩ := h
  have hgrows := h.grows
  refine ⟨r, h.halts, fun depth hd => ?_, by omega, h.once, h.after⟩
  obtain _ | depth := depth
  · omega
  · rw [hrun]
    exact h.run depth (by omega)

theorem run_convert_new {depth : Nat} (hmemo : s.memo.lookup id = none) :
    (convert session (depth + 1) (.ref id)).run s =
      (convertNew session (convert session depth) id (s.objects.read id)).run s := by
  rw [convert, run_get_bind, hmemo]

theorem nodup_enter (hmemo : s.memo.lookup id = none) (honce : (s.memo.map Prod.fst).Nodup)
    (n : NodeId) : (((id, n) :: s.memo).map Prod.fst).Nodup := by
  refine List.nodup_cons.2 ⟨fun hid => ?_, honce⟩
  obtain ⟨⟨i, m⟩, hm, rfl⟩ := List.mem_map.1 hid
  simpa using List.lookup_eq_none_iff.1 hmemo _ hm

/-- Whatever is saved comes to an end. -/
theorem convert_ends (hb : session.BringsNoInstance start root) (s : SaveState) (o : Object)
    (honce : (s.memo.map Prod.fst).Nodup) (ho : session.Meets start root s.objects o) :
    Ends (fun depth => convert session depth o) s (Proceeds session start root s) := by
  -- by induction on what is still to be met
  generalize hbound : ahead start.size s = bound
  induction bound using WellFoundedLT.induction generalizing s o with
  | ind bound ih =>
  have hself : Proceeds session start root s s := .refl s
  cases o with
  | ref id =>
    cases hmemo : s.memo.lookup id with
    | some n =>
      refine ends_yield (a := n) (fun depth => ?_) le_rfl honce hself
      rw [Yields, convert, run_get_bind, hmemo]
      rfl
    | none =>
      have honce' := nodup_enter hmemo honce s.nodes.size
      rcases reads_or_refuses session s id with ⟨src, objects, calls, hreads⟩ | ⟨e, s', hrefuses⟩
      · obtain ⟨hproceeds, hahead, hparts⟩ := hreads.proceeds hb hmemo ho
        have hfill := fill_ends (fun s o hlt honce ho => ih _ hlt s o honce ho rfl)
          s.nodes.size src src.parts 0 (s.enter id src objects calls) honce' hparts
          fun hne => hbound ▸ hahead hne
        refine Ends.of_enter (fun depth => (run_convert_new hmemo).trans (hreads.run _)) rfl ?_
        exact hfill.bind fun _ s' honce' h => ends_pure _ honce' (hproceeds.trans h)
      · have hmemo' := hrefuses.memo
        exact ends_fail (fun depth => (run_convert_new hmemo).trans (hrefuses.run _))
          (by simp [hmemo']) (by rwa [hmemo'])
  | pending n => exact ends_fail (fun depth => rfl) le_rfl honce
  | null | bool | int | float | string | bytes =>
    exact ends_yield (fun depth => (yields_convert_scalar session depth _ rfl s _ _).2 ⟨rfl, rfl⟩)
      le_rfl honce ⟨hself.meets, hself.ahead⟩

/-- The outcome `r` of a save, however deep it may go. -/
structure Bounded (session : Session) (start : ObjectGraph) (root : Object)
    (r : Except Halt NodeId × SaveState) : Prop where
  /-- It does not go too deep. -/
  ends : r.1 ≠ .error .tooDeep
  /-- Each list, map and instance gets its node when it is expanded, and is expanded once. -/
  once : (r.2.memo.map Prod.fst).Nodup
  /-- One level more than there are expanded objects is enough. -/
  depth : ∀ depth, r.2.memo.length < depth → save session depth root start = r

theorem exists_bounded (hb : session.BringsNoInstance start root) :
    ∃ r, Bounded session start root r := by
  obtain ⟨r, h⟩ := convert_ends hb ⟨start, ∅, [], [], []⟩ root List.nodup_nil .root
  exact ⟨r, h.halts, h.once, fun depth hd => h.run depth (by simpa using hd)⟩

end Save

end TaggedGraph
