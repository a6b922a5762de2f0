import Mathlib.Data.Finset.Card
import Mathlib.Logic.Relation
import Mathlib.Order.Interval.Finset.Nat

/-- What every step keeps, a run keeps. -/
theorem Relation.ReflTransGen.keeps {σ ε : Type} {step : σ × ε → σ × ε → Prop} {J : σ → ε → Prop}
    {c c' : σ × ε} (h : Relation.ReflTransGen step c c')
    (hJ : ∀ s es s' es', step (s, es) (s', es') → J s es → J s' es') (hc : J c.1 c.2) :
    J c'.1 c'.2 := by
  induction h with
  | refl => exact hc
  | tail _ hstep ih => exact hJ _ _ _ _ hstep ih

namespace TaggedGraph.Traversal

inductive Event (α : Type)
  | enter (n : α)
  | refer (n : α) (index : Nat) (child : α)
  | leave (n : α)
deriving DecidableEq

variable {α : Type}

def walkChildren (visit : List (Event α) → α → List (Event α)) (n : α) :
    (index : Nat) → List α → List (Event α) → List (Event α)
  | _, [], es => es
  | index, c :: r, es => walkChildren visit n (index + 1) r (visit es c ++ [.refer n index c])

/-- The events `es`, and after them those of the vertices that are met from `n` for the first
time. -/
def walk [DecidableEq α] (children : α → List α) :
    (depth : Nat) → (es : List (Event α)) → α → List (Event α)
  | 0, es, _ => es
  | depth + 1, es, n =>
    if .enter n ∈ es then es
    else walkChildren (walk children depth) n 0 (children n) (es ++ [.enter n]) ++ [.leave n]

open Event

/-- The events go on from `es` to `es'`. Vertices entered in `es` get nothing new but the references
of those in `own`, and what is entered on the way is left on the way. -/
structure GoesOn (own : α → Prop) (es es' : List (Event α)) : Prop where
  isPrefix : es <+: es'
  refers : ∀ p i c, enter p ∈ es → ¬ own p → refer p i c ∈ es' → refer p i c ∈ es
  leaves : ∀ p, enter p ∈ es → leave p ∈ es' → leave p ∈ es
  left : ∀ p, enter p ∈ es' → enter p ∈ es ∨ leave p ∈ es'

namespace GoesOn

variable {own : α → Prop} {es es' es'' : List (Event α)}

theorem mem (h : GoesOn own es es') {e : Event α} (he : e ∈ es) : e ∈ es' :=
  h.isPrefix.subset he

theorem refl (own : α → Prop) (es : List (Event α)) : GoesOn own es es :=
  ⟨List.prefix_rfl, fun _ _ _ _ _ h => h, fun _ _ h => h, fun _ h => .inl h⟩

theorem trans (h : GoesOn own es es') (h' : GoesOn own es' es'') : GoesOn own es es'' where
  isPrefix := h.isPrefix.trans h'.isPrefix
  refers p i c hp ho hr := h.refers p i c hp ho (h'.refers p i c (h.mem hp) ho hr)
  leaves p hp hl := h.leaves p hp (h'.leaves p (h.mem hp) hl)
  left p hp := by
    rcases h'.left p hp with hp | hp
    · exact (h.left p hp).imp id h'.mem
    · exact .inr hp

theorem weaken (h : GoesOn (fun _ => False) es es') : GoesOn own es es' where
  isPrefix := h.isPrefix
  refers p i c hp _ := h.refers p i c hp id
  leaves := h.leaves
  left := h.left

theorem snoc_enter_leave {n : α} (es : List (Event α)) (hn : enter n ∉ es) :
    GoesOn own es (es ++ [enter n] ++ [leave n]) where
  isPrefix := by
    rw [List.append_assoc]
    exact List.prefix_append _ _
  refers p i c _ _ hr := by simpa using hr
  leaves p hp hl := by
    have hne : p ≠ n := fun he => hn (he ▸ hp)
    simpa [hne] using hl
  left p hp := by
    by_cases he : p = n
    · exact .inr (by simp [he])
    · exact .inl (by simpa [he] using hp)

theorem snoc_refer {n c : α} {i : Nat} (es : List (Event α)) (hn : own n) :
    GoesOn own es (es ++ [.refer n i c]) where
  isPrefix := List.prefix_append _ _
  refers p j d _ ho hr := by
    rcases List.mem_append.1 hr with hr | hr
    · exact hr
    · cases List.mem_singleton.1 hr
      exact absurd hn ho
  leaves p _ hl := by simpa using hl
  left p hp := .inl (by simpa using hp)

end GoesOn

def remainingIn (vertices : Finset α) (met : α → Prop) [DecidablePred met] : Nat :=
  (vertices.filter fun i => ¬ met i).card

section
variable (vertices : Finset α) {met met' : α → Prop} [DecidablePred met] [DecidablePred met']

theorem remainingIn_le_card : remainingIn vertices met ≤ vertices.card :=
  Finset.card_filter_le vertices fun i => ¬ met i

theorem remainingIn_le (h : ∀ i, met i → met' i) :
    remainingIn vertices met' ≤ remainingIn vertices met :=
  Finset.card_le_card (Finset.monotone_filter_right _ fun i _ hi hm => hi (h i hm))

theorem remainingIn_lt (h : ∀ i, met i → met' i) {n : α} (hn : n ∈ vertices) (hm : ¬ met n)
    (hm' : met' n) : remainingIn vertices met' < remainingIn vertices met := by
  refine Finset.card_lt_card (Finset.ssubset_iff_of_subset ?_ |>.2 ⟨n, ?_, ?_⟩)
  · exact Finset.monotone_filter_right _ fun i _ hi hm => hi (h i hm)
  · simp [hn, hm]
  · simp [hm']

end

def remaining (size : Nat) (met : Nat → Prop) [DecidablePred met] : Nat :=
  ((Finset.range size).filter fun i => ¬ met i).card

section
variable (size : Nat) {met met' : Nat → Prop} [DecidablePred met] [DecidablePred met']

theorem remaining_le_size : remaining size met ≤ size := by
  have h : remaining size met ≤ _ := remainingIn_le_card (Finset.range size)
  rwa [Finset.card_range] at h

theorem remaining_le (h : ∀ i, met i → met' i) : remaining size met' ≤ remaining size met :=
  remainingIn_le _ h

theorem remaining_lt (h : ∀ i, met i → met' i) {n : Nat} (hn : n < size) (hm : ¬ met n)
    (hm' : met' n) : remaining size met' < remaining size met :=
  remainingIn_lt _ h (Finset.mem_range.2 hn) hm hm'

end

theorem mem_of_split {pre es : List (Event α)} {e : Event α} (h : pre ++ [e] <+: es) : e ∈ es :=
  h.subset (by simp)

theorem exists_split {es : List (Event α)} {e : Event α} (h : e ∈ es) :
    ∃ pre, pre ++ [e] <+: es := by
  obtain ⟨pre, post, rfl⟩ := List.append_of_mem h
  exact ⟨pre, post, by simp⟩

/-- The new event is the last one, or an earlier one stands where it stood. -/
theorem split_concat {pre es : List (Event α)} {e e' : Event α} :
    pre ++ [e] <+: es ++ [e'] ↔ pre = es ∧ e = e' ∨ pre ++ [e] <+: es := by
  rw [List.prefix_concat_iff, ← List.concat_eq_append, ← List.concat_eq_append, List.concat_inj]

section
variable {es : List (Event α)} {n : α} {cs : List α} {index : Nat}

theorem refers_snoc {c : α} (hc : cs[index]? = some c)
    (hr : ∀ i d, refer n i d ∈ es ↔ i < index ∧ cs[i]? = some d) (i : Nat) (d : α) :
    refer n i d ∈ es ++ [refer n index c] ↔ i < index + 1 ∧ cs[i]? = some d := by
  simp only [List.mem_append, hr, List.mem_singleton, Event.refer.injEq, true_and]
  constructor
  · rintro (⟨hlt, hd⟩ | ⟨rfl, rfl⟩)
    · exact ⟨by omega, hd⟩
    · exact ⟨by omega, hc⟩
  · intro ⟨hlt, hi⟩
    by_cases hii : i = index
    · subst hii
      exact .inr ⟨rfl, by simpa [hc] using hi.symm⟩
    · exact .inl ⟨by omega, hi⟩

theorem count_refers {count : Nat} (hi : index ≤ cs.length)
    (hr : ∀ i d, refer n i d ∈ es ↔ i < index ∧ cs[i]? = some d)
    (hcount : ∀ i, i < count ↔ ∃ d, refer n i d ∈ es) : count = index := by
  have hiff (i : Nat) : i < count ↔ i < index := by
    rw [hcount]
    constructor
    · intro ⟨d, hd⟩
      exact ((hr i d).1 hd).1
    · intro hlt
      exact ⟨_, (hr i _).2 ⟨hlt, List.getElem?_eq_getElem (by omega)⟩⟩
  have h1 := hiff index
  have h2 := hiff count
  omega

end

/-- The events fit the graph: references follow its edges, each once and to a vertex that was met,
and a vertex is left when it has referred to all its children. -/
structure Traced (children : α → List α) (es : List (Event α)) : Prop where
  left : ∀ n, leave n ∈ es → enter n ∈ es
  refers : ∀ n i c, refer n i c ∈ es → enter n ∈ es ∧ enter c ∈ es ∧ (children n)[i]? = some c
  met : ∀ n i c pre, pre ++ [refer n i c] <+: es → enter c ∈ pre
  once : ∀ n i c pre pre', pre ++ [refer n i c] <+: es → pre' ++ [refer n i c] <+: es → pre = pre'
  full : ∀ n i c, leave n ∈ es → (children n)[i]? = some c → refer n i c ∈ es

namespace Traced

variable {children : α → List α} {es : List (Event α)}

theorem nil : Traced children [] :=
  ⟨by simp, by simp, by simp, by simp, by simp⟩

theorem congr {children' : α → List α} (h : Traced children es)
    (hc : ∀ n, enter n ∈ es → children' n = children n) : Traced children' es where
  left := h.left
  refers n i c hr := by
    obtain ⟨hn, he, hi⟩ := h.refers n i c hr
    exact ⟨hn, he, hc n hn ▸ hi⟩
  met := h.met
  once := h.once
  full n i c hl hi := h.full n i c hl (hc n (h.left n hl) ▸ hi)

theorem snoc_enter (h : Traced children es) (n : α) : Traced children (es ++ [enter n]) where
  left m hm := by simpa using Or.inl (h.left m (by simpa using hm))
  refers m i c hr := by
    obtain ⟨hm, hc, he⟩ := h.refers m i c (by simpa using hr)
    exact ⟨by simp [hm], by simp [hc], he⟩
  met m i c pre hp := h.met m i c pre (by simpa [split_concat] using hp)
  once m i c pre pre' hp hp' :=
    h.once m i c pre pre' (by simpa [split_concat] using hp)
      (by simpa [split_concat] using hp')
  full m i c hm he := by simpa using h.full m i c (by simpa using hm) he

theorem snoc_refer (h : Traced children es) {n c : α} {i : Nat} (hn : enter n ∈ es)
    (hc : enter c ∈ es) (he : (children n)[i]? = some c) (hr : refer n i c ∉ es) :
    Traced children (es ++ [refer n i c]) where
  left m hm := by simpa using h.left m (by simpa using hm)
  refers m j d hr := by
    rcases List.mem_append.1 hr with hr | hr
    · obtain ⟨hm, hd, hj⟩ := h.refers m j d hr
      exact ⟨by simp [hm], by simp [hd], hj⟩
    · cases List.mem_singleton.1 hr
      exact ⟨by simp [hn], by simp [hc], he⟩
  met m j d pre hp := by
    rcases split_concat.1 hp with ⟨rfl, he⟩ | hp
    · cases he
      exact hc
    · exact h.met m j d pre hp
  once m j d pre pre' hp hp' := by
    rcases split_concat.1 hp with ⟨rfl, he⟩ | hp <;>
      rcases split_concat.1 hp' with ⟨rfl, he'⟩ | hp'
    · rfl
    · exact absurd (mem_of_split hp') (he ▸ hr)
    · exact absurd (mem_of_split hp) (he' ▸ hr)
    · exact h.once m j d pre pre' hp hp'
  full m j d hm hj := by simpa using Or.inl (h.full m j d (by simpa using hm) hj)

theorem snoc_leave (h : Traced children es) {n : α} (hn : enter n ∈ es)
    (hr : ∀ i c, (children n)[i]? = some c → refer n i c ∈ es) :
    Traced children (es ++ [leave n]) where
  left m hm := by
    rcases List.mem_append.1 hm with hm | hm
    · simpa using h.left m hm
    · cases List.mem_singleton.1 hm
      simpa using hn
  refers m i c hr := by
    obtain ⟨hm, hc, he⟩ := h.refers m i c (by simpa using hr)
    exact ⟨by simp [hm], by simp [hc], he⟩
  met m i c pre hp := h.met m i c pre (by simpa [split_concat] using hp)
  once m i c pre pre' hp hp' :=
    h.once m i c pre pre' (by simpa [split_concat] using hp)
      (by simpa [split_concat] using hp')
  full m i c hm he := by
    rcases List.mem_append.1 hm with hm | hm
    · simpa using h.full m i c hm he
    · cases List.mem_singleton.1 hm
      simpa using hr i c he

end Traced

variable {visit : List (Event α) → α → List (Event α)}

theorem goesOn_walkChildren (hv : ∀ es c, GoesOn (fun _ => False) es (visit es c)) (n : α)
    (r : List α) (index : Nat) (es : List (Event α)) :
    GoesOn (· = n) es (walkChildren visit n index r es) := by
  induction r generalizing index es with
  | nil => exact GoesOn.refl _ es
  | cons c r ih =>
    have h : GoesOn (· = n) (visit es c) (visit es c ++ [.refer n index c]) :=
      GoesOn.snoc_refer _ rfl
    exact ((hv es c).weaken.trans h).trans (ih _ _)

theorem goesOn_walk [DecidableEq α] (children : α → List α) (depth : Nat) (es : List (Event α))
    (n : α) :
    GoesOn (fun _ => False) es (walk children depth es n) := by
  induction depth generalizing es n with
  | zero => exact GoesOn.refl _ es
  | succ depth ih =>
    rw [walk]
    split
    · exact GoesOn.refl _ es
    · rename_i hn
      have h := goesOn_walkChildren ih n (children n) 0 (es ++ [enter n])
      generalize walkChildren (walk children depth) n 0 (children n) (es ++ [enter n]) = es' at h
      -- the vertex is new, and so its events are not those of an earlier one
      have hne (p : α) (hp : enter p ∈ es) : p ≠ n := fun he => hn (he ▸ hp)
      refine ⟨?_, fun p i c hp _ hr => ?_, fun p hp hl => ?_, fun p hp => ?_⟩
      · exact ((List.prefix_append es _).trans h.isPrefix).trans (List.prefix_append _ _)
      · have hr' := h.refers p i c (by simp [hp]) (hne p hp) (by simpa using hr)
        simpa using hr'
      · have hl' := h.leaves p (by simp [hp]) (by simpa [hne p hp] using hl)
        simpa using hl'
      · have hp' : enter p ∈ es' := by simpa using hp
        rcases h.left p hp' with hp | hp
        · rcases List.mem_append.1 hp with hp | hp
          · exact .inl hp
          · cases List.mem_singleton.1 hp
            exact .inr (by simp)
        · exact .inr (by simp [hp])

theorem leave_mem_walk [DecidableEq α] {children : α → List α} {depth : Nat} {n p : α}
    (h : enter p ∈ walk children depth [] n) : leave p ∈ walk children depth [] n :=
  ((goesOn_walk children depth [] n).left p h).resolve_left (by simp)

/-- Vertex `c` is met only from `x`, and it was left when `x` refers to it. -/
structure Alone (x c : α) (es : List (Event α)) : Prop where
  entered : enter c ∈ es → enter x ∈ es
  referred : refer x 0 c ∈ es → enter x ∈ es
  left : ∀ pre, pre ++ [refer x 0 c] <+: es → enter c ∈ pre → leave c ∈ pre

section
variable {children : α → List α} {x c : α} {es : List (Event α)}

theorem Alone.snoc (h : Alone x c es) {e : Event α} (he : e ≠ enter c) (hr : e ≠ refer x 0 c) :
    Alone x c (es ++ [e]) where
  entered hc := by
    have hc : enter c ∈ es := by simpa [he.symm] using hc
    exact List.mem_append_left _ (h.entered hc)
  referred hrx := by
    have hrx : refer x 0 c ∈ es := by simpa [hr.symm] using hrx
    exact List.mem_append_left _ (h.referred hrx)
  left pre hp hc := by
    rcases split_concat.1 hp with ⟨-, he⟩ | hp
    · exact absurd he.symm hr
    · exact h.left pre hp hc

theorem alone_walkChildren {n : α} (hn : n ≠ x) (r : List α)
    (hv : ∀ es, ∀ d ∈ r, Alone x c es → Alone x c (visit es d)) (index : Nat) (es : List (Event α))
    (h : Alone x c es) : Alone x c (walkChildren visit n index r es) := by
  induction r generalizing index es with
  | nil => exact h
  | cons d r ih =>
    have hd := hv es d List.mem_cons_self h
    refine ih (fun es d hd => hv es d (List.mem_cons_of_mem _ hd)) _ _ (hd.snoc nofun ?_)
    intro he
    cases he
    exact hn rfl

/-- If `x` has only the child `c`, and `c` only the parent `x`, then `c` is left when `x` refers to
it. -/
theorem alone_walk [DecidableEq α] (hx : children x = [c]) (hc : ∀ n, c ∈ children n → n = x)
    (hne : c ≠ x) (depth : Nat) (es : List (Event α)) (n : α) (hn : n ≠ c) (h : Alone x c es) :
    Alone x c (walk children depth es n) := by
  induction depth generalizing es n with
  | zero => exact h
  | succ depth ih =>
    rw [walk]
    split
    · exact h
    rename_i he
    have henter : Alone x c (es ++ [enter n]) :=
      h.snoc (fun he => hn (Event.enter.inj he)) nofun
    by_cases hnx : n = x
    · subst hnx
      have hnew : enter c ∉ es ++ [enter n] := fun hm => by
        have hm : enter c ∈ es := by simpa [hne] using hm
        exact he (h.entered hm)
      -- all that happens between entering `x` and the reference is the visit of `c`
      have hgo := goesOn_walk children depth (es ++ [enter n]) c
      have hin : enter n ∈ walk children depth (es ++ [enter n]) c := hgo.mem (by simp)
      rw [hx]
      change Alone n c (walk children depth (es ++ [enter n]) c ++ [refer n 0 c] ++ [leave n])
      generalize walk children depth (es ++ [enter n]) c = es' at hgo hin
      refine ⟨fun _ => by simp [hin], fun _ => by simp [hin], fun pre hp hm => ?_⟩
      have hp := (split_concat.1 hp).resolve_left fun h => by cases h.2
      rcases split_concat.1 hp with ⟨rfl, -⟩ | hp
      · exact (hgo.left c hm).resolve_left hnew
      · -- there is no earlier reference, for `n` was not entered
        have hr := hgo.refers n 0 c (by simp) not_false (mem_of_split hp)
        exact absurd (h.referred (by simpa using hr)) he
    · refine (alone_walkChildren hnx (children n) (fun es d hd => ih es d ?_) 0 _ henter).snoc nofun
        nofun
      rintro rfl
      exact hnx (hc n hd)

end

/-- What is referred to was left before, if it was met. -/
def BottomUp (es : List (Event α)) : Prop :=
  ∀ n i c pre, pre ++ [refer n i c] <+: es → enter c ∈ pre → leave c ∈ pre

/-- No vertex that is entered and not left can be reached from `n`. -/
def Clear (children : α → List α) (es : List (Event α)) (n : α) : Prop :=
  ∀ p, enter p ∈ es → leave p ∉ es →
    ¬ Relation.ReflTransGen (fun a b => b ∈ children a) n p

section
variable {children : α → List α} {es es' : List (Event α)}

theorem BottomUp.snoc (h : BottomUp es) {e : Event α}
    (he : ∀ n i c, e = refer n i c → enter c ∈ es → leave c ∈ es) : BottomUp (es ++ [e]) := by
  intro n i c pre hp hc
  rcases split_concat.1 hp with ⟨rfl, rfl⟩ | hp
  · exact he n i c rfl hc
  · exact h n i c pre hp hc

theorem Clear.goesOn {own : α → Prop} {n : α} (h : Clear children es n) (hgo : GoesOn own es es') :
    Clear children es' n := by
  intro p hp hl
  exact h p ((hgo.left p hp).resolve_right hl) fun hm => hl (hgo.mem hm)

theorem bottomUp_walkChildren (hgo : ∀ es c, GoesOn (fun _ => False) es (visit es c)) (n : α)
    (r : List α) (hv : ∀ es, ∀ d ∈ r, Clear children es d → BottomUp es → BottomUp (visit es d))
    (index : Nat) (es : List (Event α)) (hclear : ∀ d ∈ r, Clear children es d)
    (h : BottomUp es) : BottomUp (walkChildren visit n index r es) := by
  induction r generalizing index es with
  | nil => exact h
  | cons d r ih =>
    have hd := hclear d List.mem_cons_self
    have hrefer : BottomUp (visit es d ++ [.refer n index d]) := by
      apply (hv es d List.mem_cons_self hd h).snoc
      rintro _ _ _ ⟨⟩ hin
      -- the child was not open before its visit, which leaves what it enters
      by_contra hl
      exact hd.goesOn (hgo es d) d hin hl .refl
    have hgo' : GoesOn (· = n) es (visit es d ++ [.refer n index d]) :=
      (hgo es d).weaken.trans (GoesOn.snoc_refer _ rfl)
    exact ih (fun es c hc => hv es c (List.mem_cons_of_mem _ hc)) _ _
      (fun c hc => (hclear c (List.mem_cons_of_mem _ hc)).goesOn hgo') hrefer

/-- In a graph without cycles a vertex is left before another one refers to it. -/
theorem bottomUp_walk [DecidableEq α]
    (hac : ∀ n c, c ∈ children n → ¬ Relation.ReflTransGen (fun a b => b ∈ children a) c n)
    (depth : Nat) (es : List (Event α)) (n : α) (hclear : Clear children es n) (h : BottomUp es) :
    BottomUp (walk children depth es n) := by
  induction depth generalizing es n with
  | zero => exact h
  | succ depth ih =>
    rw [walk]
    split
    · exact h
    apply BottomUp.snoc
    · apply bottomUp_walkChildren (goesOn_walk children depth) n (children n)
      · exact fun es d _ => ih es d
      · intro d hd p hp hl hpath
        by_cases hpn : p = n
        · exact hac n d hd (hpn ▸ hpath)
        · exact hclear p (by simpa [hpn] using hp) (by simpa using hl) (.head hd hpath)
      · exact h.snoc nofun
    · exact nofun

end

end TaggedGraph.Traversal
