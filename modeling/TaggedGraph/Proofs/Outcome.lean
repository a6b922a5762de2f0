namespace TaggedGraph

variable {ε σ α β : Type}

theorem exists_of_bind_ok {ε α γ : Type} {x : Except ε α} {f : α → Except ε γ} {b : γ}
    (h : x >>= f = .ok b) : ∃ a, x = .ok a ∧ f a = .ok b := by
  cases x with
  | error => cases h
  | ok a => exact ⟨a, rfl, h⟩

theorem eq_of_map_ok {ε α γ : Type} {x : Except ε α} {f : α → γ} {b : γ}
    (h : f <$> x = .ok b) : ∃ a, x = .ok a ∧ f a = b := by
  cases x with
  | error => cases h
  | ok a => exact ⟨a, rfl, Except.ok.inj h⟩

theorem mapError_eq_ok {ε ε' α : Type} {x : Except ε α} {f : ε → ε'} {a : α} :
    x.mapError f = .ok a ↔ x = .ok a := by
  cases x with
  | error e =>
    constructor
    · rintro ⟨⟩
    · rintro ⟨⟩
  | ok b =>
    constructor
    · rintro ⟨⟩
      rfl
    · rintro ⟨⟩
      rfl

/-- From the state `s` the steps `m` give `a` and lead to `s'`. -/
def Yields (m : ExceptT ε (StateM σ) α) (s : σ) (a : α) (s' : σ) : Prop :=
  m.run s = (.ok a, s')

/-- From the state `s` the steps `m` fail with `e` and lead to `s'`. -/
def Fails (m : ExceptT ε (StateM σ) α) (s : σ) (e : ε) (s' : σ) : Prop :=
  m.run s = (.error e, s')

theorem run_bind_ok {m : ExceptT ε (StateM σ) α} {f : α → ExceptT ε (StateM σ) β} {s s' : σ} {a : α}
    (h : m.run s = (.ok a, s')) : (m >>= f).run s = (f a).run s' := by
  have hm : StateT.run m.run s = (.ok a, s') := h
  simp only [ExceptT.run_bind]
  change StateT.run (m.run >>= _) s = _
  rw [StateT.run_bind, hm]
  rfl

theorem run_bind_error {m : ExceptT ε (StateM σ) α} {f : α → ExceptT ε (StateM σ) β} {s s' : σ}
    {e : ε} (h : m.run s = (.error e, s')) : (m >>= f).run s = (.error e, s') := by
  have hm : StateT.run m.run s = (.error e, s') := h
  simp only [ExceptT.run_bind]
  change StateT.run (m.run >>= _) s = _
  rw [StateT.run_bind, hm]
  rfl

theorem run_get_bind (f : σ → ExceptT ε (StateM σ) α) (s : σ) : (get >>= f).run s = (f s).run s :=
  run_bind_ok (rfl : (get : ExceptT ε (StateM σ) σ).run s = (.ok s, s))

theorem run_modify_bind (g : σ → σ) (f : PUnit → ExceptT ε (StateM σ) α) (s : σ) :
    (modify g >>= f).run s = (f ()).run (g s) :=
  run_bind_ok (rfl : (modify g : ExceptT ε (StateM σ) PUnit).run s = (.ok (), g s))

theorem yields_bind (m : ExceptT ε (StateM σ) α) (f : α → ExceptT ε (StateM σ) β) (s : σ) (b : β)
    (s'' : σ) : Yields (m >>= f) s b s'' ↔ ∃ a s', Yields m s a s' ∧ Yields (f a) s' b s'' := by
  constructor
  · intro h
    obtain ⟨r, s', hm⟩ : ∃ r s', m.run s = (r, s') := ⟨_, _, rfl⟩
    cases r with
    | error e =>
      rw [Yields, run_bind_error hm] at h
      cases h
    | ok a => exact ⟨a, s', hm, by rwa [Yields, run_bind_ok hm] at h⟩
  · intro ⟨a, s', hm, hf⟩
    rw [Yields, run_bind_ok hm]
    exact hf

theorem yields_pure (a : α) (s : σ) (b : α) (s' : σ) :
    Yields (pure a : ExceptT ε (StateM σ) α) s b s' ↔ b = a ∧ s' = s := by
  constructor
  · rintro ⟨⟩
    exact ⟨rfl, rfl⟩
  · rintro ⟨rfl, rfl⟩
    rfl

theorem yields_get (s t s' : σ) :
    Yields (get : ExceptT ε (StateM σ) σ) s t s' ↔ t = s ∧ s' = s := by
  constructor
  · rintro ⟨⟩
    exact ⟨rfl, rfl⟩
  · rintro ⟨rfl, rfl⟩
    rfl

theorem yields_get_bind (f : σ → ExceptT ε (StateM σ) α) (s : σ) (a : α) (s' : σ) :
    Yields (get >>= f) s a s' ↔ Yields (f s) s a s' := by
  rw [Yields, run_get_bind, Yields]

theorem yields_set (t s : σ) (u : PUnit) (s' : σ) :
    Yields (set t : ExceptT ε (StateM σ) PUnit) s u s' ↔ s' = t := by
  constructor
  · rintro ⟨⟩
    rfl
  · rintro rfl
    rfl

theorem yields_modify (f : σ → σ) (s : σ) (u : PUnit) (s' : σ) :
    Yields (modify f : ExceptT ε (StateM σ) PUnit) s u s' ↔ s' = f s := by
  constructor
  · rintro ⟨⟩
    rfl
  · rintro rfl
    rfl

theorem not_yields_throw (e : ε) (s : σ) (a : α) (s' : σ) :
    ¬ Yields (throw e : ExceptT ε (StateM σ) α) s a s' := by
  rintro ⟨⟩

theorem yields_iff_of_run {κ γ : Type} {m : ExceptT ε (StateM σ) α} {steps : ExceptT κ (StateM γ) α}
    {s : σ} {g : γ} {update : γ → σ} (fail : κ → ε)
    (h : m.run s = match steps.run g with
      | (.ok a, g') => (.ok a, update g')
      | (.error e, g') => (.error (fail e), update g')) (a : α) (s' : σ) :
    Yields m s a s' ↔ ∃ g', Yields steps g a g' ∧ s' = update g' := by
  rw [Yields, h]
  unfold Yields
  generalize steps.run g = p
  obtain ⟨r, g'⟩ := p
  cases r with
  | error e =>
    constructor
    · rintro ⟨⟩
    · rintro ⟨_, ⟨⟩, -⟩
  | ok b =>
    constructor
    · rintro ⟨⟩
      exact ⟨g', rfl, rfl⟩
    · rintro ⟨_, ⟨⟩, rfl⟩
      rfl

theorem yields_or_fails (m : ExceptT ε (StateM σ) α) (s : σ) :
    (∃ a s', Yields m s a s') ∨ ∃ e s', Fails m s e s' := by
  obtain ⟨r, s', hm⟩ : ∃ r s', m.run s = (r, s') := ⟨_, _, rfl⟩
  cases r with
  | ok a => exact .inl ⟨a, s', hm⟩
  | error e => exact .inr ⟨e, s', hm⟩

theorem run_bind_congr {m m' : ExceptT ε (StateM σ) α} {s s' : σ} (h : m'.run s' = m.run s)
    (f : α → ExceptT ε (StateM σ) β) : (m' >>= f).run s' = (m >>= f).run s := by
  rcases yields_or_fails m s with ⟨a, s₁, hm⟩ | ⟨e, s₁, hm⟩
  · rw [run_bind_ok hm, run_bind_ok (h.trans hm)]
  · rw [run_bind_error hm, run_bind_error (h.trans hm)]

theorem run_eq_of_outcomes {m m' : ExceptT ε (StateM σ) α} {s : σ}
    (hyields : ∀ a s', Yields m s a s' → Yields m' s a s')
    (hfails : ∀ e s', Fails m s e s' → Fails m' s e s') : m'.run s = m.run s := by
  rcases yields_or_fails m s with ⟨a, s', h⟩ | ⟨e, s', h⟩
  · exact (hyields a s' h).trans h.symm
  · exact (hfails e s' h).trans h.symm

theorem fails_bind (m : ExceptT ε (StateM σ) α) (f : α → ExceptT ε (StateM σ) β) (s : σ) (e : ε)
    (s'' : σ) : Fails (m >>= f) s e s'' ↔
      Fails m s e s'' ∨ ∃ a s', Yields m s a s' ∧ Fails (f a) s' e s'' := by
  rcases yields_or_fails m s with ⟨a, s', hm⟩ | ⟨e', s', hm⟩
  · rw [Fails, run_bind_ok hm]
    constructor
    · exact fun h => .inr ⟨a, s', hm, h⟩
    · rintro (h | ⟨b, t, hb, h⟩)
      · cases hm.symm.trans h
      · cases hm.symm.trans hb
        exact h
  · rw [Fails, run_bind_error hm]
    constructor
    · rintro ⟨⟩
      exact .inl hm
    · rintro (h | ⟨b, t, hb, h⟩)
      · cases hm.symm.trans h
        rfl
      · cases hm.symm.trans hb

theorem fails_bind_of_yields {m : ExceptT ε (StateM σ) α} {f : α → ExceptT ε (StateM σ) β}
    {s s' : σ} {a : α} (h : Yields m s a s') (e : ε) (s'' : σ) :
    Fails (m >>= f) s e s'' ↔ Fails (f a) s' e s'' := by
  rw [Fails, run_bind_ok h, Fails]

theorem not_fails_pure (a : α) (s : σ) (e : ε) (s' : σ) :
    ¬ Fails (pure a : ExceptT ε (StateM σ) α) s e s' := by
  rintro ⟨⟩

theorem not_fails_modify (f : σ → σ) (s : σ) (e : ε) (s' : σ) :
    ¬ Fails (modify f : ExceptT ε (StateM σ) PUnit) s e s' := by
  rintro ⟨⟩

theorem fails_get_bind (f : σ → ExceptT ε (StateM σ) α) (s : σ) (e : ε) (s' : σ) :
    Fails (get >>= f) s e s' ↔ Fails (f s) s e s' := by
  rw [Fails, run_get_bind, Fails]

/-- From states that `R` relates both give the same, and lead to related states. -/
def Agree (R : σ → σ → Prop) (m m' : ExceptT ε (StateM σ) α) : Prop :=
  ∀ s s', R s s' → (m'.run s').1 = (m.run s).1 ∧ R (m.run s).2 (m'.run s').2

section
variable {R : σ → σ → Prop} {m m' : ExceptT ε (StateM σ) α}

theorem Agree.bind {f f' : α → ExceptT ε (StateM σ) β} (h : Agree R m m')
    (hf : ∀ a, Agree R (f a) (f' a)) : Agree R (m >>= f) (m' >>= f') := by
  intro s s' hs
  obtain ⟨r, s₁, hm⟩ : ∃ r s₁, m.run s = (r, s₁) := ⟨_, _, rfl⟩
  obtain ⟨r', s₁', hm'⟩ : ∃ r s₁, m'.run s' = (r, s₁) := ⟨_, _, rfl⟩
  obtain ⟨hr, hs₁⟩ := h s s' hs
  rw [hm, hm'] at hr hs₁
  obtain rfl : r' = r := hr
  cases r' with
  | ok a =>
    rw [run_bind_ok hm, run_bind_ok hm']
    exact hf a s₁ s₁' hs₁
  | error e =>
    rw [run_bind_error hm, run_bind_error hm']
    exact ⟨rfl, hs₁⟩

theorem agree_pure (a : α) : Agree R (pure a : ExceptT ε (StateM σ) α) (pure a) :=
  fun _ _ hs => ⟨rfl, hs⟩

theorem agree_throw (e : ε) : Agree R (throw e : ExceptT ε (StateM σ) α) (throw e) :=
  fun _ _ hs => ⟨rfl, hs⟩

theorem agree_modify {f f' : σ → σ} (h : ∀ s s', R s s' → R (f s) (f' s')) :
    Agree R (modify f : ExceptT ε (StateM σ) PUnit) (modify f') :=
  fun s s' hs => ⟨rfl, h s s' hs⟩

theorem agree_get_bind {f f' : σ → ExceptT ε (StateM σ) α}
    (h : ∀ s s', R s s' → Agree R (f s) (f' s')) : Agree R (get >>= f) (get >>= f') := by
  intro s s' hs
  rw [run_get_bind, run_get_bind]
  exact h s s' hs s s' hs

end

def failure? : Except ε α → Option ε
  | .ok _ => none
  | .error e => some e

theorem failure?_eq_some {r : Except ε α} {e : ε} : failure? r = some e ↔ r = .error e := by
  cases r with
  | ok a =>
    constructor
    · rintro ⟨⟩
    · rintro ⟨⟩
  | error e' =>
    constructor
    · rintro ⟨⟩
      rfl
    · rintro ⟨⟩
      rfl

/-- From a state with `I none` the steps come to one with `I none` if they end well, and to one with
`I (some e)` if they fail with `e`. -/
def Preserves (I : Option ε → σ → Prop) (m : ExceptT ε (StateM σ) α) : Prop :=
  ∀ s, I none s → I (failure? (m.run s).1) (m.run s).2

section
variable {I : Option ε → σ → Prop} {m : ExceptT ε (StateM σ) α}

theorem Preserves.bind {f : α → ExceptT ε (StateM σ) β} (h : Preserves I m)
    (hf : ∀ a, Preserves I (f a)) : Preserves I (m >>= f) := by
  intro s hs
  have hs' := h s hs
  rcases yields_or_fails m s with ⟨a, s', hm⟩ | ⟨e, s', hm⟩
  · rw [run_bind_ok hm]
    rw [hm] at hs'
    exact hf a s' hs'
  · rw [run_bind_error hm]
    rwa [hm] at hs'

theorem preserves_pure (a : α) : Preserves I (pure a : ExceptT ε (StateM σ) α) :=
  fun _ hs => hs

theorem preserves_throw {e : ε} (h : ∀ s, I none s → I (some e) s) :
    Preserves I (throw e : ExceptT ε (StateM σ) α) :=
  h

theorem preserves_modify {f : σ → σ} (h : ∀ s, I none s → I none (f s)) :
    Preserves I (modify f : ExceptT ε (StateM σ) PUnit) :=
  h

end

theorem Yields.unique {m : ExceptT ε (StateM σ) α} {s : σ} {a b : α} {s' s'' : σ}
    (h : Yields m s a s') (h' : Yields m s b s'') : a = b ∧ s' = s'' := by
  cases h.symm.trans h'
  exact ⟨rfl, rfl⟩

end TaggedGraph
