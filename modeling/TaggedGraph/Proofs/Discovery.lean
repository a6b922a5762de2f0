import TaggedGraph.Plugin.Discovery
import TaggedGraph.Proofs.Loaded

namespace TaggedGraph

variable {β : Type}

namespace Converter

end Converter

namespace Warnings

/-- A collector in between that drops the same categories makes no difference. -/
theorem absorb_silencing {ws : Warnings} {silenced : List WarningCategory}
    (h : ws.silenced = silenced) (l : List Warning) :
    ws.absorb ((silencing silenced).append l) = ws.append l := by
  subst h
  simp [absorb, append, keep, isSilenced, silencing]

end Warnings

/-- The panic of the text of an error that the factory returned. -/
def Produced.fatal? : Produced β → Option Panic
  | failed (.other (.error panic)) => some panic
  | _ => none

theorem Produced.fatal?_failed (e : PluginError) : (failed e : Produced β).fatal? =
    match e.text with
    | .ok _ => none
    | .error panic => some panic := by
  cases e with
  | other message => cases message <;> rfl
  | _ => rfl

/-- The text of every error that the factory ever returns can be told. -/
def EntryPoint.TellsErrors (p : EntryPoint β) : Prop :=
  ∀ n panic, p.factory n ≠ .failed (.other (.error panic))

namespace Discovery

def enabled (options : DiscoveryOptions) (ps : EntryPoints β) : EntryPoints β :=
  ps.filter fun p => !options.isDisabled p

/-- What the factories produce in turn, if those of `calls` were called before. -/
def produced (calls : List Nat) (ps : EntryPoints β) : List (EntryPoint β × Produced β) :=
  ps.mapIdx fun i p => (p, p.factory ((calls ++ (ps.take i).map (·.id)).count p.id))

/-- The first panic that ends the pass in which factories produce this in turn. -/
def firstFatal? (xs : List (EntryPoint β × Produced β)) : Option Panic :=
  xs.findSome? fun x => x.2.fatal?

/-- The calls up to the first one that ends the pass. -/
def reached : List (EntryPoint β × Produced β) → List (EntryPoint β × Produced β)
  | [] => []
  | x :: r => x :: if x.2.fatal?.isSome then [] else reached r

def itemsOf : EntryPoint β × Produced β → List (Item β)
  | (p, .items items) => items.map ((p, ·))
  | _ => []

def factoryFailure? (g : Group) : EntryPoint β × Produced β → Option Warning
  | (_, .items _) => none
  | (p, .failed e) => e.text.toOption.map fun text =>
    report p ("failed to load (" ++ g.text ++ "): " ++ text)
  | (p, .panicked panic) => some (report p ("failed to load (" ++ g.text ++ "): " ++
      ((PluginError.ofPanic panic).kind ++ ": " ++ panic.text)))

def collected (g : Group) (xs : List (EntryPoint β × Produced β)) (warnings : Warnings) :
    Except Panic (List (Item β) × Warnings) :=
  match firstFatal? xs with
  | some panic => .error panic
  | none => .ok (xs.flatMap itemsOf, warnings.append (xs.filterMap (factoryFailure? g)))

def isExtension : Item β → Bool
  | (_, .extension _) => true
  | _ => false

/-- The items with the serial numbers that extensions among them get. -/
def numbered (loads : Nat) (items : List (Item β)) : List (Nat × Item β) :=
  items.mapIdx fun i item => (loads + (items.take i).countP isExtension, item)

def extension? : Nat × Item β → Option (LoadedExtension β)
  | (serial, p, .extension e) => (e.load serial p.package).1.toOption
  | _ => none

def extensionFailure? : Nat × Item β → Option Warning
  | (serial, p, .extension e) =>
    match (e.load serial p.package).1 with
    | .ok _ => none
    | .error (.invalid error) =>
      some (report p ("failed to load extension: ConfigurationError: " ++ error.message))
    | .error (.panicked panic) =>
      some (report p ("failed to load extension: " ++ (PluginError.ofPanic panic).kind ++ ": " ++
        panic.text))
  | (_, p, i) => some (notConforming p i "Extension items must implement Extension")

/-- What the collector of a load hands on. -/
def kept : Nat × Item β → List Warning
  | (serial, p, .extension e) =>
    match e.load serial p.package with
    | (.error (.panicked _), _) => []
    | (_, met) => met
  | _ => []

def reports (x : Nat × Item β) : List Warning :=
  kept x ++ (extensionFailure? x).toList

def loadExtensions (items : List (Item β)) (ledger : Ledger) :
    List (LoadedExtension β) × List Warning × Ledger :=
  ((numbered ledger.loads items).filterMap extension?,
    (numbered ledger.loads items).flatMap reports,
    { ledger with loads := ledger.loads + items.countP isExtension })

def mapping? : Item β → Option ProvidedMapping
  | (p, .mapping m) => some ⟨m, p.package⟩
  | _ => none

def mappingFailure? : Item β → Option Warning
  | (_, .mapping _) => none
  | (p, i) => some (notConforming p i "Resource mapping items must implement ResourceMapping")

theorem produced_cons (calls : List Nat) (p : EntryPoint β) (r : EntryPoints β) :
    produced calls (p :: r) =
      (p, p.factory (calls.count p.id)) :: produced (calls ++ [p.id]) r := by
  simp [produced, List.mapIdx_cons]

theorem produced_append (calls : List Nat) (ps qs : EntryPoints β) :
    produced calls (ps ++ qs) = produced calls ps ++ produced (calls ++ ps.map (·.id)) qs := by
  induction ps generalizing calls with
  | nil => simp [produced]
  | cons p r ih =>
    rw [List.cons_append, produced_cons, produced_cons, ih]
    simp

theorem numbered_cons (loads : Nat) (item : Item β) (r : List (Item β)) :
    numbered loads (item :: r) =
      (loads, item) :: numbered (loads + if isExtension item then 1 else 0) r := by
  simp only [numbered, List.mapIdx_cons, List.take_zero, List.countP_nil, Nat.add_zero,
    List.take_succ_cons, List.countP_cons]
  congr 2
  funext i next
  rw [Nat.add_assoc, Nat.add_comm (if isExtension item then 1 else 0)]

theorem loadExtensions_cons (item : Item β) (r : List (Item β)) (ledger : Ledger) :
    loadExtensions (item :: r) ledger =
      let next := { ledger with loads := ledger.loads + if isExtension item then 1 else 0 }
      ((extension? (ledger.loads, item)).toList ++ (loadExtensions r next).1,
        reports (ledger.loads, item) ++ (loadExtensions r next).2.1,
        (loadExtensions r next).2.2) := by
  rw [loadExtensions, numbered_cons, List.filterMap_cons, List.flatMap_cons, List.countP_cons]
  simp only [loadExtensions, Prod.mk.injEq, Ledger.mk.injEq, true_and]
  refine ⟨?_, by omega⟩
  cases extension? (ledger.loads, item) <;> rfl

theorem produced_map_fst (calls : List Nat) (ps : EntryPoints β) :
    (produced calls ps).map Prod.fst = ps := by
  induction ps generalizing calls with
  | nil => rfl
  | cons p r ih => rw [produced_cons, List.map_cons, ih]

theorem firstFatal?_append (xs ys : List (EntryPoint β × Produced β)) :
    firstFatal? (xs ++ ys) = (firstFatal? xs).or (firstFatal? ys) :=
  List.findSome?_append

theorem firstFatal?_eq_none_iff {xs : List (EntryPoint β × Produced β)} : firstFatal? xs = none ↔
    ∀ p panic, (p, .failed (.other (.error panic))) ∉ xs := by
  rw [firstFatal?, List.findSome?_eq_none_iff]
  constructor
  · intro h p panic hmem
    cases h _ hmem
  · rintro h ⟨p, r⟩ hmem
    unfold Produced.fatal?
    split
    · rename_i panic heq
      obtain rfl : r = _ := heq
      exact absurd hmem (h p panic)
    · rfl

theorem reached_append_of_fatal {xs : List (EntryPoint β × Produced β)} {panic : Panic}
    (h : firstFatal? xs = some panic) (ys : List (EntryPoint β × Produced β)) :
    reached (xs ++ ys) = reached xs := by
  induction xs with
  | nil => cases h
  | cons x r ih =>
    rw [firstFatal?, List.findSome?_cons] at h
    rw [List.cons_append, reached, reached]
    cases hx : x.2.fatal? with
    | some => rfl
    | none =>
      rw [hx] at h
      exact congrArg (x :: ·) (ih h)

theorem reached_append {xs : List (EntryPoint β × Produced β)} (h : firstFatal? xs = none)
    (ys : List (EntryPoint β × Produced β)) : reached (xs ++ ys) = xs ++ reached ys := by
  induction xs with
  | nil => rfl
  | cons x r ih =>
    rw [firstFatal?, List.findSome?_cons] at h
    rw [List.cons_append, reached]
    cases hx : x.2.fatal? with
    | some =>
      rw [hx] at h
      cases h
    | none =>
      rw [hx] at h
      exact congrArg (x :: ·) (ih h)

theorem reached_eq_self {xs : List (EntryPoint β × Produced β)} (h : firstFatal? xs = none) :
    reached xs = xs := by
  have happend := reached_append h []
  rwa [List.append_nil, reached, List.append_nil] at happend

/-- Every factory is told how often it was called before. -/
theorem eq_of_getElem?_reached {calls : List Nat} {ps : EntryPoints β} {i : Nat}
    {x : EntryPoint β × Produced β} (h : (reached (produced calls ps))[i]? = some x) :
    x.2 = x.1.factory
      ((calls ++ ((reached (produced calls ps)).take i).map (·.1.id)).count x.1.id) := by
  induction ps generalizing calls i with
  | nil => cases h
  | cons p r ih =>
    rw [produced_cons, reached] at h ⊢
    cases i with
    | zero =>
      cases h
      simp
    | succ i =>
      rw [List.getElem?_cons_succ] at h
      split at h
      · cases h
      · rename_i hfatal
        rw [if_neg hfatal, ih h]
        simp

theorem collected_cons (g : Group) (x : EntryPoint β × Produced β)
    (r : List (EntryPoint β × Produced β)) (warnings : Warnings) :
    collected g (x :: r) warnings =
      match x.2.fatal? with
      | some panic => .error panic
      | none => (collected g r (warnings.append (factoryFailure? g x).toList)).map
          fun (items, warnings) => (itemsOf x ++ items, warnings) := by
  unfold collected firstFatal?
  rw [List.findSome?_cons, List.filterMap_cons, List.flatMap_cons]
  cases x.2.fatal? with
  | some => rfl
  | none =>
    dsimp only
    cases r.findSome? fun x => x.2.fatal? with
    | some => rfl
    | none =>
      rw [Warnings.append_append]
      cases factoryFailure? g x <;> rfl

theorem collected_cons_of_no_items {g : Group} {x : EntryPoint β × Produced β}
    (hfatal : x.2.fatal? = none) (hitems : itemsOf x = []) (r : List (EntryPoint β × Produced β))
    (warnings : Warnings) : collected g (x :: r) warnings =
      collected g r (warnings.append (factoryFailure? g x).toList) := by
  rw [collected_cons, hfatal]
  simp only [hitems, List.nil_append]
  cases collected g r (warnings.append (factoryFailure? g x).toList) <;> rfl

theorem collectItems_eq (options : DiscoveryOptions) (g : Group) (ps : EntryPoints β)
    (warnings : Warnings) (ledger : Ledger) : collectItems options g ps warnings ledger =
      (collected g (produced ledger.calls (enabled options ps)) warnings,
        { ledger with calls := ledger.calls ++
            (reached (produced ledger.calls (enabled options ps))).map (·.1.id) }) := by
  induction ps generalizing warnings ledger with
  | nil => simp [collectItems, collected, firstFatal?, reached, produced, enabled]
  | cons p r ih =>
    unfold collectItems
    by_cases hp : options.isDisabled p
    · have henabled : enabled options (p :: r) = enabled options r :=
        List.filter_cons_of_neg (by simp [hp])
      rw [if_pos hp, ih, henabled]
    · have henabled : enabled options (p :: r) = p :: enabled options r :=
        List.filter_cons_of_pos (by simp [hp])
      rw [if_neg hp, henabled, produced_cons, reached, ← Ledger.callsOf]
      cases p.factory (ledger.callsOf p.id) with
      | items new =>
        simp [ih, collected_cons, Ledger.addCall, Produced.fatal?, factoryFailure?, itemsOf]
      | panicked panic =>
        have htext : (PluginError.ofPanic panic).text =
            .ok ((PluginError.ofPanic panic).kind ++ ": " ++ panic.text) := rfl
        rw [collected_cons_of_no_items rfl rfl]
        simp [htext, ih, Ledger.addCall, Produced.fatal?, factoryFailure?]
      | failed e =>
        have hfatal := Produced.fatal?_failed (β := β) e
        cases htext : e.text with
        | error panic =>
          rw [htext] at hfatal
          simp [htext, hfatal, collected_cons, Ledger.addCall]
        | ok text =>
          rw [htext] at hfatal
          rw [collected_cons_of_no_items hfatal rfl]
          simp [htext, hfatal, ih, Ledger.addCall, factoryFailure?, Except.toOption]

theorem collectExtensions_eq (options : DiscoveryOptions) (items : List (Item β))
    (warnings : Warnings) (ledger : Ledger) (h : warnings.silenced = options.silencedWarnings) :
    collectExtensions options items warnings ledger =
      ((loadExtensions items ledger).1, warnings.append (loadExtensions items ledger).2.1,
        (loadExtensions items ledger).2.2) := by
  induction items generalizing warnings ledger with
  | nil => simp [collectExtensions, loadExtensions, numbered]
  | cons item r ih =>
    obtain ⟨p, i⟩ := item
    rw [loadExtensions_cons]
    cases i with
    | mapping m =>
      unfold collectExtensions
      rw [ih (warnings.append _) _ h, Warnings.append_append]
      rfl
    | extension e =>
      unfold collectExtensions
      rw [extension?, reports, kept, extensionFailure?]
      rcases e.load ledger.loads p.package with ⟨result, met⟩
      rcases result with failure | l
      · cases failure with
        | panicked panic =>
          dsimp only
          rw [ih (warnings.append _) _ h, Warnings.append_append]
          rfl
        | invalid error =>
          dsimp only
          rw [Warnings.absorb_silencing h, Warnings.append_append,
            ih (warnings.append _) _ h, Warnings.append_append]
          rfl
      · dsimp only
        rw [Warnings.absorb_silencing h, ih (warnings.append _) _ h,
          Warnings.append_append, Option.toList_none, List.append_nil]
        rfl

theorem collectMappings_eq (items : List (Item β)) (warnings : Warnings) :
    collectMappings items warnings =
      (items.filterMap mapping?, warnings.append (items.filterMap mappingFailure?)) := by
  induction items generalizing warnings with
  | nil => simp [collectMappings]
  | cons item r ih =>
    obtain ⟨p, i⟩ := item
    cases i <;> simp [collectMappings, mapping?, mappingFailure?, ih, List.filterMap_cons]

theorem mem_of_mem_produced {calls : List Nat} {ps : EntryPoints β}
    {r : EntryPoint β × Produced β} (h : r ∈ produced calls ps) : r.1 ∈ ps := by
  obtain ⟨i, hi, rfl⟩ := List.mem_mapIdx.1 h
  exact List.getElem_mem hi

theorem exists_of_mem_produced {calls : List Nat} {ps : EntryPoints β} {p : EntryPoint β}
    {r : Produced β} (h : (p, r) ∈ produced calls ps) : ∃ n, p.factory n = r := by
  obtain ⟨i, hi, hp⟩ := List.mem_mapIdx.1 h
  obtain ⟨rfl, rfl⟩ := Prod.mk.inj hp
  exact ⟨_, rfl⟩

section
variable (source : EntryPointSource β) (options : DiscoveryOptions) (ledger : Ledger)

/-- What the factories of a group produce in a pass that does not end before; those of extensions
are called first. -/
def called : Group → List (EntryPoint β × Produced β)
  | .extensions => produced ledger.calls (enabled options (source .extensions))
  | .resourceMappings =>
    produced (ledger.calls ++ (enabled options (source .extensions)).map (·.id))
      (enabled options (source .resourceMappings))

def calledInTurn : List (EntryPoint β × Produced β) :=
  called source options ledger .extensions ++ called source options ledger .resourceMappings

def itemsIn (g : Group) : List (Item β) :=
  (called source options ledger g).flatMap itemsOf

/-- What a pass discovers that comes to its end. -/
def found : Discovered β where
  extensions := (numbered ledger.loads (itemsIn source options ledger .extensions)).filterMap
    extension?
  mappings := (itemsIn source options ledger .resourceMappings).filterMap mapping?
  warnings := (Warnings.silencing options.silencedWarnings).append
    ((called source options ledger .extensions).filterMap (factoryFailure? .extensions) ++
      (numbered ledger.loads (itemsIn source options ledger .extensions)).flatMap reports ++
      (called source options ledger .resourceMappings).filterMap
        (factoryFailure? .resourceMappings) ++
      (itemsIn source options ledger .resourceMappings).filterMap mappingFailure?)

/-- The warning is a report on an entry point that is not disabled. -/
def Names (w : Warning) : Prop :=
  ∃ g, ∃ p ∈ enabled options (source g), ∃ message, w = report p message

variable {source options ledger} {g : Group} {w : Warning}

theorem Names.category (h : Names source options w) : w.category = .pluginDiscovery := by
  obtain ⟨g, p, -, message, rfl⟩ := h
  rfl

theorem called_map_fst (g : Group) :
    (called source options ledger g).map Prod.fst = enabled options (source g) := by
  cases g <;> exact produced_map_fst _ _

theorem called_map_id (g : Group) : (called source options ledger g).map (·.1.id) =
    (enabled options (source g)).map (·.id) := by
  rw [← called_map_fst, List.map_map]
  rfl

theorem calledInTurn_eq : calledInTurn source options ledger =
    produced ledger.calls
      (enabled options (source .extensions) ++ enabled options (source .resourceMappings)) :=
  (produced_append ..).symm

theorem firstFatal?_eq_none (h : ∀ g, ∀ p ∈ source g, p.TellsErrors) :
    firstFatal? (calledInTurn source options ledger) = none := by
  rw [firstFatal?_eq_none_iff, calledInTurn_eq]
  intro p panic hmem
  obtain ⟨n, hfactory⟩ := exists_of_mem_produced hmem
  obtain ⟨g, hp⟩ : ∃ g, p ∈ enabled options (source g) :=
    (List.mem_append.1 (mem_of_mem_produced hmem)).elim (⟨_, ·⟩) (⟨_, ·⟩)
  exact h g p (List.mem_of_mem_filter hp) n panic hfactory

end

end Discovery

open Discovery

variable (source : EntryPointSource β) (options : DiscoveryOptions) (ledger : Ledger)

theorem discover_eq : discover source options ledger =
    (match firstFatal? (calledInTurn source options ledger) with
      | some panic => .error panic
      | none => .ok (found source options ledger),
    ⟨ledger.calls ++ (reached (calledInTurn source options ledger)).map (·.1.id),
      ledger.loads + if (firstFatal? (called source options ledger .extensions)).isSome then 0
        else (itemsIn source options ledger .extensions).countP isExtension⟩) := by
  have hextensions (warnings : Warnings) :
      collectItems options .extensions (source .extensions) warnings ledger =
        (collected .extensions (called source options ledger .extensions) warnings,
          ⟨ledger.calls ++ (reached (called source options ledger .extensions)).map (·.1.id),
            ledger.loads⟩) := collectItems_eq ..
  have hmappings (warnings : Warnings) (loads : Nat) :
      collectItems options .resourceMappings (source .resourceMappings) warnings
          ⟨ledger.calls ++ (enabled options (source .extensions)).map (·.id), loads⟩ =
        (collected .resourceMappings (called source options ledger .resourceMappings) warnings,
          ⟨ledger.calls ++ (enabled options (source .extensions)).map (·.id) ++
            (reached (called source options ledger .resourceMappings)).map (·.1.id), loads⟩) :=
    collectItems_eq ..
  unfold discover
  dsimp only
  rw [hextensions, calledInTurn, firstFatal?_append]
  cases hfatal : firstFatal? (called source options ledger .extensions) with
  | some panic => simp [collected, hfatal, reached_append_of_fatal hfatal]
  | none =>
    rw [reached_append hfatal, reached_eq_self hfatal, List.map_append, called_map_id]
    simp only [collected, hfatal, Option.none_or]
    rw [collectExtensions_eq options _ ((Warnings.silencing _).append _) _ rfl]
    simp only [loadExtensions]
    rw [hmappings]
    cases hfatal' : firstFatal? (called source options ledger .resourceMappings) with
    | some panic => simp [collected, hfatal', itemsIn]
    | none =>
      simp only [collected, hfatal', collectMappings_eq, Warnings.append_append]
      simp [found, itemsIn]

variable {source options ledger} in
theorem discover_eq_ok_iff {d : Discovered β} : (discover source options ledger).1 = .ok d ↔
    firstFatal? (calledInTurn source options ledger) = none ∧ d = found source options ledger := by
  rw [discover_eq]
  cases firstFatal? (calledInTurn source options ledger) with
  | some panic => simp
  | none => simp [eq_comm]

end TaggedGraph
