import TaggedGraph.Proofs.Plugin.Passes
import TaggedGraph.Proofs.Plugin.Serials

namespace TaggedGraph

variable {β : Type}

namespace History

variable {start : EntryPoints β} {ledger : Ledger}

theorem package_of_mem_additions {h : History β} {a : Addition β}
    (ha : a ∈ h.additions start ledger) : a.extension.info.package = none := by
  induction h generalizing a with
  | nil => cases ha
  | cons c h ih =>
    cases c with
    | add e =>
      rcases List.mem_append.1 ha with ha | ha
      · have hsome : addition? start ledger h e = some a := Option.mem_toList.1 ha
        unfold addition? at hsome
        split at hsome
        · rename_i l met hload
          cases hsome
          exact (Extension.info_of_load (congrArg Prod.fst hload)).2
        · cases hsome
      · exact ih ha
    | remove id =>
      obtain ⟨b, hb, rfl⟩ := List.mem_map.1 ha
      exact (ih hb : b.extension.info.package = none)
    | reset => cases ha
    | _ => exact ih ha

theorem isActive_remove {h : History β} {a : Addition β} (ha : a ∈ h.additions start ledger)
    (id : String) :
    (a.remove id).isActive = (a.isActive && !a.extension.isIdentifiedBy id) := by
  have hpackage : a.extension.info.packageName = none := by
    rw [ExtensionInfo.packageName, package_of_mem_additions ha]
    rfl
  rw [Bool.eq_iff_iff]
  simp [Addition.isActive, Addition.remove, LoadedExtension.isIdentifiedBy, hpackage, and_comm]

theorem added_after (h : History β) : (h.after start ledger).added = h.active start ledger := by
  induction h with
  | nil => rfl
  | cons c h ih =>
    rw [after_cons]
    cases c with
    | add e =>
      rw [if_neg (by simp [PluginCall.passes]), active, additions, PluginSet.record]
      rcases @add_after β start ledger h e with ⟨hnone, f, hadd⟩ | ⟨a, hsome, hremoved, hadd⟩
      · rw [hadd, hnone]
        exact ih
      · have hactive : a.isActive = true := by simp [Addition.isActive, hremoved]
        rw [hadd, hsome, Option.toList_some, List.singleton_append,
          List.filter_cons_of_pos hactive]
        exact congrArg _ ih
    | remove id =>
      rw [if_neg (by simp [PluginCall.passes]), active, additions, List.filter_map, List.map_map]
      refine (congrArg (List.filter _) ih).trans ?_
      rw [active, List.filter_map, List.filter_filter]
      refine congrArg (List.map _) (List.filter_congr fun a ha => ?_)
      exact ((isActive_remove ha id).trans (Bool.and_comm _ _)).symm
    | reset => rfl
    | _ => split <;> exact ih

theorem mem_removed_after (h : History β) (id : String) :
    id ∈ (h.after start ledger).removed ↔ id ∈ h.removals := by
  induction h with
  | nil => exact Iff.rfl
  | cons c h ih =>
    rw [after_cons]
    cases c with
    | add e =>
      rw [if_neg (by simp [PluginCall.passes]), PluginSet.record,
        ((after start ledger h).add_frame e).2.2.2.1]
      exact ih
    | remove id' =>
      rw [if_neg (by simp [PluginCall.passes]), PluginSet.record, PluginSet.remove, removals,
        List.mem_cons, ← ih]
      by_cases hid : id' ∈ (after start ledger h).removed
      · rw [if_pos hid, iff_or_self]
        rintro rfl
        exact hid
      · simp [hid, or_comm]
    | reset => exact Iff.rfl
    | _ => split <;> exact ih

/-- What of the discovered extensions was not removed since the last reset. -/
def keepFrom (h : History β) (d : Discovered β) : List (LoadedExtension β) :=
  d.extensions.filter fun e =>
    decide (∀ id ∈ h.removals, e.info.uri ≠ some id ∧ e.info.packageName ≠ some id)

theorem extensions_after (h : History β) : (h.after start ledger).extensions.1 =
    (h.after start ledger).ensure.1.map fun d => h.active start ledger ++ h.keepFrom d := by
  have hset : (h.after start ledger).ensure.2.added = (h.after start ledger).added ∧
      (h.after start ledger).ensure.2.removed = (h.after start ledger).removed := by
    rw [PluginSet.ensure_eq]
    split <;> exact ⟨rfl, rfl⟩
  unfold PluginSet.extensions
  dsimp only
  rw [hset.1, added_after]
  refine congrArg (Except.map · _) (funext fun d => congrArg _ (List.filter_congr fun e _ => ?_))
  rw [Bool.eq_iff_iff]
  simp [PluginSet.isRemoved, LoadedExtension.isIdentifiedBy, hset.2, mem_removed_after]

theorem extensions_add {h : History β} {e : Extension β} {l : LoadedExtension β}
    (hl : ((h.after start ledger).add e).1 = .ok l) :
    ∃ r : Except Panic (List (LoadedExtension β)),
      (after start ledger (.add e :: h)).extensions.1 = r.map (l :: ·) := by
  have hadded : (after start ledger (.add e :: h)).added = l :: (h.after start ledger).added := by
    rcases @add_after β start ledger h e with ⟨-, f, hadd⟩ | ⟨a, -, -, hadd⟩
    · rw [hadd] at hl
      cases hl
    · rw [hadd] at hl
      cases hl
      exact congrArg (fun r => r.2.added) hadd
  rw [extensions_after, ← added_after, hadded]
  cases (after start ledger (.add e :: h)).ensure.1 with
  | error panic => exact ⟨.error panic, rfl⟩
  | ok d => exact ⟨.ok _, rfl⟩

theorem exists_ensure_eq_ok {h : History β} (hstart : ∀ p ∈ start, p.TellsErrors)
    (hcalls : ∀ c ∈ h, c.TellsErrors) : ∃ d, (h.after start ledger).ensure.1 = .ok d := by
  unfold PluginSet.ensure
  cases (h.after start ledger).discovered with
  | some d => exact ⟨d, rfl⟩
  | none =>
    obtain ⟨d, hd⟩ := @exists_pass_eq_ok β start ledger h hstart hcalls
    rw [pass_eq] at hd
    exact ⟨d, hd⟩

theorem coherent_active {h : History β} (hstart : ∀ p ∈ start, p.Identifies)
    (hcalls : ∀ c ∈ h, c.Identifies) {d : Discovered β}
    (hd : (h.after start ledger).ensure.1 = .ok d) :
    Coherent (h.active start ledger ++ h.keepFrom d) := by
  have hsound : (after start ledger (.extensions :: h)).Sound :=
    sound_after hstart (List.forall_mem_cons.2 ⟨trivial, hcalls⟩)
  have hdiscovered : (after start ledger (.extensions :: h)).discovered = some d := by
    have hensure := (h.after start ledger).discovered_ensure
    rw [hd] at hensure
    exact hensure
  refine (hsound.serials.sublist ?_).coherent
  rw [PluginSet.known, added_after, hdiscovered]
  exact List.filter_sublist.append_left _

/-- The calls determine the active extensions: first those that were added since the last reset and
not removed again, the newest first, and then those of the latest pass that were not removed since
the last reset, in the order of their discovery. The registry is made of them in this order, so a
tag goes to what was added last. An extension that does not load changes nothing, and one that does
is active whatever was removed before. A question panics if the pass does, and no pass does if all
errors of the factories have a text. -/
theorem extensions_of_history (h : History β) :
    (∃ r, lastPass start ledger (.extensions :: h) = some r ∧
      (h.after start ledger).extensions.1 =
        r.map (fun d => h.active start ledger ++ h.keepFrom d) ∧
      (h.after start ledger).registry.1 =
        r.map (fun d => .ofExtensions (h.active start ledger ++ h.keepFrom d)) ∧
      ((∀ p ∈ start, p.TellsErrors) → (∀ c ∈ h, c.TellsErrors) → ∃ d, r = .ok d) ∧
      ((∀ p ∈ start, p.Identifies) → (∀ c ∈ h, c.Identifies) → ∀ t,
        (h.after start ledger).registry.1.map (·.converterForTag t) = r.map fun d =>
          (candidates (h.active start ledger) t).head?.or (candidates (h.keepFrom d) t).head?)) ∧
    (∀ e f, ((h.after start ledger).add e).1 = .error f →
      after start ledger (.add e :: h) = h.after start ledger) ∧
    ∀ e l, ((h.after start ledger).add e).1 = .ok l →
      ∃ r : Except Panic (List (LoadedExtension β)),
        (after start ledger (.add e :: h)).extensions.1 = r.map (l :: ·) := by
  have hregistry : (h.after start ledger).registry.1 = (h.after start ledger).ensure.1.map
      fun d => .ofExtensions (h.active start ledger ++ h.keepFrom d) := by
    change (h.after start ledger).extensions.1.map _ = _
    rw [extensions_after]
    cases (h.after start ledger).ensure.1 <;> rfl
  refine ⟨⟨_, lastPass_extensions h, extensions_after h, hregistry, exists_ensure_eq_ok,
    fun hstart hcalls t => ?_⟩, fun e f hf => (h.after start ledger).add_error hf,
    fun e l => extensions_add⟩
  rw [hregistry]
  cases hd : (h.after start ledger).ensure.1 with
  | error panic => rfl
  | ok d =>
    have hcoherent := coherent_active hstart hcalls hd
    have hlookup := Registry.converterForTag_ofExtensions hcoherent t
    rw [candidates, List.flatMap_append, List.head?_append] at hlookup
    exact congrArg Except.ok hlookup

end History

def runtimeExtension (uri : String) : Extension Unit :=
  ⟨.ok (some uri), .ok false, .ok "Runtime", .ok [⟨tagA, [], none, none⟩], .ok [anyTag]⟩

def publishing : EntryPoints Unit :=
  [⟨0, "published", .extensions, some ⟨"pkg", "1"⟩, fun _ =>
    .items [.extension (runtimeExtension "u:p"), .extension (runtimeExtension "u:q")]⟩]

/-- An extension is added, removed and added again, another one is added in between, and one that
was discovered is removed. -/
def readding : History Unit :=
  [.add (runtimeExtension "u:a"), .remove "u:p", .remove "u:a", .add (runtimeExtension "u:b"),
    .add (runtimeExtension "u:a"), .refresh]

theorem runtimeExtension_identifies (uri : String) : (runtimeExtension uri).Identifies := by
  intro cs hcs c hc c' hc' _
  cases hcs
  rw [List.mem_singleton.1 hc, List.mem_singleton.1 hc']

theorem publishing_identifies : ∀ p ∈ publishing, p.Identifies := by
  intro p hp n items hitems e he
  obtain rfl := List.mem_singleton.1 hp
  cases hitems
  simp only [List.mem_cons, List.not_mem_nil, or_false, PluginItem.extension.injEq] at he
  rcases he with rfl | rfl <;> exact runtimeExtension_identifies _

theorem readding_identifies : ∀ c ∈ readding, c.Identifies := by
  simp [readding, PluginCall.Identifies, runtimeExtension_identifies]

theorem publishing_tellsErrors : ∀ p ∈ publishing, p.TellsErrors := by
  intro p hp n panic h
  obtain rfl := List.mem_singleton.1 hp
  cases h

theorem extensions_of_history_readding :
    (∀ p ∈ publishing, p.Identifies ∧ p.TellsErrors) ∧
      (∀ c ∈ readding, c.Identifies ∧ c.TellsErrors) ∧
      (∃ d, History.lastPass publishing .empty (.extensions :: readding) = some (.ok d) ∧
        (readding.after publishing .empty).extensions.1 =
          .ok (readding.active publishing .empty ++ readding.keepFrom d) ∧
        (readding.after publishing .empty).registry.1.map (·.converterForTag tagA) =
          .ok ((candidates (readding.active publishing .empty) tagA).head?.or
            (candidates (readding.keepFrom d) tagA).head?)) ∧
      (readding.after publishing .empty).extensions.1.map (·.map (·.info.uri)) =
        .ok [some "u:a", some "u:b", some "u:q"] ∧
      (readding.after publishing .empty).registry.1.map (fun r =>
        (r.converterForTag tagA).map (·.extension.uri)) = .ok (some (some "u:a")) := by
  have htells : ∀ c ∈ readding, c.TellsErrors := by simp [readding, PluginCall.TellsErrors]
  obtain ⟨⟨r, hr, hextensions, -, hok, hlookup⟩, -⟩ :=
    @History.extensions_of_history Unit publishing .empty readding
  obtain ⟨d, rfl⟩ := hok publishing_tellsErrors htells
  exact ⟨fun p hp => ⟨publishing_identifies p hp, publishing_tellsErrors p hp⟩,
    fun c hc => ⟨readding_identifies c hc, htells c hc⟩,
    ⟨d, hr, hextensions, hlookup publishing_identifies readding_identifies tagA⟩,
    by decide +kernel, by decide +kernel⟩

end TaggedGraph
