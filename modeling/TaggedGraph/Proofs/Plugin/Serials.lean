import TaggedGraph.Proofs.Lookup
import TaggedGraph.Proofs.Plugin.History

namespace TaggedGraph

variable {β : Type}

/-- Converters with the same id are the same converter. -/
def Extension.Identifies (e : Extension β) : Prop :=
  ∀ cs, e.converters = .ok cs → ∀ c ∈ cs, ∀ c' ∈ cs, c.id = c'.id → c = c'

/-- Every extension that the factory ever produces tells its converters apart. -/
def EntryPoint.Identifies (p : EntryPoint β) : Prop :=
  ∀ n items, p.factory n = .items items → ∀ e, .extension e ∈ items → e.Identifies

def PluginCall.Identifies : PluginCall β → Prop
  | .add e => e.Identifies
  | .register p => p.Identifies
  | _ => True

namespace Extension

variable {e : Extension β} {serial : Nat} {package : Option PackageInfo} {l : LoadedExtension β}

theorem info_of_load (h : (e.load serial package).1 = .ok l) :
    l.info.serial = serial ∧ l.info.package = package := by
  have hinfo := (load_ok h).1
  obtain ⟨uri, -, hinfo⟩ := exists_of_bind_ok hinfo
  obtain ⟨legacy, -, hinfo⟩ := exists_of_bind_ok hinfo
  obtain ⟨className, -, hinfo⟩ := exists_of_bind_ok hinfo
  have hl := (Except.ok.inj hinfo).symm
  exact ⟨congrArg ExtensionInfo.serial hl, congrArg ExtensionInfo.package hl⟩

theorem Identifies.of_load (he : e.Identifies) (h : (e.load serial package).1 = .ok l)
    {c c' : LoadedConverter β} (hc : c ∈ l.converters) (hc' : c' ∈ l.converters)
    (hid : c.converter.id = c'.converter.id) : c.converter = c'.converter := by
  obtain ⟨-, -, cs, hcs, hall⟩ := load_ok h
  obtain ⟨d, hd, hload⟩ := forall₂_exists_left hall hc
  obtain ⟨d', hd', hload'⟩ := forall₂_exists_left hall hc'
  obtain rfl := (Converter.load_ok hload).1
  obtain rfl := (Converter.load_ok hload').1
  exact he cs hcs _ hd _ hd' hid

end Extension

/-- Loads of extensions that tell their converters apart, each with a serial number of its own
between these two. -/
structure Serials (es : List (LoadedExtension β)) (low high : Nat) : Prop where
  le : low ≤ high
  loaded : ∀ l ∈ es, ∃ (e : Extension β) (serial : Nat) (package : Option PackageInfo),
    e.Identifies ∧ (e.load serial package).1 = .ok l
  bounds : ∀ l ∈ es, low ≤ l.info.serial ∧ l.info.serial < high
  nodup : (es.map (·.info.serial)).Nodup

namespace Serials

variable {es es₁ es₂ : List (LoadedExtension β)} {low middle high : Nat}

theorem nil (h : low ≤ high) : Serials ([] : List (LoadedExtension β)) low high :=
  ⟨h, by simp, by simp, by simp⟩

theorem sublist (h : Serials es low high) (hes : es₁.Sublist es) : Serials es₁ low high where
  le := h.le
  loaded l hl := h.loaded l (hes.subset hl)
  bounds l hl := h.bounds l (hes.subset hl)
  nodup := h.nodup.sublist (hes.map _)

theorem append (h₁ : Serials es₁ low middle) (h₂ : Serials es₂ middle high) :
    Serials (es₁ ++ es₂) low high where
  le := Nat.le_trans h₁.le h₂.le
  loaded := List.forall_mem_append.2 ⟨h₁.loaded, h₂.loaded⟩
  bounds := by
    have hle₁ := h₁.le
    have hle₂ := h₂.le
    refine List.forall_mem_append.2 ⟨fun l hl => ?_, fun l hl => ?_⟩
    · have hbounds := h₁.bounds l hl
      omega
    · have hbounds := h₂.bounds l hl
      omega
  nodup := by
    have hapart : ∀ l ∈ es₁, ∀ l' ∈ es₂, l.info.serial ≠ l'.info.serial := by
      intro l hl l' hl'
      have hbounds := h₁.bounds l hl
      have hbounds' := h₂.bounds l' hl'
      omega
    rw [List.map_append, List.nodup_append]
    refine ⟨h₁.nodup, h₂.nodup, ?_⟩
    simpa only [List.forall_mem_map] using hapart

theorem comm (h : Serials (es₁ ++ es₂) low high) : Serials (es₂ ++ es₁) low high where
  le := h.le
  loaded l hl := h.loaded l (List.perm_append_comm.mem_iff.1 hl)
  bounds l hl := h.bounds l (List.perm_append_comm.mem_iff.1 hl)
  nodup := (List.perm_append_comm.map _).nodup_iff.1 h.nodup

theorem singleton {e : Extension β} {serial : Nat} {package : Option PackageInfo}
    {l : LoadedExtension β} (he : e.Identifies) (h : (e.load serial package).1 = .ok l) :
    Serials [l] serial (serial + 1) where
  le := Nat.le_succ _
  loaded := List.forall_mem_singleton.2 ⟨e, serial, package, he, h⟩
  bounds := by
    have hserial := (Extension.info_of_load h).1
    rw [List.forall_mem_singleton]
    omega
  nodup := List.nodup_singleton _

theorem coherent (h : Serials es low high) : Coherent es where
  loaded l hl := by
    obtain ⟨e, serial, package, -, hload⟩ := h.loaded l hl
    exact ⟨e, serial, package, hload⟩
  serial _ hl _ hl' := List.inj_on_of_nodup_map h.nodup hl hl'
  id l hl c hc c' hc' hid := by
    obtain ⟨e, serial, package, he, hload⟩ := h.loaded l hl
    exact he.of_load hload hc hc' hid

end Serials

namespace Discovery

theorem serials_loadExtensions {items : List (Item β)} {ledger : Ledger}
    (h : ∀ p e, (p, PluginItem.extension e) ∈ items → e.Identifies) :
    Serials (loadExtensions items ledger).1 ledger.loads
      (loadExtensions items ledger).2.2.loads := by
  induction items generalizing ledger with
  | nil => exact .nil (Nat.le_refl _)
  | cons item r ih =>
    obtain ⟨p, i⟩ := item
    rw [loadExtensions_cons]
    have hrest (ledger : Ledger) := @ih ledger fun p e hp => h p e (List.mem_cons_of_mem _ hp)
    cases i with
    | mapping => exact hrest ledger
    | extension e =>
      have hnext := hrest ledger.addLoad
      cases hload : (e.load ledger.loads p.package).1 with
      | error f =>
        simp only [extension?, hload]
        exact (Serials.nil (Nat.le_succ _)).append hnext
      | ok l =>
        simp only [extension?, hload]
        exact (Serials.singleton (h p e List.mem_cons_self) hload).append hnext

theorem mem_itemsOf {x : EntryPoint β × Produced β} {item : Item β} (h : item ∈ itemsOf x) :
    x.1 = item.1 ∧ ∃ items, x.2 = .items items ∧ item.2 ∈ items := by
  obtain ⟨p, r⟩ := x
  cases r with
  | items items =>
    obtain ⟨i, hi, rfl⟩ := List.mem_map.1 h
    exact ⟨rfl, items, rfl, hi⟩
  | _ => cases h

end Discovery

open Discovery

theorem serials_discover {source : EntryPointSource β} {options : DiscoveryOptions}
    {ledger : Ledger} (h : ∀ p ∈ source .extensions, p.Identifies) :
    Serials (((discover source options ledger).1.toOption.map (·.extensions)).getD [])
      ledger.loads (discover source options ledger).2.loads := by
  have hloaded : Serials (loadExtensions (itemsIn source options ledger .extensions) ledger).1
      ledger.loads
      (loadExtensions (itemsIn source options ledger .extensions) ledger).2.2.loads := by
    refine serials_loadExtensions fun p e hitem => ?_
    obtain ⟨⟨p', r⟩, hcalled, hitem⟩ := List.mem_flatMap.1 hitem
    obtain ⟨hp', items, hr, he⟩ := mem_itemsOf hitem
    have hp := mem_of_mem_produced hcalled
    obtain ⟨n, hfactory⟩ := exists_of_mem_produced hcalled
    exact h p' (List.mem_of_mem_filter hp) n items (hfactory.trans hr) e he
  rw [discover_eq]
  cases hfatal : firstFatal? (calledInTurn source options ledger) with
  | some panic => exact .nil (Nat.le_add_right _ _)
  | none =>
    rw [calledInTurn, firstFatal?_append, Option.or_eq_none_iff] at hfatal
    rw [hfatal.1]
    exact hloaded

namespace PluginSet

/-- The extensions that were added and those of the pass at hand, removed ones included. -/
def known (s : PluginSet β) : List (LoadedExtension β) :=
  s.added ++ (s.discovered.map (·.extensions)).getD []

/-- All extensions that are or will be known tell their converters apart, and the known ones have
serial numbers below that of the next load. -/
structure Sound (s : PluginSet β) : Prop where
  source : ∀ p ∈ s.source, p.Identifies
  serials : Serials s.known 0 s.ledger.loads

namespace Sound

variable {s : PluginSet β}

theorem refresh (h : s.Sound) : s.refresh.2.Sound where
  source := h.source
  serials := by
    have hsource : ∀ p ∈ s.source.ofGroup .extensions, p.Identifies := fun p hp =>
      h.source p (List.mem_of_mem_filter hp)
    exact (h.serials.sublist (List.sublist_append_left ..)).append (serials_discover hsource)

theorem add (h : s.Sound) {e : Extension β} (he : e.Identifies) : (s.add e).2.Sound := by
  unfold PluginSet.add
  rcases hload : e.load s.ledger.loads none with ⟨f | l, met⟩
  · exact h
  · have hnew := Serials.singleton he (congrArg Prod.fst hload)
    exact ⟨h.source, (h.serials.append hnew).comm⟩

theorem record (h : s.Sound) {c : PluginCall β} (hc : c.Identifies) : (s.record c).Sound := by
  cases c with
  | add e => exact h.add hc
  | configure options =>
    exact ⟨h.source, h.serials.sublist ((List.nil_sublist _).append_left _)⟩
  | remove id =>
    exact ⟨h.source, h.serials.sublist (List.filter_sublist.append_right _)⟩
  | reset => exact ⟨h.source, h.serials.sublist (List.sublist_append_right ..)⟩
  | register p =>
    refine ⟨fun p' hp' => ?_, h.serials⟩
    rcases List.mem_append.1 hp' with hp' | hp'
    · exact h.source p' hp'
    · rwa [List.mem_singleton.1 hp']
  | unregister name => exact ⟨fun p hp => h.source p (List.mem_of_mem_filter hp), h.serials⟩
  | _ => exact h

end Sound

end PluginSet

theorem History.sound_after {start : EntryPoints β} {ledger : Ledger} {h : History β}
    (hstart : ∀ p ∈ start, p.Identifies) (hcalls : ∀ c ∈ h, c.Identifies) :
    (h.after start ledger).Sound := by
  induction h with
  | nil => exact ⟨hstart, .nil (Nat.zero_le _)⟩
  | cons c h ih =>
    rw [List.forall_mem_cons] at hcalls
    rw [after_cons]
    split
    · exact (ih hcalls.2).refresh
    · exact (ih hcalls.2).record hcalls.1

end TaggedGraph
