import MyLifeHome.Registries.Restart
import MyLifeHome.Watcher.Counting

/-!
# Stopping the core

`terminate` of `manager.js` calls `destroy` for every link, plugin and hardware. The links are
destroyed by their ids; to the other two registries it passes the entry itself, which as a key
is the text `[object Object]`.
-/
namespace MyLifeHome

open Process

variable {p q t : Process} {r : ObjRef} {c : NetContainer} {channels : List String}

/-! ## Containers that are destroyed -/

/-- How often the container of an object has been destroyed. -/
def Process.destroyed (p : Process) (r : ObjRef) : Nat := p.trace.count (.destroyed r)

theorem destroyed_of_trace {es : List Effect} (h : q.trace = p.trace ++ es) (r : ObjRef) :
    q.destroyed r = p.destroyed r + es.count (.destroyed r) := by
  rw [destroyed, h, List.count_append]
  rfl

/-- The watcher is as it was, and no container is destroyed. -/
structure SameWatch (p q : Process) : Prop where
  watcher : q.watcher = p.watcher
  destroyed : ∀ r, q.destroyed r = p.destroyed r

theorem SameWatch.refl (p : Process) : SameWatch p p := ⟨rfl, fun _ => rfl⟩

theorem SameWatch.trans (h : SameWatch p q) (g : SameWatch q t) : SameWatch p t :=
  ⟨g.watcher.trans h.watcher, fun r => (g.destroyed r).trans (h.destroyed r)⟩

theorem SameWatch.loadWatcher (h : SameWatch p q) : q.loadWatcher = p.loadWatcher := by
  rw [Process.loadWatcher, h.watcher]
  rfl

theorem sameWatch_assign {name : String} {value : JsValue} :
    SameWatch p (p.assign r name value) := by
  refine ⟨rfl, fun s => ?_⟩
  have htrace : (p.assign r name value).trace = p.trace ++ [.attribute r name value] := rfl
  rw [destroyed_of_trace htrace]
  simp

theorem sameWatch_foldl_on {names : List String} {type : PluginType} :
    SameWatch p (names.foldl (fun p name => p.on r (.actionOf name) (.plugin type r)) p) := by
  induction names generalizing p with
  | nil => exact .refl p
  | cons name names ih =>
    have hon : SameWatch p (p.on r (.actionOf name) (.plugin type r)) := ⟨rfl, fun _ => rfl⟩
    exact hon.trans ih

theorem PluginType.create_sameWatch {type : PluginType} (h : type.create p r = .ok q) :
    SameWatch p q := by
  obtain ⟨u, hu, hq⟩ := Checked.bind_eq_ok_iff.mp h
  obtain rfl := Except.ok.inj hq
  have hset : SameWatch p u := by
    refine Checked.foldlM_invariant (I := SameWatch p) (fun _ hp ha => ?_) hu (.refl p)
    obtain ⟨_, _, ht⟩ := Checked.bind_eq_ok_iff.mp ha
    obtain rfl := Except.ok.inj ht
    exact hp.trans sameWatch_assign
  exact hset.trans sameWatch_foldl_on

theorem publish_local_sameWatch (h : p.publish r channels true = .ok (q, c)) :
    SameWatch p q ∧ c.client ≠ none := by
  obtain ⟨⟨u, c'⟩, hp, h⟩ := Checked.bind_eq_ok_iff.mp h
  obtain ⟨nick, _, rfl, rfl⟩ := publishLocal_eq_ok_iff.mp hp
  obtain ⟨rfl, rfl⟩ := Prod.mk.inj (Except.ok.inj h)
  exact ⟨⟨rfl, fun _ => rfl⟩, by simp⟩

/-- Joining and parting destroys no container. -/
theorem destroyed_foldl {f : Process → String → Process}
    (hf : ∀ p channel, (f p channel).destroyed = p.destroyed) (channels : List String)
    (p : Process) : (channels.foldl f p).destroyed = p.destroyed := by
  induction channels generalizing p with
  | nil => rfl
  | cons channel channels ih => exact (ih _).trans (hf p channel)

theorem Rewatches.destroyed {w : Watcher} {es : List Effect} (h : Rewatches p q w es)
    (hes : ∀ r, .destroyed r ∉ es) : q.destroyed = p.destroyed := by
  funext r
  rw [destroyed_of_trace h.trace, List.count_eq_zero_of_not_mem (hes r), Nat.add_zero]

theorem destroyed_addChannel (p : Process) (channel : String) :
    (p.addChannel channel).destroyed = p.destroyed := by
  refine rewatches_addChannel.destroyed fun r => ?_
  split_ifs <;> simp

theorem destroyed_removeChannel (p : Process) (channel : String) :
    (p.removeChannel channel).destroyed = p.destroyed := by
  refine rewatches_removeChannel.destroyed fun r => ?_
  split_ifs <;> simp

theorem destroyed_publish_remote (h : p.publish r channels false = .ok (q, c)) (s : ObjRef) :
    q.destroyed s = p.destroyed s := by
  simp only [Process.publish, publishRemote, Bool.false_eq_true, if_false, bind, Except.bind, pure,
    Except.pure, Except.ok.injEq, Prod.mk.injEq] at h
  obtain ⟨rfl, rfl⟩ := h
  exact congrFun (destroyed_foldl destroyed_addChannel channels
    { p with watcher := some p.loadWatcher }) s

/-- `destroy` of the container is called once, of no other one. -/
theorem destroyed_unpublish (s : ObjRef) :
    (p.unpublish c).destroyed s = p.destroyed s + if s = c.object then 1 else 0 := by
  have hcount : [Effect.destroyed c.object].count (.destroyed s) = if s = c.object then 1 else 0 := by
    by_cases hs : s = c.object
    · simp [hs]
    · simp [hs, Ne.symm hs]
  unfold unpublish destroyContainer
  cases c.client with
  | some nick =>
    have htrace : ∀ u : Process, (((u.log (.destroyed c.object)).log
        (.disconnect (some c.object))).removeListener c.object .attribute
          (.attributeChanged c.object)).trace =
        u.trace ++ [.destroyed c.object, .disconnect (some c.object)] := by
      intro u
      simp [log, removeListener]
    rw [destroyed_of_trace (htrace _), ← hcount]
    simp [destroyed, List.count_cons]
  | none =>
    set u := (({ p with netRepository := p.netRepository.erase (p.objects c.object).id }.log
      (.destroyed c.object)).removeListener c.object .action
        (.remoteAction c.object c.channels)).removeObject c.object with hu
    have hclean : ∀ v : Process, v.checkClean.destroyed s = v.destroyed s := by
      intro v
      unfold checkClean
      split_ifs
      · rfl
      · have htrace : ({ v.log (.disconnect none) with watcher := none } : Process).trace =
            v.trace ++ [.disconnect none] := rfl
        rw [destroyed_of_trace htrace]
        simp
    have hstart : u.destroyed s = p.destroyed s + [Effect.destroyed c.object].count (.destroyed s) :=
      destroyed_of_trace rfl s
    rw [← hcount, ← hstart]
    calc _ = (c.channels.foldl removeChannel u).destroyed s := hclean _
      _ = u.destroyed s := congrFun (destroyed_foldl destroyed_removeChannel c.channels u) s

/-! ## Components that come and go -/

namespace Manager

variable {δ : Type} {m m' : Manager δ} {k : Kind} {id : String} {op : Request δ} {x : Item δ}

/-- The component is new, and so is its container; hardware is watched. -/
structure Starts (m : Manager δ) (k : Kind) (id : String) (c : NetContainer) (m' : Manager δ) :
    Prop where
  free : m.container k id = none
  added : Added m.process id c m'.process
  container : ∀ k' id', m'.container k' id' =
    if k' = k ∧ id' = id then some c else m.container k' id'
  client : c.client = none ↔ k = .hardware
  remotes : ∀ id', id' ∈ m'.process.loadWatcher.objects.keys ↔
    id' ∈ m.process.loadWatcher.objects.keys ∨ k = .hardware ∧ id' = id
  watcher : m'.process.watcher.isSome ↔ m.process.watcher.isSome ∨ k = .hardware
  destroyed : ∀ r, m'.process.destroyed r = m.process.destroyed r

/-- The component is gone and its container destroyed, and so is a watcher without objects. -/
structure Stops (m : Manager δ) (k : Kind) (id : String) (c : NetContainer) (m' : Manager δ) :
    Prop where
  there : m.container k id = some c
  removed : Removed m.process (m.process.objects c.object).id m'.process
  container : ∀ k' id', m'.container k' id' =
    if k' = k ∧ id' = id then none else m.container k' id'
  remotes : ∀ id', id' ∈ m'.process.loadWatcher.objects.keys ↔
    id' ∈ m.process.loadWatcher.objects.keys ∧
      ¬(c.client = none ∧ id' = (m.process.objects c.object).id)
  watcher : m'.process.watcher.isSome ↔
    if c.client = none then m'.process.loadWatcher.objects.keys ≠ [] else m.process.watcher.isSome
  destroyed : ∀ r, m'.process.destroyed r = m.process.destroyed r + if r = c.object then 1 else 0

/-- The links may be others. -/
structure SameComponents (m m' : Manager δ) : Prop where
  id : ∀ r, (m'.process.objects r).id = (m.process.objects r).id
  allocated : m'.process.allocated = m.process.allocated
  netRepository : m'.process.netRepository = m.process.netRepository
  container : ∀ k id, m'.container k id = m.container k id
  watch : SameWatch m.process m'.process

theorem createPlugin_starts {config : PluginConfig δ} (h : m.createPlugin config = .ok m') :
    ∃ c, m.Starts .plugins config.id c m' := by
  unfold createPlugin at h
  obtain ⟨hnone, h⟩ := Checked.check_bind_eq_ok_iff.mp h
  cases ht : PluginType.ofName config.type with
  | none =>
    rw [ht] at h
    contradiction
  | some type =>
    simp only [ht] at h
    obtain ⟨p, hp, h⟩ := Checked.bind_eq_ok_iff.mp h
    obtain ⟨⟨q, c⟩, hq, h⟩ := Checked.bind_eq_ok_iff.mp h
    obtain rfl := Except.ok.inj h
    obtain ⟨hpublish, hclient⟩ := publish_local_sameWatch hq
    have hstart : SameWatch (m.process.alloc (netObject config.id type.clazz)) q :=
      (PluginType.create_sameWatch hp).trans hpublish
    have hwatch : SameWatch m.process q := ⟨hstart.watcher, hstart.destroyed⟩
    have hnone : m.pluginContainers.get config.id = none :=
      (isDefined_eq_false_iff.mp (by simpa using hnone)).2
    refine ⟨c, by simp [Manager.container, hnone],
      added_of_publish (PluginType.create_eq_ok hp) hq, fun k id => ?_, by simpa using hclient,
      fun id => ?_, ?_, hwatch.destroyed⟩
    · cases k <;> by_cases hid : id = config.id <;>
        simp [Manager.container, Dictionary.get_set, hid]
    · simp [hwatch.loadWatcher]
    · simp [hwatch.watcher]

theorem createHardware_starts {config : HardwareConfig δ} (h : m.createHardware config = .ok m') :
    ∃ c, m.Starts .hardware config.id c m' := by
  unfold createHardware at h
  obtain ⟨hnone, h⟩ := Checked.check_bind_eq_ok_iff.mp h
  obtain ⟨⟨q, c⟩, hq, h⟩ := Checked.bind_eq_ok_iff.mp h
  obtain rfl := Except.ok.inj h
  obtain ⟨rfl, -⟩ := publish_remote hq
  have hpub := publishes_of_publish hq
  have hid : ((m.process.alloc (netObject config.id config.clazz)).objects m.process.allocated).id =
      config.id := by simp [alloc, netObject]
  have hremotes : q.loadWatcher.objects = m.process.loadWatcher.objects.set config.id
      m.process.allocated := hpub.remotes.trans (by rw [hid]; rfl)
  have hnone : m.hardware.get config.id = none :=
    (isDefined_eq_false_iff.mp (by simpa using hnone)).2
  refine ⟨_, by simp [Manager.container, hnone], added_of_publish (.refl _) hq, fun k id => ?_,
    by simp, fun id => ?_, by simpa using hpub.watcher, fun r => destroyed_publish_remote hq r⟩
  · cases k <;> by_cases hid : id = config.id <;> simp [Manager.container, Dictionary.get_set, hid]
  · simp [hremotes, or_comm]

/-- What `unpublish` does to the watcher. -/
theorem watch_unpublish (p : Process) (c : NetContainer) :
    (∀ id, id ∈ (p.unpublish c).loadWatcher.objects.keys ↔ id ∈ p.loadWatcher.objects.keys ∧
      ¬(c.client = none ∧ id = (p.objects c.object).id)) ∧
    ((p.unpublish c).watcher.isSome ↔ if c.client = none
      then (p.unpublish c).loadWatcher.objects.keys ≠ [] else p.watcher.isSome) := by
  cases hc : c.client with
  | some nick =>
    have hwatcher : (p.unpublish c).watcher = p.watcher := by
      rw [unpublish, destroyContainer, hc]
      rfl
    have hload : (p.unpublish c).loadWatcher = p.loadWatcher := by
      rw [loadWatcher, hwatcher]
      rfl
    simp [hload, hwatcher]
  | none =>
    have hun := unpublishes_unpublish (p := p) hc
    refine ⟨fun id => ?_, ?_⟩
    · rw [hun.remotes, Dictionary.mem_keys_erase]
      simp
    · rw [if_pos rfl]
      exact hun.watcher

theorem destroyPlugin_stops (h : (m.destroyPlugin id).2 = true) :
    ∃ c, m.Stops .plugins id c (m.destroyPlugin id).1 := by
  unfold destroyPlugin at h ⊢
  cases hg : m.pluginContainers.get id with
  | none => simp [hg] at h
  | some container =>
    obtain ⟨hremotes, hwatcher⟩ := watch_unpublish m.process container.netContainer
    refine ⟨container.netContainer, by simp [Manager.container, hg], removed_unpublish rfl,
      fun k' id' => ?_, hremotes, hwatcher, destroyed_unpublish⟩
    cases k' <;> by_cases hid : id' = id <;> simp [Manager.container, Dictionary.get_erase, hid]

theorem destroyHardware_stops (h : (m.destroyHardware id).2 = true) :
    ∃ c, m.Stops .hardware id c (m.destroyHardware id).1 := by
  unfold destroyHardware at h ⊢
  cases hg : m.hardware.get id with
  | none => simp [hg] at h
  | some item =>
    obtain ⟨hremotes, hwatcher⟩ := watch_unpublish m.process item.container
    refine ⟨item.container, by simp [Manager.container, hg], removed_unpublish rfl,
      fun k' id' => ?_, hremotes, hwatcher, destroyed_unpublish⟩
    cases k' <;> by_cases hid : id' = id <;> simp [Manager.container, Dictionary.get_erase, hid]

theorem sameComponents_of_create {config : LinkConfig} {p : Process} {link : Link}
    (h : Links.create m.process config = .ok (p, link)) :
    m.SameComponents { m with process := p } := by
  obtain ⟨s, d, hs, hd, hnone, rfl, rfl⟩ := create_eq_ok h
  refine ⟨fun _ => rfl, rfl, rfl, fun k id => ?_, rfl, fun _ => rfl⟩
  cases k <;> rfl

theorem sameComponents_destroyLink (m : Manager δ) (id : String) :
    m.SameComponents { m with process := (Links.destroy m.process id).1 } := by
  unfold Links.destroy
  cases m.process.links.get id with
  | none => exact ⟨fun _ => rfl, rfl, rfl, fun k _ => by cases k <;> rfl, rfl, fun _ => rfl⟩
  | some link => exact ⟨fun _ => rfl, rfl, rfl, fun k _ => by cases k <;> rfl, rfl, fun _ => rfl⟩

theorem sameComponents_data (m : Manager δ) (d : Data δ) : m.SameComponents { m with data := d } :=
  ⟨fun _ => rfl, rfl, rfl, fun k _ => by cases k <;> rfl, rfl, fun _ => rfl⟩

/-! ## Every container is accounted for -/

/-- The containers of the components are those that have been published and not destroyed. -/
structure Accounted (m : Manager δ) : Prop where
  owned : m.Owned
  published : ∀ id, (m.process.netRepository.get id).isSome → ∃ k, (m.container k id).isSome
  client : ∀ {k id c}, m.container k id = some c → (c.client = none ↔ k = .hardware)
  own : ∀ {k id c k' id' c'}, m.container k id = some c → m.container k' id' = some c' →
    c.object = c'.object → k = k' ∧ id = id'
  remotes : ∀ id, id ∈ m.process.loadWatcher.objects.keys ↔ (m.container .hardware id).isSome
  watcher : m.process.watcher.isSome ↔ m.process.loadWatcher.objects.keys ≠ []
  running : ∀ {k id c}, m.container k id = some c → m.process.destroyed c.object = 0
  stopped : ∀ r < m.process.allocated, (∀ k id c, m.container k id = some c → c.object ≠ r) →
    m.process.destroyed r = 1
  unknown : ∀ r, m.process.allocated ≤ r → m.process.destroyed r = 0

theorem accounted_fresh (d : Data δ) : (fresh d).Accounted := by
  have hnone : ∀ k id, (fresh d).container k id = none := by
    intro k id
    cases k <;> rfl
  have hload : (fresh d).process.loadWatcher = ⟨.empty, .empty, false⟩ := rfl
  refine ⟨fun k id c hc => ?_, fun id hid => ?_, fun hc => ?_, fun hc => ?_, fun id => ?_, ?_,
    fun hc => ?_, fun r hr => absurd hr (Nat.not_lt_zero r), fun _ _ => rfl⟩
  · simp [hnone] at hc
  · simp [fresh, Process.empty] at hid
  · simp [hnone] at hc
  · simp [hnone] at hc
  · simp [hload, hnone]
  · rw [hload]
    simp [fresh, Process.empty]
  · simp [hnone] at hc

theorem Accounted.sameComponents (ha : m.Accounted) (h : m.SameComponents m') : m'.Accounted := by
  refine ⟨fun k id c hc => ?_, fun id hid => ?_, fun hc => ?_, fun hc hc' => ?_, fun id => ?_, ?_,
    fun hc => ?_, fun r hr hno => ?_, fun r hr => ?_⟩
  · rw [h.container] at hc
    rw [h.id, h.allocated]
    exact ha.owned _ _ _ hc
  · rw [h.netRepository] at hid
    simpa only [h.container] using ha.published id hid
  · rw [h.container] at hc
    exact ha.client hc
  · rw [h.container] at hc hc'
    exact ha.own hc hc'
  · rw [h.watch.loadWatcher, h.container]
    exact ha.remotes id
  · rw [h.watch.loadWatcher, h.watch.watcher]
    exact ha.watcher
  · rw [h.container] at hc
    rw [h.watch.destroyed]
    exact ha.running hc
  · rw [h.watch.destroyed]
    rw [h.allocated] at hr
    exact ha.stopped r hr fun k id c hc => hno k id c ((h.container k id).trans hc)
  · rw [h.watch.destroyed]
    exact ha.unknown r (h.allocated ▸ hr)

theorem Accounted.starts (ha : m.Accounted) {c : NetContainer} (h : m.Starts k id c m') :
    m'.Accounted := by
  have hadd := h.added
  have hcases : ∀ {k' id' c'}, m'.container k' id' = some c' →
      (k' = k ∧ id' = id ∧ c' = c) ∨ m.container k' id' = some c' := by
    intro k' id' c' hc
    rw [h.container] at hc
    split_ifs at hc with hnew
    · exact .inl ⟨hnew.1, hnew.2, (Option.some.inj hc).symm⟩
    · exact .inr hc
  have hkept : ∀ {k' id' c'}, m.container k' id' = some c' → m'.container k' id' = some c' := by
    intro k' id' c' hc
    rw [h.container, if_neg]
    · exact hc
    · rintro ⟨rfl, rfl⟩
      rw [h.free] at hc
      contradiction
  have hnew : m'.container k id = some c := by
    rw [h.container]
    simp
  have hother : ∀ {k' id' c'}, m.container k' id' = some c' → c'.object ≠ c.object := by
    intro k' id' c' hc
    rw [hadd.object]
    exact (ha.owned _ _ _ hc).1.ne
  refine ⟨fun k' id' c' hc => ?_, fun id' hid => ?_, fun hc => ?_, fun hc hc' hobject => ?_,
    fun id' => ?_, ?_, fun hc => ?_, fun r hr hno => ?_, fun r hr => ?_⟩
  · rw [hadd.allocated]
    rcases hcases hc with ⟨rfl, rfl, rfl⟩ | hold
    · rw [hadd.object]
      exact ⟨Nat.lt_succ_self _, hadd.id⟩
    · obtain ⟨hlt, hid⟩ := ha.owned _ _ _ hold
      exact ⟨Nat.lt_succ_of_lt hlt, (hadd.others _ hlt).trans hid⟩
  · rw [hadd.netRepository, Dictionary.get_set] at hid
    split_ifs at hid with hkey
    · exact ⟨k, by rw [hkey, hnew]; rfl⟩
    · obtain ⟨k', hk'⟩ := ha.published id' hid
      obtain ⟨c', hc'⟩ := Option.isSome_iff_exists.mp hk'
      exact ⟨k', by rw [hkept hc']; rfl⟩
  · rcases hcases hc with ⟨rfl, rfl, rfl⟩ | hold
    · exact h.client
    · exact ha.client hold
  · rcases hcases hc with ⟨rfl, rfl, rfl⟩ | hold <;> rcases hcases hc' with ⟨rfl, rfl, rfl⟩ | hold'
    · exact ⟨rfl, rfl⟩
    · exact absurd hobject.symm (hother hold')
    · exact absurd hobject (hother hold)
    · exact ha.own hold hold' hobject
  · rw [h.remotes, ha.remotes, h.container]
    split_ifs with hkey
    · obtain ⟨rfl, rfl⟩ := hkey
      simp
    · simp only [or_iff_left_iff_imp]
      rintro ⟨rfl, rfl⟩
      exact absurd ⟨rfl, rfl⟩ hkey
  · rw [h.watcher, ha.watcher]
    simp only [Ne, List.eq_nil_iff_forall_not_mem, h.remotes]
    grind
  · rw [h.destroyed]
    rcases hcases hc with ⟨rfl, rfl, rfl⟩ | hold
    · exact ha.unknown _ hadd.object.ge
    · exact ha.running hold
  · rw [h.destroyed]
    rw [hadd.allocated] at hr
    have hne := hno _ _ _ hnew
    rw [hadd.object] at hne
    exact ha.stopped r (Nat.lt_of_le_of_ne (Nat.le_of_lt_succ hr) hne.symm)
      fun k' id' c' hc => hno _ _ _ (hkept hc)
  · rw [h.destroyed]
    rw [hadd.allocated] at hr
    exact ha.unknown r (Nat.le_of_succ_le hr)

theorem Accounted.stops (ha : m.Accounted) {c : NetContainer} (h : m.Stops k id c m') :
    m'.Accounted := by
  obtain ⟨hlt, hid⟩ := ha.owned _ _ _ h.there
  have hclient := ha.client h.there
  have hcases : ∀ {k' id' c'}, m'.container k' id' = some c' →
      ¬(k' = k ∧ id' = id) ∧ m.container k' id' = some c' := by
    intro k' id' c' hc
    rw [h.container] at hc
    split_ifs at hc with hgone
    exact ⟨hgone, hc⟩
  have hother : ∀ {k' id' c'}, m'.container k' id' = some c' → c'.object ≠ c.object := by
    intro k' id' c' hc hobject
    obtain ⟨hne, hold⟩ := hcases hc
    exact hne (ha.own hold h.there hobject)
  refine ⟨fun k' id' c' hc => ?_, fun id' hid' => ?_, fun hc => ?_, fun hc hc' => ?_,
    fun id' => ?_, ?_, fun hc => ?_, fun r hr hno => ?_, fun r hr => ?_⟩
  · rw [h.removed.allocated, h.removed.id]
    exact ha.owned _ _ _ (hcases hc).2
  · rw [h.removed.netRepository, hid, Dictionary.get_erase] at hid'
    split_ifs at hid' with hkey
    · contradiction
    · obtain ⟨k', hk'⟩ := ha.published id' hid'
      refine ⟨k', ?_⟩
      rw [h.container, if_neg fun hgone => hkey hgone.2]
      exact hk'
  · exact ha.client (hcases hc).2
  · exact ha.own (hcases hc).2 (hcases hc').2
  · rw [h.remotes, ha.remotes, h.container, hid, hclient]
    grind
  · rw [h.watcher]
    split_ifs with hnone
    · exact Iff.rfl
    · rw [ha.watcher]
      simp only [Ne, List.eq_nil_iff_forall_not_mem, h.remotes, hnone, false_and, not_false_iff,
        and_true]
  · rw [h.destroyed, if_neg (hother hc)]
    exact ha.running (hcases hc).2
  · rw [h.destroyed]
    rw [h.removed.allocated] at hr
    split_ifs with hobject
    · rw [hobject, ha.running h.there]
    · refine ha.stopped r hr fun k' id' c' hc hr' => ?_
      by_cases hgone : k' = k ∧ id' = id
      · obtain ⟨rfl, rfl⟩ := hgone
        rw [h.there] at hc
        obtain rfl := Option.some.inj hc
        exact hobject hr'.symm
      · exact hno k' id' c' (by rw [h.container, if_neg hgone, hc]) hr'
  · rw [h.removed.allocated] at hr
    rw [h.destroyed, if_neg (hlt.trans_le hr).ne']
    exact ha.unknown r hr

theorem Accounted.createItem (ha : m.Accounted) (h : m.createItem x = .ok m') : m'.Accounted := by
  cases x with
  | plugin config =>
    obtain ⟨c, hstarts⟩ := createPlugin_starts h
    exact ha.starts hstarts
  | hardware config =>
    obtain ⟨c, hstarts⟩ := createHardware_starts h
    exact ha.starts hstarts
  | link config =>
    obtain ⟨⟨p, link⟩, hc, h⟩ := Checked.bind_eq_ok_iff.mp h
    obtain rfl := Except.ok.inj h
    exact ha.sameComponents (sameComponents_of_create hc)

theorem Accounted.destroyPlugin (ha : m.Accounted) (id : String) :
    (m.destroyPlugin id).1.Accounted := by
  cases h : (m.destroyPlugin id).2 with
  | true =>
    obtain ⟨c, hstops⟩ := destroyPlugin_stops h
    exact ha.stops hstops
  | false =>
    unfold Manager.destroyPlugin at h ⊢
    cases hg : m.pluginContainers.get id with
    | none => simpa [hg] using ha
    | some c => simp [hg] at h

theorem Accounted.destroyHardware (ha : m.Accounted) (id : String) :
    (m.destroyHardware id).1.Accounted := by
  cases h : (m.destroyHardware id).2 with
  | true =>
    obtain ⟨c, hstops⟩ := destroyHardware_stops h
    exact ha.stops hstops
  | false =>
    unfold Manager.destroyHardware at h ⊢
    cases hg : m.hardware.get id with
    | none => simpa [hg] using ha
    | some item => simp [hg] at h

theorem Accounted.handle (ha : m.Accounted) (h : m.handle op = .ok m') : m'.Accounted := by
  have hdata : ∀ {u : Manager δ} (d : Data δ), u.Accounted → Accounted { u with data := d } :=
    fun d hu => hu.sameComponents (sameComponents_data _ d)
  match op with
  | .del (.plugins, id) =>
    obtain ⟨-, -, h⟩ := Checked.bind_eq_ok_iff.mp h
    obtain ⟨-, h⟩ := Checked.check_bind_eq_ok_iff.mp h
    obtain rfl := Except.ok.inj h
    exact hdata _ (ha.destroyPlugin id)
  | .del (.hardware, id) =>
    obtain ⟨-, -, h⟩ := Checked.bind_eq_ok_iff.mp h
    obtain ⟨-, h⟩ := Checked.check_bind_eq_ok_iff.mp h
    obtain rfl := Except.ok.inj h
    exact hdata _ (ha.destroyHardware id)
  | .del (.links, id) =>
    change m.removeLink id = .ok m' at h
    unfold removeLink at h
    obtain ⟨-, h⟩ := Checked.check_bind_eq_ok_iff.mp h
    obtain rfl := Except.ok.inj h
    exact hdata _ (ha.sameComponents (sameComponents_destroyLink m id))
  | .post (.plugin config) =>
    obtain ⟨u, hu, h⟩ := Checked.bind_eq_ok_iff.mp h
    obtain rfl := Except.ok.inj h
    exact hdata _ (ha.createItem (x := .plugin config) hu)
  | .post (.hardware config) =>
    obtain ⟨u, hu, h⟩ := Checked.bind_eq_ok_iff.mp h
    obtain rfl := Except.ok.inj h
    exact hdata _ (ha.createItem (x := .hardware config) hu)
  | .post (.link config) =>
    obtain ⟨⟨p, link⟩, hc, h⟩ := Checked.bind_eq_ok_iff.mp h
    obtain rfl := Except.ok.inj h
    exact hdata _ (ha.sameComponents (sameComponents_of_create hc))

theorem Accounted.performAll (ha : m.Accounted) (ops : List (Request δ)) :
    (m.performAll ops).Accounted := by
  induction ops generalizing m with
  | nil => exact ha
  | cons op ops ih =>
    apply ih
    unfold perform
    cases h : m.handle op with
    | error e => exact ha
    | ok m' => exact ha.handle h

theorem accounted_of_initializeCore {d : Data δ} (h : initializeCore d = .ok m) : m.Accounted := by
  rw [initializeCore_eq] at h
  exact Checked.foldlM_invariant (I := Accounted) (fun _ hs => hs.createItem) h (accounted_fresh d)

/-! ## Terminating -/

/-- An entry of a registry, as a key. -/
def entryKey : String := "[object Object]"

def terminateLinks (m : Manager δ) : Manager δ :=
  m.process.links.keys.foldl (fun m lid =>
    if (m.process.links.get lid).isSome then
      { m with process := (Links.destroy m.process lid).1 }
    else m) m

/-- `plugins.destroy(runningPlugins[pid])` -/
def terminatePlugins (m : Manager δ) : Manager δ :=
  m.pluginContainers.keys.foldl (fun m pid =>
    if (m.pluginContainers.get pid).isSome then (m.destroyPlugin entryKey).1 else m) m

/-- `hardware.destroy(runningHardware[hid])` -/
def terminateHardware (m : Manager δ) : Manager δ :=
  m.hardware.keys.foldl (fun m hid =>
    if (m.hardware.get hid).isSome then (m.destroyHardware entryKey).1 else m) m

def terminate (m : Manager δ) : Manager δ :=
  m.terminateLinks.terminatePlugins.terminateHardware

/-- Nothing is left, and every object that has been published is destroyed once. -/
structure TornDown (m : Manager δ) : Prop where
  links : m.process.links.keys = []
  plugins : m.pluginContainers.keys = []
  hardware : m.hardware.keys = []
  netRepository : m.process.netRepository.keys = []
  destroyed : ∀ r < m.process.allocated, m.process.destroyed r = 1
  watcher : m.process.watcher = none

theorem links_destroy (p : Process) (id : String) :
    (Links.destroy p id).1.links = p.links.erase id := by
  unfold Links.destroy
  cases hg : p.links.get id with
  | none => exact (Dictionary.erase_eq_self hg).symm
  | some link => rfl

theorem pluginContainers_destroyPlugin (m : Manager δ) (id : String) :
    (m.destroyPlugin id).1.pluginContainers = m.pluginContainers.erase id := by
  unfold destroyPlugin
  cases hg : m.pluginContainers.get id with
  | none => exact (Dictionary.erase_eq_self hg).symm
  | some c => rfl

theorem hardware_destroyHardware (m : Manager δ) (id : String) :
    (m.destroyHardware id).1.hardware = m.hardware.erase id := by
  unfold destroyHardware
  cases hg : m.hardware.get id with
  | none => exact (Dictionary.erase_eq_self hg).symm
  | some item => rfl

/-- Every link is found under its id. -/
theorem links_terminateLinks (m : Manager δ) : m.terminateLinks.process.links.keys = [] := by
  refine Dictionary.keys_eq_nil_iff.mpr fun id => ?_
  refine (Dictionary.get_foldl_erase (fun m : Manager δ => m.process.links) (fun lid => lid)
    (fun _ => rfl) (fun m lid => ?_) fun lid hlid => ?_).trans ?_
  · split_ifs
    · exact links_destroy m.process lid
    · rfl
  · exact .inl (Dictionary.get_isSome_iff.mpr hlid)
  · rw [List.map_id']
    split_ifs with hid
    · rfl
    · exact Dictionary.get_eq_none_iff.mpr hid

/-- Only a plugin whose id is that text is found. -/
theorem get_terminatePlugins (m : Manager δ) : m.terminatePlugins.pluginContainers.get id =
    if id = entryKey then none else m.pluginContainers.get id := by
  refine Dictionary.get_foldl_erase_const (fun m : Manager δ => m.pluginContainers) entryKey ?_
  intro m pid
  split_ifs
  · exact pluginContainers_destroyPlugin m entryKey
  · rfl

theorem get_terminateHardware (m : Manager δ) : m.terminateHardware.hardware.get id =
    if id = entryKey then none else m.hardware.get id := by
  refine Dictionary.get_foldl_erase_const (fun m : Manager δ => m.hardware) entryKey ?_
  intro m hid
  split_ifs
  · exact hardware_destroyHardware m entryKey
  · rfl

/-- What every round of a loop of `terminate` keeps. -/
theorem terminateLinks_invariant {P : Manager δ → Prop}
    (step : ∀ m id, P m → P { m with process := (Links.destroy m.process id).1 }) (h : P m) :
    P m.terminateLinks := by
  refine List.foldlRecOn _ _ h fun m hm lid _ => ?_
  split_ifs
  · exact step m lid hm
  · exact hm

theorem terminatePlugins_invariant {P : Manager δ → Prop}
    (step : ∀ m id, P m → P (m.destroyPlugin id).1) (h : P m) : P m.terminatePlugins := by
  refine List.foldlRecOn _ _ h fun m hm pid _ => ?_
  split_ifs
  · exact step m entryKey hm
  · exact hm

theorem terminateHardware_invariant {P : Manager δ → Prop}
    (step : ∀ m id, P m → P (m.destroyHardware id).1) (h : P m) : P m.terminateHardware := by
  refine List.foldlRecOn _ _ h fun m hm hid _ => ?_
  split_ifs
  · exact step m entryKey hm
  · exact hm

theorem Accounted.terminate (ha : m.Accounted) : m.terminate.Accounted := by
  refine terminateHardware_invariant (fun m id hm => hm.destroyHardware id) ?_
  refine terminatePlugins_invariant (fun m id hm => hm.destroyPlugin id) ?_
  exact terminateLinks_invariant
    (fun m id hm => hm.sameComponents (sameComponents_destroyLink m id)) ha

theorem destroyPlugin_others (m : Manager δ) (id : String) :
    (m.destroyPlugin id).1.hardware = m.hardware ∧
      (m.destroyPlugin id).1.process.links = m.process.links := by
  unfold destroyPlugin
  cases m.pluginContainers.get id with
  | none => exact ⟨rfl, rfl⟩
  | some c =>
    have hgone : Removed m.process _ (m.process.unpublish c.netContainer) := removed_unpublish rfl
    exact ⟨rfl, hgone.links⟩

theorem destroyHardware_others (m : Manager δ) (id : String) :
    (m.destroyHardware id).1.pluginContainers = m.pluginContainers ∧
      (m.destroyHardware id).1.process.links = m.process.links := by
  unfold destroyHardware
  cases m.hardware.get id with
  | none => exact ⟨rfl, rfl⟩
  | some item =>
    have hgone : Removed m.process _ (m.process.unpublish item.container) := removed_unpublish rfl
    exact ⟨rfl, hgone.links⟩

/-- What the registries hold after `terminate`. -/
theorem terminate_registries (m : Manager δ) : m.terminate.process.links.keys = [] ∧
    (∀ id, m.terminate.pluginContainers.get id =
      if id = entryKey then none else m.pluginContainers.get id) ∧
    ∀ id, m.terminate.hardware.get id = if id = entryKey then none else m.hardware.get id := by
  have hlinks : m.terminateLinks.pluginContainers = m.pluginContainers ∧
      m.terminateLinks.hardware = m.hardware :=
    terminateLinks_invariant
      (P := fun u => u.pluginContainers = m.pluginContainers ∧ u.hardware = m.hardware)
      (fun _ _ h => h) ⟨rfl, rfl⟩
  have hplugins : m.terminateLinks.terminatePlugins.hardware = m.terminateLinks.hardware ∧
      m.terminateLinks.terminatePlugins.process.links = m.terminateLinks.process.links := by
    refine terminatePlugins_invariant (P := fun u => u.hardware = m.terminateLinks.hardware ∧
      u.process.links = m.terminateLinks.process.links) (fun u id h => ?_) ⟨rfl, rfl⟩
    obtain ⟨hhardware, hl⟩ := destroyPlugin_others u id
    exact ⟨hhardware.trans h.1, hl.trans h.2⟩
  have hhardware : m.terminate.pluginContainers =
      m.terminateLinks.terminatePlugins.pluginContainers ∧
        m.terminate.process.links = m.terminateLinks.terminatePlugins.process.links := by
    refine terminateHardware_invariant
      (P := fun u => u.pluginContainers = m.terminateLinks.terminatePlugins.pluginContainers ∧
        u.process.links = m.terminateLinks.terminatePlugins.process.links)
      (fun u id h => ?_) ⟨rfl, rfl⟩
    obtain ⟨hp, hl⟩ := destroyHardware_others u id
    exact ⟨hp.trans h.1, hl.trans h.2⟩
  refine ⟨?_, fun id => ?_, fun id => ?_⟩
  · rw [hhardware.2, hplugins.2]
    exact links_terminateLinks m
  · rw [hhardware.1, get_terminatePlugins, hlinks.1]
  · unfold terminate
    rw [get_terminateHardware, hplugins.1, hlinks.2]

/-- Without components everything is released. -/
theorem Accounted.tornDown (ha : m.Accounted) (hl : m.process.links.keys = [])
    (hp : m.pluginContainers.keys = []) (hh : m.hardware.keys = []) : m.TornDown := by
  have hnone : ∀ k id, m.container k id = none := by
    intro k id
    cases k with
    | plugins => simp [container, Dictionary.keys_eq_nil_iff.mp hp id]
    | hardware => simp [container, Dictionary.keys_eq_nil_iff.mp hh id]
    | links => rfl
  refine ⟨hl, hp, hh, Dictionary.keys_eq_nil_iff.mpr fun id => ?_, fun r hr => ?_, ?_⟩
  · by_contra hsome
    obtain ⟨k, hk⟩ := ha.published id (Option.isSome_iff_ne_none.mpr hsome)
    simp [hnone] at hk
  · exact ha.stopped r hr fun k id c hc => by simp [hnone] at hc
  · have hkeys : m.process.loadWatcher.objects.keys = [] := by
      refine List.eq_nil_iff_forall_not_mem.mpr fun id hid => ?_
      simp [ha.remotes, hnone] at hid
    have hwatcher := ha.watcher
    simpa [hkeys] using hwatcher

/-- Whatever has been done to a core that has started, `terminate` tears everything down only if
there is nothing besides links, or components whose id is the text that it asks for. -/
theorem tornDown_terminate_iff {d : Data δ} {m₀ : Manager δ} (h : initializeCore d = .ok m₀)
    (ops : List (Request δ)) : (m₀.performAll ops).terminate.TornDown ↔
      ∀ id, (m₀.performAll ops).Component id → id = entryKey := by
  set m := m₀.performAll ops with hm
  have ha : m.Accounted := (accounted_of_initializeCore h).performAll ops
  obtain ⟨hlinks, hplugins, hhardware⟩ := terminate_registries m
  constructor
  · intro htorn id hid
    by_contra hne
    have hp := Dictionary.keys_eq_nil_iff.mp htorn.plugins id
    have hh := Dictionary.keys_eq_nil_iff.mp htorn.hardware id
    rw [hplugins, if_neg hne] at hp
    rw [hhardware, if_neg hne] at hh
    simp [Component, find, hp, hh] at hid
  · intro hall
    refine ha.terminate.tornDown hlinks ?_ ?_
    · refine Dictionary.keys_eq_nil_iff.mpr fun id => ?_
      rw [hplugins]
      split_ifs with hid
      · rfl
      · by_contra hsome
        exact hid (hall id (.inl (by simpa [find, Option.isSome_iff_ne_none] using hsome)))
    · refine Dictionary.keys_eq_nil_iff.mpr fun id => ?_
      rw [hhardware]
      split_ifs with hid
      · rfl
      · by_contra hsome
        exact hid (hall id (.inr (by simpa [find, Option.isSome_iff_ne_none] using hsome)))

theorem tornDown_terminate_iff_lights : ∃ m, initializeCore lightsFile = .ok m ∧
    ((m.performAll [.del (.links, "a|output|b|input")]).terminate.TornDown ↔
      ∀ id, (m.performAll [.del (.links, "a|output|b|input")]).Component id → id = entryKey) := by
  obtain ⟨m, hm, -⟩ := exists_initializeCore lightsFile_consistent
  exact ⟨m, hm, tornDown_terminate_iff hm _⟩

/-- A core with two lights. -/
theorem not_tornDown_lights : ¬∀ (d : Data Unit) (m : Manager Unit) (ops : List (Request Unit)),
    initializeCore d = .ok m → (m.performAll ops).terminate.TornDown := by
  intro h
  obtain ⟨m, hm, hstart⟩ := exists_initializeCore lightsFile_consistent
  have hgone := Dictionary.keys_eq_nil_iff.mp (h lightsFile m [] hm).plugins "a"
  have hlight : (m.find .plugins "a").isSome := by
    rw [← hstart.found, hstart.data]
    rfl
  obtain ⟨-, hplugins, -⟩ := terminate_registries m
  change m.terminate.pluginContainers.get "a" = none at hgone
  rw [hplugins, if_neg (by decide)] at hgone
  simp [find, hgone] at hlight

end Manager

end MyLifeHome
