import MyLifeHome.Core.Manager
import MyLifeHome.Core.Wiring
import MyLifeHome.Library.Checked
import MyLifeHome.Nick.Writing

/-!
# Making and removing components

What the creation and the destruction of a plugin or of hardware do to the process: the
repository gets or loses one entry, and nothing else that the manager relies on changes.
-/
namespace MyLifeHome

open Process

variable {p q t : Process} {r : ObjRef} {c : NetContainer} {channels : List String} {key : String}

/-- What the manager relies on besides the repository. -/
structure SameIds (p q : Process) : Prop where
  id : ∀ r, (q.objects r).id = (p.objects r).id
  links : q.links = p.links
  allocated : q.allocated = p.allocated

theorem SameIds.refl (p : Process) : SameIds p p := ⟨fun _ => rfl, rfl, rfl⟩

theorem SameIds.trans (h : SameIds p q) (g : SameIds q t) : SameIds p t :=
  ⟨fun r => (g.id r).trans (h.id r), g.links.trans h.links, g.allocated.trans h.allocated⟩

/-- The same, and the repository too. -/
structure SameRegistry (p q : Process) : Prop extends SameIds p q where
  netRepository : q.netRepository = p.netRepository

theorem SameRegistry.refl (p : Process) : SameRegistry p p := ⟨.refl p, rfl⟩

theorem SameRegistry.trans (h : SameRegistry p q) (g : SameRegistry q t) : SameRegistry p t :=
  ⟨h.toSameIds.trans g.toSameIds, g.netRepository.trans h.netRepository⟩

theorem sameRegistry_on {e : Event} {l : Listener} : SameRegistry p (p.on r e l) :=
  ⟨⟨fun _ => rfl, rfl, rfl⟩, rfl⟩

theorem sameRegistry_assign {name : String} {value : JsValue} :
    SameRegistry p (p.assign r name value) := by
  refine ⟨⟨fun s => ?_, rfl, rfl⟩, rfl⟩
  by_cases h : s = r
  · subst h
    simp
  · simp [h]

theorem sameRegistry_addChannel {channel : String} : SameRegistry p (p.addChannel channel) := by
  simp only [addChannel]
  split
  · exact ⟨⟨fun _ => rfl, rfl, rfl⟩, rfl⟩
  · split_ifs <;> exact ⟨⟨fun _ => rfl, rfl, rfl⟩, rfl⟩

theorem sameRegistry_removeChannel {channel : String} :
    SameRegistry p (p.removeChannel channel) := by
  simp only [removeChannel]
  split
  · exact ⟨⟨fun _ => rfl, rfl, rfl⟩, rfl⟩
  · split_ifs <;> exact ⟨⟨fun _ => rfl, rfl, rfl⟩, rfl⟩

theorem sameRegistry_checkClean : SameRegistry p p.checkClean := by
  unfold checkClean
  split_ifs <;> exact ⟨⟨fun _ => rfl, rfl, rfl⟩, rfl⟩

theorem SameRegistry.foldl {α : Type} {f : Process → α → Process}
    (hf : ∀ p a, SameRegistry p (f p a)) (as : List α) (p : Process) :
    SameRegistry p (as.foldl f p) := by
  induction as generalizing p with
  | nil => exact .refl p
  | cons a as ih => exact (hf p a).trans (ih _)

/-! ## Publishing -/

theorem publish_eq_ok {isLocal : Bool} (h : p.publish r channels isLocal = .ok (q, c)) :
    c.object = r ∧ SameIds p q ∧ q.netRepository = p.netRepository.set (p.objects r).id c := by
  unfold publish at h
  cases isLocal with
  | true =>
    cases hp : p.publishLocal r channels with
    | error e => simp [hp, bind, Except.bind] at h
    | ok x =>
      obtain ⟨u, c'⟩ := x
      obtain ⟨nick, _, rfl, rfl⟩ := publishLocal_eq_ok_iff.mp hp
      simp only [hp, if_true, bind, Except.bind, pure, Except.pure, Except.ok.injEq,
        Prod.mk.injEq] at h
      obtain ⟨rfl, rfl⟩ := h
      exact ⟨rfl, ⟨fun _ => rfl, rfl, rfl⟩, rfl⟩
  | false =>
    simp only [Bool.false_eq_true, if_false, bind, Except.bind, pure, Except.pure,
      Except.ok.injEq, Prod.mk.injEq] at h
    obtain ⟨rfl, rfl⟩ := h
    have hfold : SameRegistry { p with watcher := some p.loadWatcher }
        (channels.foldl addChannel { p with watcher := some p.loadWatcher }) :=
      .foldl (fun _ _ => sameRegistry_addChannel) _ _
    refine ⟨rfl, ⟨hfold.id, hfold.links, hfold.allocated⟩, ?_⟩
    have hid := hfold.id r
    have hnet := hfold.netRepository
    simp only [publishRemote, addObject, on] at hid hnet ⊢
    rw [hid, hnet]

/-- A new entry of the repository, for a new object. -/
structure Added (p : Process) (key : String) (c : NetContainer) (q : Process) : Prop where
  object : c.object = p.allocated
  id : (q.objects p.allocated).id = key
  others : ∀ r < p.allocated, (q.objects r).id = (p.objects r).id
  allocated : q.allocated = p.allocated + 1
  links : q.links = p.links
  netRepository : q.netRepository = p.netRepository.set key c

theorem added_of_publish {o : NetObject} {isLocal : Bool} (h : SameRegistry (p.alloc o) t)
    (hp : t.publish p.allocated channels isLocal = .ok (q, c)) : Added p o.id c q := by
  obtain ⟨hc, hsame, hnet⟩ := publish_eq_ok hp
  have hid : (t.objects p.allocated).id = o.id := by simp [h.id, alloc]
  refine ⟨hc, (hsame.id _).trans hid, fun r hr => ?_, hsame.allocated.trans h.allocated,
    hsame.links.trans h.links, ?_⟩
  · rw [hsame.id, h.id]
    simp [alloc, hr.ne]
  · rw [hnet, hid, h.netRepository]
    simp only [alloc]

/-- An entry of the repository that is gone. -/
structure Removed (p : Process) (key : String) (q : Process) : Prop extends SameIds p q where
  netRepository : q.netRepository = p.netRepository.erase key

theorem removed_unpublish (hid : (p.objects c.object).id = key) :
    Removed p key (p.unpublish c) := by
  have hdestroy : ∀ u : Process, SameRegistry u (u.destroyContainer c) := by
    intro u
    unfold destroyContainer
    cases c.client with
    | some nick => exact ⟨⟨fun _ => rfl, rfl, rfl⟩, rfl⟩
    | none =>
      have hremove : SameRegistry u (((u.log (.destroyed c.object)).removeListener c.object .action
          (.remoteAction c.object c.channels)).removeObject c.object) :=
        ⟨⟨fun _ => rfl, rfl, rfl⟩, rfl⟩
      exact (hremove.trans (SameRegistry.foldl (fun _ _ => sameRegistry_removeChannel)
        c.channels _)).trans sameRegistry_checkClean
  have h := hdestroy { p with netRepository := p.netRepository.erase (p.objects c.object).id }
  exact ⟨⟨h.id, h.links, h.allocated⟩, by rw [unpublish, h.netRepository, hid]⟩

/-! ## Plugins -/

theorem PluginType.create_eq_ok {type : PluginType} (h : type.create p r = .ok q) :
    SameRegistry p q := by
  unfold PluginType.create at h
  obtain ⟨u, hu, hq⟩ := Checked.bind_eq_ok_iff.mp h
  obtain rfl := Except.ok.inj hq
  have hset : SameRegistry p u := by
    refine Checked.foldlM_invariant (I := SameRegistry p) (fun _ hp ha => ?_) hu (.refl p)
    obtain ⟨_, _, ht⟩ := Checked.bind_eq_ok_iff.mp ha
    obtain rfl := Except.ok.inj ht
    exact hp.trans sameRegistry_assign
  exact hset.trans (.foldl (fun _ _ => sameRegistry_on) _ _)

/-- A plugin accepts its own defaults. -/
theorem PluginType.checkAttribute_initial (type : PluginType) (o : NetObject)
    (ho : o.clazz = type.clazz) : ∀ a ∈ type.initial, o.checkAttribute a.1 a.2 = .ok () := by
  have hcongr : o.checkAttribute = (netObject "" type.clazz).checkAttribute := by
    funext name
    exact NetObject.checkAttribute_congr ho
  rw [hcongr]
  cases type <;> decide

/-- The nick of a plugin can be made. -/
theorem PluginType.exists_makeNick (type : PluginType) (o : NetObject)
    (ho : o.clazz = type.clazz) : ∃ nick, o.makeNick = .ok nick := by
  have hclass : ∀ m ∈ type.clazz.attributes, (type.clazz.attribute m.name).isOk = true := by
    cases type <;> decide
  refine ⟨_, makeNick_eq_ok_iff.mpr ⟨fun m hm => ?_, rfl⟩⟩
  rw [ho] at hm ⊢
  have hok := hclass m hm
  cases ht : type.clazz.attribute m.name with
  | ok t => exact ⟨t, rfl⟩
  | error e => simp [ht, Except.isOk, Except.toBool] at hok

theorem PluginType.exists_create {type : PluginType} (hr : (p.objects r).clazz = type.clazz) :
    ∃ q, type.create p r = .ok q ∧ (q.objects r).clazz = type.clazz := by
  have hset : ∃ u, type.initial.foldlM (fun p a => do
      (p.objects r).checkAttribute a.1 a.2
      pure (p.assign r a.1 a.2)) p = (.ok u : Except JsError Process) ∧
        (u.objects r).clazz = type.clazz ∧
          ∀ a ∈ ([] : List (String × JsValue)), (u.objects r).checkAttribute a.1 a.2 = .ok () := by
    refine Checked.exists_foldlM
      (I := fun (as : List (String × JsValue)) (u : Process) => (u.objects r).clazz = type.clazz ∧
        ∀ a ∈ as, (u.objects r).checkAttribute a.1 a.2 = .ok ()) ?_
      ⟨hr, type.checkAttribute_initial _ hr⟩
    intro a as u ⟨hu, hall⟩
    refine ⟨u.assign r a.1 a.2, ?_, by simpa using hu, fun b hb => ?_⟩
    · exact Checked.bind_eq_ok_iff.mpr ⟨(), hall a (by simp), rfl⟩
    · rw [assign_objects_self, NetObject.checkAttribute_congr NetObject.assign_clazz]
      exact hall b (by simp [hb])
  obtain ⟨u, hu, hclazz, -⟩ := hset
  refine ⟨_, Checked.bind_eq_ok_iff.mpr ⟨u, hu, rfl⟩, ?_⟩
  have hon : ∀ (names : List String) (v : Process),
      (names.foldl (fun p name => p.on r (.actionOf name) (.plugin type r)) v).objects =
        v.objects := by
    intro names
    induction names with
    | nil => exact fun _ => rfl
    | cons name names ih => exact fun v => ih _
  rw [hon]
  exact hclazz

/-! ## The registries of the manager -/

namespace Manager

variable {δ : Type} {m m' : Manager δ} {plugin : PluginConfig δ} {hw : HardwareConfig δ}

theorem isDefined_eq_false_iff {α : Type} {registry : Dictionary String α} {id : String} :
    isDefined registry id = false ↔ PlainKey id ∧ registry.get id = none := by
  simp [isDefined]

theorem createPlugin_eq_ok (h : m.createPlugin plugin = .ok m') :
    (PlainKey plugin.id ∧ m.pluginContainers.get plugin.id = none) ∧
      ∃ p type c, Added m.process plugin.id c p ∧
        m' = { m with
          process := p
          pluginContainers :=
            m.pluginContainers.set plugin.id ⟨plugin.id, plugin, type, c⟩ } := by
  unfold createPlugin at h
  obtain ⟨hnone, h⟩ := Checked.check_bind_eq_ok_iff.mp h
  cases ht : PluginType.ofName plugin.type with
  | none =>
    rw [ht] at h
    contradiction
  | some type =>
    simp only [ht] at h
    obtain ⟨p, hp, h⟩ := Checked.bind_eq_ok_iff.mp h
    obtain ⟨⟨q, c⟩, hq, h⟩ := Checked.bind_eq_ok_iff.mp h
    obtain rfl := Except.ok.inj h
    exact ⟨isDefined_eq_false_iff.mp (by simpa using hnone), q, type, c, added_of_publish (PluginType.create_eq_ok hp) hq, rfl⟩

/-- A plugin of a known type can be created under an id that no plugin has. -/
theorem exists_createPlugin {type : PluginType} (hplain : PlainKey plugin.id)
    (hnone : m.pluginContainers.get plugin.id = none)
    (ht : PluginType.ofName plugin.type = some type) : ∃ m', m.createPlugin plugin = .ok m' := by
  have hclazz : ((m.process.alloc (netObject plugin.id type.clazz)).objects
      m.process.allocated).clazz = type.clazz := by simp [alloc, netObject]
  obtain ⟨p, hp, hq⟩ := PluginType.exists_create hclazz
  obtain ⟨nick, hn⟩ := type.exists_makeNick _ hq
  have hlocal : ∀ channels, p.publishLocal m.process.allocated channels =
      .ok (p.on m.process.allocated .attribute (.attributeChanged m.process.allocated),
        ⟨m.process.allocated, channels, some nick⟩) :=
    fun channels => publishLocal_eq_ok_iff.mpr ⟨nick, hn, rfl, rfl⟩
  simp [createPlugin, publish, isDefined_eq_false_iff.mpr ⟨hplain, hnone⟩, ht, hp, hlocal, bind, Except.bind, pure, Except.pure]

theorem isSome_ofName_of_createPlugin (h : m.createPlugin plugin = .ok m') :
    (PluginType.ofName plugin.type).isSome := by
  unfold createPlugin at h
  obtain ⟨-, h⟩ := Checked.check_bind_eq_ok_iff.mp h
  cases ht : PluginType.ofName plugin.type with
  | none =>
    rw [ht] at h
    contradiction
  | some type => rfl

theorem createHardware_eq_ok (h : m.createHardware hw = .ok m') :
    (PlainKey hw.id ∧ m.hardware.get hw.id = none) ∧ ∃ p c, Added m.process hw.id c p ∧
      m' = { m with
        process := p
        hardware := m.hardware.set hw.id ⟨hw.id, hw, c⟩ } := by
  unfold createHardware at h
  obtain ⟨hnone, h⟩ := Checked.check_bind_eq_ok_iff.mp h
  obtain ⟨⟨q, c⟩, hq, h⟩ := Checked.bind_eq_ok_iff.mp h
  obtain rfl := Except.ok.inj h
  exact ⟨isDefined_eq_false_iff.mp (by simpa using hnone), q, c, added_of_publish (.refl _) hq, rfl⟩

theorem exists_createHardware (hplain : PlainKey hw.id) (hnone : m.hardware.get hw.id = none) :
    ∃ m', m.createHardware hw = .ok m' := by
  simp [createHardware, publish, isDefined_eq_false_iff.mpr ⟨hplain, hnone⟩, bind, Except.bind, pure, Except.pure]

end Manager

end MyLifeHome
