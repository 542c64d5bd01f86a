import MyLifeHome.Links.Registry
import MyLifeHome.Registries.Coherence

/-!
# Cascades without cycles

What a call on a component sets off follows the links. Where the links lead around no cycle it comes
to an end.
-/
namespace MyLifeHome

open Process

variable {p q : Process} {r s d : ObjRef} {e : Event} {l : Listener} {c : Call} {new : List Call}
  {id : String} {link : Link}

/-! ## Calls that go down -/

/-- A link that listens to an attribute leads from the object to `d`. -/
def Feeds (p : Process) (r d : ObjRef) : Prop :=
  ∃ h config name, (.attributeOf name, .link h r d config) ∈ p.listeners r

/-- The object that a call is about, and how far from the links the call is. -/
def Call.rank : Call → ObjRef × Nat
  | .executeAction r _ _ => (r, 6)
  | .emit r (.actionOf _ _) | .emit r (.action _ _) => (r, 5)
  | .listener (.plugin _ r) _ => (r, 4)
  | .setAttribute r _ _ => (r, 3)
  | .emit r _ => (r, 2)
  | .listener (.link _ s _ _) _ => (s, 1)
  | .listener (.attributeChanged r) _ | .listener (.remoteAction r _) _ => (r, 0)
  | .setTimeout r _ _ => (r, 0)

/-- One call is below another one: about an object that the links lead to, or nearer to the links. -/
def Below (p : Process) (c c' : Call) : Prop :=
  Prod.Lex (fun d r => Feeds p r d) (· < ·) c.rank c'.rank

/-- The calls that a cascade makes: nothing connects, and a function is called for its event. -/
def Call.Cascades (p : Process) : Call → Prop
  | .emit _ e => e.event ≠ .connected
  | .listener l e => e.event ≠ .connected ∧ ∃ r, (e.event, l) ∈ p.listeners r
  | _ => True

theorem below_of_lt {c c' : Call} (h : c.rank.1 = c'.rank.1) (hlt : c.rank.2 < c'.rank.2) :
    Below p c c' := by
  unfold Below
  rw [← Prod.eta c.rank, ← Prod.eta c'.rank, h]
  exact .right _ hlt

theorem wellFounded_below (h : WellFounded fun d r => Feeds p r d) : WellFounded (Below p) :=
  InvImage.wf Call.rank (h.prod_lex Nat.lt_wfRel.wf)

/-- A function is below the emission that calls it. -/
theorem Registered.below {e : Emission} (h : Registered r e.event l) (he : e.event ≠ .connected) :
    Below p (.listener l e) (.emit r e) := by
  generalize hev : e.event = ev at h he
  cases h with
  | connected => contradiction
  | attributeOf | plugin | attributeChanged | remoteAction =>
    cases e <;> simp [Emission.event] at hev
    exact below_of_lt rfl (by simp [Call.rank])

/-- Every call of a cascade makes calls below it. -/
theorem Wired.below (hw : Wired p) (hc : c.Cascades p) (h : step p c = .ok (q, new)) :
    ∀ c' ∈ new, c'.Cascades p ∧ Below p c' c := by
  cases c with
  | setAttribute r name value =>
    obtain ⟨_, _, rfl⟩ := step_setAttribute_iff.mp h
    intro c' hc'
    obtain rfl | rfl := List.mem_pair.mp hc' <;>
      exact ⟨by simp [Call.Cascades, Emission.event], below_of_lt rfl (by simp [Call.rank])⟩
  | executeAction r name args =>
    obtain ⟨_, _, rfl⟩ := step_executeAction_iff.mp h
    intro c' hc'
    obtain rfl | rfl := List.mem_pair.mp hc' <;>
      exact ⟨by simp [Call.Cascades, Emission.event], below_of_lt rfl (by simp [Call.rank])⟩
  | emit r e =>
    obtain ⟨_, rfl⟩ := step_emit_iff.mp h
    intro c' hc'
    obtain ⟨l, hl, rfl⟩ := List.mem_map.mp hc'
    rw [mem_listenersOf] at hl
    exact ⟨⟨hc, r, hl⟩, (hw _ _ _ hl).below hc⟩
  | setTimeout r t value =>
    obtain ⟨_, rfl⟩ := step_setTimeout_iff.mp h
    simp
  | listener l e =>
    obtain ⟨he, r, hl⟩ := hc
    cases l with
    | link k s d config =>
      obtain ⟨v, _, _, rfl⟩ := step_link_iff.mp h
      have hfeeds : Feeds p s d := by
        have hreg := hw _ _ _ hl
        generalize e.event = ev at hreg he hl
        cases hreg with
        | attributeOf => exact ⟨k, config, _, hl⟩
        | connected => contradiction
      intro c' hc'
      obtain rfl := List.mem_singleton.mp hc'
      exact ⟨trivial, .left _ _ hfeeds⟩
    | plugin type r =>
      obtain ⟨_, ⟨_, _, ops, _, _, rfl⟩ | ⟨_, rfl⟩⟩ := step_plugin_iff.mp h
      · intro c' hc'
        obtain ⟨op, _, rfl⟩ := List.mem_map.mp hc'
        cases op <;> exact ⟨trivial, below_of_lt rfl (by simp [PluginCall.toCall, Call.rank])⟩
      · simp
    | attributeChanged r =>
      obtain ⟨_, _, _, rfl⟩ := step_attributeChanged_iff.mp h
      simp
    | remoteAction r channels =>
      obtain ⟨rfl, _⟩ := step_remoteAction_iff.mp h
      simp

theorem SameShape.cascades (h : SameShape p q) : c.Cascades q ↔ c.Cascades p := by
  cases c <;> simp only [Call.Cascades, h.listeners]

theorem SameShape.below (h : SameShape p q) : Below q = Below p := by
  unfold Below Feeds
  rw [h.listeners]

theorem halts_of_wellFounded (hw : Wired p) (hwf : WellFounded fun d r => Feeds p r d)
    (hc : c.Cascades p) : Cascade.Halts step [c] p := by
  refine Cascade.halts_of_descends (P := SameShape p) (A := Call.Cascades p)
    (wellFounded_below hwf) ?_ (.refl p) (by simpa using hc)
  intro s c u new hs hc h
  refine ⟨hs.trans (step_sameShape h), fun c' hc' => ?_⟩
  have hbelow := (hw.of_sameShape hs).below (hs.cascades.mpr hc) h c' hc'
  rwa [hs.cascades, hs.below] at hbelow

/-! ## The links of the registry -/

/-- A link of the registry joins the components. -/
def Joins (p : Process) (a b : String) : Prop :=
  ∃ id link, p.links.get id = some link ∧ link.config.sourceComponent = a ∧
    link.config.destinationComponent = b

/-- The graph of the components has no cycle. -/
def Acyclic (p : Process) : Prop := ∀ a, ¬Relation.TransGen (Joins p) a a

def Bears (p : Process) (r : ObjRef) (id : String) : Prop :=
  r < p.allocated ∧ (p.objects r).id = id

/-- The functions that listen to attributes are those of the registry, and its links lead from the
object of their source to that of their destination. -/
structure Grounded (p : Process) : Prop where
  wired : Wired p
  finite : {r | p.listeners r ≠ []}.Finite
  linked : ∀ {r name h s d config}, (.attributeOf name, .link h s d config) ∈ p.listeners r →
    ∃ id link, p.links.get id = some link ∧ link.listener = .link h s d config
  used : ∀ {r e l h}, (e, l) ∈ p.listeners r → l.handler? = some h → h < p.handlers
  once : ∀ r e l, l.handler?.isSome → (p.listeners r).count (e, l) ≤ 1
  published : ∀ {key c}, p.netRepository.get key = some c → Bears p c.object key
  ends : ∀ {id link}, p.links.get id = some link →
    Bears p link.source link.config.sourceComponent ∧
      Bears p link.destination link.config.destinationComponent

theorem Grounded.joins (hp : Grounded p) (h : Feeds p r d) :
    Joins p (p.objects r).id (p.objects d).id := by
  obtain ⟨k, config, name, hmem⟩ := h
  obtain ⟨id, link, hget, heq⟩ := hp.linked hmem
  obtain ⟨_, rfl, rfl, _⟩ := Listener.link.inj heq
  obtain ⟨hsource, hdestination⟩ := hp.ends hget
  exact ⟨id, link, hget, hsource.2.symm, hdestination.2.symm⟩

theorem Grounded.wellFounded (hp : Grounded p) (hacyclic : Acyclic p) :
    WellFounded fun d r => Feeds p r d := by
  refine Cascade.wellFounded_of_acyclic (hp.finite.subset ?_) fun r hcycle => ?_
  · rintro r ⟨d, k, config, name, hmem⟩
    exact List.ne_nil_of_mem hmem
  · exact hacyclic _ (hcycle.lift (fun r => (p.objects r).id) fun _ _ => hp.joins)

theorem grounded_empty : Grounded Process.empty where
  wired := wired_empty
  finite := by simp [Process.empty]
  linked h := by simp [Process.empty] at h
  used h := by simp [Process.empty] at h
  once r e l _ := by simp [Process.empty]
  published h := by simp [Process.empty] at h
  ends h := by simp [Process.empty] at h

/-- Attribute values, timers, the watcher and the trace do not matter. -/
theorem Grounded.congr (hp : Grounded p) (hlisteners : q.listeners = p.listeners)
    (hhandlers : q.handlers = p.handlers) (hsame : SameRegistry p q) : Grounded q := by
  have hbears : ∀ {r id}, Bears p r id → Bears q r id := by
    intro r id hr
    rwa [Bears, hsame.allocated, hsame.id]
  refine ⟨hp.wired.of_fewer (fewer_of_eq hlisteners), ?_, ?_, ?_, ?_, ?_, ?_⟩
  · rw [hlisteners]
    exact hp.finite
  · rw [hlisteners, hsame.links]
    exact hp.linked
  · rw [hlisteners, hhandlers]
    exact hp.used
  · rw [hlisteners]
    exact hp.once
  · rw [hsame.netRepository]
    exact fun h => hbears (hp.published h)
  · rw [hsame.links]
    exact fun h => (hp.ends h).imp hbears hbears

theorem SameShape.sameRegistry (h : SameShape p q) : SameRegistry p q :=
  ⟨⟨h.id, h.links, h.allocated⟩, h.netRepository⟩

theorem Grounded.of_sameShape (hp : Grounded p) (h : SameShape p q) : Grounded q :=
  hp.congr h.listeners h.handlers h.sameRegistry

/-- Functions may be removed. -/
theorem Grounded.removeListener (hp : Grounded p) : Grounded (p.removeListener s e l) := by
  have hsub : ∀ r, ((p.removeListener s e l).listeners r).Sublist (p.listeners r) := by
    intro r
    by_cases hr : r = s
    · subst hr
      simpa [Process.removeListener] using List.erase_sublist
    · simp [Process.removeListener, hr]
  refine ⟨hp.wired.of_fewer fewer_removeListener, hp.finite.subset fun r hr => ?_,
    fun h => hp.linked ((hsub _).subset h), fun h => hp.used ((hsub _).subset h),
    fun r e l hl => ((hsub r).count_le _).trans (hp.once r e l hl), hp.published, hp.ends⟩
  intro hnil
  exact hr (List.sublist_nil.mp (hnil ▸ hsub r))

/-- A function that is not of a link. -/
theorem Grounded.on (hp : Grounded p) (hreg : Registered s e l) (hl : l.handler? = none) :
    Grounded (p.on s e l) := by
  refine ⟨hp.wired.on hreg, (hp.finite.insert s).subset fun r hr => ?_, ?_, ?_, ?_, hp.published,
    hp.ends⟩
  · by_cases hrs : r = s
    · exact .inl hrs
    · exact .inr (by simpa [Process.on, hrs] using hr)
  · intro r name h s' d config hmem
    rcases mem_listeners_on.mp hmem with hmem | ⟨_, heq⟩
    · exact hp.linked hmem
    · obtain ⟨_, rfl⟩ := Prod.mk.inj heq
      cases hl
  · intro r e' l' h hmem hh
    rcases mem_listeners_on.mp hmem with hmem | ⟨_, heq⟩
    · exact hp.used hmem hh
    · obtain ⟨_, rfl⟩ := Prod.mk.inj heq
      rw [hl] at hh
      cases hh
  · intro r e' l' hl'
    have hne : (e, l) ≠ (e', l') := by
      rintro heq
      obtain ⟨_, rfl⟩ := Prod.mk.inj heq
      simp [hl] at hl'
    by_cases hrs : r = s
    · subst hrs
      simpa [Process.on, List.count_append, List.count_singleton, hne] using hp.once r e' l' hl'
    · simpa [Process.on, hrs] using hp.once r e' l' hl'

theorem Grounded.alloc (hp : Grounded p) (o : NetObject) : Grounded (p.alloc o) := by
  have hsub : ∀ r, ((p.alloc o).listeners r).Sublist (p.listeners r) := by
    intro r
    by_cases hr : r = p.allocated
    · subst hr
      simp [Process.alloc]
    · simp [Process.alloc, hr]
  have hbears : ∀ {r id}, Bears p r id → Bears (p.alloc o) r id := by
    rintro r id ⟨hlt, hid⟩
    exact ⟨Nat.lt_succ_of_lt hlt, by simpa [Process.alloc, hlt.ne] using hid⟩
  refine ⟨hp.wired.of_fewer (fewer_alloc o), hp.finite.subset fun r hr => ?_,
    fun h => hp.linked ((hsub _).subset h), fun h => hp.used ((hsub _).subset h),
    fun r e l hl => ((hsub r).count_le _).trans (hp.once r e l hl),
    fun h => hbears (hp.published h), fun h => (hp.ends h).imp hbears hbears⟩
  intro hnil
  exact hr (List.sublist_nil.mp (hnil ▸ hsub r))

theorem bears_alloc (p : Process) (o : NetObject) : Bears (p.alloc o) p.allocated o.id :=
  ⟨Nat.lt_succ_self _, by simp [Process.alloc]⟩

theorem SameIds.bears (h : SameIds p q) (hr : Bears p r id) : Bears q r id := by
  rwa [Bears, h.allocated, h.id]

theorem Grounded.register {channels : List String} {client : Option String} (hp : Grounded p)
    (hr : Bears p r id) :
    Grounded { p with netRepository := p.netRepository.set id ⟨r, channels, client⟩ } := by
  refine ⟨hp.wired, hp.finite, hp.linked, hp.used, hp.once, fun {key c} hget => ?_, hp.ends⟩
  rw [Dictionary.get_set] at hget
  split_ifs at hget with hkey
  · obtain rfl := Option.some.inj hget
    rwa [hkey]
  · exact hp.published hget

theorem Grounded.unregister (hp : Grounded p) (key : String) :
    Grounded { p with netRepository := p.netRepository.erase key } := by
  refine ⟨hp.wired, hp.finite, hp.linked, hp.used, hp.once, fun {key c} hget => ?_, hp.ends⟩
  rw [Dictionary.get_erase] at hget
  split_ifs at hget
  exact hp.published hget

/-! ## Components -/

@[simp] theorem addChannel_handlers (channel : String) :
    (p.addChannel channel).handlers = p.handlers := by
  simp only [addChannel]
  split
  · rfl
  · split_ifs <;> rfl

@[simp] theorem removeChannel_handlers (channel : String) :
    (p.removeChannel channel).handlers = p.handlers := by
  simp only [removeChannel]
  split
  · rfl
  · split_ifs <;> rfl

theorem foldl_handlers {f : Process → String → Process}
    (hf : ∀ p channel, (f p channel).handlers = p.handlers) (channels : List String)
    (p : Process) : (channels.foldl f p).handlers = p.handlers := by
  induction channels generalizing p with
  | nil => rfl
  | cons channel channels ih => exact (ih _).trans (hf p channel)

theorem Grounded.createType {type : PluginType} (hp : Grounded p) (h : type.create p r = .ok q) :
    Grounded q := by
  obtain ⟨u, hu, hq⟩ := Checked.bind_eq_ok_iff.mp h
  obtain rfl := Except.ok.inj hq
  have hset : Grounded u := by
    refine Checked.foldlM_invariant (I := Grounded) (fun _ hp ha => ?_) hu hp
    obtain ⟨_, _, ht⟩ := Checked.bind_eq_ok_iff.mp ha
    obtain rfl := Except.ok.inj ht
    exact hp.of_sameShape (sameShape_assign ..)
  have hon : ∀ (names : List String) (u : Process), Grounded u →
      Grounded (names.foldl (fun p name => p.on r (.actionOf name) (.plugin type r)) u) := by
    intro names
    induction names with
    | nil => exact fun u hu => hu
    | cons name names ih => exact fun u hu => ih _ (hu.on (.plugin type r name) rfl)
  exact hon _ _ hset

theorem Grounded.publish {channels : List String} {isLocal : Bool} {c : NetContainer}
    (hp : Grounded p) (hr : Bears p r id) (h : p.publish r channels isLocal = .ok (q, c)) :
    Grounded q := by
  unfold Process.publish at h
  cases isLocal with
  | true =>
    obtain ⟨⟨u, c'⟩, hu, h⟩ := Checked.bind_eq_ok_iff.mp h
    obtain ⟨nick, _, rfl, rfl⟩ := publishLocal_eq_ok_iff.mp hu
    obtain ⟨rfl, rfl⟩ := Prod.mk.inj (Except.ok.inj h)
    exact (hp.on (.attributeChanged r) rfl).register ⟨hr.1, rfl⟩
  | false =>
    obtain ⟨rfl, rfl⟩ := Prod.mk.inj (Except.ok.inj h)
    have hfold : SameRegistry { p with watcher := some p.loadWatcher }
        (channels.foldl addChannel { p with watcher := some p.loadWatcher }) :=
      .foldl (fun _ _ => sameRegistry_addChannel) _ _
    have hwatched : Grounded ((channels.foldl addChannel
        { p with watcher := some p.loadWatcher }).addObject r) := by
      refine hp.congr ?_ ?_ ⟨⟨hfold.id, hfold.links, hfold.allocated⟩, hfold.netRepository⟩
      · simp [addObject]
      · exact foldl_handlers (fun p channel => addChannel_handlers channel) channels _
    refine (hwatched.on (.remoteAction r channels) rfl).register ⟨?_, rfl⟩
    have hlt : r < (channels.foldl addChannel { p with watcher := some p.loadWatcher }).allocated := by
      rw [hfold.allocated]
      exact hr.1
    exact hlt

theorem Grounded.unpublish {c : NetContainer} (hp : Grounded p) : Grounded (p.unpublish c) := by
  have hlog : ∀ {p : Process} {x}, Grounded p → Grounded (p.log x) :=
    fun hp => hp.congr rfl rfl ⟨⟨fun _ => rfl, rfl, rfl⟩, rfl⟩
  unfold Process.unpublish destroyContainer
  have hstart := hlog (x := .destroyed c.object) (hp.unregister (p.objects c.object).id)
  cases c.client with
  | some nick => exact (hlog hstart).removeListener
  | none =>
    have hremoved := hstart.removeListener (s := c.object) (e := .action)
      (l := .remoteAction c.object c.channels)
    refine hremoved.congr (by simp [removeObject]) ?_ ?_
    · have hclean : ∀ p : Process, p.checkClean.handlers = p.handlers := by
        intro p
        unfold checkClean
        split_ifs <;> rfl
      exact (hclean _).trans
        (foldl_handlers (fun p channel => removeChannel_handlers channel) c.channels _)
    · have hobject : ∀ p : Process, SameRegistry p (p.removeObject c.object) :=
        fun p => ⟨⟨fun _ => rfl, rfl, rfl⟩, rfl⟩
      exact ((hobject _).trans (.foldl (fun _ _ => sameRegistry_removeChannel) _ _)).trans
        sameRegistry_checkClean

/-! ## Links -/

theorem Grounded.component (hp : Grounded p) (h : Links.component p id = .ok r) : Bears p r id := by
  unfold Links.component at h
  split at h
  · rename_i container hget
    obtain rfl := Except.ok.inj h
    exact hp.published hget
  · cases h

theorem Grounded.createLink {config : LinkConfig} (hp : Grounded p)
    (h : Links.create p config = .ok (q, link)) : Grounded q := by
  have hwired := hp.wired.create h
  obtain ⟨source, destination, hsource, hdestination, hnone, rfl, rfl⟩ := create_eq_ok h
  have hfresh : ∀ r e l, l.handler? = some p.handlers → (e, l) ∉ p.listeners r :=
    fun r e l hl hmem => absurd (hp.used hmem hl) (Nat.lt_irrefl _)
  have hold : ∀ {id link}, p.links.get id = some link → id ≠ Links.makeId config := by
    rintro id link hget rfl
    rw [hnone] at hget
    cases hget
  refine ⟨hwired, (hp.finite.insert source).subset fun r hr => ?_, ?_, ?_, ?_, hp.published, ?_⟩
  · by_cases hrs : r = source
    · exact .inl hrs
    · exact .inr (by simpa [Process.on, hrs] using hr)
  · intro r name h s' d config' hmem
    rcases mem_listeners_on.mp hmem with hmem | ⟨_, heq⟩
    · rcases mem_listeners_on.mp hmem with hmem | ⟨_, heq⟩
      · obtain ⟨id, link, hget, hl⟩ := hp.linked hmem
        exact ⟨id, link, (Dictionary.get_set_of_ne (hold hget)).trans hget, hl⟩
      · obtain ⟨_, hlink⟩ := Prod.mk.inj heq
        exact ⟨Links.makeId config, _, Dictionary.get_set_self, hlink.symm⟩
    · obtain ⟨hevent, _⟩ := Prod.mk.inj heq
      cases hevent
  · intro r e l h hmem hl
    rcases mem_listeners_on.mp hmem with hmem | ⟨_, heq⟩
    · rcases mem_listeners_on.mp hmem with hmem | ⟨_, heq⟩
      · exact Nat.lt_succ_of_lt (hp.used hmem hl)
      · obtain ⟨_, rfl⟩ := Prod.mk.inj heq
        obtain rfl := Option.some.inj hl
        exact Nat.lt_succ_self _
    · obtain ⟨_, rfl⟩ := Prod.mk.inj heq
      obtain rfl := Option.some.inj hl
      exact Nat.lt_succ_self _
  · intro r e l hl
    by_cases hrs : r = source
    · subst hrs
      by_cases hlink : l = .link p.handlers r destination config
      · subst hlink
        have hzero := List.count_eq_zero_of_not_mem
          (hfresh r e (.link p.handlers r destination config) rfl)
        by_cases he : e = .connected
        · subst he
          simp [Process.on, List.count_append, hzero]
        · simp only [Process.on, Function.update_self, List.count_append, List.count_singleton, hzero]
          have hconnected : (Event.connected, Listener.link p.handlers r destination config) ≠
              (e, .link p.handlers r destination config) :=
            fun heq => he (Prod.mk.inj heq).1.symm
          simp only [beq_iff_eq, if_neg hconnected]
          split_ifs <;> omega
      · simpa [Process.on, List.count_append, List.count_singleton, Ne.symm hlink] using
          hp.once r e l hl
    · simpa [Process.on, hrs] using hp.once r e l hl
  · intro id link hget
    rw [Dictionary.get_set] at hget
    split_ifs at hget with hid
    · obtain rfl := Option.some.inj hget
      exact ⟨hp.component hsource, hp.component hdestination⟩
    · exact hp.ends hget

theorem Grounded.destroyLink (hp : Grounded p) (id : String) : Grounded (Links.destroy p id).1 := by
  unfold Links.destroy
  cases hget : p.links.get id with
  | none => exact hp
  | some link =>
    have hremoved : Grounded (Links.destroyLink p link) := hp.removeListener
    refine ⟨hremoved.wired, hremoved.finite, ?_, hremoved.used, hremoved.once, hp.published, ?_⟩
    · intro r name h s d config hmem
      have hbefore := fewer_removeListener r _ hmem
      obtain ⟨id', link', hget', hl⟩ := hp.linked hbefore
      by_cases hid : id' = id
      · -- the function was there once
        subst hid
        rw [hget] at hget'
        obtain rfl := Option.some.inj hget'
        have hreg := hp.wired _ _ _ hbefore
        obtain ⟨rfl, rfl, rfl, rfl⟩ := Listener.link.inj hl
        have honce := hp.once r (.attributeOf name) link.listener rfl
        have hmem : (Event.attributeOf name, link.listener) ∈ (Links.destroyLink p link).listeners r :=
          hmem
        generalize hev : Event.attributeOf name = e at hreg hmem honce
        have herase : (Links.destroyLink p link).listeners r =
            (p.listeners r).erase (e, link.listener) := by
          cases hreg with
          | attributeOf =>
            simp [Links.destroyLink, Process.removeListener, Link.listener]
          | connected => cases hev
        rw [herase, ← List.count_pos_iff, List.count_erase_self] at hmem
        omega
      · exact ⟨id', link', (Dictionary.get_erase_of_ne hid).trans hget', hl⟩
    · intro id' link' hget'
      have hget' : (p.links.erase id).get id' = some link' := hget'
      rw [Dictionary.get_erase] at hget'
      split_ifs at hget'
      exact hp.ends hget'

/-! ## The running core -/

namespace Manager

variable {δ : Type} {m m' : Manager δ} {op : Request δ} {calls : List Call}

theorem grounded_createPlugin {config : PluginConfig δ} (hm : Grounded m.process)
    (h : m.createPlugin config = .ok m') : Grounded m'.process := by
  unfold createPlugin at h
  obtain ⟨_, h⟩ := Checked.check_bind_eq_ok_iff.mp h
  cases ht : PluginType.ofName config.type with
  | none =>
    rw [ht] at h
    contradiction
  | some type =>
    simp only [ht] at h
    obtain ⟨p, hp, h⟩ := Checked.bind_eq_ok_iff.mp h
    obtain ⟨⟨q, c⟩, hq, h⟩ := Checked.bind_eq_ok_iff.mp h
    obtain rfl := Except.ok.inj h
    have hbears := (PluginType.create_eq_ok hp).toSameIds.bears
      (bears_alloc m.process (netObject config.id type.clazz))
    exact ((hm.alloc _).createType hp).publish hbears hq

theorem grounded_createHardware {config : HardwareConfig δ} (hm : Grounded m.process)
    (h : m.createHardware config = .ok m') : Grounded m'.process := by
  unfold createHardware at h
  obtain ⟨_, h⟩ := Checked.check_bind_eq_ok_iff.mp h
  obtain ⟨⟨q, c⟩, hq, h⟩ := Checked.bind_eq_ok_iff.mp h
  obtain rfl := Except.ok.inj h
  exact (hm.alloc _).publish (bears_alloc m.process _) hq

theorem grounded_handle (hm : Grounded m.process) (h : m.handle op = .ok m') :
    Grounded m'.process := by
  match op with
  | .del (.plugins, id) =>
    obtain ⟨⟨⟩, _, h⟩ := Checked.bind_eq_ok_iff.mp h
    unfold destroyPlugin at h
    cases hget : m.pluginContainers.get id with
    | none =>
      rw [hget] at h
      contradiction
    | some container =>
      simp only [hget, Bool.not_true, Bool.false_eq_true, if_false] at h
      obtain rfl := Except.ok.inj h
      exact hm.unpublish
  | .del (.hardware, id) =>
    obtain ⟨⟨⟩, _, h⟩ := Checked.bind_eq_ok_iff.mp h
    unfold destroyHardware at h
    cases hget : m.hardware.get id with
    | none =>
      rw [hget] at h
      contradiction
    | some item =>
      simp only [hget, Bool.not_true, Bool.false_eq_true, if_false] at h
      obtain rfl := Except.ok.inj h
      exact hm.unpublish
  | .del (.links, id) =>
    have hdestroyed := hm.destroyLink id
    change m.removeLink id = .ok m' at h
    unfold removeLink at h
    generalize Links.destroy m.process id = answer at h hdestroyed
    obtain ⟨p, found⟩ := answer
    cases found with
    | false => contradiction
    | true =>
      obtain rfl := Except.ok.inj h
      exact hdestroyed
  | .post (.plugin config) =>
    obtain ⟨u, hu, h⟩ := Checked.bind_eq_ok_iff.mp h
    have hcreated := grounded_createPlugin hm hu
    obtain rfl := Except.ok.inj h
    exact hcreated
  | .post (.hardware config) =>
    obtain ⟨u, hu, h⟩ := Checked.bind_eq_ok_iff.mp h
    have hcreated := grounded_createHardware hm hu
    obtain rfl := Except.ok.inj h
    exact hcreated
  | .post (.link config) =>
    obtain ⟨⟨p, link⟩, hc, h⟩ := Checked.bind_eq_ok_iff.mp h
    obtain rfl := Except.ok.inj h
    exact hm.createLink hc

/-- A core after any requests, accepted or not, and any calls, as far as they have got. -/
inductive Reached : Manager δ → Prop where
  | empty : Reached Manager.empty
  | perform (op : Request δ) {m : Manager δ} : Reached m → Reached (m.perform op)
  | call (c : Call) {m : Manager δ} {calls : List Call} {q : Process} : Reached m →
      Cascade.Reaches step [c] m.process calls q → Reached { m with process := q }

theorem Reached.grounded (h : Reached m) : Grounded m.process := by
  induction h with
  | empty => exact grounded_empty
  | @perform op m _ ih =>
    unfold Manager.perform
    cases hop : m.handle op with
    | error e => exact ih
    | ok m' => exact grounded_handle ih hop
  | call c _ hcall ih =>
    exact ih.of_sameShape (hcall.rel .refl (fun h g => h.trans g) step_sameShape)

theorem Reached.performAll (hm : Reached m) (ops : List (Request δ)) : Reached (m.performAll ops) := by
  induction ops generalizing m with
  | nil => exact hm
  | cons op ops ih => exact ih (hm.perform op)

/-- Where the links of the registry lead around no cycle, every call on an object comes to an end. -/
theorem halts_of_acyclic (hm : Reached m) (hacyclic : Acyclic m.process) (r : ObjRef) (name : String) :
    (∀ value, Cascade.Halts step [.setAttribute r name value] m.process) ∧
      ∀ args, Cascade.Halts step [.executeAction r name args] m.process := by
  have hwf := hm.grounded.wellFounded hacyclic
  exact ⟨fun value => halts_of_wellFounded hm.grounded.wired hwf trivial,
    fun args => halts_of_wellFounded hm.grounded.wired hwf trivial⟩

/-- A button that drives a light. -/
def buttonAndLight : Manager Unit :=
  Manager.empty.performAll [.post (.plugin ⟨"a", "button", ()⟩), .post (.plugin ⟨"b", "light", ()⟩),
    .post (.link ⟨⟨"a", "output", "b", "input"⟩, "a|output|b|input"⟩)]

theorem halts_buttonAndLight :
    Cascade.Halts step [.executeAction 0 "input" []] buttonAndLight.process := by
  have hjoins : ∀ {a b}, Joins buttonAndLight.process a b → a = "a" ∧ b = "b" := by
    rintro a b ⟨id, link, hget, rfl, rfl⟩
    have hmem := Dictionary.get_eq_some_iff.mp hget
    have hentries : buttonAndLight.process.links.entries =
        [("a|output|b|input", ⟨"a|output|b|input", ⟨"a", "output", "b", "input"⟩, 0, 0, 1⟩)] := rfl
    rw [hentries] at hmem
    obtain ⟨_, rfl⟩ := Prod.mk.inj (List.mem_singleton.mp hmem)
    exact ⟨rfl, rfl⟩
  have hreached : Reached buttonAndLight := Reached.empty.performAll _
  refine (halts_of_acyclic hreached ?_ 0 "input").2 []
  intro a hcycle
  obtain ⟨b, hab, _⟩ := Relation.TransGen.head'_iff.mp hcycle
  obtain ⟨c, _, hca⟩ := Relation.TransGen.tail'_iff.mp hcycle
  have hne : "a" ≠ "b" := by decide
  exact hne ((hjoins hab).1.symm.trans (hjoins hca).2)

end Manager

end MyLifeHome
