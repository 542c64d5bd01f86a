import MyLifeHome.Core.Watcher

/-!
# What a call can change

Calls assign attributes, rearm timers and extend the trace; everything else of the
process is as it was. `Wired` says that every registered function is registered where
its maker registers it, and `quiet` uses it to bound the reach of a call: as long as
nothing leads back to an object, its attributes and the deliveries of its links are
not touched.
-/
namespace MyLifeHome

open Process

variable {p q : Process} {r s : ObjRef} {name : String} {value v : JsValue} {c : Call}
  {e : Emission} {new calls : List Call}

/-! ## Inversion -/

theorem step_setAttribute_iff : step p (.setAttribute r name value) = .ok (q, new) ↔
    (p.objects r).checkAttribute name value = .ok () ∧ q = p.assign r name value ∧
      new = [.emit r (.attributeOf name value), .emit r (.attribute name value)] := by
  simp only [step]
  cases (p.objects r).checkAttribute name value <;>
    simp [bind, Except.bind, pure, Except.pure, eq_comm]

theorem step_executeAction_iff {args : List JsValue} :
    step p (.executeAction r name args) = .ok (q, new) ↔
      (p.objects r).checkAction name args = .ok () ∧ q = p ∧
        new = [.emit r (.actionOf name args), .emit r (.action name args)] := by
  simp only [step]
  cases (p.objects r).checkAction name args <;>
    simp [bind, Except.bind, pure, Except.pure, eq_comm]

theorem step_emit_iff : step p (.emit r e) = .ok (q, new) ↔
    q = p ∧ new = (p.listenersOf r e.event).map fun l => .listener l e := by
  simp [step, pure, Except.pure, eq_comm]

theorem step_setTimeout_iff {t : Timer} : step p (.setTimeout r t value) = .ok (q, new) ↔
    q = p.setTimeout r t (some value) ∧ new = [] := by
  simp [step, pure, Except.pure, eq_comm]

theorem step_link_iff {h : Nat} {d : ObjRef} {config : LinkConfig} :
    step p (.listener (.link h s d config) e) = .ok (q, new) ↔
      ∃ v, linkValue (p.objects s) config.sourceAttribute e.value = .ok v ∧
        q = p.log (.execute h s d config.destinationAction v) ∧
        new = [.executeAction d config.destinationAction [v]] := by
  simp only [step, Listener.call]
  cases linkValue (p.objects s) config.sourceAttribute e.value <;>
    simp [bind, Except.bind, pure, Except.pure, eq_comm]

theorem step_plugin_iff {type : PluginType} :
    step p (.listener (.plugin type r) e) = .ok (q, new) ↔ q = p ∧
      ((∃ name args ops, e = .actionOf name args ∧
          type.onAction (p.objects r) name args = .ok ops ∧
          new = ops.map (PluginCall.toCall r)) ∨
        ((∀ name args, e ≠ .actionOf name args) ∧ new = [])) := by
  simp only [step, Listener.call]
  cases e with
  | actionOf name args =>
    cases h : type.onAction (p.objects r) name args <;>
      simp [bind, Except.bind, pure, Except.pure, eq_comm, h]
  | _ => simp [pure, Except.pure, eq_comm]

theorem step_attributeChanged_iff :
    step p (.listener (.attributeChanged r) e) = .ok (q, new) ↔
      ∃ nick, (p.objects r).makeNick = .ok nick ∧ q = p.log (.nick r nick) ∧ new = [] := by
  simp only [step, Listener.call]
  cases (p.objects r).makeNick <;> simp [bind, Except.bind, pure, Except.pure, eq_comm]

theorem step_remoteAction_iff {channels : List String} :
    step p (.listener (.remoteAction r channels) e) = .ok (q, new) ↔ new = [] ∧
      ((∃ name args, e = .action name args ∧
          q = p.send channels (actionMessage (p.objects r).id name args)) ∨
        ((∀ name args, e ≠ .action name args) ∧ q = p)) := by
  simp only [step, Listener.call]
  cases e <;> simp [pure, Except.pure, eq_comm, and_comm]

/-! ## What stays the same -/

/-- The two processes differ in attribute values and timers only, and the second has
done what the first had done and more. -/
structure SameShape (p q : Process) : Prop where
  id : ∀ r, (q.objects r).id = (p.objects r).id
  clazz : ∀ r, (q.objects r).clazz = (p.objects r).clazz
  listeners : q.listeners = p.listeners
  watcher : q.watcher = p.watcher
  netRepository : q.netRepository = p.netRepository
  links : q.links = p.links
  handlers : q.handlers = p.handlers
  allocated : q.allocated = p.allocated
  trace : p.trace <+: q.trace

theorem SameShape.refl (p : Process) : SameShape p p := by constructor <;> simp

theorem SameShape.trans {p q t : Process} (h : SameShape p q) (g : SameShape q t) :
    SameShape p t where
  id r := (g.id r).trans (h.id r)
  clazz r := (g.clazz r).trans (h.clazz r)
  listeners := g.listeners.trans h.listeners
  watcher := g.watcher.trans h.watcher
  netRepository := g.netRepository.trans h.netRepository
  links := g.links.trans h.links
  handlers := g.handlers.trans h.handlers
  allocated := g.allocated.trans h.allocated
  trace := h.trace.trans g.trace

theorem sameShape_log (p : Process) (e : Effect) : SameShape p (p.log e) := by
  constructor <;> simp [Process.log]

theorem sameShape_assign (p : Process) (r : ObjRef) (name : String) (value : JsValue) :
    SameShape p (p.assign r name value) := by
  constructor <;> simp only [Process.assign, List.prefix_append] <;> intro t <;>
    by_cases h : t = r <;> simp [h]

theorem sameShape_setTimeout (p : Process) (r : ObjRef) (t : Timer) (value : Option JsValue) :
    SameShape p (p.setTimeout r t value) := by
  constructor <;> simp [Process.setTimeout]

theorem sameShape_send (p : Process) (channels : List String) (msg : String) :
    SameShape p (p.send channels msg) := by
  unfold Process.send
  split_ifs
  · exact sameShape_log ..
  · exact .refl p

theorem step_sameShape (h : step p c = .ok (q, new)) : SameShape p q := by
  cases c with
  | setAttribute r name value =>
    obtain ⟨_, rfl, _⟩ := step_setAttribute_iff.mp h
    exact sameShape_assign ..
  | executeAction r name args =>
    obtain ⟨_, rfl, _⟩ := step_executeAction_iff.mp h
    exact .refl _
  | emit r e =>
    obtain ⟨rfl, _⟩ := step_emit_iff.mp h
    exact .refl _
  | setTimeout r t value =>
    obtain ⟨rfl, _⟩ := step_setTimeout_iff.mp h
    exact sameShape_setTimeout ..
  | listener l e =>
    cases l with
    | link =>
      obtain ⟨_, _, rfl, _⟩ := step_link_iff.mp h
      exact sameShape_log ..
    | plugin =>
      obtain ⟨rfl, _⟩ := step_plugin_iff.mp h
      exact .refl _
    | attributeChanged =>
      obtain ⟨_, _, rfl, _⟩ := step_attributeChanged_iff.mp h
      exact sameShape_log ..
    | remoteAction =>
      obtain ⟨_, ⟨_, _, _, rfl⟩ | ⟨_, rfl⟩⟩ := step_remoteAction_iff.mp h
      · exact sameShape_send ..
      · exact .refl _

/-- Objects change by assignments that pass the check. -/
theorem step_objects (h : step p c = .ok (q, new)) : q.objects = p.objects ∨
    ∃ r name value, c = .setAttribute r name value ∧
      (p.objects r).checkAttribute name value = .ok () ∧ q = p.assign r name value := by
  cases c with
  | setAttribute r name value =>
    obtain ⟨hcheck, rfl, _⟩ := step_setAttribute_iff.mp h
    exact .inr ⟨r, name, value, rfl, hcheck, rfl⟩
  | executeAction r name args =>
    obtain ⟨_, rfl, _⟩ := step_executeAction_iff.mp h
    exact .inl rfl
  | emit r e =>
    obtain ⟨rfl, _⟩ := step_emit_iff.mp h
    exact .inl rfl
  | setTimeout r t value =>
    obtain ⟨rfl, _⟩ := step_setTimeout_iff.mp h
    exact .inl rfl
  | listener l e =>
    left
    cases l with
    | link =>
      obtain ⟨_, _, rfl, _⟩ := step_link_iff.mp h
      rfl
    | plugin =>
      obtain ⟨rfl, _⟩ := step_plugin_iff.mp h
      rfl
    | attributeChanged =>
      obtain ⟨_, _, rfl, _⟩ := step_attributeChanged_iff.mp h
      rfl
    | remoteAction =>
      obtain ⟨_, ⟨_, _, _, rfl⟩ | ⟨_, rfl⟩⟩ := step_remoteAction_iff.mp h
      · exact send_objects ..
      · rfl

/-- The value of the attribute is one that its type accepts. -/
def NetObject.Sound (o : NetObject) (name : String) : Prop :=
  o.checkAttribute name (o.attributeValues name) = .ok ()

theorem step_sound (h : step p c = .ok (q, new)) (hs : (p.objects r).Sound name) :
    (q.objects r).Sound name := by
  obtain hq | ⟨s, n, v, _, hcheck, rfl⟩ := step_objects h
  · rwa [hq]
  · by_cases hr : r = s
    · subst hr
      by_cases hn : name = n
      · subst hn
        simpa [NetObject.Sound, NetObject.checkAttribute] using hcheck
      · simpa [NetObject.Sound, NetObject.checkAttribute, NetObject.assign_of_ne hn] using hs
    · simpa [NetObject.Sound, hr] using hs

theorem Completes.sound (h : Completes calls p q) (hs : (p.objects r).Sound name) :
    (q.objects r).Sound name :=
  Cascade.Exec.rel (R := fun p q => (p.objects r).Sound name → (q.objects r).Sound name)
    (fun _ hs => hs) (fun h g hs => g (h hs)) step_sound h hs

theorem run_sameShape (n : Nat) (calls : List Call) (p : Process) :
    SameShape p (Cascade.run step n calls p).state :=
  Cascade.run_rel .refl (fun h g => h.trans g) step_sameShape

theorem Completes.sameShape (h : Completes calls p q) : SameShape p q :=
  h.rel .refl (fun h g => h.trans g) step_sameShape

/-! ## Who is registered where -/

/-- The places at which the makers of the functions register them. -/
inductive Registered : ObjRef → Event → Listener → Prop where
  | attributeOf (h : Nat) (s d : ObjRef) (config : LinkConfig) :
      Registered s (.attributeOf config.sourceAttribute) (.link h s d config)
  | connected (h : Nat) (s d : ObjRef) (config : LinkConfig) :
      Registered s .connected (.link h s d config)
  | plugin (type : PluginType) (r : ObjRef) (name : String) :
      Registered r (.actionOf name) (.plugin type r)
  | attributeChanged (r : ObjRef) : Registered r .attribute (.attributeChanged r)
  | remoteAction (r : ObjRef) (channels : List String) :
      Registered r .action (.remoteAction r channels)

def Wired (p : Process) : Prop := ∀ r e l, (e, l) ∈ p.listeners r → Registered r e l

theorem Wired.of_sameShape (hw : Wired p) (h : SameShape p q) : Wired q := by
  unfold Wired
  rw [h.listeners]
  exact hw

@[simp] theorem mem_listenersOf {l : Listener} {e : Event} :
    l ∈ p.listenersOf r e ↔ (e, l) ∈ p.listeners r := by
  simp [Process.listenersOf]

theorem SameShape.listenersOf (h : SameShape p q) (r : ObjRef) (e : Event) :
    q.listenersOf r e = p.listenersOf r e := by simp [Process.listenersOf, h.listeners]

/-- The object is driven by a plugin of this process. -/
def HasPlugin (p : Process) (r : ObjRef) : Prop :=
  ∃ name type, (.actionOf name, .plugin type r) ∈ p.listeners r

/-- A link leads from the object to `d`. -/
def Linked (p : Process) (r d : ObjRef) : Prop :=
  ∃ h config e, (e, .link h r d config) ∈ p.listeners r

/-! ## Deliveries -/

/-- The assignments of an object's attributes and the deliveries of its links. -/
def Effect.concerns (s : ObjRef) : Effect → Bool
  | .attribute r _ _ => r == s
  | .execute _ r _ _ _ => r == s
  | _ => false

def Process.history (p : Process) (s : ObjRef) : List Effect := p.trace.filter (Effect.concerns s)

def Effect.isExecute : Effect → Bool
  | .execute .. => true
  | _ => false

/-- What the links that leave the object have delivered so far. -/
def Process.deliveries (p : Process) (s : ObjRef) : List Effect :=
  (p.history s).filter Effect.isExecute

theorem history_log (p : Process) (x : Effect) :
    (p.log x).history s = p.history s ++ if x.concerns s then [x] else [] := by
  cases h : x.concerns s <;> simp [Process.history, Process.log, h]

theorem history_assign :
    (p.assign r name value).history s =
      p.history s ++ if r = s then [.attribute r name value] else [] := by
  by_cases h : r = s <;> simp [Process.history, Process.assign, Effect.concerns, h]

/-! ## The reach of a call -/

/-- Actions are executed on objects of `X` and attributes assigned on objects of `Y`: a
plugin assigns where actions are executed, links lead from `Y` to `X`, and `s` is not
in `Y`. -/
structure Away (p : Process) (s : ObjRef) (X Y : ObjRef → Prop) : Prop where
  linked : ∀ {r d}, Y r → Linked p r d → X d
  driven : ∀ {r}, X r → HasPlugin p r → Y r
  apart : ¬Y s

/-- The events of an action, which no link listens to. -/
def Event.ofAction : Event → Bool
  | .actionOf _ | .action => true
  | _ => false

/-- The calls that keep to `X` and `Y`. -/
def Call.Within (s : ObjRef) (X Y : ObjRef → Prop) : Call → Prop
  | .setAttribute r _ _ => Y r
  | .executeAction r _ _ => X r
  | .emit r e => e.event.ofAction = true ∧ X r ∨ Y r
  | .listener (.link _ r d _) _ => r ≠ s ∧ X d
  | .listener (.plugin _ r) _ => Y r
  | .listener _ _ => True
  | .setTimeout _ _ _ => True

/-- Nothing has happened to the object. -/
structure Quiet (p : Process) (s : ObjRef) (q : Process) : Prop where
  shape : SameShape p q
  values : (q.objects s).attributeValues = (p.objects s).attributeValues
  history : q.history s = p.history s

theorem Quiet.refl (p : Process) (s : ObjRef) : Quiet p s p := ⟨.refl p, rfl, rfl⟩

theorem Quiet.trans {p q t : Process} (h : Quiet p s q) (g : Quiet q s t) : Quiet p s t :=
  ⟨h.shape.trans g.shape, g.values.trans h.values, g.history.trans h.history⟩

theorem Quiet.object (h : Quiet p s q) : q.objects s = p.objects s := by
  have h1 := h.shape.id s
  have h2 := h.shape.clazz s
  have h3 := h.values
  cases hq : q.objects s
  cases hp : p.objects s
  simp_all

theorem quiet_log {x : Effect} (h : x.concerns s = false) : Quiet p s (p.log x) :=
  ⟨sameShape_log p x, rfl, by simp [history_log, h]⟩

theorem quiet_assign (h : r ≠ s) : Quiet p s (p.assign r name value) :=
  ⟨sameShape_assign .., by rw [assign_objects_of_ne (Ne.symm h)], by simp [history_assign, h]⟩

theorem quiet_send (p : Process) (s : ObjRef) (channels : List String) (msg : String) :
    Quiet p s (p.send channels msg) := by
  unfold Process.send
  split_ifs
  · exact quiet_log rfl
  · exact .refl p s

/-- The calls that do nothing to `s` themselves. -/
def Call.Spares (s : ObjRef) : Call → Prop
  | .setAttribute r _ _ => r ≠ s
  | .listener (.link _ r _ _) _ => r ≠ s
  | _ => True

theorem step_quiet (h : step p c = .ok (q, new)) (hc : c.Spares s) : Quiet p s q := by
  cases c with
  | setAttribute r name value =>
    obtain ⟨_, rfl, _⟩ := step_setAttribute_iff.mp h
    exact quiet_assign hc
  | executeAction r name args =>
    obtain ⟨_, rfl, _⟩ := step_executeAction_iff.mp h
    exact .refl q s
  | emit r e =>
    obtain ⟨rfl, _⟩ := step_emit_iff.mp h
    exact .refl q s
  | setTimeout r t value =>
    obtain ⟨rfl, _⟩ := step_setTimeout_iff.mp h
    exact ⟨sameShape_setTimeout .., rfl, rfl⟩
  | listener l e =>
    cases l with
    | link h r d config =>
      obtain ⟨v, _, rfl, _⟩ := step_link_iff.mp h
      have hne : r ≠ s := hc
      exact quiet_log (by simpa [Effect.concerns] using hne)
    | plugin =>
      obtain ⟨rfl, _⟩ := step_plugin_iff.mp h
      exact .refl q s
    | attributeChanged =>
      obtain ⟨_, _, rfl, _⟩ := step_attributeChanged_iff.mp h
      exact quiet_log rfl
    | remoteAction =>
      obtain ⟨_, ⟨_, _, _, rfl⟩ | ⟨_, rfl⟩⟩ := step_remoteAction_iff.mp h
      · exact quiet_send ..
      · exact .refl q s

variable {X Y : ObjRef → Prop}

/-- A listener that an admissible emission reaches is admissible. -/
theorem within_of_registered (ha : Away p s X Y) {l : Listener} {e' : Event}
    (hr : Registered r e' l) (hm : (e', l) ∈ p.listeners r) (he : e' = e.event)
    (hc : (Call.emit r e).Within s X Y) : (Call.listener l e).Within s X Y := by
  have hne : Y r → r ≠ s := by
    rintro hY rfl
    exact ha.apart hY
  have hY : e'.ofAction = false → Y r := by
    intro hf
    obtain ⟨hact, _⟩ | hY := hc
    · rw [← he, hf] at hact
      contradiction
    · exact hY
  cases hr with
  | attributeOf h r d config => exact ⟨hne (hY rfl), ha.linked (hY rfl) ⟨h, config, _, hm⟩⟩
  | connected h r d config => exact ⟨hne (hY rfl), ha.linked (hY rfl) ⟨h, config, _, hm⟩⟩
  | plugin type r name =>
    obtain ⟨_, hX⟩ | hY := hc
    · exact ha.driven hX ⟨name, type, hm⟩
    · exact hY
  | attributeChanged | remoteAction => trivial

/-- Calls that keep to `X` and `Y` leave `s` alone, whatever their outcome. -/
theorem quiet_invariant (hw : Wired p) (ha : Away p s X Y) :
    Cascade.Invariant step (Quiet p s) fun _ c => c.Within s X Y where
  waiting _ _ _ h := h
  state := by
    intro q c u new hq hc h
    refine hq.trans (step_quiet h ?_)
    cases c with
    | setAttribute r name value =>
      rintro rfl
      exact ha.apart hc
    | listener l e =>
      cases l with
      | link => exact hc.1
      | _ => trivial
    | _ => trivial
  calls := by
    intro q c u new hq hc h d hd
    cases c with
    | setAttribute r name value =>
      obtain ⟨_, rfl, rfl⟩ := step_setAttribute_iff.mp h
      simp only [List.mem_cons, List.not_mem_nil, or_false] at hd
      obtain rfl | rfl := hd <;> exact .inr hc
    | executeAction r name args =>
      obtain ⟨_, rfl, rfl⟩ := step_executeAction_iff.mp h
      simp only [List.mem_cons, List.not_mem_nil, or_false] at hd
      obtain rfl | rfl := hd <;> exact .inl ⟨rfl, hc⟩
    | emit r e =>
      obtain ⟨rfl, rfl⟩ := step_emit_iff.mp h
      obtain ⟨l, hl, rfl⟩ := List.mem_map.mp hd
      rw [hq.shape.listenersOf, mem_listenersOf] at hl
      exact within_of_registered ha (hw _ _ _ hl) hl rfl hc
    | setTimeout r t value =>
      obtain ⟨rfl, rfl⟩ := step_setTimeout_iff.mp h
      simp at hd
    | listener l e =>
      cases l with
      | link h r d config =>
        obtain ⟨v, _, rfl, rfl⟩ := step_link_iff.mp h
        obtain rfl := List.mem_singleton.mp hd
        exact hc.2
      | plugin type r =>
        obtain ⟨rfl, ⟨_, _, ops, _, _, rfl⟩ | ⟨_, rfl⟩⟩ := step_plugin_iff.mp h
        · obtain ⟨op, _, rfl⟩ := List.mem_map.mp hd
          cases op with
          | setAttribute => exact hc
          | setTimeout => trivial
        · simp at hd
      | attributeChanged =>
        obtain ⟨_, _, rfl, rfl⟩ := step_attributeChanged_iff.mp h
        simp at hd
      | remoteAction =>
        obtain ⟨rfl, _⟩ := step_remoteAction_iff.mp h
        simp at hd

/-- The run rule of `quiet_invariant` for the calls that complete. -/
theorem Completes.quiet (hw : Wired p) (ha : Away p s X Y) (h : Completes calls p q)
    (hc : ∀ c ∈ calls, c.Within s X Y) : Quiet p s q :=
  (quiet_invariant hw ha).exec h (.refl p s) hc

theorem HasPlugin.congr (h : SameShape p q) : HasPlugin q s ↔ HasPlugin p s := by
  simp [HasPlugin, h.listeners]

theorem Away.congr (ha : Away p s X Y) (h : q.listeners = p.listeners) : Away q s X Y where
  linked hY hL := ha.linked hY (by simpa [Linked, h] using hL)
  driven hX hP := ha.driven hX (by simpa [HasPlugin, h] using hP)
  apart := ha.apart

/-- Everything else stays away from an object that no plugin drives. -/
theorem away_of_not_hasPlugin (h : ¬HasPlugin p s) :
    Away p s (fun _ => True) fun r => r ≠ s where
  linked _ _ := trivial
  driven _ hP := by
    rintro rfl
    exact h hP
  apart := fun hs => hs rfl

/-- The links that leave the object do not lead back to it. -/
def Unfed (p : Process) (s : ObjRef) : Prop :=
  ∃ X Y, Away p s X Y ∧ ∀ d, Linked p s d → X d

theorem unfed_of_not_hasPlugin (h : ¬HasPlugin p s) : Unfed p s :=
  ⟨_, _, away_of_not_hasPlugin h, fun _ _ => trivial⟩

theorem Unfed.congr (hs : Unfed p s) (h : q.listeners = p.listeners) : Unfed q s := by
  obtain ⟨X, Y, ha, hX⟩ := hs
  exact ⟨X, Y, ha.congr h, fun d hd => hX d (by simpa [Linked, h] using hd)⟩

end MyLifeHome
