import MyLifeHome.Core.Wiring
import MyLifeHome.Library.Runs
import MyLifeHome.Nick.Writing

/-!
# A wall switch and its relay

A remote switch is linked to a `switchToButton`, which turns every value that arrives
into a press, and that to a `stepRelay`, which a press toggles. The relay toggles once
for each delivery of the first link, so the events of the switch are counted.
-/
namespace MyLifeHome

open Process Runs

/-- The three objects, under the ids and with the functions of their two links. -/
structure WallSwitch where
  id : String
  buttonId : String
  relayId : String
  switch : ObjRef
  button : ObjRef
  relay : ObjRef
  first : Nat
  second : Nat

variable {w : WallSwitch} {p q t : Process} {e : Emission} {r : ObjRef} {calls : List Call}
  {x : JsValue} {l : Listener}

namespace WallSwitch

def firstLink (w : WallSwitch) : Listener :=
  .link w.first w.switch w.button ⟨w.id, "value", w.buttonId, "input"⟩

def secondLink (w : WallSwitch) : Listener :=
  .link w.second w.button w.relay ⟨w.buttonId, "output", w.relayId, "input"⟩

/-- The values that the output of the relay has been set to. -/
def outputs (w : WallSwitch) (p : Process) : List JsValue :=
  (p.history w.relay).filterMap fun
    | .attribute _ "output" value => some value
    | _ => none

def output (w : WallSwitch) (p : Process) : JsValue := (p.objects w.relay).attributeValues "output"

/-- From `p` to `q` the output of the relay is set to the values `vs`. -/
structure Sets (w : WallSwitch) (p : Process) (vs : List JsValue) (q : Process) : Prop where
  shape : SameShape p q
  outputs : w.outputs q = w.outputs p ++ vs
  output : w.output q = vs.getLastD (w.output p)

/-- The listeners of the three objects. The output of the relay may lead on, to a lamp
say, but not back, and the other objects of the watcher lead elsewhere. -/
structure Setup (w : WallSwitch) (p : Process) : Prop where
  wired : Wired p
  remote : p.remote w.id = some w.switch
  plain : ∀ {id r}, p.remote id = some r → '|' ∉ id.toList
  others : ∃ X Y, Away p w.relay X Y ∧ ∀ id r, p.remote id = some r → id ≠ w.id → Y r
  switchClass : (p.objects w.switch).clazz = netClass [netAttribute "value" boolean]
  buttonClass : (p.objects w.button).clazz = SwitchToButton.clazz
  relayClass : (p.objects w.relay).clazz = StepRelay.clazz
  value : p.listenersOf w.switch (.attributeOf "value") = [w.firstLink]
  connected : p.listenersOf w.switch .connected = [w.firstLink]
  switchNick : p.listenersOf w.switch .attribute = []
  disonnected : p.listenersOf w.switch .disonnected = []
  buttonInput : p.listenersOf w.button (.actionOf "input") = [.plugin .switchToButton w.button]
  buttonAction : p.listenersOf w.button .action = []
  buttonOutput : p.listenersOf w.button (.attributeOf "output") = [w.secondLink]
  buttonNick : p.listenersOf w.button .attribute = [.attributeChanged w.button]
  relayInput : p.listenersOf w.relay (.actionOf "input") = [.plugin .stepRelay w.relay]
  relayAction : p.listenersOf w.relay .action = []
  relayNick : p.listenersOf w.relay .attribute = [.attributeChanged w.relay]
  onward : ∀ {t x} (online : Bool), SameShape (p.setOnline online) t →
    x = .str "off" ∨ x = .str "on" →
    ∃ u, Completes [.emit w.relay (.attributeOf "output" x)] t u ∧ w.Sets t [] u

theorem Sets.refl (w : WallSwitch) (p : Process) : w.Sets p [] p := ⟨.refl p, by simp, rfl⟩

theorem Sets.trans {vs vs' : List JsValue} (h : w.Sets p vs q) (g : w.Sets q vs' t) :
    w.Sets p (vs ++ vs') t where
  shape := h.shape.trans g.shape
  outputs := by rw [g.outputs, h.outputs, List.append_assoc]
  output := by
    rw [g.output, h.output]
    obtain rfl | ⟨vs', v, rfl⟩ := List.eq_nil_or_concat vs'
    · simp
    · rw [List.concat_eq_append, ← List.append_assoc, List.getLastD_concat, List.getLastD_concat]

theorem setOnline_remote (online : Bool) (id : String) :
    (p.setOnline online).remote id = p.remote id := by
  cases hw : p.watcher <;> simp [Process.remote, setOnline, hw]

theorem setOnline_listenersOf (online : Bool) (r : ObjRef) (e : Event) :
    (p.setOnline online).listenersOf r e = p.listenersOf r e := rfl

theorem sameShape_setOnline (h : SameShape p q) (online : Bool) :
    SameShape (p.setOnline online) (q.setOnline online) where
  id := h.id
  clazz := h.clazz
  listeners := h.listeners
  watcher := by simp [setOnline, h.watcher]
  netRepository := h.netRepository
  links := h.links
  handlers := h.handlers
  allocated := h.allocated
  trace := h.trace

/-- The setup does not depend on values, nor on whether the watcher is online. -/
theorem Setup.congr (h : w.Setup p) (hl : q.listeners = p.listeners)
    (hr : ∀ id, q.remote id = p.remote id) (hk : ∀ r, (q.objects r).clazz = (p.objects r).clazz)
    (ho : ∀ online, SameShape (p.setOnline online) (q.setOnline online)) : w.Setup q := by
  have hlisten : ∀ r e, q.listenersOf r e = p.listenersOf r e := by simp [listenersOf, hl]
  obtain ⟨X, Y, ha, hY⟩ := h.others
  exact
    { wired := by
        unfold Wired
        rw [hl]
        exact h.wired
      remote := (hr _).trans h.remote
      plain := fun hid => h.plain ((hr _).symm.trans hid)
      others := ⟨X, Y, ha.congr hl, fun id r hid => hY id r ((hr _).symm.trans hid)⟩
      switchClass := (hk _).trans h.switchClass
      buttonClass := (hk _).trans h.buttonClass
      relayClass := (hk _).trans h.relayClass
      value := (hlisten ..).trans h.value
      connected := (hlisten ..).trans h.connected
      switchNick := (hlisten ..).trans h.switchNick
      disonnected := (hlisten ..).trans h.disonnected
      buttonInput := (hlisten ..).trans h.buttonInput
      buttonAction := (hlisten ..).trans h.buttonAction
      buttonOutput := (hlisten ..).trans h.buttonOutput
      buttonNick := (hlisten ..).trans h.buttonNick
      relayInput := (hlisten ..).trans h.relayInput
      relayAction := (hlisten ..).trans h.relayAction
      relayNick := (hlisten ..).trans h.relayNick
      onward := fun online ht hx => h.onward online ((ho online).trans ht) hx }

theorem Setup.of_sameShape (h : w.Setup p) (hs : SameShape p q) : w.Setup q :=
  h.congr hs.listeners (fun _ => by rw [Process.remote, Process.remote, hs.watcher]) hs.clazz
    (sameShape_setOnline hs)

theorem Setup.setOnline (h : w.Setup p) (online : Bool) : w.Setup (p.setOnline online) := by
  refine h.congr rfl (setOnline_remote online) (fun _ => rfl) fun online' => ?_
  have heq : (p.setOnline online).setOnline online' = p.setOnline online' := by
    cases hw : p.watcher <;> simp [Process.setOnline, hw]
  rw [heq]
  exact .refl _

theorem Setup.watcher (h : w.Setup p) : p.watcher.isSome := by
  have hr := h.remote
  cases hw : p.watcher with
  | none => simp [Process.remote, hw] at hr
  | some x => rfl

/-! ## Calls that set nothing -/

theorem sets_log {y : Effect} (h : w.outputs (p.log y) = w.outputs p) : w.Sets p [] (p.log y) :=
  ⟨sameShape_log p y, by simpa using h, rfl⟩

theorem sets_assign (h : r ≠ w.relay) (name : String) (x : JsValue) : w.Sets p [] (p.assign r name x) := by
  refine ⟨sameShape_assign .., ?_, ?_⟩
  · simp [outputs, history_assign, h]
  · simp [output, assign_objects_of_ne (Ne.symm h)]

theorem sets_assign_relay : w.Sets p [x] (p.assign w.relay "output" x) :=
  ⟨sameShape_assign .., by simp [outputs, history_assign], by simp [output]⟩

/-! ## One emission -/

theorem completes_emit_nil (h : p.listenersOf r e.event = []) : Completes [.emit r e] p p :=
  .single (step_emit_iff.mpr ⟨rfl, rfl⟩) (by rw [h]; exact .nil p)

theorem completes_emit_one (h : p.listenersOf r e.event = [l])
    (hl : Completes [.listener l e] p q) : Completes [.emit r e] p q :=
  .single (step_emit_iff.mpr ⟨rfl, rfl⟩) (by rw [h]; exact hl)

/-- A plugin publishes its new nick and that is all. -/
theorem sets_attributeChanged {k : NetClass} (hk : (p.objects r).clazz = k)
    (hattr : ∀ m ∈ k.attributes, (k.attribute m.name).isOk = true) :
    ∃ q, Completes [.listener (.attributeChanged r) e] p q ∧ w.Sets p [] q := by
  subst hk
  have htype : ∀ m ∈ (p.objects r).clazz.attributes,
      ∃ type, (p.objects r).clazz.attribute m.name = .ok type := by
    intro m hm
    have hok := hattr m hm
    cases ht : (p.objects r).clazz.attribute m.name with
    | ok type => exact ⟨type, rfl⟩
    | error e => simp [ht, Except.isOk, Except.toBool] at hok
  have hn := makeNick_eq_ok_iff.mpr ⟨htype, rfl⟩
  exact ⟨_, .single (step_attributeChanged_iff.mpr ⟨_, hn, rfl, rfl⟩) (.nil _),
    sets_log (by simp [outputs, history_log, Effect.concerns])⟩

/-- An accepted assignment whose two emissions complete. -/
theorem completes_setAttribute {name : String}
    (hc : (p.objects r).checkAttribute name x = .ok ())
    (h1 : Completes [.emit r (.attributeOf name x)] (p.assign r name x) q)
    (h2 : Completes [.emit r (.attribute name x)] q t) :
    Completes [.setAttribute r name x] p t :=
  .single (step_setAttribute_iff.mpr ⟨hc, rfl, rfl⟩) (h1.append h2)

theorem completes_executeAction {name : String} {args : List JsValue}
    (hc : (p.objects r).checkAction name args = .ok ())
    (h1 : Completes [.emit r (.actionOf name args)] p q)
    (h2 : q.listenersOf r .action = []) : Completes [.executeAction r name args] p q :=
  .single (step_executeAction_iff.mpr ⟨hc, rfl, rfl⟩)
    (h1.append (completes_emit_nil (e := .action name args) h2))

/-! ## The relay -/

theorem checkAttribute_of_clazz {o : NetObject} {k : NetClass} {name : String} (hk : o.clazz = k)
    (hc : (netObject "" k).checkAttribute name x = .ok ()) : o.checkAttribute name x = .ok () := by
  rwa [NetObject.checkAttribute_congr (show o.clazz = (netObject "" k).clazz from hk)]

theorem checkAction_of_clazz {o : NetObject} {k : NetClass} {name : String} {args : List JsValue}
    (hk : o.clazz = k) (hc : (netObject "" k).checkAction name args = .ok ()) :
    o.checkAction name args = .ok () := by
  rwa [NetObject.checkAction_congr (show o.clazz = (netObject "" k).clazz from hk)]

/-- Setting the output of the relay passes it on and publishes it. -/
theorem Setup.set_relay (h : w.Setup p) (hx : x = .str "off" ∨ x = .str "on") :
    ∃ q, Completes [.setAttribute w.relay "output" x] p q ∧ w.Sets p [x] q := by
  have hc : (p.objects w.relay).checkAttribute "output" x = .ok () :=
    checkAttribute_of_clazz h.relayClass (by obtain rfl | rfl := hx <;> decide)
  have s0 := sets_assign_relay (w := w) (p := p) (x := x)
  obtain ⟨u, h1, s1⟩ := h.onward p.online (by rw [setOnline_online h.watcher]; exact s0.shape) hx
  have hu := h.of_sameShape (s0.trans s1).shape
  obtain ⟨v, h2, s2⟩ := sets_attributeChanged (w := w) (e := .attribute "output" x) hu.relayClass
    (by decide)
  exact ⟨v, completes_setAttribute hc h1 (completes_emit_one hu.relayNick h2),
    by simpa using (s0.trans s1).trans s2⟩

/-- Only `on` toggles the relay. -/
theorem Setup.input_relay (h : w.Setup p) (hx : x = .str "off" ∨ x = .str "on") :
    ∃ q, Completes [.executeAction w.relay "input" [x]] p q ∧
      w.Sets p (if x = .str "on" then [StepRelay.toggled (w.output p)] else []) q := by
  have hc : (p.objects w.relay).checkAction "input" [x] = .ok () :=
    checkAction_of_clazz h.relayClass (by obtain rfl | rfl := hx <;> decide)
  obtain ⟨q, hq, s⟩ : ∃ q, Completes [.listener (.plugin .stepRelay w.relay)
      (.actionOf "input" [x])] p q ∧
      w.Sets p (if x = .str "on" then [StepRelay.toggled (w.output p)] else []) q := by
    obtain rfl | rfl := hx
    · exact ⟨p, .single (step_plugin_iff.mpr ⟨rfl, .inl ⟨_, _, [], rfl, rfl, rfl⟩⟩) (.nil p),
        .refl w p⟩
    · have hget : (p.objects w.relay).getAttribute "output" = .ok (w.output p) :=
        NetObject.getAttribute_eq_ok_iff.mpr ⟨⟨boolean, by rw [h.relayClass]; decide⟩, rfl⟩
      have hon : PluginType.stepRelay.onAction (p.objects w.relay) "input" [.str "on"] =
          .ok [.setAttribute "output" (StepRelay.toggled (w.output p))] := by
        simp [PluginType.onAction, StepRelay.input, firstArg, hget, bind, Except.bind, pure,
          Except.pure]
      obtain ⟨q, hq, s⟩ := h.set_relay (x := StepRelay.toggled (w.output p)) (by
        unfold StepRelay.toggled
        split_ifs
        · exact .inl rfl
        · exact .inr rfl)
      exact ⟨q, .single (step_plugin_iff.mpr ⟨rfl, .inl ⟨_, _, _, rfl, hon, rfl⟩⟩) hq,
        by simpa using s⟩
  exact ⟨q, completes_executeAction hc (completes_emit_one h.relayInput hq)
    (h.of_sameShape s.shape).relayAction, s⟩

/-! ## The button -/

theorem Setup.button_ne_relay (h : w.Setup p) : w.button ≠ w.relay := by
  intro heq
  have hk := h.buttonClass
  rw [heq, h.relayClass] at hk
  exact absurd hk (by decide)

theorem Setup.set_button (h : w.Setup p) (hx : x = .str "off" ∨ x = .str "on") :
    ∃ q, Completes [.setAttribute w.button "output" x] p q ∧
      w.Sets p (if x = .str "on" then [StepRelay.toggled (w.output p)] else []) q := by
  have hc : (p.objects w.button).checkAttribute "output" x = .ok () :=
    checkAttribute_of_clazz h.buttonClass (by obtain rfl | rfl := hx <;> decide)
  have s0 := sets_assign (p := p) h.button_ne_relay "output" x
  have hval : linkValue ((p.assign w.button "output" x).objects w.button) "output" x = .ok x := by
    obtain rfl | rfl := hx <;> rfl
  have s1 := s0.trans (sets_log (w := w) (p := p.assign w.button "output" x)
    (y := .execute w.second w.button w.relay "input" x) (by simp [outputs, history_log, Effect.concerns]))
  have h1 := h.of_sameShape s1.shape
  obtain ⟨u, hu, s2⟩ := h1.input_relay hx
  have s12 := s1.trans s2
  obtain ⟨v, hv, s3⟩ := sets_attributeChanged (w := w) (e := .attribute "output" x)
    (h.of_sameShape s12.shape).buttonClass (by decide)
  have hlink : Completes [.listener w.secondLink (.attributeOf "output" x)]
      (p.assign w.button "output" x) u :=
    .single (step_link_iff.mpr ⟨x, hval, rfl, rfl⟩) hu
  refine ⟨v, completes_setAttribute hc
    (completes_emit_one (h.of_sameShape s0.shape).buttonOutput hlink)
    (completes_emit_one (h.of_sameShape s12.shape).buttonNick hv), ?_⟩
  have s := s12.trans s3
  have hout : w.output ((p.assign w.button "output" x).log
      (.execute w.second w.button w.relay "input" x)) = w.output p := s1.output
  rw [hout] at s
  simpa using s

/-- A press toggles the relay once, whatever the value is. -/
theorem Setup.press (h : w.Setup p) (hx : checkArg x boolean = .ok ()) :
    ∃ q, Completes [.executeAction w.button "input" [x]] p q ∧
      w.Sets p [StepRelay.toggled (w.output p)] q := by
  have hc : (p.objects w.button).checkAction "input" [x] = .ok () :=
    NetObject.checkAction_eq_ok_iff.mpr ⟨[boolean], by rw [h.buttonClass]; decide, rfl, by simpa⟩
  obtain ⟨u, hu, s1⟩ := h.set_button (x := .str "on") (.inr rfl)
  obtain ⟨v, hv, s2⟩ := (h.of_sameShape s1.shape).set_button (x := .str "off") (.inl rfl)
  have s := s1.trans s2
  have hplugin : Completes [.listener (.plugin .switchToButton w.button) (.actionOf "input" [x])]
      p v :=
    .single (step_plugin_iff.mpr ⟨rfl, .inl ⟨_, _, SwitchToButton.input, rfl, rfl, rfl⟩⟩)
      (hu.append hv)
  exact ⟨v, completes_executeAction hc (completes_emit_one h.buttonInput hplugin)
    (h.of_sameShape s.shape).buttonAction, by simpa using s⟩

/-! ## The switch -/

theorem Setup.switch_ne_relay (h : w.Setup p) : w.switch ≠ w.relay := by
  intro heq
  have hk := h.switchClass
  rw [heq, h.relayClass] at hk
  exact absurd hk (by decide)

/-- The first link presses the button with what it is given, or with what it finds. -/
theorem Setup.deliver (h : w.Setup p) (hs : (p.objects w.switch).Sound "value")
    (he : e.value = .undefined ∨ checkArg e.value boolean = .ok ()) :
    ∃ q, Completes [.listener w.firstLink e] p q ∧
      w.Sets p [StepRelay.toggled (w.output p)] q := by
  have htype : (p.objects w.switch).clazz.attribute "value" = .ok boolean := by
    rw [h.switchClass]
    decide
  obtain ⟨y, hy, hc⟩ : ∃ y, linkValue (p.objects w.switch) "value" e.value = .ok y ∧
      checkArg y boolean = .ok () := by
    unfold linkValue
    split_ifs with hu
    · refine ⟨_, NetObject.getAttribute_eq_ok_iff.mpr ⟨⟨boolean, htype⟩, rfl⟩, ?_⟩
      obtain ⟨type, ht, hc⟩ := NetObject.checkAttribute_eq_ok_iff.mp hs
      rw [htype] at ht
      exact Except.ok.inj ht ▸ hc
    · exact ⟨_, rfl, he.resolve_left hu⟩
  have s0 := sets_log (w := w) (p := p) (y := .execute w.first w.switch w.button "input" y)
    (by simp [outputs, history_log, Effect.concerns])
  obtain ⟨q, hq, s1⟩ := (h.of_sameShape s0.shape).press hc
  refine ⟨q, .single (step_link_iff.mpr ⟨y, hy, rfl, rfl⟩) hq, ?_⟩
  have hout : w.output (p.log (.execute w.first w.switch w.button "input" y)) = w.output p :=
    s0.output
  rw [hout] at s1
  exact s0.trans s1

/-- A new value of the switch toggles the relay. -/
theorem Setup.set_switch (h : w.Setup p) (hx : checkArg x boolean = .ok ()) :
    ∃ q, Completes [.setAttribute w.switch "value" x] p q ∧
      w.Sets p [StepRelay.toggled (w.output p)] q ∧ (q.objects w.switch).Sound "value" := by
  have hc : (p.objects w.switch).checkAttribute "value" x = .ok () :=
    NetObject.checkAttribute_eq_ok_iff.mpr ⟨boolean, by rw [h.switchClass]; decide, hx⟩
  have s0 := sets_assign (p := p) h.switch_ne_relay "value" x
  have h0 := h.of_sameShape s0.shape
  have hs0 : ((p.assign w.switch "value" x).objects w.switch).Sound "value" := by
    simpa [NetObject.Sound, NetObject.checkAttribute] using hc
  obtain ⟨q, hq, s1⟩ := h0.deliver (e := .attributeOf "value" x) hs0 (.inr hx)
  have s := s0.trans s1
  rw [s0.output] at s
  refine ⟨q, completes_setAttribute hc (completes_emit_one h0.value hq)
    (completes_emit_nil (e := .attribute "value" x) (h.of_sameShape s.shape).switchNick),
    by simpa using s, Completes.sound hq hs0⟩

/-- When it connects it toggles the relay again. -/
theorem Setup.connect (h : w.Setup p) (hs : (p.objects w.switch).Sound "value") :
    ∃ q, Completes [.emit w.switch .connected] p q ∧
      w.Sets p [StepRelay.toggled (w.output p)] q := by
  obtain ⟨q, hq, s⟩ := h.deliver (e := .connected) hs (.inl rfl)
  exact ⟨q, completes_emit_one (e := .connected) h.connected hq, s⟩

/-- What an event of the switch does to the relay. -/
def toggles (v : JsValue) : NickEvent → List JsValue
  | .online _ => [StepRelay.toggled v, StepRelay.toggled (StepRelay.toggled v)]
  | .changed _ _ | .offline _ => [StepRelay.toggled v]

/-- The value that an event gives to the switch. -/
def received : NickEvent → JsValue
  | .online nick | .changed _ nick => match nickValues nick with
    | v :: _ => .str v
    | [] => .undefined
  | .offline _ => .null

theorem assignments_switch (ev : NickEvent) :
    ev.assignments (netClass [netAttribute "value" boolean]) = [("value", received ev)] := by
  cases ev with
  | offline nick => rfl
  | online nick | changed _ nick =>
    cases hv : nickValues nick <;>
      simp only [NickEvent.assignments, NickEvent.values, received, hv] <;> rfl

theorem calls_switch (h : w.Setup p) {ev : NickEvent} (hid : nickId ev.nick = w.id) :
    ev.calls p = (if ev.values = none then [.emit w.switch .disonnected] else []) ++
      (.setAttribute w.switch "value" (received ev) ::
        if ev.isOnline then [.emit w.switch .connected] else []) := by
  rw [calls_eq (hid ▸ h.remote), h.switchClass, assignments_switch]
  rfl

/-- An event of the switch completes when its value is one of the switch. -/
theorem Setup.event (h : w.Setup p) {ev : NickEvent} (hid : nickId ev.nick = w.id)
    (hx : checkArg (received ev) boolean = .ok ()) :
    ∃ q, Completes (ev.calls p) p q ∧ w.Sets p (toggles (w.output p) ev) q := by
  obtain ⟨u, hu, s1, hs⟩ := h.set_switch hx
  rw [calls_switch h hid]
  cases ev with
  | online nick =>
    obtain ⟨q, hq, s2⟩ := (h.of_sameShape s1.shape).connect hs
    refine ⟨q, hu.append hq, ?_⟩
    have s := s1.trans s2
    rwa [s1.output] at s
  | changed oldNick nick => exact ⟨u, hu, s1⟩
  | offline nick => exact ⟨u, (completes_emit_nil (e := .disonnected) h.disonnected).append hu, s1⟩

theorem Setup.event_sets (h : w.Setup p) (ev : NickEvent) (hid : nickId ev.nick = w.id)
    (hq : Completes (ev.calls p) p q) : w.Sets p (toggles (w.output p) ev) q := by
  have hx : checkArg (received ev) boolean = .ok () := by
    have hcalls := hq
    rw [calls_switch h hid] at hcalls
    obtain ⟨u, h1, h2⟩ := Cascade.exec_append_iff.mp hcalls
    obtain ⟨_, _, _, hstep, _, _⟩ := Cascade.exec_cons_iff.mp h2
    obtain ⟨type, ht, hc⟩ :=
      NetObject.checkAttribute_eq_ok_iff.mp (step_setAttribute_iff.mp hstep).1
    rw [(Completes.sameShape h1).clazz, h.switchClass] at ht
    have hboolean : type = boolean := by
      have htype : (netClass [netAttribute "value" boolean]).attribute "value" = .ok boolean := rfl
      exact (Except.ok.inj (htype.symm.trans ht)).symm
    exact hboolean ▸ hc
  obtain ⟨t, ht, s⟩ := h.event hid hx
  rwa [Cascade.Exec.deterministic hq ht]

/-! ## Closing the connection -/

theorem Quiet.sets (h : Quiet p w.relay q) : w.Sets p [] q where
  shape := h.shape
  outputs := by simp [outputs, h.history]
  output := by simp [output, h.values]

/-- The objects go offline one after another, and the switch is one of them. -/
theorem Setup.offline (h : w.Setup p) {ids : List String} (hn : ids.Nodup)
    (hids : ∀ id ∈ ids, '|' ∉ id.toList) (hq : Completes (ids.flatMap p.nickOffline) p q) :
    w.Sets p (if w.id ∈ ids then [StepRelay.toggled (w.output p)] else []) q := by
  induction ids generalizing p with
  | nil =>
    obtain rfl := Cascade.exec_nil_iff.mp hq
    exact .refl w q
  | cons id ids ih =>
    rw [List.flatMap_cons] at hq
    obtain ⟨u, h1, h2⟩ := Cascade.exec_append_iff.mp hq
    have hs := Completes.sameShape h1
    have hcalls : ids.flatMap p.nickOffline = ids.flatMap u.nickOffline := by
      refine List.flatMap_congr fun n _ => ?_
      simp only [nickOffline, Process.remote, hs.watcher, hs.clazz]
    rw [hcalls] at h2
    have hnick : nickId id = id := Text.upTo_of_notMem (hids id (by simp))
    have hrest := ih (h.of_sameShape hs) hn.of_cons (fun i hi => hids i (by simp [hi])) h2
    by_cases heq : id = w.id
    · have s1 : w.Sets p [StepRelay.toggled (w.output p)] u :=
        h.event_sets (.offline id) (hnick.trans heq) h1
      have hnot : w.id ∉ ids := heq ▸ (List.nodup_cons.mp hn).1
      rw [if_neg hnot] at hrest
      simpa [heq] using s1.trans hrest
    · have s1 : w.Sets p [] u := by
        refine Quiet.sets ?_
        obtain ⟨X, Y, ha, hY⟩ := h.others
        refine Completes.quiet h.wired ha h1 fun c hc => ?_
        unfold nickOffline at hc
        rw [hnick] at hc
        cases hr : p.remote id with
        | none => simp [hr] at hc
        | some r =>
          have hYr := hY id r hr heq
          simp only [hr, setAttributes_eq, List.mem_cons, List.mem_map] at hc
          obtain rfl | ⟨a, _, rfl⟩ := hc
          · exact .inr hYr
          · exact hYr
      have s := s1.trans hrest
      rw [s1.output] at s
      simpa [Ne.symm heq] using s

/-- Losing the connection toggles the relay, when it is lost. -/
theorem Setup.closed (h : w.Setup p) (hq : p.Handles .closed q) :
    w.Setup q ∧ w.outputs q =
      w.outputs p ++ if p.online then [StepRelay.toggled (w.output p)] else [] := by
  have hq : Completes p.connectionClosed.2 p.connectionClosed.1 q := hq
  obtain ⟨x, hx⟩ := Option.isSome_iff_exists.mp h.watcher
  unfold connectionClosed at hq
  simp only [hx] at hq
  have hon : p.online = x.online := by simp [online, hx]
  rw [hon]
  cases hb : x.online with
  | false =>
    simp only [hb, Bool.false_eq_true, if_false] at hq
    obtain rfl := Cascade.exec_nil_iff.mp hq
    exact ⟨h, by simp⟩
  | true =>
    simp only [hb, if_true] at hq
    have hoffline : p.nickOffline = (p.setOnline false).nickOffline := by
      funext nick
      simp only [nickOffline, setOnline_remote]
      rfl
    rw [hoffline] at hq
    have hget : ∀ {id}, id ∈ x.objects.keys ↔ (p.remote id).isSome := by
      intro id
      rw [← Dictionary.get_isSome_iff]
      simp [Process.remote, hx]
    have hplain : ∀ id ∈ x.objects.keys, '|' ∉ id.toList := by
      intro id hid
      obtain ⟨r, hr⟩ := Option.isSome_iff_exists.mp (hget.mp hid)
      exact h.plain hr
    have s := (h.setOnline false).offline x.objects.nodup_keys hplain hq
    have hmem : w.id ∈ x.objects.keys := hget.mpr (by rw [h.remote]; rfl)
    rw [if_pos hmem] at s
    exact ⟨(h.setOnline false).of_sameShape s.shape, s.outputs⟩

/-! ## Runs -/

/-- What the watcher reports about the switch. -/
inductive Report where
  | nick (ev : NickEvent)
  | closed

/-- The last known value of the switch. -/
def learn (known : Option String) (ev : NickEvent) : Option String :=
  match received ev with
  | .str v => if v = "off" ∨ v = "on" then some v else known
  | _ => known

/-- The event changes the value from a known one to the other. -/
def changes (known : Option String) : Report → Bool
  | .nick ev => known.isSome && learn known ev != known
  | .closed => false

/-- The process with the last known value of the switch. -/
abbrev Scene := Process × Option String

/-- The watcher handles a report to its end. -/
def Step (w : WallSwitch) (s : Scene) : Report → Scene → Prop
  | .nick ev, t => nickId ev.nick = w.id ∧ Completes (ev.calls s.1) s.1 t.1 ∧ t.2 = learn s.2 ev
  | .closed, t => s.1.Handles .closed t.1 ∧ t.2 = s.2

/-- The relay is inverted once if the value of the switch has changed, else not at all. -/
def Inverts (w : WallSwitch) (s : Scene) (e : Report) (t : Scene) : Prop :=
  w.outputs t.1 =
    w.outputs s.1 ++ if changes s.2 e then [StepRelay.toggled (w.output s.1)] else []

/-- The nick of the switch changes from its last known value to the other one, or the
connection that is closed was lost before. -/
def Flip (s : Scene) : Report → Prop
  | .nick (.changed oldNick nick) => changes s.2 (.nick (.changed oldNick nick)) = true
  | .nick _ => False
  | .closed => s.1.online = false

theorem changes_offline (known : Option String) (nick : String) :
    changes known (.nick (.offline nick)) = false := by
  simp [changes, learn, received]

variable {s u : Scene} {report : Report}

theorem Setup.step (h : w.Setup s.1) (hs : w.Step s report u) :
    w.Setup u.1 ∧ (w.Inverts s report u ↔ Flip s report) := by
  cases report with
  | closed =>
    obtain ⟨hu, ho⟩ := h.closed hs.1
    refine ⟨hu, ?_⟩
    rw [Inverts, ho]
    cases hon : s.1.online <;> simp [changes, Flip, hon]
  | nick ev =>
    have hset := h.event_sets ev hs.1 hs.2.1
    refine ⟨h.of_sameShape hset.shape, ?_⟩
    rw [Inverts, hset.outputs, List.append_cancel_left_eq]
    cases ev with
    | online nick =>
      refine iff_of_false ?_ fun hf => hf
      split_ifs <;> simp [toggles]
    | changed oldNick nick =>
      cases hc : changes s.2 (.nick (.changed oldNick nick)) <;> simp [toggles, Flip, hc]
    | offline nick => simp [toggles, Flip, changes_offline]

/-- The runs in which the relay is inverted once for each flip of the switch, and by
nothing else, are the runs of changes from the last known value to the other one. -/
theorem inverts_iff (hp : w.Setup p) {known : Option String} {reports : List Report} :
    Steps (fun s e t => w.Step s e t ∧ w.Inverts s e t) (p, known) reports u ↔
      Steps (guarded Flip w.Step) (p, known) reports u :=
  steps_and_iff_guarded (P := fun s : Scene => w.Setup s.1) (fun h hs _ => (h.step hs).1)
    (fun h hs => (h.step hs).2) hp

/-! ## A switch, a button and a relay -/

def scene : WallSwitch := ⟨"s", "b", "r", 0, 1, 2, 0, 1⟩

/-- The object of a plugin, with the function of its action `input`. -/
def plugged (p : Process) (type : PluginType) (id : String) : Process :=
  let o := (netObject id type.clazz).assign "output" (.str "off")
  ((p.alloc o).on p.allocated (.actionOf "input") (.plugin type p.allocated)).on p.allocated
    .attribute (.attributeChanged p.allocated)

theorem wired_plugged {type : PluginType} {id : String} (h : Wired p) :
    Wired (plugged p type id) :=
  ((h.of_fewer (fewer_alloc _)).on (.plugin ..)).on (.attributeChanged _)

def switchProcess : Process :=
  ((Process.empty.alloc (netObject "s" (netClass [netAttribute "value" boolean]))).publishRemote 0
    ["#home"]).1

/-- The two functions, registered as `links.create` does. -/
def linked (w : WallSwitch) (p : Process) : Process :=
  (((p.on w.switch (.attributeOf "value") w.firstLink).on w.switch .connected w.firstLink).on
    w.button (.attributeOf "output") w.secondLink).on w.button .connected w.secondLink

theorem wired_linked (h : Wired p) : Wired (w.linked p) := by
  have h1 := h.on (Registered.attributeOf w.first w.switch w.button
    ⟨w.id, "value", w.buttonId, "input"⟩)
  have h2 := h1.on (.connected w.first w.switch w.button ⟨w.id, "value", w.buttonId, "input"⟩)
  have h3 := h2.on (.attributeOf w.second w.button w.relay
    ⟨w.buttonId, "output", w.relayId, "input"⟩)
  exact h3.on (.connected w.second w.button w.relay ⟨w.buttonId, "output", w.relayId, "input"⟩)

def sceneProcess : Process :=
  scene.linked (plugged (plugged switchProcess .switchToButton "b") .stepRelay "r")

theorem sceneProcess_remote {id : String} {r : ObjRef} (h : sceneProcess.remote id = some r) :
    id = "s" := by
  have h : (Dictionary.empty.set "s" (0 : ObjRef)).get id = some r := h
  rw [Dictionary.get_set] at h
  split_ifs at h with hid
  · exact hid
  · simp at h

theorem sceneProcess_setup : scene.Setup sceneProcess where
  wired := wired_linked
    (wired_plugged (wired_plugged (wired_empty.of_fewer (fewer_alloc _)).publishRemote))
  remote := by decide
  plain hid := by
    rw [sceneProcess_remote hid]
    decide
  others := ⟨fun _ => False, fun _ => False, ⟨fun h _ => h, fun h _ => h, fun h => h⟩,
    fun id r hid hne => hne (sceneProcess_remote hid)⟩
  switchClass := rfl
  buttonClass := rfl
  relayClass := rfl
  value := by decide
  connected := by decide
  switchNick := by decide
  disonnected := by decide
  buttonInput := by decide
  buttonAction := by decide
  buttonOutput := by decide
  buttonNick := by decide
  relayInput := by decide
  relayAction := by decide
  relayNick := by decide
  onward {t x} online ht _ := by
    have hnil : t.listenersOf scene.relay (.attributeOf "output") = [] := by
      rw [ht.listenersOf, setOnline_listenersOf]
      decide
    exact ⟨t, completes_emit_nil (e := .attributeOf "output" x) hnil, .refl scene t⟩

/-- What an event leaves of a scene, within 60 calls. -/
def afterEvent (p : Process) (ev : NickEvent) : Process :=
  (Cascade.run step 60 (ev.calls p) p).state

theorem step_afterEvent {ev : NickEvent} {known : Option String} (hid : nickId ev.nick = scene.id)
    (hrun : (Cascade.run MyLifeHome.step 60 (ev.calls p) p).isDone = true) :
    scene.Step (p, known) (.nick ev) (afterEvent p ev, learn known ev) :=
  ⟨hid, Cascade.exec_of_isDone hrun, rfl⟩

/-- The switch goes from off to on. -/
theorem inverts_flip :
    Steps (fun s e t => scene.Step s e t ∧ scene.Inverts s e t) (sceneProcess, some "off")
      [.nick (.changed "s|off" "s|on")]
      (afterEvent sceneProcess (.changed "s|off" "s|on"), some "on") :=
  (inverts_iff sceneProcess_setup).mpr
    (.cons ⟨(by decide : changes (some "off") _ = true), step_afterEvent (by decide) (by decide)⟩
      (.nil _))

/-- The switch is lost and comes back with the value it had, and the relay is inverted. -/
theorem relay_inverted_on_return :
    ¬ ∀ (w : WallSwitch) (p : Process) (v nick : String) (u : Scene), w.Setup p →
      nickValues nick = [v] →
      Steps w.Step (p, some v) [.nick (.offline nick), .nick (.online nick)] u →
      w.output u.1 = w.output p := by
  intro hall
  have hkept := hall scene sceneProcess "off" "s|off" _ sceneProcess_setup (by decide)
    (.cons (step_afterEvent (by decide) (by decide))
      (.cons (step_afterEvent (by decide) (by decide)) (.nil _)))
  exact absurd hkept (by decide)

end WallSwitch

end MyLifeHome
