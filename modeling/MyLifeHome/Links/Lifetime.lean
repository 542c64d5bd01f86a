import MyLifeHome.Library.Runs
import MyLifeHome.Links.Registry

/-!
# The life of a link

Links are created and destroyed while their sources change and connect. The function of
a link is registered for two events of the source and `destroy` removes it from one of
them, so it is gone only for sources that never connect again.
-/
namespace MyLifeHome

open Process Runs

variable {p q : Process} {h : Nat} {id : String} {link : Link}

/-- What the function with the number has executed. -/
def Process.executions (p : Process) (h : Nat) : List Effect := p.trace.filter (Effect.byHandler h)

/-- The function belongs to a link of `list()`. -/
def Process.Live (p : Process) (h : Nat) : Prop :=
  ∃ id link, p.links.get id = some link ∧ link.handler = h

/-- A process together with the sources of the links that have been destroyed. -/
structure Session where
  process : Process
  destroyed : List ObjRef

namespace Session

inductive Op where
  | create (config : LinkConfig)
  | destroy (id : String)
  | setAttribute (object : ObjRef) (name : String) (value : JsValue)
  | connected (object : ObjRef)

def destroy (s : Session) (id : String) : Session where
  process := (Links.destroy s.process id).1
  destroyed := ((s.process.links.get id).map Link.source).toList ++ s.destroyed

/-- The calls go as far as they go: to their end, or to an exception, or not yet there. -/
def Performs (s : Session) (c : Call) (t : Session) : Prop :=
  ∃ n, t.process = (Cascade.run step n [c] s.process).state ∧ t.destroyed = s.destroyed

/-- One operation. A failed `create` changes nothing. -/
def Step (s : Session) : Op → Session → Prop
  | .create config, t => match Links.create s.process config with
    | .ok (p, _) => t = ⟨p, s.destroyed⟩
    | .error _ => t = s
  | .destroy id, t => t = s.destroy id
  | .setAttribute r name value, t => s.Performs (.setAttribute r name value) t
  | .connected r, t => s.Performs (.emit r .connected) t

/-- The object that connects has never been the source of a link that was destroyed. -/
def Intact (s : Session) : Op → Prop
  | .connected r => r ∉ s.destroyed
  | _ => True

/-- A function that is still registered belongs to a live link or waits for the source
of a destroyed one to connect. -/
structure Inv (s : Session) : Prop where
  wired : LinksWired s.process
  live : ∀ {r e l h}, (e, l) ∈ s.process.listeners r → l.handler? = some h →
    s.process.Live h ∨ (e = .connected ∧ r ∈ s.destroyed)

end Session

/-! ## One cascade -/

variable {s t u : Session}

/-- The calls that reach no function of a destroyed link. -/
def Call.Reaches (s : Session) : Call → Prop
  | .emit r e => e = .connected → r ∉ s.destroyed
  | .listener l _ => ∀ h, l.handler? = some h → s.process.Live h
  | _ => True

/-- Only functions of live links have executed anything. -/
structure Kept (p q : Process) : Prop where
  shape : SameShape p q
  executions : ∀ h, ¬p.Live h → q.executions h = p.executions h

theorem Kept.refl (p : Process) : Kept p p := ⟨.refl p, fun _ _ => rfl⟩

theorem executions_log (x : Effect) :
    (p.log x).executions h = p.executions h ++ if x.byHandler h then [x] else [] := by
  cases hx : x.byHandler h <;> simp [Process.executions, Process.log, hx]

theorem Kept.log {x : Effect} (hk : Kept p q) (hx : ∀ h, x.byHandler h = true → p.Live h) :
    Kept p (q.log x) := by
  refine ⟨hk.shape.trans (sameShape_log q x), fun h hh => ?_⟩
  have hnot : x.byHandler h = false := by
    rw [← Bool.not_eq_true]
    exact mt (hx h) hh
  rw [executions_log, hnot, hk.executions h hh]
  simp

theorem Kept.of_trace_eq {q' : Process} (hk : Kept p q) (hs : SameShape q q')
    (ht : ∀ h, q'.executions h = q.executions h) : Kept p q' :=
  ⟨hk.shape.trans hs, fun h hh => (ht h).trans (hk.executions h hh)⟩

/-- A cascade that starts away from destroyed links stays away from them. -/
theorem kept_invariant (hi : s.Inv) :
    Cascade.Invariant step (Kept s.process) fun _ c => c.Reaches s where
  waiting _ _ _ h := h
  state := by
    intro q c u new hk hc h
    cases c with
    | setAttribute r name value =>
      obtain ⟨_, rfl, _⟩ := step_setAttribute_iff.mp h
      exact hk.of_trace_eq (sameShape_assign ..) fun h => by
        simp [Process.executions, Process.assign, Effect.byHandler]
    | executeAction r name args =>
      obtain ⟨_, rfl, _⟩ := step_executeAction_iff.mp h
      exact hk
    | emit r e =>
      obtain ⟨rfl, _⟩ := step_emit_iff.mp h
      exact hk
    | setTimeout r t value =>
      obtain ⟨rfl, _⟩ := step_setTimeout_iff.mp h
      exact hk.of_trace_eq (sameShape_setTimeout ..) fun _ => rfl
    | listener l e =>
      cases l with
      | link k r d config =>
        obtain ⟨v, _, rfl, _⟩ := step_link_iff.mp h
        refine hk.log fun j hj => ?_
        obtain rfl : k = j := by simpa [Effect.byHandler] using hj
        exact hc k rfl
      | plugin =>
        obtain ⟨rfl, _⟩ := step_plugin_iff.mp h
        exact hk
      | attributeChanged =>
        obtain ⟨_, _, rfl, _⟩ := step_attributeChanged_iff.mp h
        exact hk.log fun j hj => by simp [Effect.byHandler] at hj
      | remoteAction r channels =>
        obtain ⟨_, ⟨_, _, _, rfl⟩ | ⟨_, rfl⟩⟩ := step_remoteAction_iff.mp h
        · unfold Process.send
          split_ifs
          · exact hk.log fun j hj => by simp [Effect.byHandler] at hj
          · exact hk
        · exact hk
  calls := by
    intro q c u new hk hc h d hd
    cases c with
    | setAttribute r name value =>
      obtain ⟨_, _, rfl⟩ := step_setAttribute_iff.mp h
      simp only [List.mem_cons, List.not_mem_nil, or_false] at hd
      obtain rfl | rfl := hd <;> (intro he; cases he)
    | executeAction r name args =>
      obtain ⟨_, _, rfl⟩ := step_executeAction_iff.mp h
      simp only [List.mem_cons, List.not_mem_nil, or_false] at hd
      obtain rfl | rfl := hd <;> (intro he; cases he)
    | emit r e =>
      obtain ⟨_, rfl⟩ := step_emit_iff.mp h
      obtain ⟨l, hl, rfl⟩ := List.mem_map.mp hd
      rw [hk.shape.listenersOf, mem_listenersOf] at hl
      intro k hh
      obtain hlive | ⟨he, hr⟩ := hi.live hl hh
      · exact hlive
      · have hconn : e = .connected := by cases e <;> first | rfl | cases he
        exact absurd hr (hc hconn)
    | setTimeout r t value =>
      obtain ⟨_, rfl⟩ := step_setTimeout_iff.mp h
      simp at hd
    | listener l e =>
      cases l with
      | link h r d config =>
        obtain ⟨v, _, _, rfl⟩ := step_link_iff.mp h
        obtain rfl := List.mem_singleton.mp hd
        trivial
      | plugin type r =>
        obtain ⟨_, ⟨_, _, ops, _, _, rfl⟩ | ⟨_, rfl⟩⟩ := step_plugin_iff.mp h
        · obtain ⟨op, _, rfl⟩ := List.mem_map.mp hd
          cases op <;> trivial
        · simp at hd
      | attributeChanged =>
        obtain ⟨_, _, _, rfl⟩ := step_attributeChanged_iff.mp h
        simp at hd
      | remoteAction =>
        obtain ⟨rfl, _⟩ := step_remoteAction_iff.mp h
        simp at hd

/-! ## One operation -/

theorem Session.Inv.of_kept (hi : s.Inv) (hk : Kept s.process t.process)
    (hd : t.destroyed = s.destroyed) : t.Inv where
  wired := hi.wired.of_sameShape hk.shape
  live := by
    intro r e l h hm hh
    rw [hk.shape.listeners] at hm
    simpa only [Process.Live, hk.shape.links, hd] using hi.live hm hh

theorem Session.Performs.kept {c : Call} (hi : s.Inv) (hc : c.Reaches s) (hp : s.Performs c t) :
    Kept s.process t.process ∧ t.Inv := by
  obtain ⟨n, hrun, hd⟩ := hp
  have hk : Kept s.process t.process := by
    rw [hrun]
    exact (kept_invariant hi).run (.refl _) (by simpa using hc)
  exact ⟨hk, hi.of_kept hk hd⟩

theorem Session.Inv.create {config : LinkConfig} (hi : s.Inv)
    (hc : Links.create s.process config = .ok (q, link)) : Session.Inv ⟨q, s.destroyed⟩ := by
  refine ⟨hi.wired.create hc, fun {r e l h} hm hh => ?_⟩
  obtain ⟨source, d, _, _, hnone, rfl, rfl⟩ := create_eq_ok hc
  have hnew : Process.Live { (s.process.on source (.attributeOf config.sourceAttribute)
      (.link s.process.handlers source d config)).on source .connected
      (.link s.process.handlers source d config) with
      links := s.process.links.set (Links.makeId config)
        ⟨Links.makeId config, config, s.process.handlers, source, d⟩
      handlers := s.process.handlers + 1 } s.process.handlers :=
    ⟨_, _, Dictionary.get_set_self, rfl⟩
  rcases mem_listeners_on.mp hm with hm | ⟨_, hx⟩
  · rcases mem_listeners_on.mp hm with hm | ⟨_, hx⟩
    · obtain ⟨id, link, hg, rfl⟩ | hconn := hi.live hm hh
      · refine .inl ⟨id, link, ?_, rfl⟩
        rw [Dictionary.get_set_of_ne, hg]
        rintro rfl
        rw [hnone] at hg
        contradiction
      · exact .inr hconn
    · obtain ⟨rfl, rfl⟩ := Prod.mk.inj hx
      obtain rfl := Option.some.inj hh
      exact .inl hnew
  · obtain ⟨rfl, rfl⟩ := Prod.mk.inj hx
    obtain rfl := Option.some.inj hh
    exact .inl hnew

/-- What is left of a destroyed link is its function for `connected`. -/
theorem registrations_destroyed (hl : LinksWired p) (hg : p.links.get id = some link) :
    (Links.destroyLink p link).registrations link.source link.handler =
      [(.connected, link.listener)] := by
  have hreg := hl.registered hg
  have herase : (Links.destroyLink p link).registrations link.source link.handler =
      (p.registrations link.source link.handler).erase
        (.attributeOf link.config.sourceAttribute, link.listener) := by
    simp [Process.registrations, Links.destroyLink, Process.removeListener, ← List.erase_filter,
      Link.listener]
  rw [herase, hreg]
  simp

theorem Session.Inv.destroy (hi : s.Inv) (id : String) : (s.destroy id).Inv := by
  refine ⟨hi.wired.destroy id, fun {r e l h} hm hh => ?_⟩
  simp only [Session.destroy, Links.destroy] at hm ⊢
  cases hg : s.process.links.get id with
  | none =>
    rw [hg] at hm
    simpa [hg] using hi.live hm hh
  | some link =>
    simp only [hg] at hm
    simp only [Option.map_some, Option.toList_some, List.singleton_append, List.mem_cons]
    have hold := fewer_removeListener r _ hm
    by_cases hlink : h = link.handler
    · subst hlink
      have hr := hi.wired.here hg hold hh
      subst hr
      have hmem : (e, l) ∈ (Links.destroyLink s.process link).registrations link.source
          link.handler := List.mem_filter.mpr ⟨hm, by simpa using hh⟩
      rw [registrations_destroyed hi.wired hg, List.mem_singleton] at hmem
      exact .inr ⟨(Prod.mk.inj hmem).1, .inl rfl⟩
    · obtain ⟨j, m, hj, rfl⟩ | ⟨he, hr⟩ := hi.live hold hh
      · refine .inl ⟨j, m, ?_, rfl⟩
        refine (Dictionary.get_erase_of_ne ?_).trans hj
        rintro rfl
        rw [hg] at hj
        obtain rfl := Option.some.inj hj
        exact hlink rfl
      · exact .inr ⟨he, .inr hr⟩

/-- Only links of the registry execute anything. -/
def ExecutesLive (p q : Process) : Prop := ∀ h, ¬p.Live h → q.executions h = p.executions h

/-- An operation at a source none of whose links was destroyed. -/
theorem Session.Inv.step {op : Session.Op} (hi : s.Inv)
    (hs : guarded Session.Intact Session.Step s op t) :
    t.Inv ∧ ExecutesLive s.process t.process := by
  obtain ⟨hintact, hs⟩ := hs
  cases op with
  | create config =>
    simp only [Session.Step] at hs
    cases hc : Links.create s.process config with
    | error e =>
      simp only [hc] at hs
      subst hs
      exact ⟨hi, fun _ _ => rfl⟩
    | ok x =>
      obtain ⟨q, link⟩ := x
      simp only [hc] at hs
      subst hs
      refine ⟨hi.create hc, fun h _ => ?_⟩
      obtain ⟨_, _, _, _, _, _, rfl⟩ := create_eq_ok hc
      rfl
  | destroy id =>
    simp only [Session.Step] at hs
    subst hs
    refine ⟨hi.destroy id, fun h _ => ?_⟩
    unfold Session.destroy Links.destroy
    cases s.process.links.get id <;> rfl
  | setAttribute r name value =>
    have hc : (Call.setAttribute r name value).Reaches s := trivial
    obtain ⟨hk, ht⟩ := Session.Performs.kept hi hc hs
    exact ⟨ht, hk.executions⟩
  | connected r =>
    have hc : (Call.emit r .connected).Reaches s := fun _ => hintact
    obtain ⟨hk, ht⟩ := Session.Performs.kept hi hc hs
    exact ⟨ht, hk.executions⟩

/-- The number of a function that has been in use and belongs to no link. -/
def Process.Dead (p : Process) (h : Nat) : Prop := h < p.handlers ∧ ¬p.Live h

theorem Process.Dead.of_sameShape (hd : p.Dead h) (hs : SameShape p q) : q.Dead h := by
  unfold Process.Dead Process.Live at *
  rwa [hs.handlers, hs.links]

/-- Functions are not used again: dead ones stay dead, also when an id is. -/
theorem Process.Dead.step {op : Session.Op} (hd : s.process.Dead h) (hs : s.Step op t) :
    t.process.Dead h := by
  cases op with
  | create config =>
    simp only [Session.Step] at hs
    cases hc : Links.create s.process config with
    | error e =>
      simp only [hc] at hs
      exact hs ▸ hd
    | ok x =>
      obtain ⟨q, link⟩ := x
      simp only [hc] at hs
      subst hs
      obtain ⟨_, _, _, _, _, rfl, rfl⟩ := create_eq_ok hc
      refine ⟨Nat.lt_succ_of_lt hd.1, ?_⟩
      rintro ⟨id, link, hg, rfl⟩
      rw [Dictionary.get_set] at hg
      split_ifs at hg
      · obtain rfl := Option.some.inj hg
        exact absurd hd.1 (lt_irrefl _)
      · exact hd.2 ⟨id, link, hg, rfl⟩
  | destroy id =>
    simp only [Session.Step] at hs
    subst hs
    unfold Session.destroy Links.destroy
    cases hg : s.process.links.get id with
    | none => exact hd
    | some link =>
      refine ⟨hd.1, ?_⟩
      rintro ⟨j, m, hj, rfl⟩
      have hj : (s.process.links.erase id).get j = some m := hj
      rw [Dictionary.get_erase] at hj
      split_ifs at hj
      exact hd.2 ⟨j, m, hj, rfl⟩
  | setAttribute r name value | connected r =>
    obtain ⟨n, hrun, _⟩ := hs
    rw [hrun]
    exact hd.of_sameShape (run_sameShape ..)

theorem dead_of_destroyed (hl : LinksWired p) (hg : p.links.get id = some link) :
    (Links.destroy p id).1.Dead link.handler := by
  unfold Links.destroy
  rw [hg]
  refine ⟨hl.named hg, ?_⟩
  rintro ⟨j, m, hj, hh⟩
  have hj : (p.links.erase id).get j = some m := hj
  rw [Dictionary.get_erase] at hj
  split_ifs at hj with hji
  exact hji (hl.injective hj hg hh)

/-- No link has been made yet. -/
structure Unlinked (p : Process) : Prop where
  links : p.links = .empty
  listeners : ∀ r e l, (e, l) ∈ p.listeners r → l.handler? = none

theorem Unlinked.inv (hp : Unlinked p) : Session.Inv ⟨p, []⟩ where
  wired := linksWired_of_no_links hp.links hp.listeners
  live hm hh := by simp [hp.listeners _ _ _ hm] at hh

/-- As long as no source of a destroyed link connects, actions are executed by live links
only, and the function of a destroyed link executes nothing more. -/
theorem destroyed_link_dead (hp : Unlinked p) :
    (∀ ops t, Steps (guarded Session.Intact Session.Step) ⟨p, []⟩ ops t →
      Steps (fun s op t => Session.Step s op t ∧ ExecutesLive s.process t.process)
        ⟨p, []⟩ ops t) ∧
    ∀ before u id link after t, Steps (guarded Session.Intact Session.Step) ⟨p, []⟩ before u →
      u.process.links.get id = some link →
      Steps (guarded Session.Intact Session.Step) (u.destroy id) after t →
      t.process.executions link.handler = u.process.executions link.handler := by
  constructor
  · intro ops t hrun
    refine (hrun.and (fun hi hs => hi.step hs) hp.inv).mono fun h => ⟨h.1.2, h.2⟩
  · intro before u id link after t hbefore hg hafter
    have hu : u.Inv := hbefore.invariant (fun hi hs => (hi.step hs).1) hp.inv
    have hstart : (u.destroy id).process.executions link.handler =
        u.process.executions link.handler := by
      unfold Session.destroy Links.destroy
      rw [hg]
      rfl
    have hrun := hafter.invariant (P := fun s : Session => s.Inv ∧ s.process.Dead link.handler ∧
        s.process.executions link.handler = u.process.executions link.handler)
      (fun ⟨hi, hd, he⟩ hs => ⟨(hi.step hs).1, hd.step hs.2,
        ((hi.step hs).2 _ hd.2).trans he⟩)
      ⟨hu.destroy id, dead_of_destroyed hu.wired hg, hstart⟩
    exact hrun.2.2

theorem lights_unlinked : Unlinked lights := by
  refine ⟨rfl, fun r e l h => ?_⟩
  obtain ⟨_, hx⟩ | ⟨_, hx⟩ := mem_lights_listeners h <;> obtain ⟨rfl, rfl⟩ := Prod.mk.inj hx <;> rfl

/-- The two lights after their link was destroyed. -/
def unlinkedLights : Session := Session.destroy ⟨linkedLights, []⟩ "a|output|b|input"

theorem create_linkedLights :
    Session.Step ⟨lights, []⟩ (.create lightsLink.config) ⟨linkedLights, []⟩ := by
  simp only [Session.Step, create_lights]

/-- What one call leaves of the session, within 20 calls. -/
def unlinkedLights_after (c : Call) : Session where
  process := (Cascade.run step 20 [c] unlinkedLights.process).state
  destroyed := [0]

theorem unlinkedLights_performs (c : Call) :
    unlinkedLights.Performs c (unlinkedLights_after c) := ⟨20, rfl, rfl⟩

/-- The light goes on after the link was destroyed. -/
theorem destroyed_link_dead_lights :
    (unlinkedLights_after (.setAttribute 0 "output" (.str "on"))).process.executions 0 =
      linkedLights.executions 0 :=
  (destroyed_link_dead lights_unlinked).2 [.create lightsLink.config] ⟨linkedLights, []⟩ _ lightsLink
    [.setAttribute 0 "output" (.str "on")] _ (.cons ⟨trivial, create_linkedLights⟩ (.nil _))
    linkedLights_get (.cons ⟨trivial, unlinkedLights_performs _⟩ (.nil _))

/-- The light connects after the link was destroyed, and the link executes its action. -/
theorem destroyed_link_executes :
    ¬ ∀ (p : Process) (before after : List Session.Op) (u t : Session) (id : String) (link : Link),
      Unlinked p → Steps Session.Step ⟨p, []⟩ before u → u.process.links.get id = some link →
      Steps Session.Step (u.destroy id) after t →
      t.process.executions link.handler = u.process.executions link.handler := by
  intro hall
  have hdead := hall lights [.create lightsLink.config] [.connected 0] ⟨linkedLights, []⟩
    _ _ lightsLink lights_unlinked (.cons create_linkedLights (.nil _)) linkedLights_get
    (.cons (unlinkedLights_performs (.emit 0 .connected)) (.nil _))
  exact absurd hdead (by decide)

end MyLifeHome
