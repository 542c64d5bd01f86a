import MyLifeHome.Core.Wiring
import MyLifeHome.Library.Runs
import MyLifeHome.Nick.Writing

/-!
# The nick of a published object on the server

`publishLocal` gives the client the nick of that moment and sends a NICK command for every
change from then on. The client registers under the nick it was given, each time that its
connection is established; commands sent without a connection are lost. The nick on the
server is therefore the current one as long as the object is what it was when the client
registers, and no exception keeps a change from being announced.
-/
namespace MyLifeHome

open Process Runs

variable {p q u : Process} {r : ObjRef} {c : NetContainer} {n : String} {x : Call}
  {cs us new : List Call}

/-! ## Announcing a change -/

/-- The nicks that have been announced for the object. -/
def Process.nicks (p : Process) (r : ObjRef) : List String :=
  p.trace.filterMap fun
    | .nick object nick => if object = r then some nick else none
    | _ => none

/-- The calls that a change of the object waits for to be announced. -/
def Call.Announces (r : ObjRef) : Call → Prop
  | .emit s e => s = r ∧ e.event = .attribute
  | .listener l _ => l = .attributeChanged r
  | _ => False

@[simp] theorem nicks_assign {s : ObjRef} {name : String} {value : JsValue} :
    (p.assign s name value).nicks r = p.nicks r := by simp [Process.nicks, Process.assign]

@[simp] theorem nicks_send {channels : List String} {msg : String} :
    (p.send channels msg).nicks r = p.nicks r := by
  unfold Process.send
  split_ifs <;> simp [Process.nicks, Process.log]

/-- One call: it announces the object as it is, or it leaves an announcement to the calls
it makes, or it is no announcement and changes nothing that a nick shows. -/
theorem step_nicks (hl : (.attribute, .attributeChanged r) ∈ p.listeners r)
    (h : step p x = .ok (q, new)) :
    (∃ nick, q.nicks r = p.nicks r ++ [nick] ∧ (q.objects r).makeNick = .ok nick) ∨
      q.nicks r = p.nicks r ∧ ((∃ y ∈ new, y.Announces r) ∨
        ¬x.Announces r ∧ (q.objects r).makeNick = (p.objects r).makeNick) := by
  cases x with
  | setAttribute s name value =>
    obtain ⟨_, rfl, rfl⟩ := step_setAttribute_iff.mp h
    refine .inr ⟨nicks_assign, ?_⟩
    by_cases hs : s = r
    · exact .inl ⟨.emit s (.attribute name value), by simp, hs, rfl⟩
    · exact .inr ⟨id, by rw [assign_objects_of_ne (Ne.symm hs)]⟩
  | executeAction s name args =>
    obtain ⟨_, rfl, _⟩ := step_executeAction_iff.mp h
    exact .inr ⟨rfl, .inr ⟨id, rfl⟩⟩
  | emit s e =>
    obtain ⟨rfl, rfl⟩ := step_emit_iff.mp h
    refine .inr ⟨rfl, ?_⟩
    by_cases ha : (Call.emit s e).Announces r
    · obtain ⟨rfl, he⟩ := ha
      refine .inl ⟨_, List.mem_map_of_mem (mem_listenersOf.mpr (he ▸ hl)), rfl⟩
    · exact .inr ⟨ha, rfl⟩
  | setTimeout s t value =>
    obtain ⟨rfl, _⟩ := step_setTimeout_iff.mp h
    exact .inr ⟨rfl, .inr ⟨id, rfl⟩⟩
  | listener l e =>
    cases l with
    | link k s d config =>
      obtain ⟨v, _, rfl, _⟩ := step_link_iff.mp h
      exact .inr ⟨by simp [Process.nicks, Process.log], .inr ⟨by simp [Call.Announces], rfl⟩⟩
    | plugin type s =>
      obtain ⟨rfl, _⟩ := step_plugin_iff.mp h
      exact .inr ⟨rfl, .inr ⟨by simp [Call.Announces], rfl⟩⟩
    | attributeChanged s =>
      obtain ⟨nick, hn, rfl, _⟩ := step_attributeChanged_iff.mp h
      by_cases hs : s = r
      · subst hs
        exact .inl ⟨nick, by simp [Process.nicks, Process.log], hn⟩
      · exact .inr ⟨by simp [Process.nicks, Process.log, hs],
          .inr ⟨by simp [Call.Announces, hs], rfl⟩⟩
    | remoteAction s channels =>
      obtain ⟨_, ⟨_, _, _, rfl⟩ | ⟨_, rfl⟩⟩ := step_remoteAction_iff.mp h
      · exact .inr ⟨nicks_send, .inr ⟨by simp [Call.Announces], by rw [send_objects]⟩⟩
      · exact .inr ⟨rfl, .inr ⟨by simp [Call.Announces], rfl⟩⟩

/-- From `p` to `q`, starting with the nick `n`: the last nick announced is the current
one, unless there are calls left that announce it. -/
structure Announced (p : Process) (r : ObjRef) (n : String) (cs : List Call) (q : Process) :
    Prop where
  shape : SameShape p q
  nicks : ∃ ns, q.nicks r = p.nicks r ++ ns ∧
    ((∃ y ∈ cs, y.Announces r) ∨ (q.objects r).makeNick = .ok (ns.getLastD n))

theorem Announced.call (hl : (.attribute, .attributeChanged r) ∈ p.listeners r)
    (h : Announced p r n (x :: cs) q) (hs : step q x = .ok (u, new)) :
    Announced p r n (new ++ cs) u := by
  obtain ⟨hshape, ns, hns, hor⟩ := h
  refine ⟨hshape.trans (step_sameShape hs), ?_⟩
  rw [← hshape.listeners] at hl
  obtain ⟨nick, hnicks, hmake⟩ | ⟨hnicks, hnew⟩ := step_nicks hl hs
  · exact ⟨ns ++ [nick], by rw [hnicks, hns, List.append_assoc], .inr (by simpa using hmake)⟩
  · refine ⟨ns, hnicks.trans hns, ?_⟩
    obtain ⟨y, hy, ha⟩ | ⟨hx, hmake⟩ := hnew
    · exact .inl ⟨y, List.mem_append_left _ hy, ha⟩
    · obtain ⟨y, hy, ha⟩ | hor := hor
      · rcases List.mem_cons.mp hy with rfl | hy
        · exact absurd ha hx
        · exact .inl ⟨y, List.mem_append_right _ hy, ha⟩
      · exact .inr (hmake.trans hor)

/-- What a stack of calls has announced when it comes to an end. -/
theorem announced_of_ends (hl : (.attribute, .attributeChanged r) ∈ p.listeners r)
    (hn : (p.objects r).makeNick = .ok n) (h : Cascade.Ends step cs p us q) :
    Announced p r n us q :=
  h.1.invariant (P := fun cs q => Announced p r n cs q) (fun h hs => h.call hl hs)
    ⟨.refl p, [], by simp, .inr (by simpa using hn)⟩

/-! ## The client -/

/-- A process and what the server knows of one of its clients: the nick under which the
client is registered, and the NICK commands that are under way. -/
structure Connection where
  process : Process
  server : Option String
  inFlight : List String

inductive ConnectionEvent where
  | calls (calls : List Call)
  | registered
  | closed
  | nick

namespace Connection

variable {s t : Connection} {e : ConnectionEvent} {es : List ConnectionEvent}

/-- What the client sends for the calls that take the process to `q`. -/
def sent (s : Connection) (r : ObjRef) (q : Process) : List String :=
  (q.nicks r).drop (s.process.nicks r).length

/-- Calls of the process, whether they complete or throw, and the life of the connection:
the client registers under the nick of its constructor, the server takes the NICK
commands one after another, and those sent without a connection have no effect. -/
def Step (c : NetContainer) (s : Connection) (e : ConnectionEvent) (t : Connection) : Prop :=
  match e with
  | .calls cs => (∃ us, Cascade.Ends MyLifeHome.step cs s.process us t.process) ∧
      t.server = s.server ∧ t.inFlight =
        if s.server.isSome then s.inFlight ++ s.sent c.object t.process else s.inFlight
  | .registered => s.server = none ∧ t = ⟨s.process, c.client, []⟩
  | .closed => t = ⟨s.process, none, []⟩
  | .nick => ∃ n ns, s.server.isSome ∧ s.inFlight = n :: ns ∧ t = ⟨s.process, some n, ns⟩

/-- With no command under way, the nick on the server is that of the current values. -/
def Tracks (c : NetContainer) (s : Connection) : Prop :=
  ∀ n, s.server = some n → s.inFlight = [] → (s.process.objects c.object).makeNick = .ok n

/-- The client does not register while the object has another nick than it was given. -/
def Unchanged (c : NetContainer) (s : Connection) (e : ConnectionEvent) : Prop :=
  e = .registered → ∀ n, c.client = some n → (s.process.objects c.object).makeNick = .ok n

/-- While the client is registered, no exception keeps a change from being announced. -/
def Uninterrupted (c : NetContainer) (s : Connection) (e : ConnectionEvent) : Prop :=
  ∀ cs, e = .calls cs → s.server.isSome → ∀ us q,
    Cascade.Ends MyLifeHome.step cs s.process us q → ∀ y ∈ us, ¬y.Announces c.object

/-- Once every command has arrived the nick on the server will be the current one. -/
structure Inv (c : NetContainer) (s : Connection) : Prop where
  listener : (.attribute, .attributeChanged c.object) ∈ s.process.listeners c.object
  coming : ∀ n, s.server = some n →
    (s.process.objects c.object).makeNick = .ok (s.inFlight.getLastD n)

theorem Inv.tracks (hi : Inv c s) : s.Tracks c := by
  intro n hn hnone
  simpa [hnone] using hi.coming n hn

theorem Inv.step (hi : Inv c s) (h : s.Step c e t) (hu : s.Uninterrupted c e)
    (hsame : s.Unchanged c e) : Inv c t := by
  cases e with
  | calls cs =>
    obtain ⟨⟨us, hends⟩, hserver, hflight⟩ := h
    have hshape : SameShape s.process t.process :=
      hends.1.invariant (P := fun _ q => SameShape s.process q)
        (fun h hs => h.trans (step_sameShape hs)) (.refl _)
    refine ⟨hshape.listeners ▸ hi.listener, fun n hn => ?_⟩
    rw [hserver] at hn
    obtain ⟨_, ns, hns, hor⟩ := announced_of_ends hi.listener (hi.coming n hn) hends
    have hquiet : ¬∃ y ∈ us, y.Announces c.object := fun ⟨y, hy, ha⟩ =>
      hu cs rfl (by simp [hn]) us _ hends y hy ha
    have hmake := hor.resolve_left hquiet
    have hsent : s.sent c.object t.process = ns := by rw [sent, hns, List.drop_left]
    rw [hflight, hn, hsent, hmake]
    simp [List.getLast?_append, Option.getD_or]
  | registered =>
    obtain ⟨_, rfl⟩ := h
    exact ⟨hi.listener, fun n hn => by simpa using hsame rfl n hn⟩
  | closed =>
    obtain rfl := h
    exact ⟨hi.listener, fun n hn => by contradiction⟩
  | nick =>
    obtain ⟨n, ns, hsome, hflight, rfl⟩ := h
    obtain ⟨m, hm⟩ := Option.isSome_iff_exists.mp hsome
    refine ⟨hi.listener, fun k hk => ?_⟩
    obtain rfl := Option.some.inj hk
    have hcoming := hi.coming m hm
    rwa [hflight, List.getLastD_cons] at hcoming

/-- A step without an interruption keeps the nick right exactly when it does not register
under an old one. -/
theorem tracks_step_iff (hi : Inv c s) (h : guarded (Uninterrupted c) (Step c) s e t) :
    t.Tracks c ↔ s.Unchanged c e := by
  constructor
  · rintro htracks rfl n hn
    obtain ⟨_, rfl⟩ := h.2
    exact htracks n hn rfl
  · intro hsame
    exact (hi.step h.2 h.1 hsame).tracks

theorem inv_published (hp : p.publishLocal r c.channels = .ok (q, c)) : Inv c ⟨q, none, []⟩ := by
  obtain ⟨nick, _, rfl, hc⟩ := publishLocal_eq_ok_iff.mp hp
  have hr : c.object = r := by rw [hc]
  refine ⟨?_, fun n hn => by contradiction⟩
  rw [hr]
  exact mem_listeners_on.mpr (.inr ⟨rfl, rfl⟩)

/-- From the publication of an object on, as long as no exception keeps a change from being
announced: the nick on the server is that of the current values throughout exactly when
the client always registers with the object as it was published. -/
theorem tracks_iff (hp : p.publishLocal r c.channels = .ok (q, c)) :
    Steps (fun s e t => guarded (Uninterrupted c) (Step c) s e t ∧ t.Tracks c) ⟨q, none, []⟩ es t ↔
      Steps (guarded (Unchanged c) (guarded (Uninterrupted c) (Step c))) ⟨q, none, []⟩ es t :=
  steps_and_iff_guarded (P := Inv c)
    (fun hi h hq => hi.step h.2 h.1 ((tracks_step_iff hi h).mp hq))
    (fun hi h => tracks_step_iff hi h) (inv_published hp)

/-- Calls that complete leave no announcement behind. -/
theorem uninterrupted_of_completes (h : Completes cs s.process q) :
    s.Uninterrupted c (.calls cs) := by
  intro cs' hcs _ us u hends y hy
  obtain rfl := ConnectionEvent.calls.inj hcs
  rw [hends.eq_nil h] at hy
  contradiction

/-! ## A light -/

/-- A light that is off. -/
def newLight : Process := (Process.empty.alloc (netObject "b" Light.clazz)).assign 0 "output" (.str "off")

def lightContainer : NetContainer := ⟨0, ["#home"], some "b|off"⟩

def publishedLight : Process := newLight.on 0 .attribute (.attributeChanged 0)

theorem publishLocal_newLight :
    newLight.publishLocal 0 lightContainer.channels = .ok (publishedLight, lightContainer) :=
  publishLocal_eq_ok_iff.mpr ⟨"b|off", by decide, rfl, rfl⟩

/-- The light is switched on. -/
def litLight : Process :=
  (Cascade.run MyLifeHome.step 20 [.setAttribute 0 "output" (.str "on")] publishedLight).state

theorem completes_litLight :
    Completes [.setAttribute 0 "output" (.str "on")] publishedLight litLight :=
  Cascade.exec_of_isDone (by decide)

/-- Registered first and switched on then, the light is known as it is. -/
theorem tracks_litLight : Steps (fun s e t => guarded (Uninterrupted lightContainer)
      (Step lightContainer) s e t ∧ t.Tracks lightContainer) ⟨publishedLight, none, []⟩
    [.registered, .calls [.setAttribute 0 "output" (.str "on")], .nick]
    ⟨litLight, some "b|on", []⟩ := by
  refine (tracks_iff publishLocal_newLight).mpr ?_
  have h1 : Step lightContainer ⟨publishedLight, none, []⟩ .registered
      ⟨publishedLight, some "b|off", []⟩ := ⟨rfl, rfl⟩
  have h2 : Step lightContainer ⟨publishedLight, some "b|off", []⟩
      (.calls [.setAttribute 0 "output" (.str "on")]) ⟨litLight, some "b|off", ["b|on"]⟩ :=
    ⟨⟨[], Cascade.exec_iff_ends.mp completes_litLight⟩, rfl, by decide⟩
  have h3 : Step lightContainer ⟨litLight, some "b|off", ["b|on"]⟩ .nick
      ⟨litLight, some "b|on", []⟩ := ⟨"b|on", [], rfl, rfl, rfl⟩
  refine .cons ⟨?_, ?_, h1⟩ (.cons ⟨?_, uninterrupted_of_completes completes_litLight, h2⟩
    (.cons ⟨?_, ?_, h3⟩ (.nil _)))
  · rintro - n hn
    obtain rfl := Option.some.inj hn
    decide
  · rintro cs hcs
    contradiction
  · intro hev
    contradiction
  · intro hev
    contradiction
  · rintro cs hcs
    contradiction

/-- Switched on before it is registered, the light is known as it was. -/
theorem not_tracks : ¬ ∀ (p q : Process) (r : ObjRef) (c : NetContainer) (es : List ConnectionEvent)
    (t : Connection), p.publishLocal r c.channels = .ok (q, c) →
      Steps (Step c) ⟨q, none, []⟩ es t → t.Tracks c := by
  intro hall
  have h1 : Step lightContainer ⟨publishedLight, none, []⟩
      (.calls [.setAttribute 0 "output" (.str "on")]) ⟨litLight, none, []⟩ :=
    ⟨⟨[], Cascade.exec_iff_ends.mp completes_litLight⟩, rfl, rfl⟩
  have h2 : Step lightContainer ⟨litLight, none, []⟩ .registered ⟨litLight, some "b|off", []⟩ :=
    ⟨rfl, rfl⟩
  have htracks := hall _ _ _ _ _ _ publishLocal_newLight (.cons h1 (.cons h2 (.nil _)))
  exact absurd (htracks "b|off" rfl rfl) (by decide)

end Connection

end MyLifeHome
