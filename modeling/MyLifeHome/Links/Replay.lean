import MyLifeHome.Library.Runs
import MyLifeHome.Links.Carried

/-!
# Bringing a destination up to date

An object that was away has missed what its links delivered. When it comes back nobody
asks its sources: a link listens to the `connected` of its source. So what the object has
been told since it came back is the current value exactly when there was nothing to tell
it at that time.
-/
namespace MyLifeHome

open Process Runs

variable {p q : Process} {id : String} {link : Link} {d r : ObjRef}

/-- What happens to the remote objects, and the assignments of this process. -/
inductive PresenceEvent where
  | nick (ev : NickEvent)
  | closed
  | registered
  | setAttribute (object : ObjRef) (name : String) (value : JsValue)

/-- The calls of the event and the process that makes them. -/
def PresenceEvent.start (p : Process) : PresenceEvent → Process × List Call
  | .nick ev => (p, ev.calls p)
  | .closed => p.onIrc .closed
  | .registered => p.onIrc .registered
  | .setAttribute r name value => (p, [.setAttribute r name value])

/-- A process with, for each object that is online, the process in which it came online. -/
structure Presence where
  process : Process
  since : ObjRef → Option Process

namespace Presence

/-- No remote object is online. -/
def allAway (p : Process) : Presence := ⟨p, fun _ => none⟩

variable {s t : Presence} {e : PresenceEvent} {es : List PresenceEvent}

/-- Who is online after the event, and since when. -/
def next (s : Presence) : PresenceEvent → ObjRef → Option Process
  | .nick (.online nick), r =>
    if s.process.remote (nickId nick) = some r then (s.since r).or (some s.process)
    else s.since r
  | .nick (.offline nick), r =>
    if s.process.remote (nickId nick) = some r then none else s.since r
  | .closed, r => if s.process.online then none else s.since r
  | _, r => s.since r

/-- The event is handled to its end. -/
def Step (s : Presence) (e : PresenceEvent) (t : Presence) : Prop :=
  t.since = s.next e ∧ Completes (e.start s.process).2 (e.start s.process).1 t.process

theorem Step.nick {ev : NickEvent} (h : s.Step (.nick ev) t) :
    Completes (ev.calls s.process) s.process t.process := h.2

/-- The event brings the object online. -/
def Arrives (s : Presence) (e : PresenceEvent) (d : ObjRef) : Prop :=
  ∃ nick, e = .nick (.online nick) ∧ s.process.remote (nickId nick) = some d ∧ s.since d = none

/-- A live link from an object that no plugin of this process drives. -/
def Live (s : Presence) (link : Link) : Prop :=
  (∃ id, s.process.links.get id = some link) ∧ ¬HasPlugin s.process link.source

/-- Every link to an object that comes online executes its action with the current value,
unless this is null. -/
def Replays (s : Presence) (e : PresenceEvent) (t : Presence) : Prop :=
  ∀ link, s.Live link → s.Arrives e link.destination → link.current t.process ≠ .null →
    link.execution (link.current t.process) ∈ link.executed s.process t.process

/-- The last execution of a link since its destination came online carried the current
value; none is needed for null. -/
def LastCarried (s : Presence) (link : Link) : Prop :=
  ∀ start, s.since link.destination = some start →
    link.Tracks (link.executed start s.process) .null (link.current s.process)

/-- Whenever both ends of a link are online, the destination has been told. -/
def UpToDate (s : Presence) : Prop :=
  ∀ link, s.Live link → (s.since link.source).isSome → s.LastCarried link

/-- Nothing is to be told to an object that comes online, except by itself. -/
def NothingMissed (s : Presence) (e : PresenceEvent) : Prop :=
  ∀ link, s.Live link → s.Arrives e link.destination → link.source ≠ link.destination →
    link.current s.process = .null

/-! ## What an event keeps -/

theorem next_eq_some {start : Process} (h : s.next e d = some start) :
    s.Arrives e d ∧ start = s.process ∨ s.since d = some start := by
  unfold next at h
  split at h
  · split_ifs at h with hd
    · cases hs : s.since d with
      | none =>
        rw [hs, Option.none_or] at h
        exact .inl ⟨⟨_, rfl, hd, hs⟩, (Option.some.inj h).symm⟩
      | some u =>
        rw [hs, Option.some_or] at h
        exact .inr h
    · exact .inr h
  · split_ifs at h
    exact .inr h
  · split_ifs at h
    exact .inr h
  · exact .inr h

theorem top_assignments {as : List Assignment} :
    ∀ c ∈ as.map (Assignment.call r), c.Top := by
  intro c hc
  obtain ⟨a, _, rfl⟩ := List.mem_map.mp hc
  trivial

theorem top_calls (p : Process) (ev : NickEvent) : ∀ c ∈ ev.calls p, c.Top := by
  cases hr : p.remote (nickId ev.nick) with
  | none =>
    cases ev <;> simp only [NickEvent.nick] at hr <;>
      simp [NickEvent.calls, nickOnline, nickOffline, nickChanged, hr]
  | some r =>
    intro c hc
    rw [calls_eq hr] at hc
    rcases List.mem_append.mp hc with hc | hc
    · split_ifs at hc
      · obtain rfl := List.mem_singleton.mp hc
        exact .inr rfl
      · contradiction
    rcases List.mem_append.mp hc with hc | hc
    · exact top_assignments c hc
    · split_ifs at hc
      · obtain rfl := List.mem_singleton.mp hc
        exact .inl rfl
      · contradiction

theorem quiet_registered (p : Process) (s : ObjRef) : Quiet (p.setOnline true) s p.registered := by
  unfold Process.registered
  cases hw : p.watcher with
  | none =>
    have heq : p.setOnline true = p := by
      cases p
      cases hw
      rfl
    rw [heq]
    exact .refl p s
  | some w =>
    change Quiet _ s (w.channels.keys.foldl (fun p channel => p.log (.join channel)) _)
    generalize p.setOnline true = q
    induction w.channels.keys generalizing q with
    | nil => exact .refl q s
    | cons channel channels ih => exact (quiet_log rfl).trans (ih _)

/-- The process that makes the calls differs from `p` in what the watcher knows. -/
theorem start_spec (p : Process) (e : PresenceEvent) :
    (e.start p).1.links = p.links ∧ (e.start p).1.listeners = p.listeners ∧
      (e.start p).1.handlers = p.handlers ∧ p.trace <+: (e.start p).1.trace ∧
      (∀ link, Carried link p (e.start p).1) ∧ ∀ c ∈ (e.start p).2, c.Top := by
  cases e with
  | nick ev => exact ⟨rfl, rfl, rfl, List.prefix_refl _, fun link => .refl link p, top_calls p ev⟩
  | setAttribute r name value =>
    exact ⟨rfl, rfl, rfl, List.prefix_refl _, fun link => .refl link p,
      by simp [PresenceEvent.start, Call.Top]⟩
  | registered =>
    have hq := quiet_registered p
    have hs := (hq 0).shape
    refine ⟨hs.links, hs.listeners, hs.handlers, hs.trace, fun link => ?_,
      by simp [PresenceEvent.start, onIrc]⟩
    obtain ⟨htrace, htracks⟩ := (hq link.source).carried
    exact ⟨htrace, htracks⟩
  | closed =>
    simp only [PresenceEvent.start, onIrc, connectionClosed]
    split
    · exact ⟨rfl, rfl, rfl, List.prefix_refl _, fun link => .refl link p, by simp⟩
    · split_ifs
      · refine ⟨rfl, rfl, rfl, List.prefix_refl _, fun link => ?_, fun c hc => ?_⟩
        · obtain ⟨htrace, htracks⟩ := Carried.refl link p
          exact ⟨htrace, htracks⟩
        obtain ⟨id, _, hc⟩ := List.mem_flatMap.mp hc
        exact top_calls p (.offline id) c hc
      · exact ⟨rfl, rfl, rfl, List.prefix_refl _, fun link => .refl link p, by simp⟩

/-- What an event keeps of the links, and that they carry the changes. -/
structure Kept (p q : Process) : Prop where
  trace : p.trace <+: q.trace
  links : q.links = p.links
  listeners : q.listeners = p.listeners
  wired : Wired q
  linksWired : LinksWired q
  carried : ∀ {id link}, p.links.get id = some link → ¬HasPlugin p link.source → Carried link p q

theorem Step.kept (hw : Wired s.process) (hl : LinksWired s.process) (h : s.Step e t) :
    Kept s.process t.process := by
  obtain ⟨hlinks, hlisten, hhandlers, htrace, hcar, htop⟩ := start_spec s.process e
  have hrun := h.2
  generalize (e.start s.process).1 = u at hlinks hlisten hhandlers htrace hcar hrun
  have hs := Completes.sameShape hrun
  have hwu : Wired u := by
    unfold Wired
    rw [hlisten]
    exact hw
  have hlu : LinksWired u := hl.congr hlinks hlisten hhandlers
  refine ⟨htrace.trans hs.trace, hs.links.trans hlinks, hs.listeners.trans hlisten, hwu.of_sameShape hs,
    hlu.of_sameShape hs, fun hg hp => (hcar _).trans ?_⟩
  refine MyLifeHome.carried hwu hlu (hlinks ▸ hg) ?_ hrun htop
  exact (unfed_of_not_hasPlugin hp).congr hlisten

theorem Kept.live (hk : Kept s.process t.process) : t.Live link ↔ s.Live link := by
  simp [Live, HasPlugin, hk.links, hk.listeners]

/-! ## When a destination comes online -/

theorem Arrives.completes (ha : s.Arrives e d) (h : s.Step e t) :
    ∃ as : List Assignment,
      Completes (as.map (Assignment.call d) ++ [.emit d .connected]) s.process t.process := by
  obtain ⟨nick, rfl, hr, _⟩ := ha
  have hr : s.process.remote (nickId (NickEvent.online nick).nick) = some d := hr
  have hrun := h.nick
  rw [calls_eq hr] at hrun
  exact ⟨_, by simpa [NickEvent.values, NickEvent.isOnline] using hrun⟩

theorem quiet_of_arrives (hw : Wired s.process) (hp : ¬HasPlugin s.process link.source)
    (ha : s.Arrives e d) (hne : link.source ≠ d) (h : s.Step e t) :
    Quiet s.process link.source t.process := by
  obtain ⟨as, hrun⟩ := ha.completes h
  refine Completes.quiet hw (away_of_not_hasPlugin hp) hrun fun c hc => ?_
  rcases List.mem_append.mp hc with hc | hc
  · obtain ⟨a, _, rfl⟩ := List.mem_map.mp hc
    exact Ne.symm hne
  · obtain rfl := List.mem_singleton.mp hc
    exact .inr (Ne.symm hne)

/-- An object that comes online calls the links to itself last. -/
theorem executed_of_arrives (hw : Wired s.process) (hl : LinksWired s.process)
    (hg : s.process.links.get id = some link) (hp : ¬HasPlugin s.process link.source)
    (ha : s.Arrives e link.source) (h : s.Step e t) :
    ∃ ds, link.executed s.process t.process = ds ++ [link.execution (link.current t.process)] := by
  obtain ⟨as, hrun⟩ := ha.completes h
  obtain ⟨u, h1, h2⟩ := Cascade.exec_append_iff.mp hrun
  have hs := Completes.sameShape h1
  have hu := unfed_of_not_hasPlugin hp
  have hcar := MyLifeHome.carried hw hl hg hu h1 top_assignments
  have hgu : u.links.get id = some link := hs.links ▸ hg
  have hd := delivered_emit (hw.of_sameShape hs) (hu.congr hs.listeners) rfl h2
  have hlast : link.executed u t.process = [link.execution (link.current t.process)] := by
    rw [Link.executed, hd.delivered, (hl.of_sameShape hs).connected hgu, Link.current, hd.object]
  have hat : (Call.emit link.source .connected).At link.source := ⟨rfl, .inl rfl⟩
  have hcar2 := carried_at (hw.of_sameShape hs) (hl.of_sameShape hs) hgu
    (hu.congr hs.listeners) hat h2
  exact ⟨_, by rw [executed_trans hcar.trace hcar2.trace, hlast]⟩

/-! ## Runs -/

/-- What every event keeps as long as nothing is missed. -/
structure Inv (s : Presence) : Prop where
  wired : Wired s.process
  linksWired : LinksWired s.process
  earlier : ∀ {r start}, s.since r = some start → start.trace <+: s.process.trace
  told : ∀ {link}, s.Live link → s.LastCarried link

theorem Inv.step (hi : Inv s) (h : s.Step e t) (hm : s.NothingMissed e) : Inv t := by
  have hk := h.kept hi.wired hi.linksWired
  refine ⟨hk.wired, hk.linksWired, fun {r start} hr => ?_, fun {link} hlt start hr => ?_⟩
  · rw [h.1] at hr
    obtain ⟨_, rfl⟩ | hr := next_eq_some hr
    · exact hk.trace
    · exact (hi.earlier hr).trans hk.trace
  · have hlive := hk.live.mp hlt
    have ⟨⟨id, hg⟩, hp⟩ := hlive
    have hcar := hk.carried hg hp
    rw [h.1] at hr
    obtain ⟨ha, rfl⟩ | hr := next_eq_some hr
    · by_cases hself : link.source = link.destination
      · obtain ⟨ds, hds⟩ := executed_of_arrives hi.wired hi.linksWired hg hp (hself ▸ ha) h
        rw [hds]
        exact Link.tracks_concat ds
      · have hnull := hm link hlive ha hself
        have htracks := hcar.executed
        rwa [hnull] at htracks
    · rw [executed_trans (hi.earlier hr) hcar.trace]
      exact (hi.told hlive start hr).trans hcar.executed

theorem Inv.upToDate (hi : Inv s) : s.UpToDate := fun _ hlive _ => hi.told hlive

/-- An event brings its object up to date exactly when the object has missed nothing. -/
theorem step_iff (hi : Inv s) (h : s.Step e t) :
    s.Replays e t ∧ t.UpToDate ↔ s.NothingMissed e := by
  constructor
  · rintro ⟨hreplays, _⟩ link hlive ha hne
    have hq := quiet_of_arrives hi.wired hlive.2 ha hne h
    have hsame : link.current t.process = link.current s.process := by
      simp [Link.current, hq.values]
    have hnone : link.executed s.process t.process = [] := by
      simp [Link.executed, Process.delivered, Process.deliveries, hq.history]
    by_contra hval
    have hmem := hreplays link hlive ha (hsame ▸ hval)
    rw [hnone] at hmem
    contradiction
  · intro hm
    refine ⟨fun link hlive ha hval => ?_, (hi.step h hm).upToDate⟩
    obtain ⟨id, hg⟩ := hlive.1
    by_cases hself : link.source = link.destination
    · obtain ⟨ds, hds⟩ := executed_of_arrives hi.wired hi.linksWired hg hlive.2 (hself ▸ ha) h
      rw [hds]
      simp
    · have hq := quiet_of_arrives hi.wired hlive.2 ha hself h
      refine absurd ?_ hval
      rw [Link.current, hq.values]
      exact hm link hlive ha hself

theorem inv_start (hw : Wired p) (hl : LinksWired p) : Inv (allAway p) where
  wired := hw
  linksWired := hl
  earlier h := by contradiction
  told _ _ h := by contradiction

/-- The runs that bring every returning object up to date, and keep it so, are those in
which an object that comes online has missed nothing. -/
theorem brought_up_to_date_iff (hw : Wired p) (hl : LinksWired p) :
    Steps (fun s e t => s.Step e t ∧ s.Replays e t ∧ t.UpToDate) (allAway p) es t ↔
      Steps (guarded NothingMissed Step) (allAway p) es t :=
  steps_and_iff_guarded (P := Inv) (fun hi h hq => hi.step h ((step_iff hi h).mp hq))
    (fun hi h => step_iff hi h) (inv_start hw hl)

/-! ## Two remote lights -/

/-- The remote lights `a` and `b`. -/
def remoteLights : Process :=
  let p := ((watchedLight.alloc (netObject "b" Light.clazz)).publishRemote 1 ["#home"]).1
  { p with
    netRepository := (Dictionary.empty.set "a" ⟨0, ["#home"], none⟩).set "b" ⟨1, ["#home"], none⟩ }

/-- The remote light `b` follows the remote light `a`. -/
def linkedRemotes : Process :=
  match Links.create remoteLights lightsLink.config with
  | .ok (p, _) => p
  | .error _ => remoteLights

theorem create_remotes : Links.create remoteLights lightsLink.config = .ok (linkedRemotes, lightsLink) :=
  rfl

theorem linkedRemotes_wired : Wired linkedRemotes := by
  refine Wired.create ?_ create_remotes
  have ha := watchedLight_watched.wired
  exact (ha.of_fewer (fewer_alloc _)).publishRemote

theorem mem_remoteLights_listeners {x : Event × Listener} (h : x ∈ remoteLights.listeners r) :
    x = (.action, .remoteAction r ["#home"]) := by
  have h : x ∈ ((watchedLight.alloc (netObject "b" Light.clazz)).publishRemote 1
    ["#home"]).1.listeners r := h
  rw [publishRemote_listeners] at h
  obtain h | ⟨rfl, rfl⟩ := mem_listeners_on.mp h
  · have h := fewer_alloc _ _ _ h
    rw [watchedLight, publishRemote_listeners] at h
    obtain h | ⟨rfl, rfl⟩ := mem_listeners_on.mp h
    · simp [Process.empty, Process.alloc] at h
    · rfl
  · rfl

theorem linkedRemotes_links : LinksWired linkedRemotes := by
  refine LinksWired.create (linksWired_of_no_links rfl fun r e l h => ?_) create_remotes
  obtain ⟨rfl, rfl⟩ := Prod.mk.inj (mem_remoteLights_listeners h)
  rfl

theorem not_hasPlugin_linkedRemotes : ¬HasPlugin linkedRemotes r := by
  rintro ⟨name, type, h⟩
  have h : _ ∈ ((remoteLights.on 0 (.attributeOf "output") lightsLink.listener).on 0 .connected
    lightsLink.listener).listeners r := h
  simp only [mem_listeners_on, Prod.mk.injEq, reduceCtorEq, false_and, and_false, or_false] at h
  simpa using mem_remoteLights_listeners h

/-- The state after a nick has come online. -/
def arrived (s : Presence) (nick : String) : Presence where
  process := (Cascade.run step 20 ((NickEvent.online nick).calls s.process) s.process).state
  since := s.next (.nick (.online nick))

theorem sameShape_arrived (s : Presence) (nick : String) :
    SameShape s.process (s.arrived nick).process := run_sameShape ..

theorem step_arrived (nick : String) (h : (Cascade.run MyLifeHome.step 20
      ((NickEvent.online nick).calls s.process) s.process).isDone = true) :
    s.Step (.nick (.online nick)) (s.arrived nick) :=
  ⟨rfl, Cascade.exec_of_isDone h⟩

theorem live_linkedRemotes (hs : SameShape linkedRemotes s.process) :
    s.Live link ↔ link = lightsLink := by
  unfold Live
  rw [hs.links, HasPlugin.congr hs, and_iff_left not_hasPlugin_linkedRemotes]
  constructor
  · rintro ⟨id, hg⟩
    have hg : ((Dictionary.empty : Dictionary String Link).set _ lightsLink).get id = some link := hg
    rw [Dictionary.get_set] at hg
    split_ifs at hg
    · exact (Option.some.inj hg).symm
    · simp at hg
  · rintro rfl
    exact ⟨"a|output|b|input", rfl⟩

/-- `b` is told what becomes of `a` after it has come online. -/
theorem up_to_date_linkedRemotes :
    Steps (fun s e t => s.Step e t ∧ s.Replays e t ∧ t.UpToDate) (allAway linkedRemotes)
      [.nick (.online "b|off"), .nick (.online "a|on")]
      (((allAway linkedRemotes).arrived "b|off").arrived "a|on") := by
  refine (brought_up_to_date_iff linkedRemotes_wired linkedRemotes_links).mpr ?_
  have h1 := step_arrived (s := allAway linkedRemotes) "b|off" (by decide)
  have h2 := step_arrived (s := (allAway linkedRemotes).arrived "b|off") "a|on" (by decide)
  refine .cons ⟨?_, h1⟩ (.cons ⟨?_, h2⟩ (.nil _))
  · rintro link hlive ha -
    obtain rfl := (live_linkedRemotes (.refl _)).mp hlive
    decide
  · rintro link hlive ⟨nick, hev, hr, _⟩ -
    obtain rfl := (live_linkedRemotes (sameShape_arrived (allAway linkedRemotes) _)).mp hlive
    cases hev
    exact absurd hr (by decide)

/-- `b` is not told what `a` is when it comes online after `a`. -/
theorem not_up_to_date :
    ¬ ∀ (p : Process) (es : List PresenceEvent) (t : Presence), Wired p → LinksWired p →
      Steps Step (allAway p) es t → t.UpToDate := by
  intro hall
  have h1 := step_arrived (s := allAway linkedRemotes) "a|on" (by decide)
  have h2 := step_arrived (s := (allAway linkedRemotes).arrived "a|on") "b|off" (by decide)
  have hup := hall _ _ _ linkedRemotes_wired linkedRemotes_links (.cons h1 (.cons h2 (.nil _)))
  have hs := (sameShape_arrived (allAway linkedRemotes) "a|on").trans
    (sameShape_arrived _ "b|off")
  have htracks := hup lightsLink ((live_linkedRemotes hs).mpr rfl) (by decide) _ rfl
  have hnone : lightsLink.executed ((allAway linkedRemotes).arrived "a|on").process
      (((allAway linkedRemotes).arrived "a|on").arrived "b|off").process = [] := by decide
  rw [hnone] at htracks
  change lightsLink.current _ = .null at htracks
  exact absurd htracks (by decide)

end Presence

end MyLifeHome
