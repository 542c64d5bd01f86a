import MyLifeHome.Core.Wiring
import MyLifeHome.Library.Runs

/-!
# The mirror of the remote objects

A history of a channel gives its users, and the watcher should keep the attributes of
every object it has as the nick of the user with the object's id has them. The events
that make it fail are the ones that it does not read: the users that `names` lists, and
the nick that a user gives up.
-/
namespace MyLifeHome

open Process Runs

variable {p q : Process} {r : ObjRef} {o : NetObject} {id nick : String} {ev : NickEvent}

/-! ## The channel -/

/-- The users of the channel, as far as the events tell; `none` while the connection is
down. -/
abbrev Channel := Option (List String)

namespace Channel

variable {c : Channel} {u : String}

def users (c : Channel) : List String := c.getD []

/-- The present user with the id. -/
def userOf (c : Channel) (id : String) : Option String := c.users.find? fun u => nickId u = id

/-- No two present users share an id. -/
def Distinct (c : Channel) : Prop := (c.users.map nickId).Nodup

theorem Distinct.unique (hd : c.Distinct) {v : String} (hu : u ∈ c.users) (hv : v ∈ c.users)
    (h : nickId u = nickId v) : u = v :=
  List.inj_on_of_nodup_map hd hu hv h

theorem Distinct.userOf_eq_some_iff (hd : c.Distinct) :
    c.userOf id = some u ↔ u ∈ c.users ∧ nickId u = id := by
  constructor
  · intro h
    exact ⟨List.mem_of_find?_eq_some h, by simpa using List.find?_some h⟩
  · rintro ⟨hu, rfl⟩
    cases h : c.userOf (nickId u) with
    | none => exact absurd (List.find?_eq_none.mp h u hu) (by simp)
    | some v =>
      have hv : nickId v = nickId u := by simpa using List.find?_some h
      rw [hd.unique (List.mem_of_find?_eq_some h) hu hv]

theorem Distinct.userOf_self (hd : c.Distinct) (hu : u ∈ c.users) :
    c.userOf (nickId u) = some u := hd.userOf_eq_some_iff.mpr ⟨hu, rfl⟩

end Channel

def NamesPayload.users : NamesPayload → List String
  | .array users => users
  | .keyed users => users.keys

/-- What an event tells about the users. A list of names comes as an object keyed by nick
and has everybody who is known to be there. -/
inductive Membership : Channel → IrcEvent → Channel → Prop where
  | registered : Membership none .registered (some [])
  | closed (c : Channel) : Membership c .closed none
  | names {users : List String} {keyed : Dictionary String String} (channel : String) :
      (∀ u ∈ users, u ∈ keyed.keys) →
      Membership (some users) (.names channel (.keyed keyed)) (some keyed.keys)
  | join (users : List String) (channel nick : String) :
      Membership (some users) (.join channel nick) (some (users ++ [nick]))
  | part {users : List String} {nick : String} (channel : String) : nick ∈ users →
      Membership (some users) (.part channel nick) (some (users.erase nick))
  | kick {users : List String} {nick : String} (channel : String) : nick ∈ users →
      Membership (some users) (.kick channel nick) (some (users.erase nick))
  | kill {users : List String} {nick : String} : nick ∈ users →
      Membership (some users) (.kill nick) (some (users.erase nick))
  | quit {users : List String} {nick : String} : nick ∈ users →
      Membership (some users) (.quit nick) (some (users.erase nick))
  | nick {users : List String} {oldNick : String} (newNick : String) : oldNick ∈ users →
      Membership (some users) (.nick oldNick newNick)
        (some (users.map fun u => if u = oldNick then newNick else u))

/-! ## The objects -/

/-- Each attribute has the field of the nick at its position. -/
def NetObject.Carries (o : NetObject) (nick : String) : Prop :=
  ∀ x ∈ o.clazz.attributes.zip (nickValues nick), o.attributeValues x.1.name = .str x.2

def NetObject.Blank (o : NetObject) : Prop :=
  ∀ m ∈ o.clazz.attributes, o.attributeValues m.name = .null

/-- The attributes are those of the user, or `null` when there is none. -/
def NetObject.Shows (o : NetObject) : Option String → Prop
  | some nick => o.Carries nick
  | none => o.Blank

/-- The nick has a value for each attribute of the class, which the attribute accepts. -/
def NetObject.Accepts (o : NetObject) (nick : String) : Prop :=
  ∃ value : String → String, nickValues nick = o.clazz.attributes.map (fun m => value m.name) ∧
    ∀ m ∈ o.clazz.attributes, o.checkAttribute m.name (.str (value m.name)) = .ok ()

theorem zip_map_self {α β : Type*} (l : List α) (f : α → β) :
    l.zip (l.map f) = l.map fun a => (a, f a) := by
  simpa using List.zip_map' (l := l) (f := fun a => a) (g := f)

theorem carries_iff {value : String → String}
    (h : nickValues nick = o.clazz.attributes.map fun m => value m.name) :
    o.Carries nick ↔ ∀ m ∈ o.clazz.attributes, o.attributeValues m.name = .str (value m.name) := by
  rw [NetObject.Carries, h, zip_map_self, List.forall_mem_map]

/-- The values that an event gives to an object that accepts them. -/
theorem assignAll_assignments {f : String → JsValue}
    (h : ev.assignments o.clazz = o.clazz.attributes.map fun m => (m.name, f m.name))
    {m : NetMember} (hm : m ∈ o.clazz.attributes) :
    (o.assignAll (ev.assignments o.clazz)).attributeValues m.name = f m.name := by
  have hname : m.name ∈ (ev.assignments o.clazz).map Prod.fst := by
    rw [NickEvent.assignments, map_fst_fields]
    exact List.mem_map_of_mem hm
  have hmem := o.assignAll_of_mem hname
  generalize (o.assignAll (ev.assignments o.clazz)).attributeValues m.name = w at hmem
  rw [h] at hmem
  obtain ⟨m', _, heq⟩ := List.mem_map.mp hmem
  obtain ⟨hn, hw⟩ := Prod.mk.inj heq
  rw [← hw, hn]

theorem carries_assignAll (h : o.Accepts nick) (hv : ev.values = some (nickValues nick)) :
    (o.assignAll (ev.assignments o.clazz)).Carries nick := by
  obtain ⟨value, hvalue, _⟩ := h
  have has : ev.assignments o.clazz =
      o.clazz.attributes.map fun m => (m.name, JsValue.str (value m.name)) := by
    rw [NickEvent.assignments, hv, hvalue, fields_map]
  have hvalue' : nickValues nick = (o.assignAll (ev.assignments o.clazz)).clazz.attributes.map
      fun m => value m.name := by rwa [NetObject.assignAll_clazz]
  rw [carries_iff hvalue']
  intro m hm
  exact assignAll_assignments (f := fun n => .str (value n)) has (by simpa using hm)

theorem blank_assignAll (hv : ev.values = none) :
    (o.assignAll (ev.assignments o.clazz)).Blank := by
  intro m hm
  refine assignAll_assignments (f := fun _ => .null) ?_ (by simpa using hm)
  rw [NickEvent.assignments, hv, fields_none]

/-- An object with attributes does not show a user and nobody at once. -/
theorem not_blank_of_carries (h : o.Accepts nick) (hc : o.Carries nick)
    (hne : o.clazz.attributes ≠ []) : ¬o.Blank := by
  obtain ⟨value, hvalue, _⟩ := h
  obtain ⟨m, hm⟩ := List.exists_mem_of_ne_nil _ hne
  intro hb
  have hnull := hb m hm
  rw [(carries_iff hvalue).mp hc m hm] at hnull
  contradiction

theorem shows_of_attributes_nil (h : o.clazz.attributes = []) (u : Option String) : o.Shows u := by
  cases u with
  | none => simp [NetObject.Shows, NetObject.Blank, h]
  | some u => simp [NetObject.Shows, NetObject.Carries, h]

/-! ## The watcher -/

/-- The objects of the watcher are registered under their ids and driven by no plugin. -/
structure Remotes (p : Process) : Prop where
  wired : Wired p
  passive : ∀ {id r}, p.remote id = some r → ¬HasPlugin p r
  named : ∀ {id r}, p.remote id = some r → (p.objects r).id = id

theorem Remotes.watched (hr : Remotes p) (h : p.remote id = some r) : Watched p id r :=
  ⟨hr.wired, h, hr.passive h⟩

/-- What the events of the watcher leave as it is. -/
structure SameRemotes (p q : Process) : Prop where
  listeners : q.listeners = p.listeners
  remote : ∀ id, q.remote id = p.remote id
  id : ∀ r, (q.objects r).id = (p.objects r).id
  clazz : ∀ r, (q.objects r).clazz = (p.objects r).clazz

theorem SameShape.remotes (h : SameShape p q) : SameRemotes p q :=
  ⟨h.listeners, fun _ => by simp [Process.remote, h.watcher], h.id, h.clazz⟩

theorem SameRemotes.trans {t : Process} (h : SameRemotes p q) (g : SameRemotes q t) :
    SameRemotes p t where
  listeners := g.listeners.trans h.listeners
  remote id := (g.remote id).trans (h.remote id)
  id r := (g.id r).trans (h.id r)
  clazz r := (g.clazz r).trans (h.clazz r)

theorem Remotes.of_same (hr : Remotes p) (h : SameRemotes p q) : Remotes q where
  wired := by
    unfold Wired
    rw [h.listeners]
    exact hr.wired
  passive hq := by
    unfold HasPlugin
    rw [h.listeners]
    exact hr.passive ((h.remote _).symm.trans hq)
  named hq := (h.id _).trans (hr.named ((h.remote _).symm.trans hq))

theorem SameShape.calls (h : SameShape p q) (ev : NickEvent) : ev.calls q = ev.calls p := by
  cases ev <;>
    simp [NickEvent.calls, nickOnline, nickChanged, nickOffline, h.remotes.remote, h.clazz]

theorem calls_of_unknown (h : p.remote (nickId ev.nick) = none) : ev.calls p = [] := by
  cases ev <;> simp only [NickEvent.nick] at h <;>
    simp [NickEvent.calls, nickOnline, nickChanged, nickOffline, h]

/-- An event assigns the attributes of the object with the id of its nick, and of no other. -/
theorem objects_of_event (hr : Remotes p) (h : Completes (ev.calls p) p q)
    (hid : p.remote id = some r) :
    q.objects r = if id = nickId ev.nick then
      (p.objects r).assignAll (ev.assignments (p.objects r).clazz) else p.objects r := by
  cases hrem : p.remote (nickId ev.nick) with
  | none =>
    rw [calls_of_unknown hrem] at h
    obtain rfl := Cascade.exec_nil_iff.mp h
    split_ifs with heq
    · rw [heq, hrem] at hid
      contradiction
    · rfl
  | some s =>
    split_ifs with heq
    · obtain rfl : r = s := Option.some.inj (hid.symm.trans (heq ▸ hrem))
      exact (delivered_event (hr.watched hrem) h).2.object
    · have hne : s ≠ r := by
        rintro rfl
        exact heq ((hr.named hid).symm.trans (hr.named hrem))
      refine (Completes.quiet hr.wired (away_of_not_hasPlugin (hr.passive hid)) h ?_).object
      intro c hc
      rw [calls_eq hrem] at hc
      simp only [List.mem_append, List.mem_map] at hc
      obtain hc | ⟨a, _, rfl⟩ | hc := hc
      · split_ifs at hc
        · obtain rfl := List.mem_singleton.mp hc
          exact .inr hne
        · simp at hc
      · exact hne
      · split_ifs at hc
        · obtain rfl := List.mem_singleton.mp hc
          exact .inr hne
        · simp at hc

/-- The user that the event brings. -/
def NickEvent.user : NickEvent → Option String
  | .online nick | .changed _ nick => some nick
  | .offline _ => none

/-- After its event the object shows the user, or nobody. -/
theorem shows_of_event (hr : Remotes p) (h : Completes (ev.calls p) p q)
    (hid : p.remote (nickId ev.nick) = some r)
    (hv : ∀ nick, ev.user = some nick → (p.objects r).Accepts nick) :
    (q.objects r).Shows ev.user := by
  rw [objects_of_event hr h hid, if_pos rfl]
  cases ev with
  | online nick => exact carries_assignAll (hv nick rfl) rfl
  | changed oldNick nick => exact carries_assignAll (hv nick rfl) rfl
  | offline nick => exact blank_assignAll rfl

/-- Every object goes blank that one of the nicks has the id of; the others stay blank if
they were. -/
theorem blank_of_offline (hr : Remotes p) {nicks : List String}
    (h : Completes (nicks.flatMap p.nickOffline) p q) (hid : p.remote id = some r)
    (hb : (∃ nick ∈ nicks, nickId nick = id) ∨ (p.objects r).Blank) : (q.objects r).Blank := by
  induction nicks generalizing p with
  | nil =>
    obtain rfl := Cascade.exec_nil_iff.mp h
    simpa using hb
  | cons nick nicks ih =>
    rw [List.flatMap_cons] at h
    obtain ⟨u, h1, h2⟩ := Cascade.exec_append_iff.mp h
    have h1 : Completes ((NickEvent.offline nick).calls p) p u := h1
    have hs := h1.sameShape
    have hcalls : nicks.flatMap p.nickOffline = nicks.flatMap u.nickOffline := by
      refine List.flatMap_congr fun n _ => ?_
      exact (hs.calls (.offline n)).symm
    rw [hcalls] at h2
    refine ih (hr.of_same hs.remotes) h2 ((hs.remotes.remote id).trans hid) ?_
    rw [objects_of_event hr h1 hid]
    split_ifs with heq
    · exact .inr (blank_assignAll rfl)
    · obtain ⟨n, hn, hni⟩ | hb := hb
      · rcases List.mem_cons.mp hn with rfl | hn
        · exact absurd hni.symm heq
        · exact .inl ⟨n, hn, hni⟩
      · exact .inr hb

theorem registered_same (p : Process) :
    SameRemotes p p.registered ∧ p.registered.objects = p.objects ∧
      p.registered.online = p.watcher.isSome := by
  have hfold : ∀ (channels : List String) (t : Process),
      (channels.foldl (fun p channel => p.log (.join channel)) t).listeners = t.listeners ∧
      (channels.foldl (fun p channel => p.log (.join channel)) t).watcher = t.watcher ∧
      (channels.foldl (fun p channel => p.log (.join channel)) t).objects = t.objects := by
    intro channels
    induction channels with
    | nil => intro t; exact ⟨rfl, rfl, rfl⟩
    | cons c cs ih => intro t; exact ih _
  cases hw : p.watcher with
  | none =>
    have heq : p.registered = p := by simp [registered, hw]
    rw [heq]
    exact ⟨(SameShape.refl p).remotes, rfl, by simp [online, hw]⟩
  | some w =>
    obtain ⟨hl, hwatch, ho⟩ := hfold w.channels.keys (p.setOnline true)
    have heq : p.registered =
        w.channels.keys.foldl (fun p channel => p.log (.join channel)) (p.setOnline true) := by
      simp [registered, hw]
    rw [← heq] at hl hwatch ho
    refine ⟨⟨hl, fun id => ?_, fun r => ?_, fun r => ?_⟩, ho, ?_⟩
    · simp [Process.remote, hwatch, setOnline, hw]
    · rw [ho]; rfl
    · rw [ho]; rfl
    · simp [online, hwatch, setOnline, hw]

/-! ## One event -/

/-- The users do not share ids, no id is a key that every object has (for the watcher finds a
function under it), and their nicks are nicks of the objects. -/
structure Proper (p : Process) (c : Channel) : Prop where
  distinct : c.Distinct
  plain : ∀ u ∈ c.users, PlainKey (nickId u)
  accepts : ∀ {u r}, u ∈ c.users → p.remote (nickId u) = some r → (p.objects r).Accepts u

/-- Every object shows the user with its id. -/
def Mirrored (p : Process) (c : Channel) : Prop :=
  ∀ id r, p.remote id = some r → (p.objects r).Shows (c.userOf id)

abbrev Mirror := Process × Channel

namespace Mirror

/-- The channel changes and the watcher handles the event. -/
structure Step (s : Mirror) (e : IrcEvent) (t : Mirror) : Prop where
  membership : Membership s.2 e t.2
  proper : Proper s.1 t.2
  handles : s.1.Handles e t.1

/-- The object with the id has no attributes, or there is none. -/
def Bare (p : Process) (id : String) : Prop :=
  ∀ r, p.remote id = some r → (p.objects r).clazz.attributes = []

/-- Nothing is to be learned from the event that the watcher does not read. -/
def Read (s : Mirror) : IrcEvent → Prop
  | .names _ users => ∀ u ∈ users.users, u ∉ s.2.users → Bare s.1 (nickId u)
  | .nick oldNick newNick => nickId oldNick ≠ nickId newNick → Bare s.1 (nickId oldNick)
  | _ => True

structure Inv (s : Mirror) : Prop where
  remotes : Remotes s.1
  watcher : s.1.watcher.isSome
  online : s.1.online = s.2.isSome
  proper : Proper s.1 s.2
  mirrored : Mirrored s.1 s.2

variable {s t : Mirror} {e : IrcEvent} {c c' : Channel}

/-- The events that assign the attributes of one object. -/
def nickEvent : IrcEvent → Option NickEvent
  | .join _ nick => some (.online nick)
  | .part _ nick | .kick _ nick | .kill nick | .quit nick => some (.offline nick)
  | .nick oldNick newNick => some (.changed oldNick newNick)
  | .registered | .closed | .names _ _ => none

theorem completes_of_nickEvent (he : nickEvent e = some ev) (h : p.Handles e q) :
    Completes (ev.calls p) p q := by
  cases e <;> simp only [nickEvent, Option.some.injEq, reduceCtorEq] at he <;> subst he <;> exact h

theorem handles_names {channel : String} {keyed : Dictionary String String}
    (h : p.Handles (.names channel (.keyed keyed)) q) : q = p := Cascade.exec_nil_iff.mp h

theorem Bare.shows {u : Option String} (h : Bare p id) (hr : p.remote id = some r) :
    (p.objects r).Shows u := shows_of_attributes_nil (h r hr) u

/-- After the event of one object it is the others that decide. -/
theorem mirrored_iff_of_event (hi : Inv (p, c)) (h : Completes (ev.calls p) p q)
    (hp : Proper p c') (hu : c'.userOf (nickId ev.nick) = ev.user) :
    Mirrored q c' ↔ ∀ id r, id ≠ nickId ev.nick → p.remote id = some r →
      (p.objects r).Shows (c'.userOf id) := by
  have hsame := h.sameShape.remotes.remote
  constructor
  · intro hm id r hne hid
    have hq := hm id r ((hsame id).trans hid)
    rwa [objects_of_event hi.remotes h hid, if_neg hne] at hq
  · intro hm id r hid
    rw [hsame] at hid
    by_cases heq : id = nickId ev.nick
    · subst heq
      rw [hu]
      refine shows_of_event hi.remotes h hid fun nick hn => ?_
      obtain ⟨hmem, hid'⟩ := hp.distinct.userOf_eq_some_iff.mp (hu.trans hn)
      exact hp.accepts hmem (hid' ▸ hid)
    · rw [objects_of_event hi.remotes h hid, if_neg heq]
      exact hm id r heq hid

end Mirror

namespace Channel

variable {us : List String} {u w newNick : String}

theorem userOf_join (hd : Distinct (some (us ++ [u]))) :
    userOf (some (us ++ [u])) id = if id = nickId u then some u else userOf (some us) id := by
  have hd' : Distinct (some us) := ((List.sublist_append_left us [u]).map nickId).nodup hd
  ext w
  rw [hd.userOf_eq_some_iff]
  have hmem : ∀ w, w ∈ users (some (us ++ [u])) ↔ w ∈ us ∨ w = u := by simp [users]
  rw [hmem]
  split_ifs with h
  · subst h
    constructor
    · rintro ⟨hw, hid⟩
      rw [hd.unique ((hmem w).mpr hw) ((hmem u).mpr (.inr rfl)) hid]
    · intro hw
      obtain rfl := Option.some.inj hw
      exact ⟨.inr rfl, rfl⟩
  · rw [hd'.userOf_eq_some_iff]
    constructor
    · rintro ⟨hw | rfl, hid⟩
      · exact ⟨hw, hid⟩
      · exact absurd hid.symm h
    · rintro ⟨hw, hid⟩
      exact ⟨.inl hw, hid⟩

theorem userOf_leave (hd : Distinct (some us)) (hu : u ∈ us) :
    userOf (some (us.erase u)) id = if id = nickId u then none else userOf (some us) id := by
  have hnodup : us.Nodup := hd.of_map
  have hd' : Distinct (some (us.erase u)) := (List.erase_sublist.map nickId).nodup hd
  have hmem : ∀ w, w ∈ us.erase u ↔ w ≠ u ∧ w ∈ us := fun w => hnodup.mem_erase_iff
  ext w
  rw [hd'.userOf_eq_some_iff]
  change (w ∈ us.erase u ∧ _) ↔ _
  rw [hmem]
  split_ifs with h
  · subst h
    constructor
    · rintro ⟨⟨hne, hw⟩, hid⟩
      exact absurd (hd.unique hw hu hid) hne
    · intro hw
      contradiction
  · rw [hd.userOf_eq_some_iff]
    constructor
    · rintro ⟨⟨_, hw⟩, hid⟩
      exact ⟨hw, hid⟩
    · rintro ⟨hw, rfl⟩
      refine ⟨⟨?_, hw⟩, rfl⟩
      rintro rfl
      exact h rfl

theorem userOf_rename (hd : Distinct (some us)) (hu : u ∈ us)
    (hd' : Distinct (some (us.map fun w => if w = u then newNick else w))) :
    userOf (some (us.map fun w => if w = u then newNick else w)) id =
      if id = nickId newNick then some newNick
      else if id = nickId u then none else userOf (some us) id := by
  have hmem : ∀ w, w ∈ us.map (fun w => if w = u then newNick else w) ↔
      w = newNick ∨ (w ≠ u ∧ w ∈ us) := by
    intro w
    simp only [List.mem_map]
    constructor
    · rintro ⟨v, hv, rfl⟩
      split_ifs with h
      · exact .inl rfl
      · exact .inr ⟨h, hv⟩
    · rintro (rfl | ⟨hne, hw⟩)
      · exact ⟨u, hu, by simp⟩
      · exact ⟨w, hw, by simp [hne]⟩
  ext w
  rw [hd'.userOf_eq_some_iff]
  change (w ∈ us.map _ ∧ _) ↔ _
  rw [hmem]
  split_ifs with h1 h2
  · subst h1
    constructor
    · rintro ⟨hw, hid⟩
      rw [hd'.unique ((hmem w).mpr hw) ((hmem newNick).mpr (.inl rfl)) hid]
    · intro hw
      obtain rfl := Option.some.inj hw
      exact ⟨.inl rfl, rfl⟩
  · subst h2
    constructor
    · rintro ⟨rfl | ⟨hne, hw⟩, hid⟩
      · exact absurd hid.symm h1
      · exact absurd (hd.unique hw hu hid) hne
    · intro hw
      contradiction
  · rw [hd.userOf_eq_some_iff]
    constructor
    · rintro ⟨rfl | ⟨_, hw⟩, hid⟩
      · exact absurd hid.symm h1
      · exact ⟨hw, hid⟩
    · rintro ⟨hw, rfl⟩
      refine ⟨.inr ⟨?_, hw⟩, rfl⟩
      rintro rfl
      exact h2 rfl

end Channel

namespace Mirror

variable {s t : Mirror} {e : IrcEvent} {c c' : Channel}

theorem setOnline_same (online : Bool) : SameRemotes p (p.setOnline online) where
  listeners := rfl
  remote id := by cases hw : p.watcher <;> simp [Process.remote, setOnline, hw]
  id _ := rfl
  clazz _ := rfl

/-- Closing the connection takes the watcher offline and makes every object go blank. -/
theorem handles_closed (hi : Inv (p, c)) (h : p.Handles .closed q) :
    SameRemotes p q ∧ q.watcher.isSome ∧ q.online = false ∧ Mirrored q none := by
  have h : Completes p.connectionClosed.2 p.connectionClosed.1 q := h
  unfold connectionClosed at h
  obtain ⟨w, hw⟩ : ∃ w, p.watcher = some w := Option.isSome_iff_exists.mp hi.watcher
  simp only [hw] at h
  cases hon : w.online with
  | false =>
    simp only [hon, Bool.false_eq_true, if_false] at h
    obtain rfl := Cascade.exec_nil_iff.mp h
    have hoff : q.online = false := by simp [online, hw, hon]
    obtain rfl : c = none := by
      have hc := hi.online
      rw [hoff] at hc
      simpa using hc.symm
    exact ⟨(SameShape.refl q).remotes, hi.watcher, hoff, hi.mirrored⟩
  | true =>
    simp only [hon, if_true] at h
    have hs := h.sameShape
    have hp := setOnline_same (p := p) false
    have hpq := hp.trans hs.remotes
    refine ⟨hpq, ?_, ?_, ?_⟩
    · simp [hs.watcher, setOnline, hw]
    · simp [online, hs.watcher, setOnline, hw]
    · intro id r hid
      have hid : p.remote id = some r := (hpq.remote id).symm.trans hid
      have hoffline : p.nickOffline = (p.setOnline false).nickOffline := by
        funext nick
        simp only [nickOffline, hp.remote]
        rfl
      rw [hoffline] at h
      refine blank_of_offline (hi.remotes.of_same hp) h ((hp.remote id).trans hid) ?_
      by_cases hbar : '|' ∈ id.toList
      · have hnone : c.userOf id = none := by
          rw [Channel.userOf, List.find?_eq_none]
          intro u _ hu
          have hu : nickId u = id := by simpa using hu
          exact Text.notMem_upTo (s := u) (by rw [← nickId, hu]; exact hbar)
        have hshows := hi.mirrored id r hid
        rw [hnone] at hshows
        exact .inr hshows
      · refine .inl ⟨id, ?_, Text.upTo_of_notMem hbar⟩
        have hget : w.objects.get id = some r := by simpa [Process.remote, hw] using hid
        rw [← Dictionary.get_isSome_iff, hget]
        rfl

theorem handles_registered (hi : Inv (p, none)) (h : p.Handles .registered q) :
    SameRemotes p q ∧ q.watcher.isSome ∧ q.online = true ∧ Mirrored q (some []) := by
  have hq : q = p.registered := Cascade.exec_nil_iff.mp h
  subst hq
  obtain ⟨hsame, hobj, honline⟩ := registered_same p
  have hon : p.registered.online = true := honline.trans hi.watcher
  refine ⟨hsame, ?_, hon, ?_⟩
  · cases hw : p.registered.watcher with
    | none => simp [online, hw] at hon
    | some w => rfl
  · intro id r hid
    rw [hobj]
    exact hi.mirrored id r ((hsame.remote id).symm.trans hid)

/-- What an event keeps, and what decides whether the mirror stays faithful. -/
theorem step_spec (hi : Inv s) (h : Step s e t) :
    SameRemotes s.1 t.1 ∧ t.1.watcher.isSome ∧ t.1.online = t.2.isSome ∧
      (Mirrored t.1 t.2 ↔ Read s e) := by
  obtain ⟨p, c⟩ := s
  obtain ⟨q, c'⟩ := t
  obtain ⟨hm, hproper, hh⟩ := h
  -- the events of one object and `names` leave the watcher as it is
  have hkeep : ∀ {us us' : List String}, c = some us → c' = some us' → SameShape p q →
      SameRemotes p q ∧ q.watcher.isSome ∧ q.online = c'.isSome := by
    rintro us us' rfl rfl hs
    refine ⟨hs.remotes, hs.watcher ▸ hi.watcher, ?_⟩
    rw [online, hs.watcher]
    exact hi.online
  have hcases : ∀ {ev : NickEvent} {us us' : List String}, c = some us → c' = some us' →
      nickEvent e = some ev → c'.userOf (nickId ev.nick) = ev.user →
      SameRemotes p q ∧ q.watcher.isSome ∧ q.online = c'.isSome ∧
        (Mirrored q c' ↔ ∀ id r, id ≠ nickId ev.nick → p.remote id = some r →
          (p.objects r).Shows (c'.userOf id)) := by
    intro ev us us' hc hc' he hu
    have hrun := completes_of_nickEvent he hh
    obtain ⟨h1, h2, h3⟩ := hkeep hc hc' hrun.sameShape
    exact ⟨h1, h2, h3, mirrored_iff_of_event hi hrun hproper hu⟩
  have hleave : ∀ {us : List String} {nick : String}, c = some us → c' = some (us.erase nick) →
      nick ∈ us → nickEvent e = some (.offline nick) → Read (p, c) e →
      SameRemotes p q ∧ q.watcher.isSome ∧ q.online = c'.isSome ∧
        (Mirrored q c' ↔ Read (p, c) e) := by
    intro us nick hc hc' hu he hread
    have huser : ∀ id, c'.userOf id = if id = nickId nick then none else c.userOf id := by
      intro id
      rw [hc, hc']
      exact Channel.userOf_leave (hc ▸ hi.proper.distinct) hu
    obtain ⟨h1, h2, h3, h4⟩ := hcases hc hc' he ((huser _).trans (if_pos rfl))
    refine ⟨h1, h2, h3, h4.trans (iff_of_true ?_ hread)⟩
    intro id r hne hid
    have hne : id ≠ nickId nick := hne
    rw [huser, if_neg hne]
    exact hi.mirrored id r hid
  cases hm with
  | registered =>
    obtain ⟨h1, h2, h3, h4⟩ := handles_registered hi hh
    exact ⟨h1, h2, h3, iff_of_true h4 trivial⟩
  | closed =>
    obtain ⟨h1, h2, h3, h4⟩ := handles_closed hi hh
    exact ⟨h1, h2, h3, iff_of_true h4 trivial⟩
  | @names us keyed channel hsub =>
    have hq : q = p := handles_names hh
    subst hq
    obtain ⟨h1, h2, h3⟩ := hkeep rfl rfl (.refl q)
    refine ⟨h1, h2, h3, ?_⟩
    have hmem : ∀ u, u ∈ Channel.users (some keyed.keys) ↔ u ∈ keyed.keys := fun _ => Iff.rfl
    constructor
    · intro hmir u hu hnew r hid
      by_contra hne
      have hnobody : Channel.userOf (some us) (nickId u) = none := by
        refine Option.eq_none_iff_forall_ne_some.mpr fun v hv => ?_
        obtain ⟨hvu, hvid⟩ := hi.proper.distinct.userOf_eq_some_iff.mp hv
        have hvu' : v = u := hproper.distinct.unique (hsub v hvu) hu hvid
        exact hnew (hvu' ▸ hvu)
      have hcarries := hmir _ r hid
      rw [hproper.distinct.userOf_self hu] at hcarries
      have hblank := hi.mirrored _ r hid
      rw [hnobody] at hblank
      exact not_blank_of_carries (hproper.accepts hu hid) hcarries hne hblank
    · intro hread id r hid
      have hold := hi.mirrored id r hid
      cases hu : Channel.userOf (some keyed.keys) id with
      | none =>
        have hnobody : Channel.userOf (some us) id = none := by
          refine Option.eq_none_iff_forall_ne_some.mpr fun v hv => ?_
          obtain ⟨hvu, rfl⟩ := hi.proper.distinct.userOf_eq_some_iff.mp hv
          rw [hproper.distinct.userOf_self (hsub v hvu)] at hu
          contradiction
        rwa [hnobody] at hold
      | some u =>
        obtain ⟨huk, rfl⟩ := hproper.distinct.userOf_eq_some_iff.mp hu
        by_cases hus : u ∈ us
        · rwa [hi.proper.distinct.userOf_self hus] at hold
        · exact (hread u huk hus).shows hid
  | join us channel nick =>
    have huser : ∀ id, Channel.userOf (some (us ++ [nick])) id = _ :=
      fun id => Channel.userOf_join hproper.distinct
    obtain ⟨h1, h2, h3, h4⟩ := hcases rfl rfl rfl ((huser _).trans (if_pos rfl))
    refine ⟨h1, h2, h3, h4.trans (iff_of_true ?_ trivial)⟩
    intro id r hne hid
    have hne : id ≠ nickId nick := hne
    rw [huser, if_neg hne]
    exact hi.mirrored id r hid
  | part channel hu => exact hleave rfl rfl hu rfl trivial
  | kick channel hu => exact hleave rfl rfl hu rfl trivial
  | kill hu => exact hleave rfl rfl hu rfl trivial
  | quit hu => exact hleave rfl rfl hu rfl trivial
  | @nick us oldNick newNick hu =>
    have huser : ∀ id, Channel.userOf (some (us.map _)) id = _ :=
      fun id => Channel.userOf_rename hi.proper.distinct hu hproper.distinct
    obtain ⟨h1, h2, h3, h4⟩ := hcases rfl rfl rfl ((huser _).trans (if_pos rfl))
    refine ⟨h1, h2, h3, h4.trans ?_⟩
    constructor
    · intro hmir hne r hid
      by_contra hattr
      have hcarries := hi.mirrored _ r hid
      rw [hi.proper.distinct.userOf_self hu] at hcarries
      have hblank := hmir _ r hne hid
      rw [huser, if_neg hne, if_pos rfl] at hblank
      exact not_blank_of_carries (hi.proper.accepts hu hid) hcarries hattr hblank
    · intro hread id r hne hid
      have hne : id ≠ nickId newNick := hne
      rw [huser, if_neg hne]
      split_ifs with hold
      · subst hold
        exact (hread hne).shows hid
      · exact hi.mirrored id r hid

/-! ## No event is refused -/

/-- The listeners of the objects return, online and offline, and no attribute is hidden
by an action of the same name. -/
structure Responsive (p : Process) : Prop where
  returns : ∀ {id r} (online : Bool), p.remote id = some r → Returns (p.setOnline online) r
  resolves : ∀ {id r m}, p.remote id = some r → m ∈ (p.objects r).clazz.attributes →
    ∃ type, (p.objects r).clazz.attribute m.name = .ok type

theorem exists_event (hr : Remotes p)
    (hret : ∀ {r}, p.remote (nickId ev.nick) = some r → Returns p r)
    (hc : ∀ {r}, p.remote (nickId ev.nick) = some r →
      ∀ a ∈ ev.assignments (p.objects r).clazz, (p.objects r).checkAttribute a.1 a.2 = .ok ()) :
    ∃ q, Completes (ev.calls p) p q := by
  cases hid : p.remote (nickId ev.nick) with
  | none => exact ⟨p, calls_of_unknown hid ▸ .nil p⟩
  | some r => exact completes_event (hr.watched hid) (hret hid) (hc hid)

theorem accepts_assignments (h : o.Accepts nick) (hv : ev.values = some (nickValues nick)) :
    ∀ a ∈ ev.assignments o.clazz, o.checkAttribute a.1 a.2 = .ok () := by
  obtain ⟨value, hvalue, hcheck⟩ := h
  rw [NickEvent.assignments, hv, hvalue, fields_map, List.forall_mem_map]
  exact hcheck

theorem exists_offline (hr : Remotes p) (nicks : List String)
    (hret : ∀ {id r}, p.remote id = some r → Returns p r)
    (hres : ∀ {id r m}, p.remote id = some r → m ∈ (p.objects r).clazz.attributes →
      ∃ type, (p.objects r).clazz.attribute m.name = .ok type) :
    ∃ q, Completes (nicks.flatMap p.nickOffline) p q := by
  induction nicks generalizing p with
  | nil => exact ⟨p, .nil p⟩
  | cons nick nicks ih =>
    obtain ⟨u, hu⟩ : ∃ u, Completes ((NickEvent.offline nick).calls p) p u := by
      refine exists_event hr hret fun {r} hid a ha => ?_
      rw [NickEvent.assignments, NickEvent.values, fields_none] at ha
      obtain ⟨m, hm, rfl⟩ := List.mem_map.mp ha
      obtain ⟨type, ht⟩ := hres hid hm
      exact NetObject.checkAttribute_eq_ok_iff.mpr ⟨type, ht, rfl⟩
    have hs := hu.sameShape
    have hremote : ∀ {id r}, u.remote id = some r → p.remote id = some r :=
      fun h => (hs.remotes.remote _).symm.trans h
    obtain ⟨q, hq⟩ := ih (hr.of_same hs.remotes) (fun h => (hret (hremote h)).of_sameShape hs)
      fun {id r m} h hm => by
        rw [hs.clazz] at hm ⊢
        exact hres (hremote h) hm
    have hcalls : nicks.flatMap u.nickOffline = nicks.flatMap p.nickOffline :=
      List.flatMap_congr fun n _ => hs.calls (.offline n)
    rw [hcalls] at hq
    exact ⟨q, List.flatMap_cons ▸ hu.append hq⟩

/-- Whatever happens on the channel, the watcher handles it to its end. -/
theorem exists_handles (hi : Inv (p, c)) (hresp : Responsive p) (hm : Membership c e c')
    (hproper : Proper p c') : ∃ q, p.Handles e q := by
  have hp : p.setOnline p.online = p := setOnline_online hi.watcher
  have hret : ∀ {id r}, p.remote id = some r → Returns p r := by
    intro id r h
    have hr := hresp.returns p.online h
    rwa [hp] at hr
  have hknown : ∀ ev : NickEvent, ev.values = some (nickValues ev.nick) → ev.nick ∈ c'.users →
      ∃ q, Completes (ev.calls p) p q := by
    intro ev hv hu
    exact exists_event hi.remotes hret fun hid => accepts_assignments (hproper.accepts hu hid) hv
  have hgone : ∀ nick, ∃ q, Completes (p.nickOffline nick) p q := by
    intro nick
    simpa using exists_offline hi.remotes [nick] hret hresp.resolves
  cases hm with
  | registered | names => exact ⟨_, .nil _⟩
  | closed =>
    obtain ⟨w, hw⟩ : ∃ w, p.watcher = some w := Option.isSome_iff_exists.mp hi.watcher
    have hp := setOnline_same (p := p) false
    have hclosed : p.connectionClosed =
        if w.online then (p.setOnline false, w.objects.keys.flatMap p.nickOffline) else (p, []) := by
      unfold connectionClosed
      rw [hw]
    change ∃ q, Completes p.connectionClosed.2 p.connectionClosed.1 q
    rw [hclosed]
    cases w.online with
    | false => exact ⟨p, .nil p⟩
    | true =>
      have hoffline : p.nickOffline = (p.setOnline false).nickOffline := by
        funext nick
        simp only [nickOffline, hp.remote]
        rfl
      have hremote : ∀ {id r}, (p.setOnline false).remote id = some r → p.remote id = some r :=
        fun h => (hp.remote _).symm.trans h
      obtain ⟨q, hq⟩ := exists_offline (hi.remotes.of_same hp) w.objects.keys
        (fun h => hresp.returns false (hremote h)) fun h hm => hresp.resolves (hremote h) hm
      rw [← hoffline] at hq
      exact ⟨q, hq⟩
  | join us channel nick =>
    exact hknown (.online nick) rfl (List.mem_append_right us (List.mem_singleton_self nick))
  | part | kick | kill | quit => exact hgone _
  | @nick us oldNick newNick hu =>
    exact hknown (.changed oldNick newNick) rfl (List.mem_map.mpr ⟨oldNick, hu, if_pos rfl⟩)

/-! ## Histories -/

/-- Registered objects before the connection is made. -/
structure Start (p : Process) : Prop where
  remotes : Remotes p
  plain : ∀ {id r}, p.remote id = some r → PlainKey id
  watcher : p.watcher.isSome
  offline : p.online = false
  blank : ∀ {id r}, p.remote id = some r → (p.objects r).Blank

theorem Start.inv (hp : Start p) : Inv (p, none) where
  remotes := hp.remotes
  watcher := hp.watcher
  online := hp.offline
  proper := ⟨List.nodup_nil, by simp [Channel.users], fun hu => by simp [Channel.users] at hu⟩
  mirrored _ _ hid := hp.blank hid

theorem Step.inv (hi : Inv s) (h : Step s e t) (hm : Mirrored t.1 t.2) : Inv t := by
  obtain ⟨hsame, hwatcher, honline, _⟩ := step_spec hi h
  refine ⟨hi.remotes.of_same hsame, hwatcher, honline, ⟨h.proper.distinct, h.proper.plain, ?_⟩, hm⟩
  intro u r hu hid
  obtain ⟨value, hvalue, hcheck⟩ := h.proper.accepts hu ((hsame.remote _).symm.trans hid)
  refine ⟨value, by rwa [hsame.clazz], fun m hm => ?_⟩
  rw [NetObject.checkAttribute_congr (hsame.clazz r)]
  exact hcheck m (by rwa [hsame.clazz] at hm)

end Mirror

end MyLifeHome
