import MyLifeHome.Core.Value
import MyLifeHome.Library.Checked
import MyLifeHome.Library.Dictionary

/-!
# The table of the browser

The web interface shows the components that are on its channel. `gateway.js` turns each event of
the IRC client into messages for the browser, and `net.js` keeps a table from them, under the
part of a nick before the first bar.
-/
namespace MyLifeHome.Ui

/-- `parts[0]` -/
def nickId (nick : String) : String := Text.upTo '|' nick

/-- `parts.slice(1)` -/
def nickAttrs (nick : String) : List String := (Text.split '|' nick).tail

structure Component where
  id : String
  attrs : List String
  deriving DecidableEq

def ofNick (nick : String) : Component := ⟨nickId nick, nickAttrs nick⟩

structure Service where
  net : Dictionary String Component
  connected : Bool

def service : Service := ⟨.empty, false⟩

namespace Service

def part (s : Service) (id : String) : Service := { s with net := s.net.erase id }

def partall (s : Service) : Service := s.net.keys.foldl part s

def join (s : Service) (id : String) (attrs : List String) : Service :=
  { s with net := s.net.set id ⟨id, attrs⟩, connected := true }

/-- It looks the component up without asking whether it is there. -/
def changed (s : Service) (id : String) (attrs : List String) : Except JsError Service :=
  match s.net.get id with
  | none => .error .typeError
  | some component => .ok { s with net := s.net.set id { component with attrs } }

end Service

/-- What the browser hears on its socket. -/
inductive SocketEvent where
  | disconnect
  | partall
  | part (nick : String)
  | join (nick : String)
  | changed (oldnick newnick : String)

def Service.receive (s : Service) : SocketEvent → Except JsError Service
  | .disconnect => .ok { s.partall with connected := false }
  | .partall => .ok { s.partall with connected := false }
  | .part nick => .ok (s.part (nickId nick))
  | .join nick => .ok (s.join (nickId nick) (nickAttrs nick))
  | .changed _ newnick => s.changed (nickId newnick) (nickAttrs newnick)

/-- An event of the IRC client, or the end of the socket. -/
inductive Event where
  | names (users : List String)
  | join (who : String)
  | part (who : String)
  | kick (who : String)
  | kill (who : String)
  | quit (who : String)
  | nick (oldnick newnick : String)
  | close
  | disconnect

namespace Event

/-- What the browser hears of an event. -/
def heard : Event → List SocketEvent
  | names users => users.map .join
  | join who => [.join who]
  | part who => [.part who]
  | kick who => [.part who]
  | kill who => [.part who]
  | quit who => [.part who]
  | nick oldnick newnick => [.changed oldnick newnick]
  | close => [.partall]
  | disconnect => [.disconnect]

/-- The users known to be present after an event. -/
def members (users : List String) : Event → List String
  | names us => us.foldl (fun users who => users.insert who) users
  | join who => users.insert who
  | part who => users.filter (· ≠ who)
  | kick who => users.filter (· ≠ who)
  | kill who => users.filter (· ≠ who)
  | quit who => users.filter (· ≠ who)
  | nick oldnick newnick => users.map fun user => if user = oldnick then newnick else user
  | close => []
  | disconnect => []

end Event

/-- The users are told apart by the part before the bar. -/
def Distinct (users : List String) : Prop := (users.map nickId).Nodup

/-- Nobody else among the users has the id of `who`. -/
def Apart (users : List String) (who : String) : Prop :=
  ∀ user ∈ users, nickId user = nickId who → user = who

/-- The events that a channel with these users can produce: who leaves takes nobody else's id,
who is renamed is present, and the users have distinct ids afterwards. -/
def Produced (users : List String) (e : Event) : Prop :=
  Distinct (e.members users) ∧ match e with
    | .part who | .kick who | .kill who | .quit who => Apart users who
    | .nick oldnick _ => oldnick ∈ users
    | _ => True

def Produces : List String → List Event → Prop
  | _, [] => True
  | users, e :: es => Produced users e ∧ Produces (e.members users) es

def Service.handle (s : Service) (e : Event) : Except JsError Service :=
  e.heard.foldlM Service.receive s

def Service.handleAll (s : Service) (es : List Event) : Except JsError Service :=
  es.foldlM Service.handle s

def membersAll (users : List String) (es : List Event) : List String :=
  es.foldl (fun users e => e.members users) users

/-- The keys of the table are the ids of the users, each with the fields of its nick. -/
def Service.Mirrors (s : Service) (users : List String) : Prop :=
  ∀ id component, s.net.get id = some component ↔
    ∃ user ∈ users, nickId user = id ∧ component = ofNick user

/-! ## One event -/

variable {users us : List String} {who oldnick newnick id : String} {s : Service} {e : Event}
  {es : List Event}

theorem Distinct.apart (hd : Distinct users) (h : who ∈ users) : Apart users who :=
  fun _ hu hid => List.inj_on_of_nodup_map hd hu h hid

theorem mirrors_nil : s.Mirrors [] ↔ ∀ id, s.net.get id = none := by
  simp [Service.Mirrors, Option.eq_none_iff_forall_ne_some]

theorem Service.get_parts (ids : List String) :
    (ids.foldl part s).net.get id = if id ∈ ids then none else s.net.get id := by
  induction ids generalizing s with
  | nil => simp
  | cons i ids ih =>
    rw [List.foldl_cons, ih]
    by_cases h : id = i <;> simp [part, Dictionary.get_erase, h]

/-- Nobody is left in the table. -/
theorem Service.get_partall : s.partall.net.get id = none := by
  unfold partall
  rw [get_parts]
  split_ifs with h
  · rfl
  · exact Dictionary.get_eq_none_iff.mpr h

theorem Service.Mirrors.join (h : s.Mirrors users) (ha : Apart users who) :
    (s.join (nickId who) (nickAttrs who)).Mirrors (users.insert who) := by
  intro id component
  simp only [Service.join, Dictionary.get_set, List.mem_insert_iff]
  split_ifs with hid
  · constructor
    · intro hc
      exact ⟨who, .inl rfl, hid.symm, (Option.some.inj hc).symm⟩
    · rintro ⟨user, rfl | hu, hi, rfl⟩
      · rfl
      · rw [ha user hu (hi.trans hid)]
        rfl
  · rw [h id component]
    constructor
    · rintro ⟨user, hu, hi, hc⟩
      exact ⟨user, .inr hu, hi, hc⟩
    · rintro ⟨user, rfl | hu, hi, hc⟩
      · exact absurd hi.symm hid
      · exact ⟨user, hu, hi, hc⟩

theorem Service.Mirrors.part (h : s.Mirrors users) (ha : Apart users who) :
    (s.part (nickId who)).Mirrors (users.filter (· ≠ who)) := by
  intro id component
  simp only [Service.part, Dictionary.get_erase, List.mem_filter, decide_eq_true_eq]
  split_ifs with hid
  · simp only [false_iff]
    rintro ⟨user, ⟨hu, hne⟩, hi, -⟩
    exact hne (ha user hu (hi.trans hid))
  · rw [h id component]
    refine exists_congr fun user => ?_
    grind

theorem mem_foldl_insert {x : String} :
    x ∈ us.foldl (fun users who => users.insert who) users ↔ x ∈ us ∨ x ∈ users := by
  induction us generalizing users with
  | nil => simp
  | cons u us ih =>
    rw [List.foldl_cons, ih, List.mem_insert_iff, List.mem_cons]
    grind

/-- The names join one after another. -/
theorem Service.Mirrors.names (h : s.Mirrors users) (hd : Distinct ((Event.names us).members users)) :
    ∃ t, (us.map SocketEvent.join).foldlM Service.receive s = .ok t ∧
      t.Mirrors ((Event.names us).members users) := by
  induction us generalizing users s with
  | nil => exact ⟨s, rfl, h⟩
  | cons u us ih =>
    have ha : Apart users u := fun user hu =>
      hd.apart (mem_foldl_insert.mpr (.inl List.mem_cons_self)) user
        (mem_foldl_insert.mpr (.inr hu))
    obtain ⟨t, ht, hmirrors⟩ := ih (h.join ha) hd
    refine ⟨t, ?_, hmirrors⟩
    rw [List.map_cons, List.foldlM_cons]
    exact Checked.bind_eq_ok_iff.mpr ⟨_, rfl, ht⟩

/-- Whoever takes another id takes one that is not in the table. -/
theorem Service.Mirrors.get_new (h : s.Mirrors users) (hold : oldnick ∈ users)
    (hd : Distinct ((Event.nick oldnick newnick).members users))
    (hid : nickId newnick ≠ nickId oldnick) : s.net.get (nickId newnick) = none := by
  rw [Option.eq_none_iff_forall_ne_some]
  intro component hc
  obtain ⟨user, hu, hi, -⟩ := (h _ _).mp hc
  have hne : user ≠ oldnick := by
    intro heq
    rw [heq] at hi
    exact hid hi.symm
  simp only [Distinct, Event.members, List.map_map] at hd
  have hsame : user = oldnick := List.inj_on_of_nodup_map hd hu hold (by simp [hne, hi])
  exact hne hsame

theorem Service.Mirrors.rename (h : s.Mirrors users) (hd : Distinct users) (hold : oldnick ∈ users)
    (hid : nickId newnick = nickId oldnick) :
    ∃ t, s.changed (nickId newnick) (nickAttrs newnick) = .ok t ∧
      t.Mirrors ((Event.nick oldnick newnick).members users) := by
  have hget : s.net.get (nickId newnick) = some (ofNick oldnick) :=
    (h _ _).mpr ⟨oldnick, hold, hid.symm, rfl⟩
  refine ⟨{ s with net := s.net.set (nickId newnick) (ofNick newnick) }, ?_, ?_⟩
  · rw [Service.changed, hget]
    simp [ofNick, hid]
  · intro id component
    simp only [Dictionary.get_set, Event.members, List.mem_map, exists_exists_and_eq_and]
    split_ifs with hi
    · constructor
      · intro hc
        exact ⟨oldnick, hold, by simp [hi], by simpa using (Option.some.inj hc).symm⟩
      · rintro ⟨user, hu, hi', hc⟩
        have hsame : user = oldnick := by
          by_contra hne
          simp only [hne, if_false] at hi'
          exact hne (hd.apart hold user hu (by rw [hi', hi, hid]))
        simpa [hsame] using hc.symm
    · rw [h id component]
      refine exists_congr fun user => ?_
      by_cases hsame : user = oldnick
      · simp [hsame, ← hid, Ne.symm hi]
      · simp [hsame]

/-- The id stays when a nick changes. -/
def Event.KeepsId : Event → Prop
  | .nick oldnick newnick => nickId newnick = nickId oldnick
  | _ => True

theorem handle_iff (h : s.Mirrors users) (hd : Distinct users) (hp : Produced users e) :
    (∃ t, s.handle e = .ok t ∧ t.Mirrors (e.members users)) ↔ e.KeepsId := by
  obtain ⟨hafter, hp⟩ := hp
  have hempty : s.partall.Mirrors [] := mirrors_nil.mpr fun _ => Service.get_partall
  cases e with
  | names us => exact ⟨fun _ => trivial, fun _ => h.names hafter⟩
  | join who =>
    refine ⟨fun _ => trivial, fun _ => ⟨_, rfl, h.join fun user hu => ?_⟩⟩
    exact hafter.apart List.mem_insert_self user (List.mem_insert_of_mem hu)
  | part who => exact ⟨fun _ => trivial, fun _ => ⟨_, rfl, h.part hp⟩⟩
  | kick who => exact ⟨fun _ => trivial, fun _ => ⟨_, rfl, h.part hp⟩⟩
  | kill who => exact ⟨fun _ => trivial, fun _ => ⟨_, rfl, h.part hp⟩⟩
  | quit who => exact ⟨fun _ => trivial, fun _ => ⟨_, rfl, h.part hp⟩⟩
  | nick oldnick newnick =>
    simp only [Service.handle, Event.heard, List.foldlM_cons, List.foldlM_nil, Event.KeepsId,
      Service.receive, bind_pure]
    constructor
    · intro ⟨t, ht, _⟩
      by_contra hid
      simp [Service.changed, h.get_new hp hafter hid] at ht
    · intro hid
      exact h.rename hd hp hid
  | close => exact ⟨fun _ => trivial, fun _ => ⟨_, rfl, hempty⟩⟩
  | disconnect => exact ⟨fun _ => trivial, fun _ => ⟨_, rfl, hempty⟩⟩

/-! ## A history -/

theorem handleAll_iff (h : s.Mirrors users) (hd : Distinct users) (hp : Produces users es) :
    (∀ before, before <+: es → ∃ t, s.handleAll before = .ok t ∧
      t.Mirrors (membersAll users before)) ↔ ∀ e ∈ es, e.KeepsId := by
  induction es generalizing users s with
  | nil => simpa using ⟨s, rfl, h⟩
  | cons e es ih =>
    obtain ⟨hfirst, hrest⟩ := hp
    rw [List.forall_mem_cons, ← handle_iff h hd hfirst]
    constructor
    · intro hall
      obtain ⟨t, ht, hmirrors⟩ := hall [e] (by simp)
      have ht : s.handle e = .ok t := by simpa [Service.handleAll] using ht
      refine ⟨⟨t, ht, hmirrors⟩, (ih hmirrors hfirst.1 hrest).mp fun before hb => ?_⟩
      have hmore := hall (e :: before) (List.cons_prefix_cons.mpr ⟨rfl, hb⟩)
      simpa [Service.handleAll, ht, bind, Except.bind, membersAll] using hmore
    · intro ⟨⟨t, ht, hmirrors⟩, hall⟩ before hb
      cases before with
      | nil => exact ⟨s, rfl, h⟩
      | cons e' before =>
        obtain ⟨rfl, hbefore⟩ := List.cons_prefix_cons.mp hb
        have hmore := (ih hmirrors hfirst.1 hrest).mpr hall before hbefore
        simpa [Service.handleAll, ht, bind, Except.bind, membersAll] using hmore

/-- The table follows the users of the channel, and no handler throws, exactly in the histories
in which nobody changes the part of the nick before the bar. -/
theorem follows_channel_iff (hp : Produces [] es) :
    (∀ before, before <+: es → ∃ t, service.handleAll before = .ok t ∧
      t.Mirrors (membersAll [] before)) ↔
        ∀ oldnick newnick, .nick oldnick newnick ∈ es → nickId newnick = nickId oldnick := by
  have hempty : service.Mirrors [] := mirrors_nil.mpr fun _ => rfl
  rw [handleAll_iff hempty List.nodup_nil hp]
  constructor
  · intro h oldnick newnick hmem
    exact h _ hmem
  · intro h e hmem
    cases e with
    | nick oldnick newnick => exact h oldnick newnick hmem
    | _ => trivial

/-- A lamp that is turned on. -/
theorem follows_channel_lamp : ∃ t, service.handleAll [.names ["lamp|off"], .nick "lamp|off" "lamp|on"]
    = .ok t ∧ t.Mirrors ["lamp|on"] := by
  have hp : Produces [] [.names ["lamp|off"], .nick "lamp|off" "lamp|on"] := by
    refine ⟨⟨?_, trivial⟩, ⟨?_, List.mem_cons_self⟩, trivial⟩ <;> exact List.nodup_singleton _
  refine (follows_channel_iff hp).mpr ?_ _ List.prefix_rfl
  intro oldnick newnick hmem
  obtain ⟨rfl, rfl⟩ : oldnick = "lamp|off" ∧ newnick = "lamp|on" := by simpa using hmem
  rfl

/-- The browser's own user takes another nick. -/
theorem not_follows_channel : ¬∀ es, Produces [] es → ∀ before, before <+: es →
    ∃ t, service.handleAll before = .ok t ∧ t.Mirrors (membersAll [] before) := by
  intro h
  have hp : Produces [] [.join "a", .nick "a" "b"] := by
    refine ⟨⟨?_, trivial⟩, ⟨?_, List.mem_cons_self⟩, trivial⟩ <;> exact List.nodup_singleton _
  obtain ⟨t, ht, -⟩ := h _ hp _ List.prefix_rfl
  simp [Service.handleAll, Service.handle, Event.heard, Service.receive, Service.join,
    Service.changed, service, nickId, Text.upTo, Text.split_of_notMem, bind, Except.bind,
    Dictionary.get_set, pure, Except.pure] at ht

end MyLifeHome.Ui
