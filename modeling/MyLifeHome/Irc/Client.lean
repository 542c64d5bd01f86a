import MyLifeHome.Irc.Ready
import MyLifeHome.Library.Rooms

/-!
# What clients are told

A client reads the lines that the hub writes to it and keeps, for each channel that it is on, the
nicks that are there. What each way of writing tells the client at the end of one connection.
-/
namespace MyLifeHome.Irc

open Checked Rooms

variable [Locale]

/-! ## Reading messages -/

/-- Nicks are compared without their case. -/
def nickFold (nick : String) : List Char := nick.toList.map Locale.fold

/-- What a client takes from a message. Channels are known by their names in lower case. -/
def noticeOf (msg : Message) : Option (Notice String String) :=
  match Locale.toUpperCase msg.command, msg.sender, msg.params with
  | "001", _, nick :: _ => some (.welcome nick)
  | "353", _, _ :: _ :: name :: nicks :: _ =>
    some (.names (Locale.toLowerCase name) ((Text.words ' ' nicks.toList).map String.ofList))
  | "JOIN", some nick, name :: _ => some (.joined nick (Locale.toLowerCase name))
  | "PART", some nick, name :: _ => some (.left nick (Locale.toLowerCase name))
  | "QUIT", some nick, _ => some (.gone nick)
  | "KILL", _, nick :: _ => some (.gone nick)
  | "NICK", some old, new :: _ => some (.renamed old new)
  | _, _, _ => none

/-- Capital letters and digits are their own upper case. -/
def KeepsCapitals : Prop :=
  ∀ s : String, s.toList.all (fun c => isUpperLetter c || c.isDigit) → Locale.toUpperCase s = s

/-- Messages with the command tell a client nothing about its channels. -/
def Silent (command : String) : Prop :=
  Locale.toUpperCase command ∉ ["001", "353", "JOIN", "PART", "QUIT", "KILL", "NICK"]

theorem noticeOf_of_silent {msg : Message} (h : Silent msg.command) : noticeOf msg = none := by
  unfold Silent at h
  unfold noticeOf
  split <;> simp_all

theorem KeepsCapitals.silent (hcap : KeepsCapitals) {command : String}
    (hall : command.toList.all fun c => isUpperLetter c || c.isDigit)
    (hnot : command ∉ ["001", "353", "JOIN", "PART", "QUIT", "KILL", "NICK"]) :
    Silent command := by
  rwa [Silent, hcap command hall]

theorem noticeOf_quit {msg : Message} {nick : String} (hc : Locale.toUpperCase msg.command = "QUIT")
    (hs : msg.sender = some nick) : noticeOf msg = some (.gone nick) := by
  unfold noticeOf
  split <;> simp_all

theorem noticeOf_kill {msg : Message} {nick : String} {rest : List String}
    (hc : Locale.toUpperCase msg.command = "KILL") (hp : msg.params = nick :: rest) :
    noticeOf msg = some (.gone nick) := by
  unfold noticeOf
  split <;> simp_all

theorem noticeOf_nick {msg : Message} {old new : String} {rest : List String}
    (hc : Locale.toUpperCase msg.command = "NICK") (hs : msg.sender = some old)
    (hp : msg.params = new :: rest) : noticeOf msg = some (.renamed old new) := by
  unfold noticeOf
  split <;> simp_all

theorem noticeOf_join {msg : Message} {nick name : String} {rest : List String}
    (hc : Locale.toUpperCase msg.command = "JOIN") (hs : msg.sender = some nick)
    (hp : msg.params = name :: rest) :
    noticeOf msg = some (.joined nick (Locale.toLowerCase name)) := by
  unfold noticeOf
  split <;> simp_all

theorem noticeOf_part {msg : Message} {nick name : String} {rest : List String}
    (hc : Locale.toUpperCase msg.command = "PART") (hs : msg.sender = some nick)
    (hp : msg.params = name :: rest) :
    noticeOf msg = some (.left nick (Locale.toLowerCase name)) := by
  unfold noticeOf
  split <;> simp_all

theorem equalsIgnoreCase_iff {a b : String} : equalsIgnoreCase a b = true ↔ nickFold a = nickFold b := by
  simp [equalsIgnoreCase, nickFold]

/-! ## Who is on which channel -/

namespace Network

variable {net net' : Network} {u v c : Ref} {k : String}

/-- The users of the network and the channels in their maps. -/
def world (net : Network) : World Ref String String where
  present u := u ∈ net.users
  on u k := ((net.user u).channels.get k).isSome = true
  nick u := (net.user u).nick

/-- There is a client that hears what is told to the user. -/
def Connected (net : Network) (u : Ref) : Prop := ∃ d, (net.user u).connection = some d

/-- In a channel are the users who have it in their maps. -/
theorem Memberships.mem_channel_iff (h : net.Memberships) (hc : net.channels.get k = some c) :
    u ∈ (net.channel c).users ↔ net.world.present u ∧ net.world.on u k := by
  constructor
  · intro hu
    obtain ⟨hmem, hget⟩ := h.present k c hc u hu
    exact ⟨hmem, by simp [world, hget]⟩
  · rintro ⟨hu, hon⟩
    obtain ⟨c', hc'⟩ := Option.isSome_iff_exists.mp hon
    obtain ⟨hget, hmem⟩ := h.joined u hu k c' hc'
    obtain rfl := Option.some.inj (hc.symm.trans hget)
    exact hmem

theorem Memberships.mem_nicks_iff (h : net.Memberships) (hc : net.channels.get k = some c)
    {nick : String} : nick ∈ (net.channel c).users.map (fun u => (net.user u).nick) ↔
      nick ∈ net.world.members k := by
  rw [List.mem_map]
  refine exists_congr fun u => ?_
  rw [h.mem_channel_iff hc, and_assoc]
  rfl

theorem Sound.off (h : net.Sound) (hu : u ∉ net.users) (k : String) : ¬net.world.on u k := by
  simp [world, h.left u hu k]

theorem Sound.distinct (h : net.Sound) : net.world.Distinct nickFold := by
  intro u v hu hv hfold
  exact h.nicks.distinct u hu v hv (equalsIgnoreCase_iff.mpr hfold)

theorem Sound.joined (h : net.Sound) (hget : (net.user u).channels.get k = some c) :
    net.channels.get k = some c ∧ u ∈ (net.channel c).users := by
  by_cases hu : u ∈ net.users
  · exact h.memberships.joined u hu k c hget
  · simp [h.left u hu k] at hget

theorem Sound.hasCommonChannel_iff (h : net.Sound) :
    net.hasCommonChannel u v = true ↔ net.world.Share u v := by
  simp only [hasCommonChannel, List.any_eq_true, List.contains_iff_mem, Dictionary.mem_values_iff]
  constructor
  · rintro ⟨c, ⟨k, hk⟩, k', hk'⟩
    have hname := h.memberships.names k c (h.joined hk).1
    have hname' := h.memberships.names k' c (h.joined hk').1
    obtain rfl : k = k' := hname.trans hname'.symm
    exact ⟨k, by simp [world, hk], by simp [world, hk']⟩
  · rintro ⟨k, hu, hv⟩
    obtain ⟨c, hc⟩ := Option.isSome_iff_exists.mp hu
    obtain ⟨c', hc'⟩ := Option.isSome_iff_exists.mp hv
    obtain rfl := Option.some.inj ((h.joined hc).1.symm.trans (h.joined hc').1)
    exact ⟨c, ⟨k, hc⟩, k, hc'⟩

/-- Who shares channels is on the network. -/
theorem Sound.mem_of_share (h : net.Sound) (hs : net.world.Share u v) : u ∈ net.users := by
  obtain ⟨k, hon, -⟩ := hs
  by_contra hu
  exact h.off hu k hon

theorem Sound.names_of_getUser (h : net.Sound) {nick : String} (hu : net.getUser (some nick) = some u) :
    net.world.Names nickFold nick u := by
  obtain ⟨hmem, _, hn, hnick⟩ := getUser_eq_some hu
  obtain rfl := Option.some.inj hn
  exact h.distinct.names hmem (equalsIgnoreCase_iff.mp hnick).symm

theorem Sound.names_of_share (h : net.Sound) (hs : net.world.Share u v) :
    net.world.Names nickFold (net.user u).nick u :=
  h.distinct.names (h.mem_of_share hs) rfl

/-- The local users who share a channel with the user. -/
theorem Sound.getLocalImpactedUsers_eq_ok (h : net.Sound) {list : List Ref}
    (hok : net.getLocalImpactedUsers u = .ok list) : list.Nodup ∧
      ∀ v, v ∈ list ↔ v ∈ net.users ∧ v ≠ u ∧ net.isLocal v ∧ net.world.Share u v := by
  unfold getLocalImpactedUsers at hok
  split at hok
  · rename_i r hr
    obtain rfl := Except.ok.inj hok
    have hrreg := (getLocalServer_eq_some hr).1
    refine ⟨(h.homes.nodup r hrreg).filter _, fun v => ?_⟩
    have hlocal : net.isLocal v = true ↔ (net.user v).server = r := by simp [isLocal, hr]
    rw [List.mem_filter, h.homes.listed r hrreg, hlocal, Bool.and_eq_true, h.hasCommonChannel_iff,
      decide_eq_true_iff]
    tauto
  · cases hok

/-! ## What operations do to it -/

omit [Locale] in
theorem world_congr (husers : net'.users = net.users)
    (hchannels : ∀ v, (net'.user v).channels = (net.user v).channels)
    (hnick : ∀ v, (net'.user v).nick = (net.user v).nick) : net'.world = net.world := by
  simp only [world, husers, hchannels, hnick]

theorem Sound.world_userPart (h : net.Sound) (hc : net.channels.get k = some c) :
    (net.userPart u c).world = net.world.part u k := by
  have hname := h.memberships.names k c hc
  by_cases hmem : c ∈ (net.user u).channels.values
  · refine World.ext (by simp [world, World.part]) ?_ (by simp [world, World.part])
    funext x k'
    by_cases hx : x = u
    · subst hx
      simp only [world, World.part, userPart_get hmem, ← hname]
      split_ifs with hk <;> simp [hk]
    · simp [world, World.part, userPart_user_of_ne hx, hx]
  · rw [Network.userPart, if_neg hmem, World.part_eq_self]
    intro hon
    obtain ⟨c', hget⟩ := Option.isSome_iff_exists.mp hon
    obtain rfl := Option.some.inj (hc.symm.trans (h.joined hget).1)
    exact hmem (Dictionary.mem_values_iff.mpr ⟨k, hget⟩)

theorem withChannel_user {name : String} : (net.withChannel name).users = net.users ∧
    (net.withChannel name).user = net.user := by
  rw [withChannel, openChannel]
  split <;> exact ⟨rfl, rfl⟩

theorem Sound.world_userJoin (h : net.Sound) {name : String}
    (hok : net.userJoin (some u) name = .ok net') :
    net'.world = net.world.join u (Locale.toLowerCase name) := by
  obtain ⟨v, hv, _, rfl⟩ := userJoin_eq_ok_iff.mp hok
  obtain rfl := Option.some.inj hv
  obtain ⟨hsound, hget⟩ := h.withChannel name
  obtain ⟨husers, huser⟩ : (net.withChannel name).users = net.users ∧
      (net.withChannel name).user = net.user := withChannel_user
  have hname := hsound.memberships.names _ _ hget
  have hworld : (net.withChannel name).world = net.world :=
    world_congr husers (fun v => by rw [huser]) fun v => by rw [huser]
  split_ifs with hmem
  · rw [← hworld, World.join_eq_self]
    obtain ⟨k, hk⟩ := Dictionary.mem_values_iff.mp hmem
    have hk' := hsound.memberships.names k _ (hsound.joined hk).1
    rw [← hname] at hk'
    exact Option.isSome_iff_exists.mpr ⟨_, hk' ▸ hk⟩
  · rw [← hworld]
    refine World.ext rfl ?_ ?_
    · funext x k'
      by_cases hx : x = u
      · subst hx
        by_cases hk : k' = Locale.toLowerCase name <;>
          simp [world, World.join, Network.enter, modifyUser, modifyChannel, Dictionary.get_set,
            ← hname, hk]
      · simp [world, World.join, Network.enter, modifyUser, modifyChannel, hx]
    · funext x
      by_cases hx : x = u <;>
        simp [world, World.join, Network.enter, modifyUser, modifyChannel, hx]

omit [Locale] in
theorem world_setNick {nick : String} :
    (net.modifyUser u fun user => { user with nick := nick }).world = net.world.rename u nick := by
  refine World.ext rfl ?_ ?_
  · funext x k'
    simp only [world, World.rename, setNick_user]
  · funext x
    simp only [world, World.rename, setNick_user]

/-- Somebody new with a name. -/
theorem Sound.world_withUser (h : net.Sound) {user : User} (hchannels : user.channels = .empty) :
    (net.withUser user).world = (net.world.rename net.next user.nick).add net.next := by
  refine World.ext ?_ ?_ ?_
  · funext x
    simp [world, World.add, World.rename, Network.withUser]
  · funext x k'
    by_cases hx : x = net.next
    · subst hx
      simp [world, World.add, World.rename, withUser_user, hchannels, h.left _ h.next_notMem]
    · simp [world, World.add, World.rename, withUser_user, hx]
  · funext x
    simp only [world, World.add, World.rename, withUser_user]
    split_ifs <;> rfl

theorem Sound.userRemove_user (h : net.Sound) (hv : v ≠ u) :
    (net.userRemove u).user v = net.user v := by
  by_cases hu : u ∈ net.users
  · rw [userRemove_of_mem hu]
    exact (leftChannels h u _).2.others v hv
  · rw [userRemove_of_notMem hu]

theorem Sound.world_userRemove (h : net.Sound) :
    (net.world.remove u).Alike (net.userRemove u).world where
  present v := by simp [world, World.remove, (h.without u).2.users]
  on v hv k := by simp [world, World.remove, h.userRemove_user hv.2]
  nick v hv := by simp [world, World.remove, h.userRemove_user hv.2]

theorem Sound.world_removeUsers (h : net.Sound) (us : List Ref) :
    (us.foldl World.remove net.world).Alike (us.foldl Network.userRemove net).world := by
  have key : ∀ (us : List Ref) (w : World Ref String String) (net : Network), net.Sound →
      w.Alike net.world → (us.foldl World.remove w).Alike (us.foldl Network.userRemove net).world := by
    intro us
    induction us with
    | nil => exact fun w net _ hw => hw
    | cons u us ih =>
      exact fun w net h hw => ih _ _ (h.userRemove u) (hw.remove.trans h.world_userRemove)
  exact key us _ net h .refl

end Network

namespace Hub

/-- What the client at the end of a connection has been told. -/
def heard (hub : Hub) (d : Conn) : List (Notice String String) :=
  hub.sent.filterMap fun entry => if entry.1 = d then noticeOf entry.2 else none

/-- What the client has made of it. -/
def client (hub : Hub) (d : Conn) : Rooms.Listener String String :=
  Rooms.Listener.new.hearAll nickFold (hub.heard d)

/-- A local user is told the truth about its channels: the messages on its connection concern
channels that it is on, and lead to the nicks of those who are on them. -/
def Truthful (hub : Hub) : Prop := ∀ v ∈ hub.net.users, hub.net.isLocal v →
  ∀ d, (hub.net.user v).connection = some d →
    Rooms.Listener.new.Follows nickFold (hub.heard d) ∧
    (∀ k c, (hub.net.user v).channels.get k = some c → ∃ nicks, (hub.client d).rooms k = some nicks ∧
      ∀ n, n ∈ nicks ↔ ∃ u ∈ (hub.net.channel c).users, (hub.net.user u).nick = n) ∧
    ∀ k, (hub.net.user v).channels.get k = none → (hub.client d).rooms k = none

/-- Between two states the client is told something more. -/
def Tells (hub : Hub) (d : Conn) (ns : List (Notice String String)) (hub' : Hub) : Prop :=
  hub'.heard d = hub.heard d ++ ns

variable {hub hub' hub'' : Hub} {c d src dest : Conn} {msg : Message} {u v user : Ref}
  {ns ms : List (Notice String String)} {excluded : List Conn}

theorem Tells.refl : Tells hub d [] hub := (List.append_nil _).symm

theorem Tells.trans (h : Tells hub d ns hub') (g : Tells hub' d ms hub'') :
    Tells hub d (ns ++ ms) hub'' := by
  rw [Tells, g, h, List.append_assoc]

theorem Tells.congr (h : Tells hub d ns hub') {hub₀ hub₁ : Hub} (h₀ : hub₀.sent = hub.sent)
    (h₁ : hub₁.sent = hub'.sent) : Tells hub₀ d ns hub₁ := by
  rw [Tells, heard, heard, h₀, h₁]
  exact h

theorem Tells.of_sent (h : hub'.sent = hub.sent) : Tells hub d [] hub' := by
  rw [Tells, heard, h, List.append_nil]
  rfl

/-- Nothing more is told. -/
theorem Tells.nothing (h : Tells hub d ns hub') (g : Tells hub' d [] hub'') :
    Tells hub d ns hub'' := by
  simpa using h.trans g

theorem tells_foldlM {α : Type} {f : Hub → α → Except Fault Hub} {as : List α}
    (step : ∀ {hub a hub'}, f hub a = .ok hub' → Tells hub d [] hub')
    (h : as.foldlM f hub = .ok hub') : Tells hub d [] hub' :=
  foldlM_invariant (I := fun hub' => Tells hub d [] hub') (fun _ ht hf => ht.nothing (step hf)) h .refl

/-! ## Writing -/

omit [Locale] in
theorem send_eq_ok (h : hub.send c msg = .ok hub') :
    hub.closed c ∧ hub' = hub ∨ ¬hub.closed c ∧ hub' = { hub with sent := hub.sent ++ [(c, msg)] } := by
  unfold send at h
  split_ifs at h with hclosed
  · split at h
    · exact .inl ⟨hclosed, (Except.ok.inj h).symm⟩
    · cases h
  · exact .inr ⟨hclosed, (Except.ok.inj h).symm⟩

theorem tells_send (hopen : ¬hub.closed d) (h : hub.send d msg = .ok hub') :
    Tells hub d (noticeOf msg).toList hub' := by
  rcases send_eq_ok h with ⟨hclosed, _⟩ | ⟨_, rfl⟩
  · exact absurd hclosed hopen
  · rw [Tells, heard, List.filterMap_append]
    cases hn : noticeOf msg <;> simp [heard, hn]

/-- It is written to somebody else, or says nothing. -/
theorem tells_send_nothing (hnot : c ≠ d ∨ noticeOf msg = none) (h : hub.send c msg = .ok hub') :
    Tells hub d [] hub' := by
  rcases send_eq_ok h with ⟨_, rfl⟩ | ⟨_, rfl⟩
  · exact .refl
  · have hnone : (if c = d then noticeOf msg else none) = none := by
      rcases hnot with hne | hnone
      · exact if_neg hne
      · rw [hnone, ite_self]
    rw [Tells, heard, List.filterMap_append]
    simp [heard, hnone]

theorem tells_sendTo_nothing {con : Option Conn} (hnot : con ≠ some d ∨ noticeOf msg = none)
    (h : hub.sendTo con msg = .ok hub') : Tells hub d [] hub' := by
  cases con with
  | none => cases h
  | some c => exact tells_send_nothing (hnot.imp_left fun hne heq => hne (by rw [heq])) h

theorem tells_sendAll_nothing {cons : List (Option Conn)}
    (hnot : some d ∉ cons ∨ noticeOf msg = none) (h : hub.sendAll cons msg excluded = .ok hub') :
    Tells hub d [] hub' := by
  induction cons generalizing hub with
  | nil =>
    obtain rfl := Except.ok.inj h
    exact .refl
  | cons con cons ih =>
    unfold sendAll at h
    rw [List.foldlM_cons] at h
    obtain ⟨hub₁, h₁, h⟩ := bind_eq_ok_iff.mp h
    have hrest := hnot.imp_left fun hnot hmem => hnot (List.mem_cons_of_mem con hmem)
    refine Tells.nothing ?_ (ih hrest h)
    split_ifs at h₁
    · obtain rfl := Except.ok.inj h₁
      exact .refl
    · refine tells_sendTo_nothing (hnot.imp_left fun hnot heq => hnot ?_) h₁
      rw [heq]
      exact List.mem_cons_self

/-- Of the users one is at the end of the connection. -/
theorem tells_sendAll {users : List Ref} {f : Ref → Option Conn} (hnodup : users.Nodup)
    (hv : v ∈ users) (hcon : ∀ w ∈ users, f w = some d ↔ w = v) (hopen : ¬hub.closed d)
    (hex : d ∉ excluded) (h : hub.sendAll (users.map f) msg excluded = .ok hub') :
    Tells hub d (noticeOf msg).toList hub' := by
  induction users generalizing hub with
  | nil => simp at hv
  | cons w users ih =>
    obtain ⟨hnot, hnodup⟩ := List.nodup_cons.mp hnodup
    obtain ⟨hw, hothers⟩ := List.forall_mem_cons.mp hcon
    unfold sendAll at h
    rw [List.map_cons, List.foldlM_cons] at h
    obtain ⟨hub₁, h₁, hrun⟩ := bind_eq_ok_iff.mp h
    rcases List.mem_cons.mp hv with hvw | hv
    · rw [hw.mpr hvw.symm, if_neg (by simpa using hex)] at h₁
      have hnone : some d ∉ users.map f := by
        intro hmem
        obtain ⟨x, hx, hxd⟩ := List.mem_map.mp hmem
        obtain rfl := (hothers x hx).mp hxd
        exact hnot (hvw ▸ hx)
      exact (tells_send hopen h₁).nothing (tells_sendAll_nothing (.inl hnone) hrun)
    · have hwv : f w ≠ some d := by
        intro hwd
        obtain rfl := hw.mp hwd
        exact hnot hv
      split_ifs at h₁
      · obtain rfl := Except.ok.inj h₁
        exact ih hnodup hv hothers hopen hrun
      · have hopen₁ : ¬hub₁.closed d := by rwa [(wrote_sendTo h₁).closed]
        exact (tells_sendTo_nothing (.inl hwv) h₁).trans (ih hnodup hv hothers hopen₁ hrun)

end Hub

end MyLifeHome.Irc

