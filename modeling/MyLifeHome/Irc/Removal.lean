import MyLifeHome.Irc.WellFormed

/-!
# Taking something off the network

Parting, leaving and the loss of a server: what each operation of `Network.java` leaves as it
was, what it changes, and that it keeps `Sound`. The loss of a server does so when the server has
no children and is not the local one.
-/
namespace MyLifeHome.Irc

variable [Locale]

namespace Network

variable {net net' : Network} {u v s t c d r : Ref} {k : String}

/-! ## Leaving a channel -/

section UserPart

@[simp] theorem userPart_users : (net.userPart u c).users = net.users := by
  unfold userPart; split_ifs <;> rfl

@[simp] theorem userPart_channels : (net.userPart u c).channels = net.channels := by
  unfold userPart; split_ifs <;> rfl

@[simp] theorem userPart_servers : (net.userPart u c).servers = net.servers := by
  unfold userPart; split_ifs <;> rfl

@[simp] theorem userPart_serversByToken :
    (net.userPart u c).serversByToken = net.serversByToken := by
  unfold userPart; split_ifs <;> rfl

@[simp] theorem userPart_server : (net.userPart u c).server = net.server := by
  unfold userPart; split_ifs <;> rfl

@[simp] theorem userPart_next : (net.userPart u c).next = net.next := by
  unfold userPart; split_ifs <;> rfl

@[simp] theorem userPart_channel_name :
    ((net.userPart u c).channel d).name = (net.channel d).name := by
  unfold userPart
  split_ifs
  · by_cases hd : d = c <;> simp [modifyChannel, modifyUser, Function.update, hd]
  · rfl

theorem userPart_user_of_ne (h : v ≠ u) : (net.userPart u c).user v = net.user v := by
  unfold userPart
  split_ifs
  · simp [modifyChannel, modifyUser, h]
  · rfl

theorem userPart_user_self : (net.userPart u c).user u = { net.user u with
    channels := ((net.userPart u c).user u).channels } := by
  unfold userPart
  split_ifs
  · simp [modifyChannel, modifyUser]
  · rfl

@[simp] theorem userPart_user_nick : ((net.userPart u c).user v).nick = (net.user v).nick := by
  by_cases h : v = u
  · rw [h, userPart_user_self]
  · rw [userPart_user_of_ne h]

@[simp] theorem userPart_user_server :
    ((net.userPart u c).user v).server = (net.user v).server := by
  by_cases h : v = u
  · rw [h, userPart_user_self]
  · rw [userPart_user_of_ne h]

/-- The map of the user loses the channel's key. -/
theorem userPart_get (hc : c ∈ (net.user u).channels.values) :
    ((net.userPart u c).user u).channels.get k =
      if k = Locale.toLowerCase (net.channel c).name then none
      else (net.user u).channels.get k := by
  simp [userPart, hc, modifyChannel, modifyUser, Dictionary.get_erase]

/-- The list of the channel loses the user. -/
theorem userPart_channel (hc : c ∈ (net.user u).channels.values) :
    ((net.userPart u c).channel d).users =
      if d = c then (net.channel d).users.erase u else (net.channel d).users := by
  simp only [userPart, hc, if_true, modifyChannel, modifyUser]
  by_cases hd : d = c <;> simp [Function.update, hd]

theorem userPart_get_of_some (h : ((net.userPart u c).user v).channels.get k = some d) :
    (net.user v).channels.get k = some d := by
  by_cases hv : v = u
  · subst hv
    by_cases hc : c ∈ (net.user v).channels.values
    · rw [userPart_get hc] at h
      split_ifs at h
      exact h
    · rwa [userPart, if_neg hc] at h
  · rwa [userPart_user_of_ne hv] at h

theorem Memberships.userPart (h : net.Memberships) (u c : Ref) :
    (net.userPart u c).Memberships := by
  by_cases hc : c ∈ (net.user u).channels.values
  swap
  · rwa [Network.userPart, if_neg hc]
  refine ⟨?_, ?_, ?_, ?_⟩
  · intro k d hd
    rw [userPart_channels] at hd
    rw [userPart_channel_name]
    exact h.names k d hd
  · intro k d hd
    rw [userPart_channels] at hd
    rw [userPart_channel hc]
    split_ifs
    · exact (h.nodup k d hd).erase u
    · exact h.nodup k d hd
  · intro v hv k d hd
    rw [userPart_users] at hv
    have hjoined := h.joined v hv k d (userPart_get_of_some hd)
    rw [userPart_channels, userPart_channel hc]
    refine ⟨hjoined.1, ?_⟩
    split_ifs with hdc
    · refine (List.mem_erase_of_ne ?_).mpr hjoined.2
      rintro rfl
      rw [userPart_get hc] at hd
      split_ifs at hd with hk
      exact hk (hdc ▸ h.names k d hjoined.1)
    · exact hjoined.2
  · intro k d hd v hv
    rw [userPart_channels] at hd
    rw [userPart_channel hc] at hv
    have hmem : v ∈ (net.channel d).users := by
      split_ifs at hv
      · exact List.mem_of_mem_erase hv
      · exact hv
    obtain ⟨hvu, hvd⟩ := h.present k d hd v hmem
    rw [userPart_users]
    refine ⟨hvu, ?_⟩
    by_cases hne : v = u
    · subst hne
      rw [userPart_get hc]
      -- the key that is gone is the one of the channel that was left, and `d` still lists the user
      have hdc : d ≠ c := by
        intro hdc
        rw [if_pos hdc] at hv
        exact ((h.nodup k d hd).mem_erase_iff.mp hv).1 rfl
      rw [if_neg]
      · exact hvd
      · rintro rfl
        obtain ⟨l, hl⟩ := Dictionary.mem_values_iff.mp hc
        have hreg := (h.joined v hvu l c hl).1
        rw [h.names l c hreg, hd] at hreg
        exact hdc (Option.some.inj hreg)
    · rw [userPart_user_of_ne hne]
      exact hvd

theorem NicksDistinct.userPart (h : net.NicksDistinct) (u c : Ref) :
    (net.userPart u c).NicksDistinct :=
  h.congr userPart_users fun _ _ => userPart_user_nick

theorem Homes.userPart (h : net.Homes) (u c : Ref) : (net.userPart u c).Homes := by
  refine h.congr userPart_users ?_ (fun _ _ => userPart_user_server) ?_
  · intro s
    simp [Registered, getServers]
  · intro s _
    rw [userPart_server]

theorem Tree.userPart (h : net.Tree) (u c : Ref) : (net.userPart u c).Tree := by
  refine h.congr userPart_servers userPart_serversByToken ?_ ?_ ?_ ?_ <;>
    · intro s _
      rw [userPart_server]

theorem Sound.userPart (h : net.Sound) (u c : Ref) : (net.userPart u c).Sound := by
  refine ⟨⟨h.nicks.userPart u c, h.homes.userPart u c, h.memberships.userPart u c,
    h.tree.userPart u c⟩, ?_, ?_, ?_, ?_, ?_⟩
  · simpa using h.users_lt
  · intro s hs
    rw [userPart_next]
    refine h.servers_lt s ?_
    simpa [Registered, getServers] using hs
  · simpa using h.channels_lt
  · intro v hv k
    rw [userPart_users] at hv
    cases hget : ((net.userPart u c).user v).channels.get k with
    | none => rfl
    | some d =>
      have hsome := userPart_get_of_some hget
      rw [h.left v hv k] at hsome
      exact hsome.symm
  · intro s hs p hp
    rw [userPart_server] at hp
    exact h.older s (by simpa [Registered, getServers] using hs) p hp

/-- A user on the network who has left a channel is not on it. -/
theorem Memberships.notMem_userPart (h : net.Memberships) (hu : u ∈ net.users) :
    c ∉ ((net.userPart u c).user u).channels.values := by
  intro hmem
  obtain ⟨k, hk⟩ := Dictionary.mem_values_iff.mp hmem
  have hold := userPart_get_of_some hk
  have hname := h.names k c (h.joined u hu k c hold).1
  rw [userPart_get (Dictionary.mem_values_iff.mpr ⟨k, hold⟩), if_pos hname] at hk
  simp at hk

end UserPart

/-! ## Leaving the network -/

section UserRemove

variable {cs : List Ref}

/-- What the user's leaving of channels, one after another, keeps. -/
theorem foldl_userPart {P : Network → Prop} (hs : net.Sound) (h : P net)
    (step : ∀ {n : Network} {c}, n.Sound → P n → P (n.userPart u c)) :
    (cs.foldl (fun net c => net.userPart u c) net).Sound ∧
      P (cs.foldl (fun net c => net.userPart u c) net) := by
  induction cs generalizing net with
  | nil => exact ⟨hs, h⟩
  | cons c cs ih => exact ih (hs.userPart u c) (step hs h)

theorem mem_values_foldl_userPart (h : net.Memberships) (hu : u ∈ net.users)
    (hd : d ∈ ((cs.foldl (fun net c => net.userPart u c) net).user u).channels.values) :
    d ∈ (net.user u).channels.values ∧ d ∉ cs := by
  induction cs generalizing net with
  | nil => exact ⟨hd, by simp⟩
  | cons c cs ih =>
    obtain ⟨hmem, hnot⟩ := ih (h.userPart u c) (by simpa using hu) hd
    refine ⟨?_, ?_⟩
    · obtain ⟨k, hk⟩ := Dictionary.mem_values_iff.mp hmem
      exact Dictionary.mem_values_iff.mpr ⟨k, userPart_get_of_some hk⟩
    · rw [List.mem_cons, not_or]
      refine ⟨?_, hnot⟩
      rintro rfl
      exact h.notMem_userPart hu hmem

/-- The network when the user has left all channels: only that has changed. -/
structure LeftChannels (net : Network) (u : Ref) (left : Network) : Prop where
  users : left.users = net.users
  channels : left.channels = net.channels
  servers : left.servers = net.servers
  serversByToken : left.serversByToken = net.serversByToken
  server : left.server = net.server
  next : left.next = net.next
  nick : ∀ v, (left.user v).nick = (net.user v).nick
  home : ∀ v, (left.user v).server = (net.user v).server
  others : ∀ v, v ≠ u → left.user v = net.user v

theorem leftChannels (h : net.Sound) (u : Ref) (cs : List Ref) :
    (cs.foldl (fun net c => net.userPart u c) net).Sound ∧
      LeftChannels net u (cs.foldl (fun net c => net.userPart u c) net) := by
  refine foldl_userPart h ⟨rfl, rfl, rfl, rfl, rfl, rfl, fun _ => rfl, fun _ => rfl,
    fun _ _ => rfl⟩ ?_
  intro n c _ hn
  exact ⟨by simpa using hn.users, by simpa using hn.channels, by simpa using hn.servers,
    by simpa using hn.serversByToken, by simpa using hn.server, by simpa using hn.next,
    by simpa using hn.nick, by simpa using hn.home,
    fun v hv => (userPart_user_of_ne hv).trans (hn.others v hv)⟩

/-- The end of `userRemove`, for a user who is on no channel. -/
def dropUser (net : Network) (user : Ref) : Network :=
  { net.modifyServer (net.user user).server fun s => { s with users := s.users.erase user } with
    users := net.users.erase user }

theorem userRemove_of_notMem (hu : u ∉ net.users) : net.userRemove u = net := by
  rw [userRemove, if_neg hu]

theorem userRemove_of_mem (hu : u ∈ net.users) : net.userRemove u =
    ((net.user u).channels.values.foldl (fun net c => net.userPart u c) net).dropUser u := by
  rw [userRemove, if_pos hu]
  rfl

omit [Locale] in
theorem dropUser_server_users : ((net.dropUser u).server s).users =
    if s = (net.user u).server then (net.server s).users.erase u else (net.server s).users := by
  by_cases hs : s = (net.user u).server <;> simp [dropUser, modifyServer, Function.update, hs]

omit [Locale] in
/-- The other fields of the servers stay. -/
theorem dropUser_server : (net.dropUser u).server s =
    { net.server s with users := ((net.dropUser u).server s).users } := by
  by_cases hs : s = (net.user u).server <;> simp [dropUser, modifyServer, Function.update, hs]

theorem Sound.dropUser (h : net.Sound) (hnone : ∀ k, (net.user u).channels.get k = none) :
    (net.dropUser u).Sound := by
  have hmem : ∀ {v}, v ∈ net.users.erase u ↔ v ≠ u ∧ v ∈ net.users := h.nicks.nodup.mem_erase_iff
  have hreg : ∀ s, (net.dropUser u).Registered s ↔ net.Registered s := fun s => Iff.rfl
  refine ⟨⟨⟨?_, ?_⟩, ⟨?_, ?_, ?_⟩, ⟨?_, ?_, ?_, ?_⟩, ?_⟩, ?_, ?_, ?_, ?_, ?_⟩
  · exact h.nicks.nodup.erase u
  · intro v hv w hw heq
    exact h.nicks.distinct v (hmem.mp hv).2 w (hmem.mp hw).2 heq
  · intro v hv
    exact h.homes.registered v (hmem.mp hv).2
  · intro s hs
    rw [dropUser_server_users]
    split_ifs
    · exact (h.homes.nodup s hs).erase u
    · exact h.homes.nodup s hs
  · intro s hs v
    have hlisted := h.homes.listed s hs v
    change v ∈ ((net.dropUser u).server s).users ↔ v ∈ net.users.erase u ∧ (net.user v).server = s
    rw [dropUser_server_users, hmem]
    split_ifs with hsu
    · rw [(h.homes.nodup s hs).mem_erase_iff, hlisted, and_assoc]
    · rw [hlisted]
      constructor
      · rintro ⟨hv, hvs⟩
        refine ⟨⟨?_, hv⟩, hvs⟩
        rintro rfl
        exact hsu hvs.symm
      · rintro ⟨⟨_, hv⟩, hvs⟩
        exact ⟨hv, hvs⟩
  · exact h.memberships.names
  · exact h.memberships.nodup
  · intro v hv k d hd
    exact h.memberships.joined v (hmem.mp hv).2 k d hd
  · intro k d hd v hv
    obtain ⟨hvu, hvd⟩ := h.memberships.present k d hd v hv
    refine ⟨hmem.mpr ⟨?_, hvu⟩, hvd⟩
    rintro rfl
    rw [hnone k] at hvd
    simp at hvd
  · refine h.tree.congr rfl rfl ?_ ?_ ?_ ?_ <;>
      · intro s _
        rw [dropUser_server]
  · intro v hv
    exact h.users_lt v (hmem.mp hv).2
  · exact h.servers_lt
  · exact h.channels_lt
  · intro v hv k
    by_cases hvu : v = u
    · subst hvu
      exact hnone k
    · exact h.left v (fun hin => hv (hmem.mpr ⟨hvu, hin⟩)) k
  · intro s hs p hp
    rw [dropUser_server] at hp
    exact h.older s hs p hp

/-- What is left of the network without some of its users. -/
structure Without (net : Network) (us : List Ref) (net' : Network) : Prop where
  users : ∀ v, v ∈ net'.users ↔ v ∈ net.users ∧ v ∉ us
  servers : net'.servers = net.servers
  serversByToken : net'.serversByToken = net.serversByToken
  server : ∀ s, net'.server s = { net.server s with users := (net'.server s).users }
  next : net'.next = net.next
  home : ∀ v, (net'.user v).server = (net.user v).server

omit [Locale] in
theorem Without.nil : Without net [] net :=
  ⟨by simp, rfl, rfl, fun _ => rfl, rfl, fun _ => rfl⟩

omit [Locale] in
theorem Without.cons {us : List Ref} {net'' : Network} (h : Without net [u] net')
    (g : Without net' us net'') : Without net (u :: us) net'' := by
  refine ⟨?_, g.servers.trans h.servers, g.serversByToken.trans h.serversByToken, ?_,
    g.next.trans h.next, fun v => (g.home v).trans (h.home v)⟩
  · intro v
    rw [g.users, h.users, List.mem_singleton, List.mem_cons, not_or, and_assoc]
  · intro s
    rw [g.server s, h.server s]

theorem Sound.without (h : net.Sound) (u : Ref) :
    (net.userRemove u).Sound ∧ Without net [u] (net.userRemove u) := by
  by_cases hu : u ∈ net.users
  swap
  · rw [userRemove_of_notMem hu]
    refine ⟨h, { Without.nil with users := ?_ }⟩
    intro v
    rw [List.mem_singleton]
    refine ⟨fun hv => ⟨hv, ?_⟩, And.left⟩
    rintro rfl
    contradiction
  obtain ⟨hs, hl⟩ := leftChannels h u (net.user u).channels.values
  rw [userRemove_of_mem hu]
  refine ⟨hs.dropUser ?_, ?_, hl.servers, hl.serversByToken, ?_, hl.next, hl.home⟩
  · intro k
    cases hget : ((((net.user u).channels.values).foldl
      (fun net c => net.userPart u c) net).user u).channels.get k with
    | none => rfl
    | some d =>
      obtain ⟨hmem, hnot⟩ := mem_values_foldl_userPart h.memberships hu
        (Dictionary.mem_values_iff.mpr ⟨k, hget⟩)
      contradiction
  · intro v
    have hmem := h.nicks.nodup.mem_erase_iff (a := v) (b := u)
    change v ∈ List.erase _ u ↔ _
    rw [hl.users, hmem, List.mem_singleton, and_comm]
  · intro s
    rw [dropUser_server, hl.server]

theorem Sound.userRemove (h : net.Sound) (u : Ref) : (net.userRemove u).Sound := (h.without u).1

theorem Sound.removeUsers (h : net.Sound) (us : List Ref) :
    (us.foldl Network.userRemove net).Sound ∧ Without net us (us.foldl Network.userRemove net) := by
  induction us generalizing net with
  | nil => exact ⟨h, .nil⟩
  | cons u us ih =>
    obtain ⟨hs, hw⟩ := h.without u
    obtain ⟨hs', hw'⟩ := ih hs
    exact ⟨hs', hw.cons hw'⟩

end UserRemove

/-! ## Losing a server -/

section ServerRemove

/-- The end of `serverRemove`, for a server that has no users. -/
def dropServer (net : Network) (server : Ref) : Network :=
  { net.removeChild (net.server server).parent server with
    servers := net.servers.erase (Locale.toLowerCase (net.server server).name)
    serversByToken := net.serversByToken.erase (net.server server).token }

theorem serverRemove_of_getServer_eq_none (h : net.getServer (net.server s).name = none) :
    net.serverRemove s = net := by
  rw [serverRemove, if_neg]
  exact Dictionary.get_eq_none_iff.mp h

omit [Locale] in
theorem removeChild_eq {p : Option Ref} : net.removeChild p s =
    { net with server := (net.removeChild p s).server } := by
  cases p <;> rfl

omit [Locale] in
theorem removeChild_server {p : Option Ref} : (net.removeChild p s).server t =
    { net.server t with
      children := if p = some t then (net.server t).children.erase s
        else (net.server t).children } := by
  cases p with
  | none => simp [removeChild]
  | some p => by_cases h : t = p <;> simp [removeChild, modifyServer, Function.update, h, eq_comm]

theorem dropServer_server : (net.dropServer s).server t =
    { net.server t with
      children := if (net.server s).parent = some t then (net.server t).children.erase s
        else (net.server t).children } :=
  removeChild_server

theorem serverRemove_of_getServer (hw : Without net (net.server s).users
      ((net.server s).users.foldl userRemove net))
    (h : (net.getServer (net.server s).name).isSome) :
    net.serverRemove s = ((net.server s).users.foldl userRemove net).dropServer s := by
  have hmem : Locale.toLowerCase (net.server s).name ∈ net.servers.keys :=
    Dictionary.get_isSome_iff.mp h
  have hname : (((net.server s).users.foldl userRemove net).server s).name = (net.server s).name := by
    rw [hw.server s]
  rw [serverRemove, if_pos hmem, dropServer, hname]
  dsimp only
  rw [removeChild_server, removeChild_eq]

namespace Tree

theorem registered_dropServer (h : net.Tree) (hs : net.Registered s) :
    (net.dropServer s).Registered t ↔ net.Registered t ∧ t ≠ s := by
  have hkey : ∀ {k}, net.servers.get k = some t →
      (k = Locale.toLowerCase (net.server s).name ↔ t = s) := by
    intro k hk
    constructor
    · rintro rfl
      have hreg := h.registered_iff.mp hs
      rw [hk] at hreg
      exact Option.some.inj hreg
    · rintro rfl
      exact h.names k t hk
  simp only [Registered, getServers, dropServer, Dictionary.mem_values_iff, Dictionary.get_erase]
  constructor
  · rintro ⟨k, hk⟩
    split_ifs at hk with hks
    exact ⟨⟨k, hk⟩, fun hts => hks ((hkey hk).mpr hts)⟩
  · rintro ⟨⟨k, hk⟩, hts⟩
    exact ⟨k, by rwa [if_neg fun hks => hts ((hkey hk).mp hks)]⟩

/-- A leaf that is not the local server can be taken off the tree. -/
theorem dropServer (h : net.Tree) (hs : net.Registered s) (hp : (net.server s).parent ≠ none)
    (hleaf : (net.server s).children = []) : (net.dropServer s).Tree := by
  have hreg : ∀ t, (net.dropServer s).Registered t ↔ net.Registered t ∧ t ≠ s :=
    fun t => h.registered_dropServer hs
  have hchild : ∀ p t, net.Registered p →
      ((net.dropServer s).Child p t ↔ net.Child p t ∧ t ≠ s) := by
    intro p t hpr
    rw [Child, dropServer_server, Child]
    dsimp only
    split_ifs with hps
    · rw [(h.nodup p hpr).mem_erase_iff, and_comm]
    · refine ⟨fun ht => ⟨ht, ?_⟩, And.left⟩
      rintro rfl
      exact hps ((h.children p hpr t).mp ht).2
  refine ⟨?_, ?_, ?_, ?_, ?_, ?_⟩
  · intro k t ht
    rw [dropServer_server]
    rw [Network.dropServer, Dictionary.get_erase] at ht
    split_ifs at ht
    exact h.names k t ht
  · intro k t ht
    rw [dropServer_server]
    rw [Network.dropServer, Dictionary.get_erase] at ht
    split_ifs at ht
    exact h.tokens k t ht
  · intro t
    refine (hreg t).trans ?_
    have hkey : ∀ {k}, net.serversByToken.get k = some t →
        (k = (net.server s).token ↔ t = s) := by
      intro k hk
      constructor
      · rintro rfl
        have htok := h.registered_iff_token.mp hs
        rw [hk] at htok
        exact Option.some.inj htok
      · rintro rfl
        exact h.tokens k t hk
    simp only [Registered, getServers, h.indexes, Network.dropServer, Dictionary.mem_values_iff,
      Dictionary.get_erase]
    constructor
    · rintro ⟨⟨k, hk⟩, hts⟩
      exact ⟨k, by rwa [if_neg fun hks => hts ((hkey hk).mp hks)]⟩
    · rintro ⟨k, hk⟩
      split_ifs at hk with hks
      exact ⟨⟨k, hk⟩, fun hts => hks ((hkey hk).mpr hts)⟩
  · intro p hpr
    rw [hreg] at hpr
    rw [dropServer_server]
    dsimp only
    split_ifs
    · exact (h.nodup p hpr.1).erase s
    · exact h.nodup p hpr.1
  · intro p hpr t
    rw [hreg] at hpr
    rw [hchild p t hpr.1, h.children p hpr.1, hreg, dropServer_server, and_right_comm]
  · obtain ⟨root, hroot, hreach⟩ := h.root
    obtain ⟨hr, hpr⟩ := getLocalServer_eq_some hroot
    have hrs : root ≠ s := by
      rintro rfl
      exact hp hpr
    have hrreg := (hreg root).mpr ⟨hr, hrs⟩
    refine ⟨root, getLocalServer_of_unique hrreg ?_ ?_, ?_⟩
    · rw [dropServer_server]
      exact hpr
    · intro t ht hpt
      rw [dropServer_server] at hpt
      exact h.eq_root hroot ((hreg t).mp ht).1 hpt
    · intro t
      rw [hreg]
      constructor
      · intro ht
        induction ht with
        | refl => exact ⟨hr, hrs⟩
        | @tail b a _ hba ih =>
          obtain ⟨hba, hne⟩ := (hchild b a ih.1).mp hba
          exact ⟨((h.children b ih.1 a).mp hba).1, hne⟩
      · rintro ⟨ht, hne⟩
        have hpath := (hreach t).mpr ht
        clear ht
        -- only the last server of a path can be the leaf
        induction hpath with
        | refl => exact .refl
        | @tail b a hb hba ih =>
          have hbs : b ≠ s := by
            rintro rfl
            rw [Child, hleaf] at hba
            simp at hba
          exact (ih hbs).tail ((hchild b a ((hreach b).mp hb)).mpr ⟨hba, hne⟩)

end Tree

theorem Sound.dropServer (h : net.Sound) (hs : net.Registered s)
    (hp : (net.server s).parent ≠ none) (hleaf : (net.server s).children = [])
    (husers : ∀ u ∈ net.users, (net.user u).server ≠ s) : (net.dropServer s).Sound := by
  have hreg : ∀ t, (net.dropServer s).Registered t ↔ net.Registered t ∧ t ≠ s :=
    fun t => h.tree.registered_dropServer hs
  have heq : net.dropServer s = { net with
      server := (net.dropServer s).server
      servers := (net.dropServer s).servers
      serversByToken := (net.dropServer s).serversByToken } := by
    rw [Network.dropServer, removeChild_eq]
  have hserver : ∀ t, ((net.dropServer s).server t).users = (net.server t).users := by
    intro t
    rw [dropServer_server]
  have htree := h.tree.dropServer hs hp hleaf
  rw [heq] at htree hreg hserver ⊢
  refine ⟨⟨h.nicks.congr rfl fun _ _ => rfl, ⟨?_, ?_, ?_⟩, h.memberships.congr rfl rfl
    (fun _ _ => rfl) (fun _ _ _ => rfl), htree⟩, h.users_lt, ?_, h.channels_lt, h.left, ?_⟩
  · intro u hu
    exact (hreg _).mpr ⟨h.homes.registered u hu, husers u hu⟩
  · intro t ht
    rw [hserver]
    exact h.homes.nodup t ((hreg t).mp ht).1
  · intro t ht u
    rw [hserver]
    exact h.homes.listed t ((hreg t).mp ht).1 u
  · intro t ht
    exact h.servers_lt t ((hreg t).mp ht).1
  · intro t ht p hp
    have hparent : ((net.dropServer s).server t).parent = some p := hp
    rw [dropServer_server] at hparent
    exact h.older t ((hreg t).mp ht).1 p hparent

theorem Sound.serverRemove_parent (h : net.Sound) :
    ((net.serverRemove s).server t).parent = (net.server t).parent := by
  have hw := (h.removeUsers (net.server s).users).2
  cases hget : net.getServer (net.server s).name with
  | none => rw [serverRemove_of_getServer_eq_none hget]
  | some r =>
    rw [serverRemove_of_getServer hw (by rw [hget]; rfl), dropServer_server, hw.server t]

theorem Sound.serverRemove (h : net.Sound) (hs : net.Registered s)
    (hp : (net.server s).parent ≠ none) (hleaf : (net.server s).children = []) :
    (net.serverRemove s).Sound := by
  obtain ⟨hsound, hw⟩ := h.removeUsers (net.server s).users
  have hget := h.tree.registered_iff.mp hs
  rw [serverRemove_of_getServer hw (by rw [getServer, hget]; rfl)]
  refine hsound.dropServer ?_ ?_ ?_ ?_
  · rw [Registered, getServers, hw.servers]
    exact hs
  · rw [hw.server s]
    exact hp
  · rw [hw.server s]
    exact hleaf
  · intro u hu hus
    rw [hw.users] at hu
    rw [hw.home] at hus
    exact hu.2 ((h.homes.listed s hs u).mpr ⟨hu.1, hus⟩)

/-- The loss of a server that others are reached through, or of the name of another server,
leaves a network that is not well formed. -/
theorem Sound.leaf_of_serverRemove (h : net.Sound)
    (hget : net.getServer (net.server s).name = some t) (hwf : (net.serverRemove s).WellFormed) :
    t = s ∧ (net.server s).parent ≠ none ∧ (net.server s).children = [] := by
  obtain ⟨hs, hw⟩ := h.removeUsers (net.server s).users
  rw [serverRemove_of_getServer hw (by rw [hget]; rfl)] at hwf
  have htree := hwf.tree
  set net' := ((net.server s).users.foldl Network.userRemove net).dropServer s with hnet'
  have hserver : ∀ x, net'.server x = { net.server x with
      users := (net'.server x).users
      children := if (net.server s).parent = some x then (net.server x).children.erase s
        else (net.server x).children } := by
    intro x
    rw [hnet', dropServer_server, hw.server s, hw.server x]
  have hservers : net'.servers = net.servers.erase (Locale.toLowerCase (net.server s).name) := by
    rw [hnet', Network.dropServer, hw.servers, hw.server s]
  have hreg : ∀ x, net'.Registered x ↔ net.Registered x ∧ x ≠ t := by
    intro x
    simp only [Registered, getServers, hservers, Dictionary.mem_values_iff, Dictionary.get_erase]
    constructor
    · rintro ⟨k, hk⟩
      split_ifs at hk with hkey
      refine ⟨⟨k, hk⟩, ?_⟩
      rintro rfl
      rw [h.tree.names k x hk, ← h.tree.names _ x hget] at hkey
      exact hkey rfl
    · rintro ⟨⟨k, hk⟩, hne⟩
      refine ⟨k, ?_⟩
      rw [if_neg]
      · exact hk
      · rintro rfl
        rw [getServer, hk] at hget
        exact hne (Option.some.inj hget)
  have htreg : net.Registered t := Dictionary.mem_values_iff.mpr ⟨_, hget⟩
  have hgone : ¬net'.Registered t := fun ht => ((hreg t).mp ht).2 rfl
  have hparent : ∀ {x p}, net.Registered x → (net.server x).parent = some p → x ≠ t →
      net'.Registered p := by
    intro x p hx hp hne
    refine htree.parent_registered ((hreg x).mpr ⟨hx, hne⟩) ?_
    rw [hserver]
    exact hp
  have hroot : (net.server t).parent ≠ none := by
    intro hnone
    obtain ⟨root, hlocal⟩ := h.tree.exists_local
    obtain ⟨root', hlocal'⟩ := htree.exists_local
    obtain ⟨hr', hp'⟩ := getLocalServer_eq_some hlocal'
    rw [hserver] at hp'
    have heq := h.tree.eq_root hlocal ((hreg root').mp hr').1 hp'
    rw [← h.tree.eq_root hlocal htreg hnone] at heq
    exact hgone (heq ▸ hr')
  obtain ⟨q, hq⟩ := Option.ne_none_iff_exists'.mp hroot
  have hqreg := h.tree.parent_registered htreg hq
  have hqt : q ≠ t := by
    rintro rfl
    exact h.tree.parent_ne_self htreg hq
  have hts : t = s := by
    by_contra hne
    refine hgone ((htree.children q ((hreg q).mpr ⟨hqreg, hqt⟩) t).mp ?_).1
    have hchild : t ∈ (net.server q).children := (h.tree.children q hqreg t).mpr ⟨htreg, hq⟩
    rw [Child, hserver]
    dsimp only
    split_ifs
    · exact (List.mem_erase_of_ne hne).mpr hchild
    · exact hchild
  subst hts
  refine ⟨rfl, hroot, ?_⟩
  refine List.eq_nil_iff_forall_not_mem.mpr fun x hx => ?_
  obtain ⟨hxreg, hxp⟩ := (h.tree.children t htreg x).mp hx
  refine hgone (hparent hxreg hxp ?_)
  rintro rfl
  exact h.tree.parent_ne_self htreg hxp

end ServerRemove

end Network

end MyLifeHome.Irc
