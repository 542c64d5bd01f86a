import MyLifeHome.Irc.Updates

/-!
# The network of a hub as a view

Which view of the servers and users the network of a hub is, and what the operations of the
network make of it. Users are told apart by whose their nicks are, so nobody may have a nick of
somebody else.
-/
namespace MyLifeHome.Irc

open Checked Replication

variable [Locale] {V : Type}

/-- Names and tokens are distinct, links are distinct connections, and to whom a nick belongs does
not depend on its case. -/
structure Layout.Proper (L : Layout V) : Prop where
  tree : L.graph.IsTree
  names : ∀ v v', Locale.toLowerCase (L.name v) = Locale.toLowerCase (L.name v') → v = v'
  words : ∀ v, IsWord (L.name v)
  tokens : Function.Injective L.token
  numbers : ∀ v, -2 ^ 31 ≤ L.token v ∧ L.token v < 2 ^ 31
  links : ∀ h g g', L.graph.Adj h g → L.graph.Adj h g' → L.link h g = L.link h g' → g = g'
  dials : ∀ h g, L.graph.Adj h g → L.dials h g = !L.dials g h
  owner : ∀ a b, equalsIgnoreCase a b → L.owner a = L.owner b

namespace Network

/-- What the network has of a user. -/
def person (net : Network) (r : Ref) : Person where
  nick := (net.user r).nick
  ident := (net.user r).ident
  host := (net.user r).host
  realName := (net.user r).realName
  channels := {k | net.world.on r k}

/-- The network of the hub is what the view says. -/
structure Depicts (net : Network) (L : Layout V) (hub : V) (w : View V) : Prop where
  root : ∃ r, net.getLocalServer = some r ∧ (net.server r).name = L.name hub
  servers : ∀ s, net.Registered s → ∃ v, (w v).known ∧ (net.server s).name = L.name v ∧
    (net.server s).token = L.token v
  known : ∀ v, (w v).known → ∃ s, net.Registered s ∧ (net.server s).name = L.name v
  users : ∀ r ∈ net.users, w.user (L.owner (net.user r).nick) = some (net.person r)
  present : ∀ u p, w.user u = some p → ∃ r ∈ net.users, L.owner (net.user r).nick = u ∧
    net.person r = p
  homes : ∀ r ∈ net.users,
    (net.server (net.user r).server).name = L.name (L.owner (net.user r).nick).1
  legible : ∀ r ∈ net.users, L.Legible (L.owner (net.user r).nick) (net.person r)
  channels : ∀ k c, net.channels.get k = some c → IsChannelName (net.channel c).name

variable {net net' : Network} {L : Layout V} {hub v : V} {w : View V} {u : V × Conn} {r s c : Ref}
  {p : Person} {nick name n : String}

omit [Locale] in
theorem getLocalServer_congr (hservers : net'.servers = net.servers)
    (hparent : ∀ s, (net'.server s).parent = (net.server s).parent) :
    net'.getLocalServer = net.getLocalServer := by
  simp only [getLocalServer, getServers, hservers, hparent]

/-- A server below another leaves the local one what it is. -/
theorem getLocalServer_withServer {token : Int} (hs : net.Sound) (hname : net.getServer name = none)
    (htoken : net.getServerByToken token = none) (hp : net.Registered s) :
    (net.withServer name token (some s)).getLocalServer = net.getLocalServer := by
  obtain ⟨r, hr⟩ := hs.tree.exists_local
  obtain ⟨hreg, hparent⟩ := getLocalServer_eq_some hr
  refine (hs.withServer hname htoken hp).getLocalServer_eq hr
    ((registered_withServer hname).mpr (.inl hreg)) ?_
  rw [withServer_server, if_neg (hs.servers_lt r hreg).ne]
  exact hparent

/-- Who goes leaves the channels there. -/
theorem userRemove_channels (hs : net.Sound) : (net.userRemove r).channels = net.channels ∧
    ∀ d, ((net.userRemove r).channel d).name = (net.channel d).name := by
  by_cases hr : r ∈ net.users
  · rw [userRemove_of_mem hr]
    refine (foldl_userPart (P := fun n => n.channels = net.channels ∧
      ∀ d, (n.channel d).name = (net.channel d).name) hs ⟨rfl, fun _ => rfl⟩ ?_).2
    rintro n c _ ⟨hchannels, hname⟩
    exact ⟨userPart_channels.trans hchannels, fun d => userPart_channel_name.trans (hname d)⟩
  · rw [userRemove_of_notMem hr]
    exact ⟨rfl, fun _ => rfl⟩

namespace Depicts

/-! ## Looking up -/

theorem eq_of_owner (h : net.Depicts L hub w) (hs : net.Sound) {r' : Ref} (hr : r ∈ net.users)
    (hr' : r' ∈ net.users) (howner : L.owner (net.user r).nick = L.owner (net.user r').nick) :
    r = r' := by
  have heq : net.person r = net.person r' := by
    have hw := h.users r hr
    rw [howner, h.users r' hr'] at hw
    exact (Option.some.inj hw).symm
  have hnick : (net.user r).nick = (net.user r').nick := congrArg Person.nick heq
  apply hs.nicks.distinct r hr r' hr'
  simp [equalsIgnoreCase, hnick]

/-- Somebody who is there is found by the nick. -/
theorem getUser_eq_some (h : net.Depicts L hub w) (hL : L.Proper) (hs : net.Sound)
    (hp : w.user u = some p) (hn : equalsIgnoreCase p.nick n) : ∃ r ∈ net.users,
      net.getUser (some n) = some r ∧ L.owner (net.user r).nick = u ∧ net.person r = p := by
  obtain ⟨r, hr, howner, hperson⟩ := h.present u p hp
  have hnick : (net.user r).nick = p.nick := congrArg Person.nick hperson
  refine ⟨r, hr, ?_, howner, hperson⟩
  cases hget : net.getUser (some n) with
  | none =>
    have hnone := Network.getUser_eq_none_iff.mp hget r hr
    rw [hnick] at hnone
    exact absurd hn hnone
  | some r' =>
    obtain ⟨hr', m, hm, heq⟩ := Network.getUser_eq_some hget
    obtain rfl := Option.some.inj hm
    have howner' : L.owner (net.user r').nick = L.owner (net.user r).nick := by
      rw [hL.owner _ _ heq, hnick, hL.owner _ _ hn]
    rw [h.eq_of_owner hs hr' hr howner']

/-- A nick is free when its owner does not have it. -/
theorem getUser_eq_none (h : net.Depicts L hub w) (hL : L.Proper)
    (hfree : ∀ p, w.user (L.owner n) = some p → ¬equalsIgnoreCase p.nick n) :
    net.getUser (some n) = none := by
  refine Network.getUser_eq_none_iff.mpr fun r hr heq => ?_
  have hw := h.users r hr
  rw [hL.owner _ _ heq] at hw
  exact hfree _ hw heq

theorem getServer_eq_some (h : net.Depicts L hub w) (hs : net.Sound) (hv : (w v).known) :
    ∃ s, net.getServer (L.name v) = some s ∧ net.Registered s ∧ (net.server s).name = L.name v := by
  obtain ⟨s, hreg, hname⟩ := h.known v hv
  have hget := hs.tree.registered_iff.mp hreg
  rw [hname] at hget
  exact ⟨s, hget, hreg, hname⟩

theorem getServer_eq_none (h : net.Depicts L hub w) (hL : L.Proper) (hs : net.Sound)
    (hv : ¬(w v).known) : net.getServer (L.name v) = none := by
  cases hget : net.getServer (L.name v) with
  | none => rfl
  | some s =>
    have hreg : net.Registered s := Dictionary.mem_values_iff.mpr ⟨_, hget⟩
    obtain ⟨g, hg, hname, _⟩ := h.servers s hreg
    have hkey := hs.tree.names _ s hget
    rw [hname] at hkey
    exact absurd (hL.names v g hkey ▸ hg) hv

theorem getServerByToken_eq_none (h : net.Depicts L hub w) (hL : L.Proper) (hs : net.Sound)
    (hv : ¬(w v).known) : net.getServerByToken (L.token v) = none := by
  cases hget : net.getServerByToken (L.token v) with
  | none => rfl
  | some s =>
    have hreg : net.Registered s :=
      (hs.tree.indexes s).mpr (Dictionary.mem_values_iff.mpr ⟨_, hget⟩)
    obtain ⟨g, hg, _, htoken⟩ := h.servers s hreg
    have hkey := hs.tree.tokens _ s hget
    rw [htoken] at hkey
    exact absurd (hL.tokens hkey ▸ hg) hv

theorem getServerByToken_eq_some (h : net.Depicts L hub w) (hL : L.Proper) (hs : net.Sound)
    (hv : (w v).known) : ∃ s, net.getServerByToken (L.token v) = some s ∧ net.Registered s ∧
      (net.server s).name = L.name v := by
  obtain ⟨s, hreg, hname⟩ := h.known v hv
  obtain ⟨g, _, hname', htoken⟩ := h.servers s hreg
  obtain rfl := hL.names v g (by rw [← hname, hname'])
  have hget := hs.tree.registered_iff_token.mp hreg
  rw [htoken] at hget
  exact ⟨s, hget, hreg, hname⟩

/-- Servers of one name are one server. -/
theorem eq_of_name (hs : net.Sound) {s s' : Ref} (hreg : net.Registered s)
    (hreg' : net.Registered s') (hname : (net.server s).name = (net.server s').name) : s = s' := by
  have hget := hs.tree.registered_iff.mp hreg
  rw [hname, hs.tree.registered_iff.mp hreg'] at hget
  exact (Option.some.inj hget).symm

/-- The hub's own server is the root. -/
theorem eq_hub_iff (h : net.Depicts L hub w) (hL : L.Proper) (hs : net.Sound)
    (hroot : net.getLocalServer = some r) (hreg : net.Registered s)
    (hname : (net.server s).name = L.name v) : s = r ↔ v = hub := by
  obtain ⟨r', hr', hrname⟩ := h.root
  obtain rfl := Option.some.inj (hroot.symm.trans hr')
  constructor
  · rintro rfl
    exact hL.names _ _ (by rw [← hname, hrname])
  · rintro rfl
    exact eq_of_name hs hreg (getLocalServer_eq_some hroot).1 (hname.trans hrname.symm)

theorem isLocal_iff (h : net.Depicts L hub w) (hL : L.Proper) (hs : net.Sound) (hr : r ∈ net.users) :
    net.isLocal r ↔ (L.owner (net.user r).nick).1 = hub := by
  obtain ⟨root, hroot, _⟩ := h.root
  rw [isLocal, hroot, decide_eq_true_iff, Option.some_inj]
  exact h.eq_hub_iff hL hs hroot (hs.homes.registered r hr) (h.homes r hr)

/-! ## One user is different -/

variable [DecidableEq V]

omit [Locale] in
/-- The servers are as before, and so are all users but one. -/
theorem change {p : Option Person} (h : net.Depicts L hub w) (hservers : net'.servers = net.servers)
    (hserver : ∀ s, (net'.server s).name = (net.server s).name ∧
      (net'.server s).token = (net.server s).token ∧ (net'.server s).parent = (net.server s).parent)
    (hchannels : ∀ k c, net'.channels.get k = some c → IsChannelName (net'.channel c).name)
    (hnew : ∀ r ∈ net'.users, L.owner (net'.user r).nick ≠ u → r ∈ net.users ∧
      net'.person r = net.person r ∧ (net'.user r).server = (net.user r).server)
    (hold : ∀ r ∈ net.users, L.owner (net.user r).nick ≠ u →
      r ∈ net'.users ∧ net'.person r = net.person r)
    (hself : ∀ r ∈ net'.users, L.owner (net'.user r).nick = u → p = some (net'.person r) ∧
      (net.server (net'.user r).server).name = L.name u.1 ∧ L.Legible u (net'.person r))
    (hpresent : ∀ q, p = some q → ∃ r ∈ net'.users, L.owner (net'.user r).nick = u ∧
      net'.person r = q) : net'.Depicts L hub (w.setUser u p) := by
  have hreg : ∀ s, net'.Registered s ↔ net.Registered s := by
    intro s
    rw [Registered, getServers, hservers]
    rfl
  have hnick : ∀ {r}, net'.person r = net.person r → (net'.user r).nick = (net.user r).nick :=
    fun heq => congrArg Person.nick heq
  refine ⟨?_, ?_, ?_, ?_, ?_, ?_, ?_, hchannels⟩
  · obtain ⟨r, hr, hname⟩ := h.root
    refine ⟨r, ?_, (hserver r).1.trans hname⟩
    rw [getLocalServer_congr hservers fun s => (hserver s).2.2, hr]
  · intro s hs
    obtain ⟨v, hv, hname, htoken⟩ := h.servers s ((hreg s).mp hs)
    exact ⟨v, by simpa using hv, (hserver s).1.trans hname, (hserver s).2.1.trans htoken⟩
  · intro v hv
    obtain ⟨s, hs, hname⟩ := h.known v (by simpa using hv)
    exact ⟨s, (hreg s).mpr hs, (hserver s).1.trans hname⟩
  · intro r hr
    rw [View.user_setUser]
    split_ifs with howner
    · exact (hself r hr howner).1
    · obtain ⟨hr', hperson, _⟩ := hnew r hr howner
      rw [hperson, hnick hperson]
      exact h.users r hr'
  · intro v q hq
    rw [View.user_setUser] at hq
    split_ifs at hq with hv
    · subst hv
      exact hpresent q hq
    · obtain ⟨r, hr, howner, hperson⟩ := h.present v q hq
      obtain ⟨hr', heq⟩ := hold r hr (howner.trans_ne hv)
      exact ⟨r, hr', by rw [hnick heq, howner], by rw [heq, hperson]⟩
  · intro r hr
    rw [(hserver _).1]
    by_cases howner : L.owner (net'.user r).nick = u
    · rw [(hself r hr howner).2.1, howner]
    · obtain ⟨hr', hperson, hhome⟩ := hnew r hr howner
      rw [hhome, hnick hperson]
      exact h.homes r hr'
  · intro r hr
    by_cases howner : L.owner (net'.user r).nick = u
    · rw [howner]
      exact (hself r hr howner).2.2
    · obtain ⟨hr', hperson, _⟩ := hnew r hr howner
      rw [hperson, hnick hperson]
      exact h.legible r hr'

/-- One user stays, with another nick or on other channels. -/
theorem changeUser (h : net.Depicts L hub w) (hs : net.Sound) (hr : r ∈ net.users)
    (howner : L.owner (net.user r).nick = u) (hservers : net'.servers = net.servers)
    (hserver : ∀ s, (net'.server s).name = (net.server s).name ∧
      (net'.server s).token = (net.server s).token ∧ (net'.server s).parent = (net.server s).parent)
    (hchannels : ∀ k c, net'.channels.get k = some c → IsChannelName (net'.channel c).name)
    (husers : net'.users = net.users) (hhome : ∀ v, (net'.user v).server = (net.user v).server)
    (hothers : ∀ v, v ≠ r → net'.person v = net.person v) (hself : net'.person r = p)
    (hp : L.Legible u p) : net'.Depicts L hub (w.setUser u (some p)) := by
  have hnick : (net'.user r).nick = p.nick := congrArg Person.nick hself
  have hne : ∀ v ∈ net.users, L.owner (net'.user v).nick = u → v = r := by
    intro v hv hvu
    by_contra hne
    have hsame : (net'.user v).nick = (net.user v).nick := congrArg Person.nick (hothers v hne)
    rw [hsame] at hvu
    exact hne (h.eq_of_owner hs hv hr (hvu.trans howner.symm))
  refine h.change hservers hserver hchannels ?_ ?_ ?_ ?_
  · intro v hv hvu
    rw [husers] at hv
    have hvr : v ≠ r := by
      rintro rfl
      exact hvu (by rw [hnick, hp.nick.2.2])
    exact ⟨hv, hothers v hvr, hhome v⟩
  · intro v hv hvu
    have hvr : v ≠ r := by
      rintro rfl
      exact hvu howner
    exact ⟨husers ▸ hv, hothers v hvr⟩
  · intro v hv hvu
    rw [husers] at hv
    obtain rfl := hne v hv hvu
    rw [hself, hhome, h.homes v hv, howner]
    exact ⟨rfl, rfl, hp⟩
  · intro q hq
    obtain rfl := Option.some.inj hq
    exact ⟨r, husers ▸ hr, by rw [hnick, hp.nick.2.2], hself⟩

/-- Only memberships of one user have changed. -/
theorem changeWithin {channels : Set String} (h : net.Depicts L hub w) (hs : net.Sound)
    (hr : r ∈ net.users) (howner : L.owner (net.user r).nick = u) (hw : net.Within net')
    (hservers : net'.servers = net.servers) (husers : net'.users = net.users)
    (hchannels : ∀ k c, net'.channels.get k = some c → IsChannelName (net'.channel c).name)
    (hothers : ∀ v k, v ≠ r → (net'.world.on v k ↔ net.world.on v k))
    (hself : ∀ k, net'.world.on r k ↔ k ∈ channels) :
    net'.Depicts L hub (w.setUser u (some { net.person r with channels := channels })) := by
  have hperson : ∀ v, net'.person v = { net.person v with channels := {k | net'.world.on v k} } := by
    intro v
    simp only [person]
    rw [hw.user v]
  refine h.changeUser hs hr howner hservers ?_ hchannels husers ?_ ?_ ?_ ?_
  · intro s
    rw [hw.server s]
    exact ⟨rfl, rfl, rfl⟩
  · intro v
    rw [hw.user v]
  · intro v hv
    rw [hperson]
    simp only [person, hothers v _ hv]
  · rw [hperson]
    simp only [person, hself]
    rfl
  · have hlegible := h.legible r hr
    rw [howner] at hlegible
    exact ⟨hlegible.nick, hlegible.ident, hlegible.host, hlegible.realName⟩

theorem setNick (h : net.Depicts L hub w) (hs : net.Sound) (hr : r ∈ net.users)
    (howner : L.owner (net.user r).nick = u) (hnick : L.IsNick u nick) :
    (net.modifyUser r fun user => { user with nick := nick }).Depicts L hub
      (w.setUser u (some { net.person r with nick := nick })) := by
  have huser : ∀ v, (net.modifyUser r fun user => { user with nick := nick }).user v =
      { net.user v with nick := if v = r then nick else (net.user v).nick } := fun v => setNick_user
  have hperson : ∀ v, (net.modifyUser r fun user => { user with nick := nick }).person v =
      { net.person v with nick := if v = r then nick else (net.user v).nick } := by
    intro v
    simp only [person, world, huser]
  refine h.changeUser hs hr howner rfl (fun _ => ⟨rfl, rfl, rfl⟩) h.channels rfl ?_ ?_ ?_ ?_
  · intro v
    rw [huser]
  · intro v hv
    rw [hperson, if_neg hv]
    rfl
  · rw [hperson, if_pos rfl]
  · have hlegible := h.legible r hr
    rw [howner] at hlegible
    exact ⟨hnick, hlegible.ident, hlegible.host, hlegible.realName⟩

theorem userJoin (h : net.Depicts L hub w) (hs : net.Sound) (hr : r ∈ net.users)
    (howner : L.owner (net.user r).nick = u) (hname : IsChannelName name)
    (hok : net.userJoin (some r) name = .ok net') :
    net'.Depicts L hub (w.setUser u (some { net.person r with
      channels := (net.person r).channels ∪ Update.keys [name] })) := by
  have hw := within_userJoin (isParameter_of_isChannelIdentifier hname.1) hok
  have hworld := hs.world_userJoin hok
  refine h.changeWithin hs hr howner hw (userJoin_servers hok) (userJoin_frame hok).2 ?_ ?_ ?_
  · obtain ⟨_, hv, _, rfl⟩ := userJoin_eq_ok_iff.mp hok
    have hchannel : ∀ k c, (net.withChannel name).channels.get k = some c →
        IsChannelName ((net.withChannel name).channel c).name := by
      intro k c hc
      cases hget : net.getChannel name with
      | some d =>
        rw [(withChannel_of_some hget).1] at hc ⊢
        exact h.channels k c hc
      | none =>
        rw [(withChannel_of_none hget).1] at hc ⊢
        simp only [addChannel, Dictionary.get_set] at hc ⊢
        by_cases hcn : c = net.next
        · simpa [hcn] using hname
        · rw [Function.update_of_ne hcn]
          split_ifs at hc
          · exact absurd (Option.some.inj hc).symm hcn
          · exact h.channels k c hc
    split_ifs
    · exact hchannel
    · intro k c hc
      have hnames : ∀ v, (((net.withChannel name).enter v (net.openChannel name).1).channel c).name =
          ((net.withChannel name).channel c).name := by
        intro v
        by_cases hd : c = (net.openChannel name).1 <;>
          simp [enter, modifyUser, modifyChannel, Function.update, hd]
      rw [hnames]
      exact hchannel k c hc
  · intro v k hv
    rw [hworld]
    simp [Rooms.World.join, hv]
  · intro k
    rw [hworld]
    simpa [Rooms.World.join, person, Update.keys, eq_comm (a := k)] using or_comm

theorem userPart {k : String} (h : net.Depicts L hub w) (hs : net.Sound) (hr : r ∈ net.users)
    (howner : L.owner (net.user r).nick = u) (hc : net.channels.get k = some c) :
    (net.userPart r c).Depicts L hub (w.setUser u (some { net.person r with
      channels := (net.person r).channels \ {k} })) := by
  have hworld := hs.world_userPart (u := r) hc
  refine h.changeWithin hs hr howner within_userPart userPart_servers userPart_users ?_ ?_ ?_
  · intro k' d hd
    rw [userPart_channels] at hd
    rw [userPart_channel_name]
    exact h.channels k' d hd
  · intro v k' hv
    rw [hworld]
    simp [Rooms.World.part, hv]
  · intro k'
    rw [hworld]
    simp [Rooms.World.part, person]

theorem userRemove (h : net.Depicts L hub w) (hs : net.Sound) (hr : r ∈ net.users)
    (howner : L.owner (net.user r).nick = u) :
    (net.userRemove r).Depicts L hub (w.setUser u none) := by
  have hwithout := (hs.without r).2
  have hmem : ∀ v, v ∈ (net.userRemove r).users ↔ v ∈ net.users ∧ v ≠ r := by
    intro v
    rw [hwithout.users]
    simp
  have huser : ∀ v, v ≠ r → (net.userRemove r).user v = net.user v := fun v hv =>
    hs.userRemove_user hv
  have hne : ∀ v ∈ net.users, v ≠ r → L.owner (net.user v).nick ≠ u := fun v hv hvr hvu =>
    hvr (h.eq_of_owner hs hv hr (hvu.trans howner.symm))
  refine h.change hwithout.servers ?_ ?_ ?_ ?_ ?_ (by simp)
  · intro s
    rw [hwithout.server s]
    exact ⟨rfl, rfl, rfl⟩
  · obtain ⟨hchannels, hname⟩ : (net.userRemove r).channels = net.channels ∧
        ∀ d, ((net.userRemove r).channel d).name = (net.channel d).name := userRemove_channels hs
    intro k d hd
    rw [hchannels] at hd
    rw [hname]
    exact h.channels k d hd
  · intro v hv _
    obtain ⟨hvold, hvr⟩ := (hmem v).mp hv
    refine ⟨hvold, ?_, by rw [huser v hvr]⟩
    simp only [person, world, huser v hvr]
  · intro v hv hvu
    have hvr : v ≠ r := by
      rintro rfl
      exact hvu howner
    refine ⟨(hmem v).mpr ⟨hv, hvr⟩, ?_⟩
    simp only [person, world, huser v hvr]
  · intro v hv hvu
    obtain ⟨hvold, hvr⟩ := (hmem v).mp hv
    rw [huser v hvr] at hvu
    exact absurd hvu (hne v hvold hvr)

theorem withUser {user : User} (h : net.Depicts L hub w) (hs : net.Sound)
    (hnone : w.user u = none) (hhome : (net.server user.server).name = L.name u.1)
    (hchannels : user.channels = .empty) (hp : L.Legible u p)
    (heq : p = ⟨user.nick, user.ident, user.host, user.realName, ∅⟩) :
    (net.withUser user).Depicts L hub (w.setUser u (some p)) := by
  have hmem : ∀ v, v ∈ (net.withUser user).users ↔ v ∈ net.users ∨ v = net.next := by
    simp [Network.withUser]
  have huser : ∀ v ∈ net.users, (net.withUser user).user v = net.user v := by
    intro v hv
    rw [withUser_user, if_neg (hs.users_lt v hv).ne]
  have hnew : (net.withUser user).user net.next = user := by rw [withUser_user, if_pos rfl]
  have hperson : (net.withUser user).person net.next = p := by
    rw [heq]
    simp only [person, world, hnew, hchannels]
    simp
  have hnick : ((net.withUser user).user net.next).nick = p.nick := congrArg Person.nick hperson
  have hold : ∀ v ∈ net.users, (net.withUser user).person v = net.person v := by
    intro v hv
    simp only [person, world, huser v hv]
  refine h.change rfl ?_ h.channels ?_ ?_ ?_ ?_
  · intro s
    rw [withUser_server]
    exact ⟨rfl, rfl, rfl⟩
  · intro v hv hvu
    have hv : v ∈ net.users := by
      refine ((hmem v).mp hv).resolve_right ?_
      rintro rfl
      exact hvu (by rw [hnick, hp.nick.2.2])
    exact ⟨hv, hold v hv, by rw [huser v hv]⟩
  · exact fun v hv _ => ⟨(hmem v).mpr (.inl hv), hold v hv⟩
  · intro v hv hvu
    rcases (hmem v).mp hv with hv | rfl
    · rw [huser v hv] at hvu
      have hw := h.users v hv
      rw [hvu, hnone] at hw
      simp at hw
    · rw [hperson, hnew]
      exact ⟨rfl, hhome, hp⟩
  · intro q hq
    obtain rfl := Option.some.inj hq
    exact ⟨net.next, (hmem _).mpr (.inr rfl), by rw [hnick, hp.nick.2.2], hperson⟩

omit [Locale] [DecidableEq V] in
theorem setUserConnection {con : Option Conn} (h : net.Depicts L hub w) :
    (net.modifyUser r fun x => { x with connection := con }).Depicts L hub w := by
  have huser : ∀ v, (net.modifyUser r fun x => { x with connection := con }).user v =
      { net.user v with connection := if v = r then con else (net.user v).connection } := by
    intro v
    by_cases hv : v = r <;> simp [modifyUser, Function.update, hv]
  have hperson : ∀ v, (net.modifyUser r fun x => { x with connection := con }).person v =
      net.person v := by
    intro v
    simp only [person, world, huser]
  refine ⟨h.root, h.servers, h.known, ?_, ?_, ?_, ?_, h.channels⟩
  · intro v hv
    rw [hperson, huser]
    exact h.users v hv
  · intro v q hq
    obtain ⟨x, hx, howner, hpx⟩ := h.present v q hq
    exact ⟨x, hx, by rw [huser]; exact howner, by rw [hperson, hpx]⟩
  · intro v hv
    rw [huser]
    exact h.homes v hv
  · intro v hv
    rw [hperson, huser]
    exact h.legible v hv

theorem withServer {q : Ref} (h : net.Depicts L hub w) (hL : L.Proper) (hs : net.Sound)
    (hv : ¬(w v).known) (hq : net.Registered q) :
    (net.withServer (L.name v) (L.token v) (some q)).Depicts L hub (w.setKnown v) := by
  have hfree := h.getServer_eq_none hL hs hv
  have hreg : ∀ s, (net.withServer (L.name v) (L.token v) (some q)).Registered s ↔
      net.Registered s ∨ s = net.next := fun s => registered_withServer hfree
  have hserver : ∀ s, s ≠ net.next →
      ((net.withServer (L.name v) (L.token v) (some q)).server s).name = (net.server s).name ∧
      ((net.withServer (L.name v) (L.token v) (some q)).server s).token = (net.server s).token ∧
      ((net.withServer (L.name v) (L.token v) (some q)).server s).parent = (net.server s).parent := by
    intro s hs
    rw [withServer_server, if_neg hs]
    exact ⟨rfl, rfl, rfl⟩
  have hnew : ((net.withServer (L.name v) (L.token v) (some q)).server net.next).name = L.name v ∧
      ((net.withServer (L.name v) (L.token v) (some q)).server net.next).token = L.token v := by
    rw [withServer_server, if_pos rfl]
    exact ⟨rfl, rfl⟩
  have hold : ∀ s, net.Registered s → s ≠ net.next := fun s hreg => (hs.servers_lt s hreg).ne
  refine ⟨?_, ?_, ?_, ?_, ?_, ?_, h.legible, h.channels⟩
  · obtain ⟨r, hr, hname⟩ := h.root
    obtain ⟨hrreg, hrparent⟩ := getLocalServer_eq_some hr
    have hr' := hserver r (hold r hrreg)
    refine ⟨r, ?_, hr'.1.trans hname⟩
    rw [← hr]
    exact getLocalServer_withServer hs hfree (h.getServerByToken_eq_none hL hs hv) hq
  · intro s hs
    rcases (hreg s).mp hs with hs | rfl
    · obtain ⟨x, hx, hname, htoken⟩ := h.servers s hs
      have hsame := hserver s (hold s hs)
      exact ⟨x, View.known_setKnown.mpr (.inr hx), hsame.1.trans hname, hsame.2.1.trans htoken⟩
    · exact ⟨v, View.known_setKnown.mpr (.inl rfl), hnew⟩
  · intro x hx
    rcases View.known_setKnown.mp hx with rfl | hx
    · exact ⟨net.next, (hreg _).mpr (.inr rfl), hnew.1⟩
    · obtain ⟨s, hs, hname⟩ := h.known x hx
      exact ⟨s, (hreg s).mpr (.inl hs), (hserver s (hold s hs)).1.trans hname⟩
  · intro r hr
    rw [View.user_setKnown]
    exact h.users r hr
  · intro x p hp
    rw [View.user_setKnown] at hp
    exact h.present x p hp
  · intro r hr
    have hne := hold _ (hs.homes.registered r hr)
    exact (hserver _ hne).1.trans (h.homes r hr)

omit [Locale] in
omit [DecidableEq V] in
theorem setServerConnection {con : Option Conn} (h : net.Depicts L hub w) :
    (net.modifyServer s fun x => { x with connection := con }).Depicts L hub w := by
  have hserver : ∀ t, (net.modifyServer s fun x => { x with connection := con }).server t =
      { net.server t with connection := if t = s then con else (net.server t).connection } :=
    fun t => setServerConnection_server
  refine ⟨?_, ?_, ?_, h.users, h.present, ?_, h.legible, h.channels⟩
  · obtain ⟨r, hr, hname⟩ := h.root
    refine ⟨r, ?_, by rw [hserver]; exact hname⟩
    rw [← hr]
    refine getLocalServer_congr rfl fun t => ?_
    rw [hserver]
  · intro t ht
    rw [hserver]
    exact h.servers t ht
  · intro x hx
    obtain ⟨t, ht, hname⟩ := h.known x hx
    exact ⟨t, ht, by rw [hserver]; exact hname⟩
  · intro x hx
    rw [hserver]
    exact h.homes x hx

end Depicts

end Network

end MyLifeHome.Irc

