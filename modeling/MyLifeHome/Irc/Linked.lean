import MyLifeHome.Irc.Client

/-!
# Who is at the end of which connection

What it takes for a message to come to the user that it is for and to nobody else, and what
commands leave of it.
-/
namespace MyLifeHome.Irc

open Checked Rooms

variable [Locale]

namespace Network

variable {net : Network} {u s t : Ref} {us : List Ref}

theorem userRemove_server_users_subset :
    ((net.userRemove u).server s).users ⊆ (net.server s).users := by
  by_cases hu : u ∈ net.users
  · rw [userRemove_of_mem hu]
    have hserver : ((net.user u).channels.values.foldl (fun net c => net.userPart u c) net).server =
        net.server := by
      generalize (net.user u).channels.values = cs
      induction cs generalizing net with
      | nil => rfl
      | cons c cs ih => exact (ih (by simpa using hu)).trans userPart_server
    rw [dropUser_server_users, hserver]
    split_ifs
    · exact List.erase_subset
    · exact List.Subset.refl _
  · rw [userRemove_of_notMem hu]
    exact List.Subset.refl _

theorem removeUsers_server_users_subset :
    ((us.foldl Network.userRemove net).server s).users ⊆ (net.server s).users := by
  induction us generalizing net with
  | nil => exact List.Subset.refl _
  | cons u us ih => exact List.Subset.trans ih userRemove_server_users_subset

theorem dropServer_users :
    (net.dropServer s).users = net.users ∧ (net.dropServer s).user = net.user := by
  rw [dropServer, removeChild_eq]
  exact ⟨rfl, rfl⟩

theorem world_dropServer : (net.dropServer s).world = net.world := by
  obtain ⟨husers, huser⟩ : (net.dropServer s).users = net.users ∧
      (net.dropServer s).user = net.user := dropServer_users
  exact world_congr husers (fun v => by rw [huser]) fun v => by rw [huser]

/-- A server that is lost has no users any more. -/
theorem Sound.removeUsers_server_users (h : net.Sound) (hs : net.Registered s) :
    (((net.server s).users.foldl Network.userRemove net).server s).users = [] := by
  obtain ⟨hsound, hw⟩ := h.removeUsers (net.server s).users
  refine List.eq_nil_iff_forall_not_mem.mpr fun u hu => ?_
  have hmem := ((hsound.homes.listed s ((registered_congr hw.servers).mpr hs) u).mp hu).1
  exact ((hw.users u).mp hmem).2 (removeUsers_server_users_subset hu)

end Network

namespace Hub

/-- A user with a connection is alone at its end, the servers' connections are links, nicks are
words, and a server that is not registered has nobody. -/
structure Lines (hub : Hub) : Prop extends Inv hub where
  users : ∀ c u, hub.structures c = .user u →
    u < hub.net.next ∧ (hub.net.user u).connection = some c
  locals : ∀ u ∈ hub.net.users, ∀ c, (hub.net.user u).connection = some c →
    hub.net.isLocal u ∧ hub.structures c = .user u
  servers : ∀ s c, (hub.net.server s).connection = some c → ∃ t, hub.structures c = .server t
  nicks : ∀ u ∈ hub.net.users, isParameter (hub.net.user u).nick
  idle : ∀ s, ¬hub.net.Registered s →
    (hub.net.server s).users = [] ∧ (hub.net.server s).children = []

/-- The users' connections are open. -/
structure Linked (hub : Hub) : Prop extends Lines hub where
  opens : ∀ u ∈ hub.net.users, ∀ c, (hub.net.user u).connection = some c → ¬hub.closed c

/-- The connections are as before, but those of the users, who may have been dropped. -/
def Leaves (hub : Hub) (us : List Ref) (hub' : Hub) : Prop := ∀ c,
  hub'.structures c = hub.structures c ∧ hub'.closed c = hub.closed c ∨
  (∀ v, hub.structures c = .user v → v ∈ us) ∧
    (hub'.structures c = hub.structures c ∨
      hub'.Unregistered c ∧ ∀ s, hub.structures c ≠ .server s)

/-- The hub may have given up the connections of the users. -/
def Drops (hub : Hub) (us : List Ref) (hub' : Hub) : Prop := ∀ c,
  hub'.structures c = hub.structures c ∧ hub'.closed c = hub.closed c ∨
  (∃ u ∈ us, (hub.net.user u).connection = some c) ∧
    hub'.structures c = .new ∧ hub'.closed c = true

variable {hub hub' hub'' : Hub} {c d src : Conn} {u v s r : Ref} {net' : Network}
  {us vs : List Ref}

omit [Locale] in
theorem Wrote.fresh (hw : Wrote hub hub') (hunreg : hub'.Unregistered d) (hopen : ¬hub'.closed d) :
    hub.Unregistered d ∧ ¬hub.closed d := by
  rw [Unregistered, hw.structures] at hunreg
  rw [hw.closed] at hopen
  exact ⟨hunreg, hopen⟩

namespace Drops

section

omit [Locale]

theorem of_wrote (hw : Wrote hub hub') : hub.Drops us hub' :=
  fun c => .inl ⟨congrFun hw.structures c, congrFun hw.closed c⟩

theorem trans (h : hub.Drops us hub') (g : hub'.Drops vs hub'') (hnet : hub'.net = hub.net) :
    hub.Drops (us ++ vs) hub'' := by
  intro c
  rcases g c with ⟨hstr, hclosed⟩ | ⟨⟨u, hu, hcon⟩, hdropped⟩
  · rw [hstr, hclosed]
    exact (h c).imp_right fun ⟨⟨u, hu, hcon⟩, hdropped⟩ =>
      ⟨⟨u, List.mem_append_left vs hu, hcon⟩, hdropped⟩
  · rw [hnet] at hcon
    exact .inr ⟨⟨u, List.mem_append_right us hu, hcon⟩, hdropped⟩

/-- They were the users' own connections. -/
theorem leaves (h : hub.Drops us hub')
    (hus : ∀ u ∈ us, ∀ c, (hub.net.user u).connection = some c → hub.structures c = .user u) :
    hub.Leaves us hub' := by
  intro c
  rcases h c with hsame | ⟨⟨u, hu, hcon⟩, hstr, _⟩
  · exact .inl hsame
  · have hc := hus u hu c hcon
    refine .inr ⟨fun v hv => ?_, .inr ⟨⟨none, none, none, hstr⟩, by simp [hc]⟩⟩
    rw [hc] at hv
    exact Connectable.user.inj hv ▸ hu

theorem fresh (h : hub.Drops us hub') (hunreg : hub'.Unregistered d) (hopen : ¬hub'.closed d) :
    hub.Unregistered d ∧ ¬hub.closed d := by
  rcases h d with ⟨hstr, hclosed⟩ | ⟨_, _, hclosed⟩
  · rw [Unregistered, hstr] at hunreg
    rw [hclosed] at hopen
    exact ⟨hunreg, hopen⟩
  · exact absurd hclosed hopen

end

end Drops

theorem Lines.congr (h : hub.Lines) (hnet : hub'.net = hub.net)
    (hstr : hub'.structures = hub.structures) : hub'.Lines := by
  refine ⟨h.toInv.congr hnet hstr, ?_, ?_, ?_, ?_, ?_⟩ <;> rw [hnet]
  · rw [hstr]
    exact h.users
  · rw [hstr]
    exact h.locals
  · rw [hstr]
    exact h.servers
  · exact h.nicks
  · exact h.idle

namespace Linked

theorem wrote (h : hub.Linked) (hw : Wrote hub hub') : hub'.Linked := by
  obtain ⟨out, rfl⟩ := hw
  exact ⟨⟨⟨h.sound, h.links⟩, h.users, h.locals, h.servers, h.nicks, h.idle⟩, h.opens⟩

/-- There is less on the network, and some connections are without their users. -/
theorem less (h : hub.Linked) (hs : hub'.net.Sound) (hw : hub.net.Within hub'.net)
    (hleaves : hub.Leaves us hub') (hus : ∀ u ∈ us, u ∉ hub'.net.users)
    (hidle : ∀ s, ¬hub'.net.Registered s →
      (hub'.net.server s).users = [] ∧ (hub'.net.server s).children = []) : hub'.Linked := by
  have hstr : ∀ c, hub'.structures c = hub.structures c ∨
      hub'.Unregistered c ∧ ∀ s, hub.structures c ≠ .server s := by
    intro c
    rcases hleaves c with ⟨hstr, _⟩ | ⟨_, hstr⟩
    · exact .inl hstr
    · exact hstr
  have hsame : ∀ u ∈ hub'.net.users, ∀ c, hub.structures c = .user u →
      hub'.structures c = hub.structures c ∧ hub'.closed c = hub.closed c := by
    intro u hu c hc
    rcases hleaves c with hsame | ⟨hgone, _⟩
    · exact hsame
    · exact absurd hu (hus u (hgone u hc))
  refine ⟨⟨⟨hs, ?_⟩, ?_, ?_, ?_, ?_, hidle⟩, ?_⟩
  · intro c s hc
    rw [hw.server s]
    rcases hstr c with heq | ⟨⟨_, _, _, hun⟩, _⟩
    · exact h.links c s (heq ▸ hc)
    · simp [hc] at hun
  · intro c u hc
    rcases hstr c with heq | ⟨⟨_, _, _, hun⟩, _⟩
    · obtain ⟨hlt, hcon⟩ := h.users c u (heq ▸ hc)
      rw [hw.user u]
      exact ⟨Nat.lt_of_lt_of_le hlt hw.next, hcon⟩
    · simp [hc] at hun
  · intro u hu c hc
    rw [hw.user u] at hc
    obtain ⟨hlocal, hcon⟩ := h.locals u (hw.users u hu) c hc
    refine ⟨?_, (hsame u hu c hcon).1.trans hcon⟩
    rwa [Network.isLocal, hw.getLocalServer_eq h.sound hs, hw.user u]
  · intro s c hc
    rw [hw.server s] at hc
    obtain ⟨t, ht⟩ := h.servers s c hc
    rcases hstr c with heq | ⟨_, hno⟩
    · exact ⟨t, heq.trans ht⟩
    · exact absurd ht (hno t)
  · intro u hu
    rw [hw.user u]
    exact h.nicks u (hw.users u hu)
  · intro u hu c hc
    rw [hw.user u] at hc
    rw [(hsame u hu c (h.locals u (hw.users u hu) c hc).2).2]
    exact h.opens u (hw.users u hu) c hc

omit [Locale] in
theorem leaves_of_eq (hstr : hub'.structures = hub.structures) (hclosed : hub'.closed = hub.closed) :
    hub.Leaves us hub' := fun c => .inl ⟨congrFun hstr c, congrFun hclosed c⟩

theorem within_removeUsers {net : Network} : net.Within (us.foldl Network.userRemove net) :=
  .foldl (fun _ _ => Network.within_userRemove) us

/-- Users have left. -/
theorem leave (h : hub.Linked) (hleaves : hub.Leaves us hub')
    (hnet : hub'.net = us.foldl Network.userRemove hub.net) : hub'.Linked := by
  obtain ⟨hs, hw⟩ := h.sound.removeUsers us
  rw [← hnet] at hs hw
  refine h.less hs (hnet ▸ within_removeUsers) hleaves ?_ ?_
  · intro u hu hmem
    exact ((hw.users u).mp hmem).2 hu
  · intro s hreg
    obtain ⟨husers, hchildren⟩ := h.idle s fun hs => hreg ((Network.registered_congr hw.servers).mpr hs)
    refine ⟨?_, by rw [hw.server s]; exact hchildren⟩
    rw [hnet]
    exact List.eq_nil_of_subset_nil (husers ▸ Network.removeUsers_server_users_subset)

/-- A server has left with its users. -/
theorem lose (h : hub.Linked) (hleaves : hub.Leaves (hub.net.server s).users hub')
    (hs : hub.net.Registered s) (hleaf : hub.net.Leaf s)
    (hnet : hub'.net = hub.net.serverRemove s) : hub'.Linked := by
  obtain ⟨hsound, hw⟩ := h.sound.removeUsers (hub.net.server s).users
  have hget := h.sound.tree.registered_iff.mp hs
  have hdrop := Network.serverRemove_of_getServer hw (by rw [Network.getServer, hget]; rfl)
  refine h.less ?_ ?_ hleaves ?_ ?_
  · rw [hnet]
    exact h.sound.serverRemove hs hleaf.1 hleaf.2
  · rw [hnet]
    exact h.sound.within_serverRemove
  · intro u hu hmem
    rw [hnet, hdrop, Network.dropServer_users.1] at hmem
    exact ((hw.users u).mp hmem).2 hu
  · intro t hreg
    rw [hnet, h.sound.registered_serverRemove hs] at hreg
    have hchildren : ∀ x, (hub.net.server t).children = [] → x ∉ (hub'.net.server t).children := by
      intro x hnil hx
      rw [hnet] at hx
      simpa [hnil] using h.sound.within_serverRemove.children t x hx
    rw [hnet, hdrop, Network.dropServer_server]
    by_cases hts : t = s
    · subst hts
      refine ⟨h.sound.removeUsers_server_users hs, ?_⟩
      rw [← Network.dropServer_server, ← hdrop, ← hnet]
      exact List.eq_nil_iff_forall_not_mem.mpr fun x => hchildren x hleaf.2
    · obtain ⟨husers, hnil⟩ := h.idle t fun ht => hreg ⟨ht, hts⟩
      refine ⟨List.eq_nil_of_subset_nil (husers ▸ Network.removeUsers_server_users_subset), ?_⟩
      rw [← Network.dropServer_server, ← hdrop, ← hnet]
      exact List.eq_nil_iff_forall_not_mem.mpr fun x => hchildren x hnil

/-- Only memberships have changed. -/
theorem within (h : hub.Linked) (hs : net'.Sound) (hw : hub.net.Within net')
    (hserver : net'.server = hub.net.server) (hservers : net'.servers = hub.net.servers) :
    Linked { hub with net := net' } := by
  have hleaves : hub.Leaves [] { hub with net := net' } := leaves_of_eq rfl rfl
  refine h.less hs hw hleaves (by simp) ?_
  intro s hreg
  change (net'.server s).users = [] ∧ (net'.server s).children = []
  rw [hserver]
  exact h.idle s fun hs => hreg ((Network.registered_congr hservers).mpr hs)

theorem userPart (h : hub.Linked) (u c : Ref) : Linked { hub with net := hub.net.userPart u c } :=
  h.within (h.sound.userPart u c) Network.within_userPart Network.userPart_server
    Network.userPart_servers

theorem userJoin (h : hub.Linked) {name : String} (hu : u ∈ hub.net.users)
    (hname : isParameter name) (hok : hub.net.userJoin (some u) name = .ok net') :
    Linked { hub with net := net' } :=
  h.within (h.sound.userJoin hu hok) (Network.within_userJoin hname hok)
    (Network.userJoin_frame hok).1 (Network.userJoin_servers hok)

/-- Somebody tells its nick, or who it is. -/
theorem setUnregistered (h : hub.Linked) (hunreg : hub.Unregistered src)
    {nick ident realName : Option String} :
    (hub.setStructure src (.unregistered nick ident realName)).Linked := by
  suffices hleaves : hub.Leaves [] (hub.setStructure src (.unregistered nick ident realName)) from
    h.leave hleaves rfl
  obtain ⟨n, i, r, hstr⟩ := hunreg
  intro c
  by_cases hc : c = src
  · subst hc
    refine .inr ⟨by simp [hstr], .inr ⟨⟨nick, ident, realName, Function.update_self ..⟩, ?_⟩⟩
    simp [hstr]
  · exact .inl ⟨Function.update_of_ne hc .., rfl⟩

theorem setNick (h : hub.Linked) {nick : String} (hfree : hub.net.getUser (some nick) = none)
    (hnick : isParameter nick) :
    Linked { hub with net := hub.net.modifyUser u fun user => { user with nick := nick } } := by
  have hI := h.toInv.setNick (u := u) hfree
  set net' := hub.net.modifyUser u fun user => { user with nick := nick }
  have huser : ∀ v, net'.user v =
      { hub.net.user v with nick := if v = u then nick else (hub.net.user v).nick } :=
    fun v => Network.setNick_user
  refine ⟨⟨hI, ?_, ?_, h.servers, ?_, h.idle⟩, ?_⟩
  · intro c v hc
    change v < hub.net.next ∧ (net'.user v).connection = some c
    rw [huser]
    exact h.users c v hc
  · intro v hv c hc
    change (net'.user v).connection = some c at hc
    rw [huser] at hc
    obtain ⟨hlocal, hcon⟩ := h.locals v hv c hc
    refine ⟨?_, hcon⟩
    change net'.isLocal v
    rw [Network.isLocal, huser]
    exact hlocal
  · intro v hv
    change isParameter (net'.user v).nick
    rw [huser]
    dsimp only
    split_ifs
    · exact hnick
    · exact h.nicks v hv
  · intro v hv c hc
    change (net'.user v).connection = some c at hc
    rw [huser] at hc
    exact h.opens v hv c hc

/-- A server behind a link. -/
theorem withServer (h : hub.Linked) {name : String} {token : Int} {p : Ref}
    (hname : hub.net.getServer name = none) (htoken : hub.net.getServerByToken token = none)
    (hp : hub.net.Registered p) :
    Linked { hub with net := hub.net.withServer name token (some p) } := by
  have hI := h.toInv.withServer hname htoken hp
  obtain ⟨r, hr⟩ := h.sound.tree.exists_local
  obtain ⟨hrreg, hrparent⟩ := Network.getLocalServer_eq_some hr
  have hroot : (hub.net.withServer name token (some p)).getLocalServer = hub.net.getLocalServer := by
    refine hI.sound.getLocalServer_eq hr ((Network.registered_withServer hname).mpr (.inl hrreg)) ?_
    rw [Network.withServer_server, if_neg (h.sound.servers_lt r hrreg).ne]
    exact hrparent
  refine ⟨⟨hI, ?_, ?_, ?_, h.nicks, ?_⟩, h.opens⟩
  · intro c u hc
    obtain ⟨hlt, hcon⟩ := h.users c u hc
    exact ⟨Nat.lt_succ_of_lt hlt, hcon⟩
  · intro u hu c hc
    obtain ⟨hlocal, hcon⟩ := h.locals u hu c hc
    refine ⟨?_, hcon⟩
    change (hub.net.withServer name token (some p)).isLocal u
    rw [Network.isLocal, hroot]
    exact hlocal
  · intro s c hc
    change ((hub.net.withServer name token (some p)).server s).connection = some c at hc
    by_cases hnew : s = hub.net.next
    · rw [Network.withServer_server, if_pos hnew] at hc
      cases hc
    · rw [Network.withServer_server, if_neg hnew] at hc
      exact h.servers s c hc
  · intro s hs
    refine ⟨?_, Network.idle_withServer hname hp (fun t ht => (h.idle t ht).2) hs⟩
    change ¬(hub.net.withServer name token (some p)).Registered s at hs
    rw [Network.registered_withServer hname, not_or] at hs
    change ((hub.net.withServer name token (some p)).server s).users = []
    rw [Network.withServer_server, if_neg hs.2]
    exact (h.idle s hs.1).1

/-- The new server is at the other end of a connection. -/
theorem link (h : hub.Linked) {name : String} {token : Int} (hname : hub.net.getServer name = none)
    (htoken : hub.net.getServerByToken token = none) (hr : hub.net.getLocalServer = some r)
    (hunreg : hub.Unregistered src) :
    Linked (({ hub with net := hub.net.withPeer name token r src } : Hub).setStructure src
      (.server hub.net.next)) := by
  obtain ⟨hrreg, _⟩ := Network.getLocalServer_eq_some hr
  have hl := h.withServer hname htoken hrreg
  have hparent : (hub.net.withServer name token (some r)).server hub.net.next =
      ⟨name, token, some r, if some r = some hub.net.next then [hub.net.next] else [], [], none⟩ := by
    rw [Network.withServer_server, if_pos rfl]
  set old := hub.net.withServer name token (some r)
  have hsound : (hub.net.withPeer name token r src).Sound := hl.sound.setServerConnection
  set net' := hub.net.withPeer name token r src
  have hserver : ∀ t, net'.server t = { old.server t with
      connection := if t = hub.net.next then some src else (old.server t).connection } :=
    fun t => Network.setServerConnection_server
  have hother : ∀ c x, (∀ s, x ≠ .server s) →
      Function.update hub.structures src (.server hub.net.next) c = x → hub.structures c = x := by
    intro c x hx hc
    by_cases heq : c = src
    · subst heq
      rw [Function.update_self] at hc
      exact absurd hc.symm (hx _)
    · rwa [Function.update_of_ne heq] at hc
  have hkeep : ∀ c x, (∀ nick ident realName, x ≠ .unregistered nick ident realName) →
      hub.structures c = x → Function.update hub.structures src (.server hub.net.next) c = x := by
    intro c x hx hc
    rw [Function.update_of_ne, hc]
    rintro rfl
    obtain ⟨n, i, r, hstr⟩ := hunreg
    exact hx n i r (hc.symm.trans hstr)
  refine ⟨⟨⟨hsound, ?_⟩, ?_, ?_, ?_, hl.nicks, ?_⟩, hl.opens⟩
  · intro c s hc
    change (net'.server s).parent ≠ none
    rw [hserver]
    by_cases heq : c = src
    · subst heq
      obtain rfl := Connectable.server.inj ((Function.update_self ..).symm.trans hc)
      simp [hparent]
    · exact hl.links c s ((Function.update_of_ne heq ..).symm.trans hc)
  · intro c u hc
    exact hl.users c u (hother c _ (by simp) hc)
  · intro u hu c hc
    obtain ⟨hlocal, hcon⟩ := hl.locals u hu c hc
    refine ⟨?_, hkeep c _ (by simp) hcon⟩
    have hroot : net'.getLocalServer = old.getLocalServer := by
      obtain ⟨q, hq⟩ := hl.sound.tree.exists_local
      obtain ⟨hqreg, hqparent⟩ := Network.getLocalServer_eq_some hq
      refine hsound.getLocalServer_eq hq hqreg ?_
      rw [hserver]
      exact hqparent
    change net'.isLocal u
    rw [Network.isLocal, hroot]
    exact hlocal
  · intro s c hc
    change (net'.server s).connection = some c at hc
    rw [hserver] at hc
    by_cases hs : s = hub.net.next
    · simp only [if_pos hs] at hc
      obtain rfl := Option.some.inj hc
      exact ⟨_, Function.update_self ..⟩
    · simp only [if_neg hs] at hc
      obtain ⟨t, ht⟩ := hl.servers s c hc
      exact ⟨t, hkeep c _ (by simp) ht⟩
  · intro s hs
    change (net'.server s).users = [] ∧ (net'.server s).children = []
    rw [hserver]
    exact hl.idle s hs

/-- A user behind a link. -/
theorem withUser (h : hub.Linked) {user : User} (hs : hub.net.Registered user.server)
    (hnick : hub.net.getUser (some user.nick) = none) (hchannels : user.channels = .empty)
    (hcon : user.connection = none) (hparam : isParameter user.nick) :
    Linked { hub with net := hub.net.withUser user } := by
  have hsound := h.sound.withUser hs hnick hchannels
  have hroot : (hub.net.withUser user).getLocalServer = hub.net.getLocalServer := by
    obtain ⟨r, hr⟩ := h.sound.tree.exists_local
    obtain ⟨hrreg, hrparent⟩ := Network.getLocalServer_eq_some hr
    refine hsound.getLocalServer_eq hr hrreg ?_
    rw [Network.withUser_server]
    exact hrparent
  have hold : ∀ {v}, v ≠ hub.net.next → (hub.net.withUser user).user v = hub.net.user v := by
    intro v hv
    rw [Network.withUser_user, if_neg hv]
  have hnew : (hub.net.withUser user).user hub.net.next = user := by
    rw [Network.withUser_user, if_pos rfl]
  have hmem : ∀ {v}, v ∈ (hub.net.withUser user).users → v ≠ hub.net.next → v ∈ hub.net.users := by
    intro v hv hne
    exact (List.mem_append.mp hv).resolve_right fun hv => hne (List.mem_singleton.mp hv)
  refine ⟨⟨⟨hsound, ?_⟩, ?_, ?_, ?_, ?_, ?_⟩, ?_⟩
  · intro c s hc
    change ((hub.net.withUser user).server s).parent ≠ none
    rw [Network.withUser_server]
    exact h.links c s hc
  · intro c v hc
    obtain ⟨hlt, hv⟩ := h.users c v hc
    refine ⟨Nat.lt_succ_of_lt hlt, ?_⟩
    change ((hub.net.withUser user).user v).connection = some c
    rwa [hold hlt.ne]
  · intro v hv c hc
    change ((hub.net.withUser user).user v).connection = some c at hc
    by_cases hne : v = hub.net.next
    · rw [hne, hnew, hcon] at hc
      cases hc
    · rw [hold hne] at hc
      obtain ⟨hlocal, hrest⟩ := h.locals v (hmem hv hne) c hc
      refine ⟨?_, hrest⟩
      change (hub.net.withUser user).isLocal v
      rw [Network.isLocal, hroot, hold hne]
      exact hlocal
  · intro s c hc
    change ((hub.net.withUser user).server s).connection = some c at hc
    rw [Network.withUser_server] at hc
    exact h.servers s c hc
  · intro v hv
    change isParameter ((hub.net.withUser user).user v).nick
    by_cases hne : v = hub.net.next
    · rwa [hne, hnew]
    · rw [hold hne]
      exact h.nicks v (hmem hv hne)
  · intro s hreg
    obtain ⟨husers, hchildren⟩ := h.idle s hreg
    change ((hub.net.withUser user).server s).users = [] ∧
      ((hub.net.withUser user).server s).children = []
    refine ⟨?_, by rw [Network.withUser_server]; exact hchildren⟩
    rw [Network.withUser_server_users, if_neg, husers]
    rintro rfl
    exact hreg hs
  · intro v hv c hc
    change ((hub.net.withUser user).user v).connection = some c at hc
    by_cases hne : v = hub.net.next
    · rw [hne, hnew, hcon] at hc
      cases hc
    · rw [hold hne] at hc
      exact h.opens v (hmem hv hne) c hc

/-- The new user is at the other end of a connection. -/
theorem register (h : hub.Linked) {user : User} (hr : hub.net.getLocalServer = some user.server)
    (hnick : hub.net.getUser (some user.nick) = none) (hchannels : user.channels = .empty)
    (hcon : user.connection = none) (hparam : isParameter user.nick)
    (hunreg : hub.Unregistered src) (hopen : ¬hub.closed src) :
    Linked (({ hub with net := hub.net.withLocalUser user src } : Hub).setStructure src
      (.user hub.net.next)) := by
  obtain ⟨hrreg, _⟩ := Network.getLocalServer_eq_some hr
  have hl := h.withUser hrreg hnick hchannels hcon hparam
  have hsound : (hub.net.withLocalUser user src).Sound := hl.sound.setUserConnection
  have hlocal := hsound.isLocal_withLocalUser hr
  have hkeep : ∀ c x, (∀ nick ident realName, x ≠ .unregistered nick ident realName) →
      hub.structures c = x → Function.update hub.structures src (.user hub.net.next) c = x := by
    intro c x hx hc
    rw [Function.update_of_ne, hc]
    rintro rfl
    obtain ⟨n, i, r, hstr⟩ := hunreg
    exact hx n i r (hc.symm.trans hstr)
  have hold : ∀ {v}, v ≠ hub.net.next →
      (hub.net.withLocalUser user src).user v = (hub.net.withUser user).user v := by
    intro v hv
    simp [Network.withLocalUser, Network.modifyUser, hv]
  have hnew : ((hub.net.withLocalUser user src).user hub.net.next).connection = some src ∧
      ((hub.net.withLocalUser user src).user hub.net.next).nick = user.nick := by
    simp [Network.withLocalUser, Network.modifyUser, Network.withUser_user]
  refine ⟨⟨⟨hsound, ?_⟩, ?_, ?_, ?_, ?_, hl.idle⟩, ?_⟩
  · intro c s hc
    refine hl.links c s ?_
    by_cases heq : c = src
    · subst heq
      exact absurd ((Function.update_self ..).symm.trans hc) (by simp)
    · exact (Function.update_of_ne heq ..).symm.trans hc
  · intro c v hc
    by_cases heq : c = src
    · subst heq
      obtain rfl := Connectable.user.inj ((Function.update_self ..).symm.trans hc)
      exact ⟨Nat.lt_succ_self _, hnew.1⟩
    · have hc' : hub.structures c = .user v := (Function.update_of_ne heq ..).symm.trans hc
      refine ⟨(hl.users c v hc').1, ?_⟩
      change ((hub.net.withLocalUser user src).user v).connection = some c
      rw [hold (h.users c v hc').1.ne]
      exact (hl.users c v hc').2
  · intro v hv c hc
    change ((hub.net.withLocalUser user src).user v).connection = some c at hc
    by_cases hne : v = hub.net.next
    · subst hne
      obtain rfl := Option.some.inj (hnew.1.symm.trans hc)
      exact ⟨hlocal, Function.update_self ..⟩
    · rw [hold hne] at hc
      obtain ⟨hvlocal, hstr⟩ := hl.locals v hv c hc
      refine ⟨?_, hkeep c _ (by simp) hstr⟩
      change (hub.net.withLocalUser user src).isLocal v
      rw [Network.isLocal, hold hne]
      exact hvlocal
  · intro s c hc
    obtain ⟨t, ht⟩ := hl.servers s c hc
    exact ⟨t, hkeep c _ (by simp) ht⟩
  · intro v hv
    change isParameter ((hub.net.withLocalUser user src).user v).nick
    by_cases hne : v = hub.net.next
    · rwa [hne, hnew.2]
    · rw [hold hne]
      exact hl.nicks v hv
  · intro v hv c hc
    change ((hub.net.withLocalUser user src).user v).connection = some c at hc
    by_cases hne : v = hub.net.next
    · subst hne
      obtain rfl := Option.some.inj (hnew.1.symm.trans hc)
      exact hopen
    · rw [hold hne] at hc
      exact hl.opens v hv c hc

end Linked

end Hub

end MyLifeHome.Irc

