import MyLifeHome.Irc.Runs
import MyLifeHome.Irc.Wire

/-!
# Hubs that can serve their connections

What the hub relies on when it writes: names that can stand as parameters, connections of the
local users and of the peers that are open, and on each connection the object that it belongs to.
What happens to a hub changes this in a few ways.
-/
namespace MyLifeHome.Irc

open Checked

/-! ## Texts that are parameters -/

theorem isParameter_of_forall {cs : List Char} (hne : cs ≠ [])
    (h : ∀ c ∈ cs, c ≠ ':' ∧ c ≠ ' ') : isParameter (String.ofList cs) := by
  refine isParameter_iff.mpr ⟨by simpa using hne, ?_, ?_⟩
  · rw [String.toList_ofList]
    intro hhead
    exact (h ':' (List.mem_of_mem_head? hhead)).1 rfl
  · rw [String.toList_ofList]
    intro hmem
    exact (h ' ' hmem).2 rfl

theorem isParameter_toString (n : Int) : isParameter (toString n) := by
  have hdigits : ∀ m : Nat, ∀ c ∈ Nat.toDigits 10 m, c ≠ ':' ∧ c ≠ ' ' := by
    intro m c hc
    have hdigit := Nat.isDigit_of_mem_toDigits (by decide) (by decide) hc
    constructor <;> rintro rfl <;> exact absurd hdigit (by decide)
  cases n with
  | ofNat m =>
    have heq : toString (Int.ofNat m) = String.ofList (Nat.toDigits 10 m) :=
      Nat.repr_eq_ofList_toDigits
    rw [heq]
    exact isParameter_of_forall Nat.toDigits_ne_nil (hdigits m)
  | negSucc m =>
    have heq : toString (Int.negSucc m) = String.ofList ('-' :: Nat.toDigits 10 (m + 1)) := by
      change "-" ++ Nat.repr (m + 1) = _
      rw [Nat.repr_eq_ofList_toDigits, ← String.toList_inj]
      simp
    rw [heq]
    refine isParameter_of_forall (by simp) ?_
    intro c hc
    rcases List.mem_cons.mp hc with rfl | hc
    · decide
    · exact hdigits _ c hc

theorem isParameter_of_isNickName {nick : String} (h : isNickName nick) (hne : nick ≠ "") :
    isParameter nick := by
  have hall := List.all_eq_true.mp h
  rw [← String.ofList_toList (s := nick)]
  refine isParameter_of_forall (by simpa using hne) ?_
  intro c hc
  have hchar := hall c hc
  constructor <;> rintro rfl <;> exact absurd hchar (by decide)

theorem isParameter_of_isChannelIdentifier {name : String}
    (h : isChannelIdentifier name = .ok true) : isParameter name := by
  unfold isChannelIdentifier at h
  split at h
  · simp at h
  · rename_i c cs hcs
    have hboth := Bool.and_eq_true_iff.mp (Except.ok.inj h)
    refine isParameter_iff.mpr ⟨?_, ?_, ?_⟩
    · rintro rfl
      simp at hcs
    · rw [hcs]
      intro hhead
      obtain rfl := Option.some.inj hhead
      exact absurd hboth.1 (by decide)
    · rw [hcs, List.mem_cons, not_or]
      constructor
      · rintro rfl
        exact absurd hboth.1 (by decide)
      · intro hmem
        exact absurd (List.all_eq_true.mp hboth.2 ' ' hmem) (by decide)

variable [Locale]

/-! ## Networks with plain names -/

/-- What messages have as parameters can stand there. -/
structure Network.Plain (net : Network) : Prop where
  name : ' ' ∉ net.name.toList
  servers : ∀ s, net.Registered s → isParameter (net.server s).name
  users : ∀ u ∈ net.users, isParameter (net.user u).nick ∧ isParameter (net.user u).ident ∧
    isParameter (net.user u).host
  channels : ∀ k c, net.channels.get k = some c → isParameter (net.channel c).name

/-! ## Ready hubs -/

namespace Hub

variable {hub hub' : Hub} {c d src con : Conn} {u v s t r : Ref} {net' : Network} {msg : Message}

def Unregistered (hub : Hub) (c : Conn) : Prop :=
  ∃ nick ident realName, hub.structures c = .unregistered nick ident realName

/-- Nothing is thrown when a message is written to the connection. -/
def Writable (hub : Hub) (c : Conn) : Prop := hub.closed c → hub.Unregistered c

/-- The object is at the other end of the connection, or has been dropped with it. -/
def Attached (hub : Hub) (c : Conn) (x : Connectable) : Prop :=
  hub.structures c = x ∧ ¬hub.closed c ∨ hub.closed c ∧ hub.Unregistered c

omit [Locale] in
theorem Attached.writable {x : Connectable} (h : hub.Attached c x) : hub.Writable c := by
  intro hclosed
  rcases h with ⟨_, hopen⟩ | ⟨_, hunreg⟩
  · exact absurd hclosed hopen
  · exact hunreg

/-- The server is a neighbour in the tree. -/
def Peer (net : Network) (s : Ref) : Prop :=
  net.Registered s ∧ ∃ r, net.getLocalServer = some r ∧ (net.server s).parent = some r

/-- The hub can answer on the connection, and write to all of its users and peers. -/
structure Ready (hub : Hub) (src : Conn) : Prop extends Inv hub where
  plain : hub.net.Plain
  locals : ∀ u ∈ hub.net.users, hub.net.isLocal u →
    ∃ c, (hub.net.user u).connection = some c ∧ hub.Attached c (.user u)
  peers : ∀ s, Peer hub.net s →
    ∃ c, (hub.net.server s).connection = some c ∧ hub.structures c = .server s ∧ ¬hub.closed c
  users : ∀ c u, hub.structures c = .user u →
    u < hub.net.next ∧ (hub.net.user u).connection = some c ∧ isParameter (hub.net.user u).nick
  servers : ∀ c s, hub.structures c = .server s →
    s < hub.net.next ∧ (hub.net.server s).connection = some c ∧ isParameter (hub.net.server s).name
  waiting : ∀ c nick ident realName, hub.structures c = .unregistered nick ident realName →
    (∀ n, nick = some n → isNickName n) ∧ ∀ i, ident = some i → isParameter i
  idle : ∀ s, ¬hub.net.Registered s → (hub.net.server s).children = []
  hosts : ∀ c, ∃ host, hub.remoteHost c = some host ∧ isParameter host
  source : hub.Writable src

/-- The hub after a step that has opened and closed nothing. What is new belongs to the
connection, or is behind a link. -/
structure Evolves (hub : Hub) (src : Conn) (hub' : Hub) : Prop where
  sound : hub'.net.Sound
  name : hub'.net.name = hub.net.name
  root : hub'.net.getLocalServer = hub.net.getLocalServer
  next : hub.net.next ≤ hub'.net.next
  closed : hub'.closed = hub.closed
  remoteHost : hub'.remoteHost = hub.remoteHost
  structures : ∀ c, c ≠ src → hub'.structures c = hub.structures c
  user : ∀ u, u < hub.net.next → hub'.net.user u = { hub.net.user u with
    nick := (hub'.net.user u).nick, channels := (hub'.net.user u).channels }
  nick : ∀ u, u < hub.net.next → (hub'.net.user u).nick = (hub.net.user u).nick ∨
    isParameter (hub'.net.user u).nick
  server : ∀ s, s < hub.net.next → hub'.net.server s = { hub.net.server s with
    children := (hub'.net.server s).children, users := (hub'.net.server s).users }
  channels : ∀ k c, hub'.net.channels.get k = some c → isParameter (hub'.net.channel c).name ∨
    hub.net.channels.get k = some c ∧ (hub'.net.channel c).name = (hub.net.channel c).name
  users : ∀ u ∈ hub'.net.users, u ∈ hub.net.users ∨
    (isParameter (hub'.net.user u).nick ∧ isParameter (hub'.net.user u).ident ∧
      isParameter (hub'.net.user u).host) ∧
    (hub'.net.isLocal u → (hub'.net.user u).connection = some src ∧
      hub'.structures src = .user u ∧ ¬hub'.closed src)
  servers : ∀ s, hub'.net.Registered s → hub.net.Registered s ∨
    isParameter (hub'.net.server s).name ∧
    (Peer hub'.net s → (hub'.net.server s).connection = some src ∧
      hub'.structures src = .server s ∧ ¬hub'.closed src)
  idle : (∀ s, ¬hub.net.Registered s → (hub.net.server s).children = []) →
    ∀ s, ¬hub'.net.Registered s → (hub'.net.server s).children = []
  source : hub'.structures src = hub.structures src ∨ hub.Unregistered src ∧
    match hub'.structures src with
    | .unregistered nick ident _ =>
      (∀ n, nick = some n → isNickName n) ∧ ∀ i, ident = some i → isParameter i
    | .user u => u < hub'.net.next ∧ (hub'.net.user u).connection = some src ∧
        isParameter (hub'.net.user u).nick ∧ ¬hub'.closed src
    | .server s => s < hub'.net.next ∧ (hub'.net.server s).connection = some src ∧
        isParameter (hub'.net.server s).name ∧ (hub'.net.server s).parent ≠ none ∧
        ¬hub'.closed src

namespace Ready

/-- Nobody is attached to a connection that nobody is registered on. -/
theorem evolve (h : hub.Ready src) (he : hub.Evolves src hub') : hub'.Ready src := by
  have hlt := h.sound.users_lt
  have hserverlt := h.sound.servers_lt
  -- on the connection nothing has changed, or nobody was there
  have hsame : ∀ c, hub'.structures c = hub.structures c ∨ c = src ∧ hub.Unregistered src := by
    intro c
    by_cases hc : c = src
    · subst hc
      exact he.source.imp id fun h => ⟨rfl, h.1⟩
    · exact .inl (he.structures c hc)
  have hunreg : ∀ c, hub.closed c → hub.Unregistered c → hub'.Unregistered c := by
    intro c hclosed hunreg
    rcases hsame c with heq | ⟨rfl, _⟩
    · rwa [Unregistered, heq]
    · rcases he.source with heq | ⟨_, hnew⟩
      · rwa [Unregistered, heq]
      · rw [← he.closed] at hclosed
        cases hstr : hub'.structures c with
        | unregistered nick ident realName => exact ⟨nick, ident, realName, hstr⟩
        | user u =>
          rw [hstr] at hnew
          exact absurd hclosed hnew.2.2.2
        | server s =>
          rw [hstr] at hnew
          exact absurd hclosed hnew.2.2.2.2
  have hattached : ∀ c x, (∀ nick ident realName, x ≠ .unregistered nick ident realName) →
      hub.Attached c x → hub'.Attached c x := by
    intro c x hx hc
    rw [Attached, he.closed]
    rcases hc with ⟨hstr, hopen⟩ | ⟨hclosed, hgone⟩
    · rcases hsame c with heq | ⟨rfl, _, _, _, hfree⟩
      · exact .inl ⟨heq.trans hstr, hopen⟩
      · exact absurd (hstr.symm.trans hfree) (hx _ _ _)
    · exact .inr ⟨hclosed, hunreg c hclosed hgone⟩
  refine ⟨⟨he.sound, ?_⟩, ⟨?_, ?_, ?_, ?_⟩, ?_, ?_, ?_, ?_, ?_, he.idle h.idle, ?_, ?_⟩
  · intro c s hc
    rcases hsame c with heq | ⟨rfl, _⟩
    · rw [heq] at hc
      rw [he.server s (h.servers c s hc).1]
      exact h.links c s hc
    · rcases he.source with heq | ⟨_, hnew⟩
      · rw [heq] at hc
        rw [he.server s (h.servers c s hc).1]
        exact h.links c s hc
      · rw [hc] at hnew
        exact hnew.2.2.2.1
  · rw [he.name]
    exact h.plain.name
  · intro s hs
    rcases he.servers s hs with hold | hnew
    · rw [he.server s (hserverlt s hold)]
      exact h.plain.servers s hold
    · exact hnew.1
  · intro u hu
    rcases he.users u hu with hold | hnew
    · have hplain := h.plain.users u hold
      have hnick := he.nick u (hlt u hold)
      rw [he.user u (hlt u hold)]
      exact ⟨hnick.elim (fun heq => heq ▸ hplain.1) id, hplain.2⟩
    · exact hnew.1
  · intro k c hc
    rcases he.channels k c hc with hnew | ⟨hold, heq⟩
    · exact hnew
    · rw [heq]
      exact h.plain.channels k c hold
  · intro u hu hlocal
    rcases he.users u hu with hold | ⟨_, hnew⟩
    · have huser := he.user u (hlt u hold)
      rw [Network.isLocal, he.root, huser] at hlocal
      obtain ⟨c, hcon, hc⟩ := h.locals u hold hlocal
      refine ⟨c, ?_, hattached c _ (by simp) hc⟩
      rw [huser]
      exact hcon
    · obtain ⟨hcon, hstr, hopen⟩ := hnew hlocal
      exact ⟨src, hcon, .inl ⟨hstr, hopen⟩⟩
  · intro s hs
    rcases he.servers s hs.1 with hold | ⟨_, hnew⟩
    · have hserver := he.server s (hserverlt s hold)
      obtain ⟨_, r, hr, hparent⟩ := hs
      rw [he.root] at hr
      rw [hserver] at hparent
      obtain ⟨c, hcon, hstr, hopen⟩ := h.peers s ⟨hold, r, hr, hparent⟩
      refine ⟨c, ?_, ?_, ?_⟩
      · rw [hserver]
        exact hcon
      · rcases hsame c with heq | ⟨rfl, _, _, _, hfree⟩
        · exact heq.trans hstr
        · rw [hstr] at hfree
          simp at hfree
      · rwa [he.closed]
    · obtain ⟨hcon, hstr, hopen⟩ := hnew hs
      exact ⟨src, hcon, hstr, hopen⟩
  · intro c u hc
    have hold : hub.structures c = .user u → u < hub'.net.next ∧
        (hub'.net.user u).connection = some c ∧ isParameter (hub'.net.user u).nick := by
      intro hc
      obtain ⟨hu, hcon, hparam⟩ := h.users c u hc
      refine ⟨Nat.lt_of_lt_of_le hu he.next, ?_, ?_⟩
      · rw [he.user u hu]
        exact hcon
      · exact (he.nick u hu).elim (fun heq => heq ▸ hparam) id
    rcases hsame c with heq | ⟨rfl, _⟩
    · exact hold (heq ▸ hc)
    · rcases he.source with heq | ⟨_, hnew⟩
      · exact hold (heq ▸ hc)
      · rw [hc] at hnew
        exact ⟨hnew.1, hnew.2.1, hnew.2.2.1⟩
  · intro c s hc
    have hold : hub.structures c = .server s → s < hub'.net.next ∧
        (hub'.net.server s).connection = some c ∧ isParameter (hub'.net.server s).name := by
      intro hc
      obtain ⟨hs, hcon, hparam⟩ := h.servers c s hc
      rw [he.server s hs]
      exact ⟨Nat.lt_of_lt_of_le hs he.next, hcon, hparam⟩
    rcases hsame c with heq | ⟨rfl, _⟩
    · exact hold (heq ▸ hc)
    · rcases he.source with heq | ⟨_, hnew⟩
      · exact hold (heq ▸ hc)
      · rw [hc] at hnew
        exact ⟨hnew.1, hnew.2.1, hnew.2.2.1⟩
  · intro c nick ident realName hc
    rcases hsame c with heq | ⟨rfl, _⟩
    · exact h.waiting c nick ident realName (heq ▸ hc)
    · rcases he.source with heq | ⟨_, hnew⟩
      · exact h.waiting c nick ident realName (heq ▸ hc)
      · rw [hc] at hnew
        exact hnew
  · intro c
    rw [he.remoteHost]
    exact h.hosts c
  · intro hclosed
    rw [he.closed] at hclosed
    exact hunreg src hclosed (h.source hclosed)

theorem at_source (h : hub.Ready src) (hd : hub.Writable d) : hub.Ready d :=
  { h with source := hd }

theorem wrote (h : hub.Ready src) (hw : Wrote hub hub') : hub'.Ready src := by
  obtain ⟨out, rfl⟩ := hw
  exact ⟨⟨h.sound, h.links⟩, h.plain, h.locals, h.peers, h.users, h.servers, h.waiting, h.idle,
    h.hosts, h.source⟩

end Ready

end Hub

/-! ## What has become less -/

namespace Network

variable {net net' net'' : Network} {u v s t r c : Ref}

/-- No users and no servers have come, and only memberships and lists have changed. -/
structure Within (net net' : Network) : Prop where
  name : net'.name = net.name
  next : net.next ≤ net'.next
  user : ∀ u, net'.user u = { net.user u with channels := (net'.user u).channels }
  server : ∀ s, net'.server s = { net.server s with
    children := (net'.server s).children, users := (net'.server s).users }
  channels : ∀ k c, net'.channels.get k = some c → isParameter (net'.channel c).name ∨
    net.channels.get k = some c ∧ (net'.channel c).name = (net.channel c).name
  users : ∀ u ∈ net'.users, u ∈ net.users
  servers : ∀ s, net'.Registered s → net.Registered s
  children : ∀ s, ∀ c ∈ (net'.server s).children, c ∈ (net.server s).children

namespace Within

section

omit [Locale]

theorem refl : Within net net :=
  ⟨rfl, le_rfl, fun _ => rfl, fun _ => rfl, fun _ _ hc => .inr ⟨hc, rfl⟩, fun _ hu => hu,
    fun _ hs => hs, fun _ _ hc => hc⟩

theorem trans (h : Within net net') (g : Within net' net'') : Within net net'' := by
  refine ⟨g.name.trans h.name, h.next.trans g.next, ?_, ?_, ?_, fun u hu => h.users u (g.users u hu),
    fun s hs => h.servers s (g.servers s hs), fun s c hc => h.children s c (g.children s c hc)⟩
  · intro u
    rw [g.user u, h.user u]
  · intro s
    rw [g.server s, h.server s]
  · intro k c hc
    rcases g.channels k c hc with hnew | ⟨hold, heq⟩
    · exact .inl hnew
    · rw [heq]
      exact h.channels k c hold

theorem foldl {f : Network → Ref → Network} (step : ∀ n a, Within n (f n a)) (as : List Ref) :
    Within net (as.foldl f net) := by
  induction as generalizing net with
  | nil => exact refl
  | cons a as ih => exact (step net a).trans ih

end

/-- The local server is the one that has no parent. -/
theorem getLocalServer_eq (h : Within net net') (hs : net.Sound) (hs' : net'.Sound) :
    net'.getLocalServer = net.getLocalServer := by
  obtain ⟨r, hr⟩ := hs'.tree.exists_local
  obtain ⟨hreg, hparent⟩ := getLocalServer_eq_some hr
  obtain ⟨r', hr'⟩ := hs.tree.exists_local
  rw [h.server r] at hparent
  rw [hr, hr', hs.tree.eq_root hr' (h.servers r hreg) hparent]

end Within

omit [Locale] in
theorem registered_congr (h : net'.servers = net.servers) : net'.Registered s ↔ net.Registered s := by
  rw [Registered, getServers, h]
  rfl

/-- Exactly the lost server is gone. -/
theorem Sound.registered_serverRemove (h : net.Sound) (hs : net.Registered s) :
    (net.serverRemove s).Registered t ↔ net.Registered t ∧ t ≠ s := by
  obtain ⟨hsound, hw⟩ := h.removeUsers (net.server s).users
  have hget := h.tree.registered_iff.mp hs
  rw [serverRemove_of_getServer hw (by rw [getServer, hget]; rfl)]
  have hsreg := (registered_congr hw.servers).mpr hs
  rw [hsound.tree.registered_dropServer hsreg, registered_congr hw.servers]

theorem within_userPart : Within net (net.userPart u c) := by
  refine ⟨?_, ?_, ?_, ?_, ?_, ?_, ?_, ?_⟩
  · unfold userPart
    split_ifs <;> rfl
  · rw [userPart_next]
  · intro v
    by_cases hv : v = u
    · rw [hv]
      exact userPart_user_self
    · rw [userPart_user_of_ne hv]
  · intro s
    rw [userPart_server]
  · intro k d hd
    rw [userPart_channels] at hd
    exact .inr ⟨hd, userPart_channel_name⟩
  · intro v hv
    rwa [userPart_users] at hv
  · intro s hs
    rwa [Registered, getServers, userPart_servers] at hs
  · intro s d hd
    rwa [userPart_server] at hd

omit [Locale] in
theorem within_dropUser : Within net (net.dropUser u) := by
  refine ⟨rfl, le_rfl, fun _ => rfl, ?_, fun _ _ hc => .inr ⟨hc, rfl⟩,
    fun v hv => List.mem_of_mem_erase hv, fun _ hs => hs, ?_⟩
  · intro s
    rw [dropUser_server]
  · intro s d hd
    rwa [dropUser_server] at hd

theorem within_userRemove : Within net (net.userRemove u) := by
  by_cases hu : u ∈ net.users
  · rw [userRemove_of_mem hu]
    exact (Within.foldl (fun n c => within_userPart) _).trans within_dropUser
  · rw [userRemove_of_notMem hu]
    exact .refl

theorem within_dropServer : Within net (net.dropServer s) := by
  have hnet : net.dropServer s = { net with
      server := (net.dropServer s).server
      servers := (net.dropServer s).servers
      serversByToken := (net.dropServer s).serversByToken } := by
    rw [dropServer, removeChild_eq]
  rw [hnet]
  refine ⟨rfl, le_rfl, fun _ => rfl, ?_, fun _ _ hc => .inr ⟨hc, rfl⟩, fun _ hv => hv, ?_,
    ?_⟩
  · intro t
    change (net.dropServer s).server t = { net.server t with
      children := ((net.dropServer s).server t).children
      users := ((net.dropServer s).server t).users }
    rw [dropServer_server]
  · intro t ht
    obtain ⟨k, hk⟩ := Dictionary.mem_values_iff.mp ht
    change (net.servers.erase _).get k = some t at hk
    rw [Dictionary.get_erase] at hk
    split_ifs at hk
    exact Dictionary.mem_values_iff.mpr ⟨k, hk⟩
  · intro t d hd
    change d ∈ ((net.dropServer s).server t).children at hd
    rw [dropServer_server] at hd
    dsimp only at hd
    split_ifs at hd
    · exact List.mem_of_mem_erase hd
    · exact hd

theorem Sound.within_serverRemove (h : net.Sound) : Within net (net.serverRemove s) := by
  cases hget : net.getServer (net.server s).name with
  | none =>
    rw [serverRemove_of_getServer_eq_none hget]
    exact .refl
  | some t =>
    rw [serverRemove_of_getServer (h.removeUsers _).2 (by rw [hget]; rfl)]
    exact (Within.foldl (fun n u => within_userRemove) _).trans within_dropServer

theorem within_withChannel {name : String} (hname : isParameter name) :
    Within net (net.withChannel name) := by
  cases hget : net.getChannel name with
  | some c =>
    rw [(withChannel_of_some hget).1]
    exact .refl
  | none =>
    rw [(withChannel_of_none hget).1]
    refine ⟨rfl, Nat.le_succ _, fun _ => rfl, fun _ => rfl, ?_, fun _ hu => hu, fun _ hs => hs,
      fun _ _ hd => hd⟩
    intro k c hc
    change (net.channels.set _ _).get k = some c at hc
    change isParameter (Function.update net.channel net.next ⟨name, []⟩ c).name ∨ _
    by_cases hnew : c = net.next
    · subst hnew
      exact .inl (by simpa using hname)
    · rw [Dictionary.get_set] at hc
      split_ifs at hc
      · exact absurd (Option.some.inj hc).symm hnew
      · refine .inr ⟨hc, ?_⟩
        change (Function.update net.channel net.next ⟨name, []⟩ c).name = _
        rw [Function.update_of_ne hnew]

theorem within_enter : Within net (net.enter u c) := by
  refine ⟨rfl, le_rfl, ?_, fun _ => rfl, fun k d hd => .inr ⟨hd, ?_⟩, fun _ hv => hv, fun _ hs => hs,
    fun _ _ hd => hd⟩
  · intro v
    by_cases hv : v = u <;> simp [enter, modifyUser, modifyChannel, Function.update, hv]
  · by_cases hd : d = c <;> simp [enter, modifyUser, modifyChannel, Function.update, hd]

theorem within_userJoin {user : Option Ref} {name : String} (hname : isParameter name)
    (hok : net.userJoin user name = .ok net') : Within net net' := by
  obtain ⟨u, _, _, rfl⟩ := userJoin_eq_ok_iff.mp hok
  split_ifs
  · exact within_withChannel hname
  · exact (within_withChannel hname).trans within_enter

theorem userJoin_servers {user : Option Ref} {name : String}
    (hok : net.userJoin user name = .ok net') : net'.servers = net.servers := by
  obtain ⟨u, _, _, rfl⟩ := userJoin_eq_ok_iff.mp hok
  have hchannel : (net.withChannel name).servers = net.servers := by
    rw [withChannel, openChannel]
    split <;> rfl
  split_ifs
  · exact hchannel
  · exact hchannel

/-- The local server is still there. -/
theorem Sound.getLocalServer_eq (hs : net'.Sound) (hr : net.getLocalServer = some r)
    (hreg : net'.Registered r) (hparent : (net'.server r).parent = none) :
    net'.getLocalServer = net.getLocalServer := by
  obtain ⟨root, hroot⟩ := hs.tree.exists_local
  rw [hr, hroot, hs.tree.eq_root hroot hreg hparent]

theorem idle_withServer {name : String} {token : Int} {p : Ref} (hname : net.getServer name = none)
    (hp : net.Registered p) (hidle : ∀ s, ¬net.Registered s → (net.server s).children = [])
    (hs : ¬(net.withServer name token (some p)).Registered s) :
    ((net.withServer name token (some p)).server s).children = [] := by
  rw [registered_withServer hname, not_or] at hs
  have hps : p ≠ s := by
    rintro rfl
    exact hs.1 hp
  rw [withServer_server, if_neg hs.2]
  simpa [hps] using hidle s hs.1

/-- The server of a new link. -/
def withPeer (net : Network) (name : String) (token : Int) (parent : Ref) (con : Conn) : Network :=
  (net.withServer name token (some parent)).modifyServer net.next fun s =>
    { s with connection := some con }

/-- A new user of the hub. -/
def withLocalUser (net : Network) (user : User) (con : Conn) : Network :=
  (net.withUser user).modifyUser net.next fun u => { u with connection := some con }

/-- A user of the local server is local. -/
theorem Sound.isLocal_withLocalUser {user : User} {con : Conn}
    (hs : (net.withLocalUser user con).Sound) (hr : net.getLocalServer = some user.server) :
    (net.withLocalUser user con).isLocal net.next := by
  obtain ⟨hreg, hparent⟩ := getLocalServer_eq_some hr
  have hserver : ((net.withLocalUser user con).server user.server).parent = none := by
    change ((net.withUser user).server user.server).parent = none
    rw [withUser_server]
    exact hparent
  have huser : ((net.withLocalUser user con).user net.next).server = user.server := by
    simp [withLocalUser, modifyUser, withUser_user]
  rw [isLocal, huser, hs.getLocalServer_eq hr hreg hserver, hr]
  simp

end Network

namespace Hub.Ready

variable {hub hub' : Hub} {c d src con : Conn} {u v s t r : Ref} {net' : Network} {msg : Message}

theorem within (h : hub.Ready src) (hs : net'.Sound) (hw : hub.net.Within net')
    (hleaf : ∀ s, hub.net.Registered s → ¬net'.Registered s → (hub.net.server s).children = []) :
    Ready { hub with net := net' } src := by
  refine h.evolve ⟨hs, hw.name, hw.getLocalServer_eq h.sound hs, hw.next, rfl, rfl, fun _ _ => rfl,
    ?_, ?_, fun s _ => hw.server s, hw.channels, fun u hu => .inl (hw.users u hu),
    fun s hs => .inl (hw.servers s hs), ?_, .inl rfl⟩
  · intro u _
    change net'.user u = { hub.net.user u with
      nick := (net'.user u).nick, channels := (net'.user u).channels }
    rw [hw.user u]
  · intro u _
    change (net'.user u).nick = _ ∨ _
    rw [hw.user u]
    exact .inl rfl
  · intro hidle s hs
    refine List.eq_nil_iff_forall_not_mem.mpr fun c hc => ?_
    have hmem := hw.children s c hc
    by_cases hreg : hub.net.Registered s
    · simp [hleaf s hreg hs] at hmem
    · simp [hidle s hreg] at hmem

theorem userRemove (h : hub.Ready src) (u : Ref) : Ready { hub with net := hub.net.userRemove u } src :=
  h.within (h.sound.userRemove u) Network.within_userRemove fun _ hs hgone =>
    absurd (Network.registered_congr (h.sound.without u).2.servers |>.mpr hs) hgone

theorem userPart (h : hub.Ready src) (u c : Ref) : Ready { hub with net := hub.net.userPart u c } src :=
  h.within (h.sound.userPart u c) Network.within_userPart fun _ hs hgone =>
    absurd (Network.registered_congr Network.userPart_servers |>.mpr hs) hgone

theorem serverRemove (h : hub.Ready src) (hs : hub.net.Registered s) (hleaf : hub.net.Leaf s) :
    Ready { hub with net := hub.net.serverRemove s } src := by
  refine h.within (h.sound.serverRemove hs hleaf.1 hleaf.2) h.sound.within_serverRemove ?_
  intro t ht hgone
  by_cases hts : t = s
  · rw [hts]
    exact hleaf.2
  · exact absurd ((h.sound.registered_serverRemove hs).mpr ⟨ht, hts⟩) hgone

theorem userJoin (h : hub.Ready src) {name : String} (hu : u ∈ hub.net.users)
    (hname : isParameter name) (hok : hub.net.userJoin (some u) name = .ok net') :
    Ready { hub with net := net' } src :=
  h.within (h.sound.userJoin hu hok) (Network.within_userJoin hname hok) fun _ hs hgone =>
    absurd (Network.registered_congr (Network.userJoin_servers hok) |>.mpr hs) hgone

/-! ## What has come -/

theorem setNick (h : hub.Ready src) {nick : String} (hfree : hub.net.getUser (some nick) = none)
    (hnick : isParameter nick) :
    Ready { hub with net := hub.net.modifyUser u fun user => { user with nick := nick } } src := by
  refine h.evolve ⟨h.sound.setNick hfree, rfl, rfl, le_rfl, rfl, rfl, fun _ _ => rfl, ?_, ?_,
    fun _ _ => rfl, fun _ _ hc => .inr ⟨hc, rfl⟩, fun _ hu => .inl hu, fun _ hs => .inl hs,
    fun hidle => hidle, .inl rfl⟩
  · intro v _
    change (hub.net.modifyUser u fun user => { user with nick := nick }).user v = _
    rw [Network.setNick_user]
  · intro v _
    change ((hub.net.modifyUser u fun user => { user with nick := nick }).user v).nick = _ ∨
      isParameter ((hub.net.modifyUser u fun user => { user with nick := nick }).user v).nick
    rw [Network.setNick_user]
    dsimp only
    split_ifs
    · exact .inr hnick
    · exact .inl rfl

/-- A server behind a link. -/
theorem withServer (h : hub.Ready src) {name : String} {token : Int} {p : Ref}
    (hname : hub.net.getServer name = none) (htoken : hub.net.getServerByToken token = none)
    (hp : hub.net.Registered p) (hparent : (hub.net.server p).parent ≠ none)
    (hparam : isParameter name) :
    Ready { hub with net := hub.net.withServer name token (some p) } src := by
  have hsound := h.sound.withServer hname htoken hp
  obtain ⟨r, hr⟩ := h.sound.tree.exists_local
  obtain ⟨hrreg, hrparent⟩ := Network.getLocalServer_eq_some hr
  have hrnext : r ≠ hub.net.next := (h.sound.servers_lt r hrreg).ne
  have hroot : (hub.net.withServer name token (some p)).getLocalServer = hub.net.getLocalServer := by
    refine hsound.getLocalServer_eq hr ((Network.registered_withServer hname).mpr (.inl hrreg)) ?_
    rw [Network.withServer_server, if_neg hrnext]
    exact hrparent
  refine h.evolve ⟨hsound, rfl, hroot, Nat.le_succ _, rfl, rfl, fun _ _ => rfl, fun _ _ => rfl,
    fun _ _ => .inl rfl, ?_, fun _ _ hc => .inr ⟨hc, rfl⟩, fun _ hu => .inl hu, ?_, ?_, .inl rfl⟩
  · intro s hs
    change (hub.net.withServer name token (some p)).server s = _
    rw [Network.withServer_server, if_neg hs.ne]
  · intro s hs
    rcases (Network.registered_withServer hname).mp hs with hold | rfl
    · exact .inl hold
    · refine .inr ⟨?_, ?_⟩
      · change isParameter ((hub.net.withServer name token (some p)).server hub.net.next).name
        rw [Network.withServer_server, if_pos rfl]
        exact hparam
      · rintro ⟨_, q, hq, hqparent⟩
        change (hub.net.withServer name token (some p)).getLocalServer = some q at hq
        change ((hub.net.withServer name token (some p)).server hub.net.next).parent = some q
          at hqparent
        rw [Network.withServer_server, if_pos rfl] at hqparent
        obtain rfl : p = q := Option.some.inj hqparent
        rw [hroot] at hq
        exact absurd (Network.getLocalServer_eq_some hq).2 hparent
  · exact fun hidle s => Network.idle_withServer hname hp hidle

/-- A server at the other end of the connection. -/
theorem link (h : hub.Ready src) {name : String} {token : Int}
    (hname : hub.net.getServer name = none) (htoken : hub.net.getServerByToken token = none)
    (hr : hub.net.getLocalServer = some r) (hparam : isParameter name)
    (hunreg : hub.Unregistered src) (hopen : ¬hub.closed src) :
    Ready (({ hub with net := hub.net.withPeer name token r src } : Hub).setStructure src
      (.server hub.net.next)) src := by
  obtain ⟨hrreg, hrparent⟩ := Network.getLocalServer_eq_some hr
  have hsound : (hub.net.withPeer name token r src).Sound :=
    (h.sound.withServer hname htoken hrreg).setServerConnection
  have hrnext : r ≠ hub.net.next := (h.sound.servers_lt r hrreg).ne
  set net' := hub.net.withPeer name token r src with hnet'
  have hreg : ∀ s, net'.Registered s ↔ hub.net.Registered s ∨ s = hub.net.next := by
    intro s
    change (hub.net.withServer name token (some r)).Registered s ↔ _
    exact Network.registered_withServer hname
  have hold : ∀ s, s ≠ hub.net.next → net'.server s = { hub.net.server s with
      children := (net'.server s).children, users := (net'.server s).users } := by
    intro s hs
    rw [hnet', Network.withPeer, Network.setServerConnection_server, if_neg hs,
      Network.withServer_server, if_neg hs]
  have hnew : (net'.server hub.net.next).name = name ∧
      (net'.server hub.net.next).parent = some r ∧
      (net'.server hub.net.next).connection = some src := by
    rw [hnet', Network.withPeer, Network.setServerConnection_server, if_pos rfl,
      Network.withServer_server, if_pos rfl]
    exact ⟨rfl, rfl, rfl⟩
  have hroot : net'.getLocalServer = hub.net.getLocalServer := by
    refine hsound.getLocalServer_eq hr ((hreg r).mpr (.inl hrreg)) ?_
    rw [hold r hrnext]
    exact hrparent
  have hstr : (Hub.setStructure { hub with net := net' } src (.server hub.net.next)).structures src =
      .server hub.net.next := Function.update_self ..
  refine h.evolve ⟨hsound, rfl, hroot, Nat.le_succ _, rfl, rfl, ?_, fun _ _ => rfl,
    fun _ _ => .inl rfl, ?_, fun _ _ hc => .inr ⟨hc, rfl⟩, fun _ hu => .inl hu, ?_, ?_,
    .inr ⟨hunreg, ?_⟩⟩
  · intro c hc
    exact Function.update_of_ne hc ..
  · intro s hs
    exact hold s hs.ne
  · intro s hs
    rcases (hreg s).mp hs with hs | rfl
    · exact .inl hs
    · have hname' : isParameter (net'.server hub.net.next).name := by rwa [hnew.1]
      exact .inr ⟨hname', fun _ => ⟨hnew.2.2, hstr, hopen⟩⟩
  · intro hidle s hs
    change ((hub.net.withPeer name token r src).server s).children = []
    rw [Network.withPeer, Network.setServerConnection_server]
    exact Network.idle_withServer hname hrreg hidle hs
  · rw [hstr]
    refine ⟨Nat.lt_succ_self _, hnew.2.2, ?_, ?_, hopen⟩
    · change isParameter (net'.server hub.net.next).name
      rwa [hnew.1]
    · change (net'.server hub.net.next).parent ≠ none
      rw [hnew.2.1]
      simp

/-- A user behind a link. -/
theorem withUser (h : hub.Ready src) (user : User) (hs : hub.net.Registered user.server)
    (hparent : (hub.net.server user.server).parent ≠ none)
    (hnick : hub.net.getUser (some user.nick) = none) (hchannels : user.channels = .empty)
    (hparams : isParameter user.nick ∧ isParameter user.ident ∧ isParameter user.host) :
    Ready { hub with net := hub.net.withUser user } src := by
  have hsound := h.sound.withUser hs hnick hchannels
  have hroot : (hub.net.withUser user).getLocalServer = hub.net.getLocalServer := by
    obtain ⟨r, hr⟩ := h.sound.tree.exists_local
    obtain ⟨hrreg, hrparent⟩ := Network.getLocalServer_eq_some hr
    refine hsound.getLocalServer_eq hr hrreg ?_
    rw [Network.withUser_server]
    exact hrparent
  refine h.evolve ⟨hsound, rfl, hroot, Nat.le_succ _, rfl, rfl, fun _ _ => rfl, ?_, ?_, ?_,
    fun _ _ hc => .inr ⟨hc, rfl⟩, ?_, fun _ hs => .inl hs, ?_, .inl rfl⟩
  · intro v hv
    change (hub.net.withUser user).user v = _
    rw [Network.withUser_user, if_neg hv.ne]
  · intro v hv
    change ((hub.net.withUser user).user v).nick = _ ∨ _
    rw [Network.withUser_user, if_neg hv.ne]
    exact .inl rfl
  · intro s _
    change (hub.net.withUser user).server s = _
    rw [Network.withUser_server]
  · intro v hv
    rcases List.mem_append.mp hv with hold | hnew
    · exact .inl hold
    · obtain rfl := List.mem_singleton.mp hnew
      have huser : (hub.net.withUser user).user hub.net.next = user := by
        rw [Network.withUser_user, if_pos rfl]
      refine .inr ⟨?_, ?_⟩
      · change isParameter ((hub.net.withUser user).user hub.net.next).nick ∧
          isParameter ((hub.net.withUser user).user hub.net.next).ident ∧
          isParameter ((hub.net.withUser user).user hub.net.next).host
        rwa [huser]
      · intro hlocal
        change (hub.net.withUser user).isLocal hub.net.next at hlocal
        rw [Network.isLocal, huser, hroot, decide_eq_true_iff] at hlocal
        exact absurd (Network.getLocalServer_eq_some hlocal.symm).2 hparent
  · intro hidle s hs
    change ((hub.net.withUser user).server s).children = []
    rw [Network.withUser_server]
    exact hidle s hs

/-- A user at the other end of the connection. -/
theorem register (h : hub.Ready src) (user : User) (hr : hub.net.getLocalServer = some user.server)
    (hnick : hub.net.getUser (some user.nick) = none) (hchannels : user.channels = .empty)
    (hparams : isParameter user.nick ∧ isParameter user.ident ∧ isParameter user.host)
    (hunreg : hub.Unregistered src) (hopen : ¬hub.closed src) :
    Ready (({ hub with net := hub.net.withLocalUser user src } : Hub).setStructure src
      (.user hub.net.next)) src := by
  obtain ⟨hrreg, hrparent⟩ := Network.getLocalServer_eq_some hr
  have hsound : (hub.net.withLocalUser user src).Sound :=
    (h.sound.withUser hrreg hnick hchannels).setUserConnection
  set net' := hub.net.withLocalUser user src with hnet'
  have hserver : ∀ s, net'.server s = { hub.net.server s with users := (net'.server s).users } := by
    intro s
    change (hub.net.withUser user).server s = _
    rw [Network.withUser_server]
    rfl
  have hold : ∀ v, v ≠ hub.net.next → net'.user v = hub.net.user v := by
    intro v hv
    simp [hnet', Network.withLocalUser, Network.modifyUser, Network.withUser, hv]
  have hnew : net'.user hub.net.next = { user with connection := some src } := by
    simp [hnet', Network.withLocalUser, Network.modifyUser, Network.withUser]
  have hroot : net'.getLocalServer = hub.net.getLocalServer := by
    refine hsound.getLocalServer_eq hr hrreg ?_
    rw [hserver]
    exact hrparent
  have hstr : (Hub.setStructure { hub with net := net' } src (.user hub.net.next)).structures src =
      .user hub.net.next := Function.update_self ..
  refine h.evolve ⟨hsound, rfl, hroot, Nat.le_succ _, rfl, rfl, ?_, ?_, ?_, ?_,
    fun _ _ hc => .inr ⟨hc, rfl⟩, ?_, fun _ hs => .inl hs, ?_, .inr ⟨hunreg, ?_⟩⟩
  · intro c hc
    exact Function.update_of_ne hc ..
  · intro v hv
    change net'.user v = { hub.net.user v with
      nick := (net'.user v).nick, channels := (net'.user v).channels }
    rw [hold v hv.ne]
  · intro v hv
    change (net'.user v).nick = _ ∨ _
    rw [hold v hv.ne]
    exact .inl rfl
  · intro s _
    change net'.server s = { hub.net.server s with
      children := (net'.server s).children, users := (net'.server s).users }
    rw [hserver s]
  · intro v hv
    rcases List.mem_append.mp hv with hv | hv
    · exact .inl hv
    · obtain rfl := List.mem_singleton.mp hv
      refine .inr ⟨?_, fun _ => ⟨?_, hstr, hopen⟩⟩
      · change isParameter (net'.user hub.net.next).nick ∧
          isParameter (net'.user hub.net.next).ident ∧ isParameter (net'.user hub.net.next).host
        rwa [hnew]
      · change (net'.user hub.net.next).connection = some src
        rw [hnew]
  · intro hidle s hs
    change (net'.server s).children = []
    rw [hserver s]
    exact hidle s hs
  · rw [hstr]
    refine ⟨Nat.lt_succ_self _, ?_, ?_, hopen⟩
    · change (net'.user hub.net.next).connection = some src
      rw [hnew]
    · change isParameter (net'.user hub.net.next).nick
      rw [hnew]
      exact hparams.1

/-! ## What happens to connections -/

theorem setUnregistered (h : hub.Ready src) (hunreg : hub.Unregistered src)
    (nick ident realName : Option String) (hnick : ∀ n, nick = some n → isNickName n)
    (hident : ∀ i, ident = some i → isParameter i) :
    (hub.setStructure src (.unregistered nick ident realName)).Ready src := by
  refine h.evolve ⟨h.sound, rfl, rfl, le_rfl, rfl, rfl, ?_, fun _ _ => rfl, fun _ _ => .inl rfl,
    fun _ _ => rfl, fun _ _ hc => .inr ⟨hc, rfl⟩, fun _ hu => .inl hu, fun _ hs => .inl hs,
    fun hidle => hidle, .inr ⟨hunreg, ?_⟩⟩
  · intro c hc
    exact Function.update_of_ne hc ..
  · have hstr : (hub.setStructure src (.unregistered nick ident realName)).structures src =
        .unregistered nick ident realName := Function.update_self ..
    rw [hstr]
    exact ⟨hnick, hident⟩

/-- A connection that is not a link is given up by the hub. -/
theorem drop (h : hub.Ready src) (hcon : ∀ s, hub.structures con ≠ .server s) :
    Ready { hub with
      structures := Function.update hub.structures con .new
      closed := Function.update hub.closed con true } src := by
  have hother : ∀ c x, (∀ nick ident realName, x ≠ .unregistered nick ident realName) →
      Function.update hub.structures con .new c = x → c ≠ con ∧ hub.structures c = x := by
    intro c x hx hc
    by_cases heq : c = con
    · subst heq
      rw [Function.update_self] at hc
      exact absurd hc.symm (hx _ _ _)
    · rw [Function.update_of_ne heq] at hc
      exact ⟨heq, hc⟩
  refine ⟨⟨h.sound, ?_⟩, h.plain, ?_, ?_, ?_, ?_, ?_, h.idle, h.hosts, ?_⟩
  · intro c s hc
    exact h.links c s (hother c _ (by simp) hc).2
  · intro u hu hlocal
    obtain ⟨c, hc, hattached⟩ := h.locals u hu hlocal
    refine ⟨c, hc, ?_⟩
    by_cases heq : c = con
    · subst heq
      exact .inr ⟨Function.update_self .., none, none, none, Function.update_self ..⟩
    · simpa [Attached, Unregistered, heq] using hattached
  · intro s hs
    obtain ⟨c, hc, hstr, hopen⟩ := h.peers s hs
    have hne : c ≠ con := by
      rintro rfl
      exact hcon s hstr
    refine ⟨c, hc, ?_, ?_⟩
    · exact (Function.update_of_ne hne ..).trans hstr
    · simpa [hne] using hopen
  · intro c u hc
    exact h.users c u (hother c _ (by simp) hc).2
  · intro c s hc
    exact h.servers c s (hother c _ (by simp) hc).2
  · intro c nick ident realName hc
    by_cases heq : c = con
    · subst heq
      have hnew : Connectable.new = .unregistered nick ident realName :=
        (Function.update_self ..).symm.trans hc
      obtain ⟨rfl, rfl, _⟩ := Connectable.unregistered.inj hnew
      simp
    · exact h.waiting c nick ident realName ((Function.update_of_ne heq ..).symm.trans hc)
  · intro hclosed
    by_cases heq : src = con
    · subst heq
      exact ⟨none, none, none, Function.update_self ..⟩
    · obtain ⟨nick, ident, realName, hstr⟩ := h.source (by simpa [heq] using hclosed)
      exact ⟨nick, ident, realName, (Function.update_of_ne heq ..).trans hstr⟩

/-- A connection on which nobody is who is on the network, is closed. -/
theorem closing (h : hub.Ready src) (con : Conn)
    (husers : ∀ u ∈ hub.net.users, hub.structures con ≠ .user u)
    (hservers : ∀ s, Peer hub.net s → hub.structures con ≠ .server s)
    (hsrc : src = con → hub.Unregistered con) :
    Ready { hub with closed := Function.update hub.closed con true } src := by
  refine ⟨⟨h.sound, h.links⟩, h.plain, ?_, ?_, h.users, h.servers, h.waiting, h.idle, h.hosts, ?_⟩
  · intro u hu hlocal
    obtain ⟨c, hc, hattached⟩ := h.locals u hu hlocal
    refine ⟨c, hc, ?_⟩
    by_cases heq : c = con
    · subst heq
      rcases hattached with ⟨hstr, _⟩ | ⟨_, hunreg⟩
      · exact absurd hstr (husers u hu)
      · exact .inr ⟨Function.update_self .., hunreg⟩
    · simpa [Attached, Unregistered, heq] using hattached
  · intro s hs
    obtain ⟨c, hc, hstr, hopen⟩ := h.peers s hs
    have hne : c ≠ con := by
      rintro rfl
      exact hservers s hs hstr
    exact ⟨c, hc, hstr, by simpa [hne] using hopen⟩
  · intro hclosed
    by_cases heq : src = con
    · exact heq ▸ hsrc heq
    · exact h.source (by simpa [heq] using hclosed)

end Hub.Ready

end MyLifeHome.Irc

