import MyLifeHome.Irc.Sending
import MyLifeHome.Irc.Addition
import MyLifeHome.Irc.Wire
import MyLifeHome.Library.TreeRouting

/-!
# What one hub of a tree does with a message

Hubs are the vertices of a tree whose edges are the links. When the hubs agree about servers,
users and channels, a hub that gets a message writes it once to each connection on the way to a
recipient, save the one on which it came.
-/
namespace MyLifeHome.Irc

open Checked TreeRouting

/-! ## Climbing to a peer -/

section Climb

variable [Locale] {net : Network} {r s : Ref} {depth : Nat}

/-- The climb ends at the child of the local server below which the server is. -/
theorem climbToPeer_eq_ok (h : net.Sound) (hr : net.getLocalServer = some r)
    (hs : net.Registered s) (hne : s ≠ r) (hdepth : s < depth) :
    ∃ p, Hub.climbToPeer net (net.server r).children depth (some s) = .ok p ∧
      p ∈ (net.server r).children ∧ Relation.ReflTransGen net.Child p s := by
  induction depth generalizing s with
  | zero => exact absurd hdepth (Nat.not_lt_zero s)
  | succ depth ih =>
    rw [Hub.climbToPeer]
    by_cases hpeer : s ∈ (net.server r).children
    · exact ⟨s, if_pos hpeer, hpeer, .refl⟩
    rw [if_neg hpeer]
    obtain ⟨hrreg, hrparent⟩ := Network.getLocalServer_eq_some hr
    cases hparent : (net.server s).parent with
    | none => exact absurd (h.tree.eq_root hr hs hparent) hne
    | some q =>
      have hqreg := h.tree.parent_registered hs hparent
      have hlt := h.older s hs q hparent
      have hqr : q ≠ r := by
        rintro rfl
        exact hpeer ((h.tree.children q hqreg s).mpr ⟨hs, hparent⟩)
      obtain ⟨p, hok, hp, hpath⟩ := ih hqreg hqr (Nat.lt_of_lt_of_le hlt (Nat.le_of_lt_succ hdepth))
      exact ⟨p, hok, hp, hpath.tail ((h.tree.children q hqreg s).mpr ⟨hs, hparent⟩)⟩

end Climb

/-! ## Hubs that agree -/

/-- Linked hubs `V` and the users `U` on them: the numbers that each hub has given to the servers
and the users, and the connections. -/
structure Topology (V U : Type) where
  graph : SimpleGraph V
  home : U → V
  server : V → V → Ref
  user : V → U → Ref
  link : V → V → Conn
  con : U → Conn

variable [Locale] {V U : Type}

/-- The hubs know the same servers, with links for parents, and the same users with their homes,
nicks and channels. Each link, and the connection of each user, is open at the hub. -/
structure Agree (T : Topology V U) (hubs : V → Hub) : Prop where
  tree : T.graph.IsTree
  sound : ∀ h, (hubs h).net.Sound
  root : ∀ h, (hubs h).net.getLocalServer = some (T.server h h)
  server_inj : ∀ h, Function.Injective (T.server h)
  servers : ∀ h s, (hubs h).net.Registered s ↔ ∃ g, T.server h g = s
  parents : ∀ h g p, ((hubs h).net.server (T.server h g)).parent = some (T.server h p) →
    T.graph.Adj p g
  links : ∀ h g, T.graph.Adj h g →
    ((hubs h).net.server (T.server h g)).connection = some (T.link h g) ∧
      (hubs h).structures (T.link h g) = .server (T.server h g) ∧ ¬(hubs h).closed (T.link h g)
  user_inj : ∀ h, Function.Injective (T.user h)
  users : ∀ h r, r ∈ (hubs h).net.users ↔ ∃ u, T.user h u = r
  homes : ∀ h u, ((hubs h).net.user (T.user h u)).server = T.server h (T.home u)
  locals : ∀ u, ((hubs (T.home u)).net.user (T.user (T.home u) u)).connection = some (T.con u) ∧
    (hubs (T.home u)).structures (T.con u) = .user (T.user (T.home u) u) ∧
      ¬(hubs (T.home u)).closed (T.con u)
  nicks : ∀ g h u, ((hubs g).net.user (T.user g u)).nick = ((hubs h).net.user (T.user h u)).nick
  nickNames : ∀ h u, isNickName ((hubs h).net.user (T.user h u)).nick ∧
    ((hubs h).net.user (T.user h u)).nick ≠ ""
  channels : ∀ g h u k, (((hubs g).net.user (T.user g u)).channels.get k).isSome =
    (((hubs h).net.user (T.user h u)).channels.get k).isSome

namespace Topology

variable (T : Topology V U)

/-- The connection on which hub `h` reaches the user. -/
def Route (h : V) (u : U) (c : Conn) : Prop :=
  T.home u = h ∧ c = T.con u ∨
    ∃ g, T.graph.Adj h g ∧ Behind T.graph h g (T.home u) ∧ c = T.link h g

def nick (hubs : V → Hub) (u : U) : String :=
  ((hubs (T.home u)).net.user (T.user (T.home u) u)).nick

/-- The user is on the channel of the key, as the user's own hub has it. -/
def On (hubs : V → Hub) (u : U) (k : String) : Prop :=
  (((hubs (T.home u)).net.user (T.user (T.home u) u)).channels.get k).isSome

/-- Whom a message of `u` to the target is for: the others on a channel that `u` is on, or another
user, by the nick ignoring case. -/
def Recipients (hubs : V → Hub) (u : U) (target : String) (ts : Set U) : Prop :=
  isChannelIdentifier target = .ok true ∧ T.On hubs u (Locale.toLowerCase target) ∧
      ts = {t | t ≠ u ∧ T.On hubs t (Locale.toLowerCase target)} ∨
    target ≠ "" ∧ isNickName target ∧ ∃ t, t ≠ u ∧ equalsIgnoreCase (T.nick hubs t) target ∧
      ts = {t}

end Topology

namespace Agree

variable {T : Topology V U} {hubs : V → Hub} {g h : V} {u v t : U} {c c' : Conn} {k : String}

theorem registered (hA : Agree T hubs) : (hubs h).net.Registered (T.server h g) :=
  (hA.servers h _).mpr ⟨g, rfl⟩

theorem mem_users (hA : Agree T hubs) : T.user h u ∈ (hubs h).net.users :=
  (hA.users h _).mpr ⟨u, rfl⟩

theorem nick_eq (hA : Agree T hubs) : ((hubs h).net.user (T.user h u)).nick = T.nick hubs u :=
  hA.nicks ..

theorem on_iff (hA : Agree T hubs) :
    T.On hubs u k ↔ (((hubs h).net.user (T.user h u)).channels.get k).isSome := by
  rw [Topology.On, hA.channels (T.home u) h]

theorem isLocal_iff (hA : Agree T hubs) : (hubs h).net.isLocal (T.user h u) ↔ T.home u = h := by
  rw [Network.isLocal, hA.root, hA.homes, decide_eq_true_iff, Option.some_inj]
  exact ⟨fun heq => hA.server_inj h heq, fun heq => by rw [heq]⟩

/-! ## The way to a user -/

theorem route_unique (hA : Agree T hubs) (hc : T.Route h u c) (hc' : T.Route h u c') : c = c' := by
  rcases hc with ⟨hu, rfl⟩ | ⟨g, hg, hgu, rfl⟩ <;> rcases hc' with ⟨hu', rfl⟩ | ⟨g', hg', hgu', rfl⟩
  · rfl
  · exact absurd hu (hgu'.ne hg'.ne.symm)
  · exact absurd hu' (hgu.ne hg.ne.symm)
  · rw [behind_unique hA.tree.isAcyclic hg hg' hgu hgu']

/-- A path down the servers of a hub does not come back to the hub. -/
theorem behind_of_descends (hA : Agree T hubs) {x : V}
    (hpath : Relation.ReflTransGen (hubs h).net.Child (T.server h g) (T.server h x)) :
    Behind T.graph h g x := by
  generalize hs : T.server h x = s at hpath
  induction hpath generalizing x with
  | refl =>
    obtain rfl := hA.server_inj h hs
    exact .refl
  | @tail a b hpath hchild ih =>
    subst hs
    have hreg := (hA.sound h).tree.registered_of_path hA.registered hpath
    obtain ⟨y, rfl⟩ := (hA.servers h a).mp hreg
    have hparent := (((hA.sound h).tree.children _ hreg _).mp hchild).2
    refine (ih rfl).tail ⟨hA.parents h x y hparent, ?_⟩
    rintro rfl
    have hroot := (Network.getLocalServer_eq_some (hA.root x)).2
    rw [hparent] at hroot
    simp at hroot

theorem getUserConnection_eq_ok (hA : Agree T hubs) (h : V) (u : U) :
    ∃ c, Hub.getUserConnection (hubs h).net (T.user h u) = .ok (some c) ∧ T.Route h u c := by
  rw [Hub.getUserConnection]
  by_cases hlocal : T.home u = h
  · subst hlocal
    rw [if_pos (hA.isLocal_iff.mpr rfl), (hA.locals u).1]
    exact ⟨_, rfl, .inl ⟨rfl, rfl⟩⟩
  · rw [if_neg fun hyes => hlocal (hA.isLocal_iff.mp hyes), hA.homes]
    have hpeers : (hubs h).net.getPeerServers =
        .ok ((hubs h).net.server (T.server h h)).children := by
      rw [Network.getPeerServers, hA.root]
    have hlt := (hA.sound h).servers_lt _ (hA.registered (g := T.home u))
    obtain ⟨p, hok, hp, hpath⟩ := climbToPeer_eq_ok (hA.sound h) (hA.root h) hA.registered
      (fun heq => hlocal (hA.server_inj h heq)) (Nat.lt_succ_of_lt hlt)
    have hpreg := (((hA.sound h).tree.children _ hA.registered p).mp hp).1
    obtain ⟨g, rfl⟩ := (hA.servers h p).mp hpreg
    have hparent := (((hA.sound h).tree.children _ hA.registered _).mp hp).2
    have hadj := hA.parents h g h hparent
    refine ⟨T.link h g, ?_, .inr ⟨g, hadj, hA.behind_of_descends hpath, rfl⟩⟩
    rw [hpeers]
    change (Hub.climbToPeer _ _ _ _ >>= _) = _
    rw [hok, ← (hA.links h g hadj).1]
    rfl

/-- Each route leads to a connection that is open. -/
theorem open_of_route (hA : Agree T hubs) (hc : T.Route h u c) : ¬(hubs h).closed c := by
  rcases hc with ⟨rfl, rfl⟩ | ⟨g, hg, _, rfl⟩
  · exact (hA.locals u).2.2
  · exact (hA.links h g hg).2.2

end Agree

/-! ## Writing to many -/

namespace Hub

variable {hub : Hub} {msg : Message} {excluded : List Conn}

omit [Locale] in
theorem sendAll_eq_ok {cons : List Conn} (hopen : ∀ c ∈ cons, ¬hub.closed c) :
    hub.sendAll (cons.map some) msg excluded = .ok { hub with
      sent := hub.sent ++ (cons.filter (· ∉ excluded)).map fun c => (c, msg) } := by
  induction cons generalizing hub with
  | nil => simp [sendAll, pure, Except.pure]
  | cons c cons ih =>
    rw [List.map_cons, sendAll, List.foldlM_cons]
    by_cases hc : c ∈ excluded
    · have hsome : some c ∈ excluded.map some := List.mem_map_of_mem hc
      rw [if_pos hsome]
      refine (ih fun d hd => hopen d (List.mem_cons_of_mem c hd)).trans ?_
      simp [hc]
    · have hsome : some c ∉ excluded.map some := by simpa using hc
      rw [if_neg hsome, sendTo, send, if_neg (hopen c List.mem_cons_self)]
      have hrest : ∀ d ∈ cons, ¬hub.closed d := fun d hd => hopen d (List.mem_cons_of_mem c hd)
      refine (@ih { hub with sent := hub.sent ++ [(c, msg)] } hrest).trans ?_
      simp [hc]

end Hub

namespace Agree

variable {T : Topology V U} {hubs : V → Hub} {g h : V} {u v t : U} {c src : Conn} {k : String}
  {msg : Message}

/-- One copy goes to each connection on the way to a recipient, save the excluded one. -/
theorem dispatchUserListMessage_eq_ok (hA : Agree T hubs) (h : V) (list : List U) (src : Conn)
    (msg : Message) :
    ∃ cs : List Conn, cs.Nodup ∧ (∀ c, c ∈ cs ↔ c ≠ src ∧ ∃ t ∈ list, T.Route h t c) ∧
      (hubs h).dispatchUserListMessage (list.map (T.user h)) msg [src] =
        .ok { hubs h with sent := (hubs h).sent ++ cs.map fun c => (c, msg) } := by
  choose route hroute hway using hA.getUserConnection_eq_ok h
  have hmap : (list.map (T.user h)).mapM (Hub.getUserConnection (hubs h).net) =
      .ok ((list.map route).map some) := by
    induction list with
    | nil => rfl
    | cons t list ih =>
      rw [List.map_cons, List.mapM_cons, hroute, ih]
      rfl
  refine ⟨(list.map route).dedup.filter (· ≠ src), (List.nodup_dedup _).filter _, ?_, ?_⟩
  · intro c
    rw [List.mem_filter, List.mem_dedup, List.mem_map, decide_eq_true_iff, and_comm]
    refine and_congr_right fun _ => ?_
    constructor
    · rintro ⟨t, ht, rfl⟩
      exact ⟨t, ht, hway t⟩
    · rintro ⟨t, ht, hc⟩
      exact ⟨t, ht, hA.route_unique (hway t) hc⟩
  · rw [Hub.dispatchUserListMessage, hmap]
    change Hub.sendAll _ ((list.map route).map some).dedup _ _ = _
    rw [List.dedup_map_of_injective (Option.some_injective _), Hub.sendAll_eq_ok]
    · simp
    · intro c hc
      obtain ⟨t, _, rfl⟩ := List.mem_map.mp (List.mem_dedup.mp hc)
      exact hA.open_of_route (hway t)

/-! ## Recipients -/

omit [Locale] in
/-- No nick starts like the name of a channel. -/
theorem isChannelIdentifier_of_isNickName {target : String} (hne : target ≠ "")
    (hnick : isNickName target) : isChannelIdentifier target = .ok false := by
  cases hchars : target.toList with
  | nil => exact absurd (String.toList_eq_nil_iff.mp hchars) hne
  | cons c cs =>
    have hc : isNickCharacter c := List.all_eq_true.mp hnick c (by rw [hchars]; simp)
    have hstart : isChannelIdentifierStart c = false := by
      by_contra hstart
      simp only [Bool.not_eq_false, isChannelIdentifierStart, Bool.or_eq_true, beq_iff_eq] at hstart
      rcases hstart with ((rfl | rfl) | rfl) | rfl <;> simp [isNickCharacter] at hc
    simp [isChannelIdentifier, hchars, hstart]

theorem getUser_nick (hA : Agree T hubs) {n : String}
    (hn : equalsIgnoreCase (T.nick hubs u) n) : (hubs h).net.getUser (some n) = some (T.user h u) := by
  cases hfound : (hubs h).net.getUser (some n) with
  | none =>
    have hnone := Network.getUser_eq_none_iff.mp hfound (T.user h u) hA.mem_users
    rw [hA.nick_eq] at hnone
    exact absurd hn hnone
  | some r =>
    obtain ⟨hr, m, hm, heq⟩ := Network.getUser_eq_some hfound
    obtain rfl := Option.some.inj hm
    have hsame : equalsIgnoreCase ((hubs h).net.user r).nick
        ((hubs h).net.user (T.user h u)).nick := by
      rw [hA.nick_eq]
      simp only [equalsIgnoreCase, beq_iff_eq] at hn heq ⊢
      exact heq.trans hn.symm
    rw [(hA.sound h).nicks.distinct r hr _ hA.mem_users hsame]

/-- What a hub takes for the recipients of a message of `u`. -/
theorem messageTargets_eq_ok (hA : Agree T hubs) {target : String} {ts : Set U}
    (hts : T.Recipients hubs u target ts) (h : V) : ∃ list : List U, (∀ t, t ∈ list ↔ t ∈ ts) ∧
      Hub.messageTargets (hubs h).net (some (T.nick hubs u)) target =
        .ok (some (list.map (T.user h))) := by
  have hself : (hubs h).net.getUser (some (T.nick hubs u)) = some (T.user h u) :=
    hA.getUser_nick (by simp [equalsIgnoreCase])
  rcases hts with ⟨hid, hon, rfl⟩ | ⟨hne, hnick, t, _, ht, rfl⟩
  · have hm := (hA.sound h).memberships
    rw [hA.on_iff (h := h), Option.isSome_iff_exists] at hon
    obtain ⟨channel, hchannel⟩ := hon
    obtain ⟨hget, _⟩ := hm.joined _ hA.mem_users _ _ hchannel
    have hname := hm.names _ _ hget
    have hmember : ∀ r, r ∈ ((hubs h).net.channel channel).users ↔
        ∃ v, T.On hubs v (Locale.toLowerCase target) ∧ T.user h v = r := by
      intro r
      constructor
      · intro hr
        obtain ⟨hru, hrk⟩ := hm.present _ _ hget r hr
        obtain ⟨v, rfl⟩ := (hA.users h r).mp hru
        exact ⟨v, hA.on_iff.mpr (by rw [hrk]; rfl), rfl⟩
      · rintro ⟨v, hv, rfl⟩
        obtain ⟨d, hd⟩ := Option.isSome_iff_exists.mp ((hA.on_iff (h := h)).mp hv)
        obtain ⟨hgetd, hin⟩ := hm.joined _ hA.mem_users _ _ hd
        obtain rfl := Option.some.inj (hgetd.symm.trans hget)
        exact hin
    have hrange : ((hubs h).net.channel channel).users.filter (· ≠ T.user h u) ∈
        Set.range (List.map (T.user h)) := by
      rw [Set.range_list_map]
      intro r hr
      obtain ⟨v, _, rfl⟩ := (hmember r).mp (List.mem_filter.mp hr).1
      exact ⟨v, rfl⟩
    obtain ⟨list, hlist⟩ := hrange
    refine ⟨list, ?_, ?_⟩
    · intro v
      have hv : v ∈ list ↔ T.user h v ∈ list.map (T.user h) :=
        (List.mem_map_of_injective (hA.user_inj h)).symm
      rw [hv, hlist, List.mem_filter, hmember, decide_eq_true_iff]
      constructor
      · rintro ⟨⟨w, hw, heq⟩, hvu⟩
        obtain rfl := hA.user_inj h heq
        exact ⟨fun hwu => hvu (by rw [hwu]), hw⟩
      · rintro ⟨hvu, hv⟩
        exact ⟨⟨v, hv, rfl⟩, fun heq => hvu (hA.user_inj h heq)⟩
    · have hison : (hubs h).net.isOn (T.user h u) channel := by
        rw [Network.isOn, ← hname, hchannel]
        rfl
      rw [hlist, Hub.messageTargets, hid]
      simp only [bind, Except.bind, if_true, Network.getChannel, hget]
      rw [hself]
      dsimp only
      rw [if_pos hison]
      rfl
  · have hid := isChannelIdentifier_of_isNickName hne hnick
    refine ⟨[t], by simp, ?_⟩
    rw [Hub.messageTargets, hid]
    change (if isNickName target then _ else _) = _
    rw [if_pos hnick, hA.getUser_nick ht]
    rfl

/-! ## The rule of one hub -/

/-- A hub that gets a message of `u`, from `u` or on a link, sends one copy to each connection on
the way to a recipient, save the one on which it came. -/
theorem routeMessage_eq_ok (hA : Agree T hubs) {target text : String} {rest : List String}
    {ts : Set U} (hts : T.Recipients hubs u target ts) (h : V)
    (hsender : (hubs h).senderOf src msg = some (T.nick hubs u))
    (hsrc : ∀ nick ident realName, (hubs h).structures src ≠ .unregistered nick ident realName)
    (hparams : msg.params = target :: text :: rest) (hmsg : msg.WellFormed) :
    ∃ cs : List Conn, cs.Nodup ∧ (∀ c, c ∈ cs ↔ c ≠ src ∧ ∃ t ∈ ts, T.Route h t c) ∧
      (hubs h).routeMessage src msg = .ok { hubs h with sent := (hubs h).sent ++ cs.map fun c =>
        (c, ⟨some (T.nick hubs u), msg.command, [target, text], true⟩) } := by
  obtain ⟨list, hlist, htargets⟩ := hA.messageTargets_eq_ok hts h
  obtain ⟨cs, hnodup, hcs, hdispatch⟩ := hA.dispatchUserListMessage_eq_ok h list src
    ⟨some (T.nick hubs u), msg.command, [target, text], true⟩
  refine ⟨cs, hnodup, ?_, ?_⟩
  · intro c
    rw [hcs]
    simp only [hlist]
  · have hparam : isParameter target := hmsg.params target (by simp [hparams])
    have hforward : Hub.forwardedMessage (some (T.nick hubs u)) msg.command target text =
        .ok ⟨some (T.nick hubs u), msg.command, [target, text], true⟩ := by
      simp [Hub.forwardedMessage, Message.create, hmsg.identifier, Message.appendParameter,
        Message.make, hparam, Message.appendLastParameter, bind, Except.bind, pure, Except.pure]
    rw [Hub.routeMessage, hparams]
    split
    · rename_i hunreg
      exact absurd hunreg (hsrc _ _ _)
    · rename_i htarget _
      obtain ⟨rfl, hrest⟩ := List.cons.inj htarget
      obtain ⟨rfl, rfl⟩ := List.cons.inj hrest
      rw [hsender, htargets]
      change (Hub.forwardedMessage _ _ _ _ >>= _) = _
      rw [hforward]
      exact hdispatch
    · rename_i hno
      exact absurd rfl (hno target text rest)

end Agree

end MyLifeHome.Irc

