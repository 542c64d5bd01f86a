import MyLifeHome.Irc.Ready
import MyLifeHome.Irc.Routing

/-!
# Messages that can be written

A hub that is ready makes its messages and writes them without an exception: the names are
parameters, the connections are open, and the recursions end because a server is made after its
parent.
-/
namespace MyLifeHome.Irc

open Checked

variable [Locale]

/-! ## Making messages -/

section

omit [Locale]

theorem foldlM_appendParameter {ps : List String} (msg : Message) (hlast : msg.hasLast = false)
    (hps : ∀ p ∈ ps, isParameter p) :
    ps.foldlM Message.appendParameter msg = .ok { msg with params := msg.params ++ ps } := by
  induction ps generalizing msg with
  | nil => simp [pure, Except.pure]
  | cons p ps ih =>
    have happend : msg.appendParameter p = .ok { msg with params := msg.params ++ [p] } := by
      simp [Message.appendParameter, hlast, hps p List.mem_cons_self]
    have hrest := @ih { msg with params := msg.params ++ [p] } hlast fun q hq =>
      hps q (List.mem_cons_of_mem p hq)
    rw [List.foldlM_cons, happend]
    refine hrest.trans ?_
    simp

theorem succeeds_appendText {msg : Message} (hlast : msg.hasLast = false) (text : Option String) :
    Succeeds (msg.appendText text) := by
  cases text with
  | none => exact succeeds_ok
  | some text =>
    rw [Message.appendText, Message.appendLastParameter, hlast]
    exact succeeds_ok

end

/-! ## Recursions that end -/

section Depth

variable {next depth s c : Nat}

section

omit [Locale]

/-- A server that is made later needs less depth. -/
theorem depth_child (h : next < depth + 1 + s) (hlt : s < c) : next < depth + c := by omega

theorem not_depth_zero (h : next < 0 + s) : ¬s < next := by omega

theorem depth_root : next < next + 1 + s := by omega

end

end Depth

namespace Network

variable {net : Network} {u v s r : Ref} {depth : Nat}

/-- Below a server there are finitely many, and their users are on the network. -/
theorem Sound.usersBehind_eq_ok (h : net.Sound) (hs : net.Registered s)
    (hdepth : net.next < depth + s) :
    ∃ list, net.usersBehind depth s = .ok list ∧ ∀ u ∈ list, u ∈ net.users := by
  induction depth generalizing s with
  | zero =>
    exact absurd (h.servers_lt s hs) (not_depth_zero hdepth)
  | succ depth ih =>
    have hown : ∀ u ∈ (net.server s).users, u ∈ net.users := fun u hu =>
      ((h.homes.listed s hs u).mp hu).1
    have hchildren : ∀ c ∈ (net.server s).children,
        ∃ list, net.usersBehind depth c = .ok list ∧ ∀ u ∈ list, u ∈ net.users := by
      intro c hc
      obtain ⟨hreg, hparent⟩ := (h.tree.children s hs c).mp hc
      exact ih hreg (depth_child hdepth (h.older c hreg s hparent))
    rw [usersBehind]
    refine (exists_foldlM (I := fun children users =>
      (∀ c ∈ children, c ∈ (net.server s).children) ∧ ∀ u ∈ users, u ∈ net.users) ?_
      ⟨fun c hc => hc, hown⟩).imp fun list hlist => ⟨hlist.1, hlist.2.2⟩
    rintro c cs users ⟨hcs, husers⟩
    obtain ⟨list, hlist, hmem⟩ := hchildren c (hcs c List.mem_cons_self)
    refine ⟨users ++ list, bind_eq_ok_iff.mpr ⟨list, hlist, rfl⟩,
      fun d hd => hcs d (List.mem_cons_of_mem c hd), ?_⟩
    intro u hu
    rcases List.mem_append.mp hu with hu | hu
    · exact husers u hu
    · exact hmem u hu

theorem Sound.getUsersBehindServer_eq_ok (h : net.Sound) (hs : net.Registered s) :
    ∃ list, net.getUsersBehindServer s = .ok list ∧ ∀ u ∈ list, u ∈ net.users :=
  h.usersBehind_eq_ok hs depth_root

/-- A user of the local server is local. -/
theorem Sound.isLocal_of_mem (h : net.Sound) (hr : net.getLocalServer = some r)
    (hu : u ∈ (net.server r).users) : u ∈ net.users ∧ net.isLocal u := by
  obtain ⟨hmem, hhome⟩ := (h.homes.listed r (getLocalServer_eq_some hr).1 u).mp hu
  refine ⟨hmem, ?_⟩
  rw [isLocal, hhome, hr]
  simp

end Network

namespace Hub

variable {hub hub' : Hub} {c d src con dest : Conn} {u v s t r : Ref} {msg : Message}
  {excluded : List Conn}

/-! ## Writing to connections -/

section

omit [Locale]

theorem Writable.wrote (h : hub.Writable c) (hw : Wrote hub hub') : hub'.Writable c := by
  rwa [Writable, Unregistered, hw.closed, hw.structures]

theorem succeeds_send (h : hub.Writable c) : Succeeds (hub.send c msg) := by
  unfold send
  split_ifs with hclosed
  · obtain ⟨nick, ident, realName, hunreg⟩ := h hclosed
    rw [hunreg]
    exact succeeds_ok
  · exact succeeds_ok

end

/-- A connection that is there and can be written to. -/
def Reaches (hub : Hub) (con : Option Conn) : Prop := ∃ c, con = some c ∧ hub.Writable c

section

omit [Locale]

theorem Reaches.wrote {con : Option Conn} (h : hub.Reaches con) (hw : Wrote hub hub') :
    hub'.Reaches con := by
  obtain ⟨c, hc, hwritable⟩ := h
  exact ⟨c, hc, hwritable.wrote hw⟩

theorem succeeds_sendTo {con : Option Conn} (h : hub.Reaches con) : Succeeds (hub.sendTo con msg) := by
  obtain ⟨c, rfl, hc⟩ := h
  exact succeeds_send hc

theorem succeeds_sendAll {cons : List (Option Conn)}
    (h : ∀ con ∈ cons, con ∉ excluded.map some → hub.Reaches con) :
    Succeeds (hub.sendAll cons msg excluded) := by
  refine succeeds_foldlM (I := Wrote hub) ?_ ?_ .refl
  · intro hub₁ con hcon hw
    split_ifs with hex
    · exact succeeds_pure
    · exact succeeds_sendTo ((h con hcon hex).wrote hw)
  · intro hub₁ con hub₂ _ hw hf
    split_ifs at hf
    · obtain rfl := Except.ok.inj hf
      exact hw
    · exact hw.trans (wrote_sendTo hf)

theorem succeeds_dispatchServerMessage (hr : hub.net.getLocalServer = some r)
    (hpeers : ∀ s ∈ (hub.net.server r).children,
      (hub.net.server s).connection ∉ excluded.map some → hub.Reaches (hub.net.server s).connection) :
    Succeeds (hub.dispatchServerMessage msg excluded) := by
  have hcons : hub.peerConnections =
      .ok ((hub.net.server r).children.map fun peer => (hub.net.server peer).connection) := by
    rw [peerConnections, Network.getPeerServers, hr]
    rfl
  refine Succeeds.bind ⟨_, hcons⟩ ?_
  intro cons hok
  obtain rfl := Except.ok.inj (hcons.symm.trans hok)
  refine succeeds_sendAll ?_
  intro con hcon hex
  obtain ⟨s, hs, rfl⟩ := List.mem_map.mp hcon
  exact hpeers s hs hex

theorem succeeds_dispatchUserMessage (hr : hub.net.getLocalServer = some r)
    (hpeers : ∀ s ∈ (hub.net.server r).children,
      (hub.net.server s).connection ∉ excluded.map some → hub.Reaches (hub.net.server s).connection)
    (hlocals : ∀ v ∈ (hub.net.server r).users, v ≠ u → hub.Reaches (hub.net.user v).connection) :
    Succeeds (hub.dispatchUserMessage u msg excluded) := by
  refine (succeeds_dispatchServerMessage hr hpeers).bind ?_
  intro hub₁ h₁
  have hw := wrote_dispatchServerMessage h₁
  have himpacted : hub₁.net.getLocalImpactedUsers u = .ok ((hub.net.server r).users.filter fun item =>
      item ≠ u && hub.net.hasCommonChannel u item) := by
    rw [hw.net, Network.getLocalImpactedUsers, hr]
  refine Succeeds.bind ⟨_, himpacted⟩ ?_
  intro impacted hok
  obtain rfl := Except.ok.inj (himpacted.symm.trans hok)
  refine succeeds_sendAll ?_
  intro con hcon _
  obtain ⟨v, hv, rfl⟩ := List.mem_map.mp hcon
  obtain ⟨hv, hne⟩ := List.mem_filter.mp hv
  rw [hw.net]
  exact (hlocals v hv (by simpa using (Bool.and_eq_true_iff.mp hne).1)).wrote hw

end

/-! ## Replies -/

section

omit [Locale]

/-- The parameters, and the text if the bundle has one. -/
theorem createMessage_eq (hr : hub.net.getLocalServer = some r) (num : Numerics)
    (user : Option Ref) (parameters : List String)
    (huser : ∀ u, user = some u → isParameter (hub.net.user u).nick)
    (hparams : ∀ p ∈ parameters, isParameter p) :
    hub.createMessage num user parameters = Message.appendText
      { Message.make (some (hub.net.server r).name) num.digits with
        params := (user.map fun user => (hub.net.user user).nick).toList ++ parameters }
      (getResourceString num.name) := by
  have hall : ∀ p ∈ (user.map fun user => (hub.net.user user).nick).toList ++ parameters,
      isParameter p := by
    intro p hp
    rcases List.mem_append.mp hp with hp | hp
    · obtain ⟨u, hu, rfl⟩ := Option.map_eq_some_iff.mp (Option.mem_toList.mp hp)
      exact huser u hu
    · exact hparams p hp
  rw [createMessage, hr]
  have hfold := foldlM_appendParameter (Message.make (some (hub.net.server r).name) num.digits) rfl
    hall
  dsimp only
  rw [hfold]
  rfl

theorem succeeds_reply {con : Option Conn} {num : Numerics} {parameters : List String}
    {last : Option String} (hr : hub.net.getLocalServer = some r) (hcon : hub.Reaches con)
    (hnick : isParameter (hub.net.user u).nick) (hparams : ∀ p ∈ parameters, isParameter p)
    (htext : getResourceString num.name = none ∨ last = none) :
    Succeeds (hub.reply con num u parameters last) := by
  have hcreate := createMessage_eq hr num (some u) parameters
    (fun v hv => Option.some.inj hv ▸ hnick) hparams
  refine Succeeds.bind ?_ ?_
  · rw [hcreate]
    exact succeeds_appendText rfl _
  · intro msg hmsg
    refine Succeeds.bind ?_ fun _ _ => succeeds_sendTo hcon
    rcases htext with hnone | rfl
    · rw [hcreate, hnone] at hmsg
      obtain rfl := Except.ok.inj hmsg
      exact succeeds_appendText rfl _
    · exact succeeds_ok

end

namespace Ready

variable {hub : Hub} {src : Conn}

theorem exists_local (h : hub.Ready src) : ∃ r, hub.net.getLocalServer = some r :=
  h.sound.tree.exists_local

theorem reaches_local (h : hub.Ready src) (hu : u ∈ hub.net.users) (hlocal : hub.net.isLocal u) :
    hub.Reaches (hub.net.user u).connection := by
  obtain ⟨c, hc, hattached⟩ := h.locals u hu hlocal
  exact ⟨c, hc, hattached.writable⟩

theorem reaches_peer (h : hub.Ready src) (hr : hub.net.getLocalServer = some r)
    (hs : s ∈ (hub.net.server r).children) : hub.Reaches (hub.net.server s).connection := by
  obtain ⟨hreg, hparent⟩ := (h.sound.tree.children r (Network.getLocalServer_eq_some hr).1 s).mp hs
  obtain ⟨c, hc, _, hopen⟩ := h.peers s ⟨hreg, r, hr, hparent⟩
  exact ⟨c, hc, fun hclosed => absurd hclosed hopen⟩

theorem succeeds_dispatchServerMessage (h : hub.Ready src) :
    Succeeds (hub.dispatchServerMessage msg excluded) := by
  obtain ⟨r, hr⟩ := h.exists_local
  exact Hub.succeeds_dispatchServerMessage hr fun s hs _ => h.reaches_peer hr hs

theorem succeeds_dispatchUserMessage (h : hub.Ready src) :
    Succeeds (hub.dispatchUserMessage u msg excluded) := by
  obtain ⟨r, hr⟩ := h.exists_local
  refine Hub.succeeds_dispatchUserMessage hr (fun s hs _ => h.reaches_peer hr hs) ?_
  intro v hv _
  obtain ⟨hmem, hlocal⟩ := h.sound.isLocal_of_mem hr hv
  exact h.reaches_local hmem hlocal

/-- An error can be told to everyone, and to a server it is logged. -/
theorem succeeds_replyError (h : hub.Ready src) {num : Numerics}
    (htext : (getResourceString num.name).isSome) : Succeeds (hub.replyError src num) := by
  obtain ⟨r, hr⟩ := h.exists_local
  obtain ⟨text, htext⟩ := Option.isSome_iff_exists.mp htext
  have hnick : ∀ u, hub.userOf src = some u → isParameter (hub.net.user u).nick := by
    intro u hu
    unfold userOf at hu
    split at hu
    · rename_i v hv
      obtain rfl := Option.some.inj hu
      exact (h.users src v hv).2.2
    · simp at hu
  have hcreate := createMessage_eq hr num (hub.userOf src) [] hnick (by simp)
  rw [htext, Message.appendText, Message.appendLastParameter] at hcreate
  refine Succeeds.bind ⟨_, hcreate⟩ ?_
  intro m hm
  split
  · obtain rfl := Except.ok.inj (hcreate.symm.trans hm)
    refine Succeeds.bind ?_ fun _ _ => succeeds_pure
    simp [Message.toStringOk, Succeeds]
  · exact succeeds_send h.source

/-! ## Users and channels -/

theorem getUserConnection_eq_ok (h : hub.Ready src) (hu : u ∈ hub.net.users) :
    ∃ con, getUserConnection hub.net u = .ok con ∧ hub.Reaches con := by
  unfold getUserConnection
  by_cases hlocal : hub.net.isLocal u
  · rw [if_pos hlocal]
    exact ⟨_, rfl, h.reaches_local hu hlocal⟩
  rw [if_neg hlocal]
  obtain ⟨r, hr⟩ := h.exists_local
  have hne : (hub.net.user u).server ≠ r := by
    intro heq
    rw [Network.isLocal, heq, hr] at hlocal
    simp at hlocal
  have hreg := h.sound.homes.registered u hu
  obtain ⟨p, hclimb, hp, _⟩ := climbToPeer_eq_ok h.sound hr hreg hne
    ((h.sound.servers_lt _ hreg).trans (Nat.lt_succ_self _))
  have hpeers : hub.net.getPeerServers = .ok (hub.net.server r).children := by
    rw [Network.getPeerServers, hr]
  rw [hpeers]
  refine ⟨(hub.net.server p).connection, ?_, h.reaches_peer hr hp⟩
  exact bind_eq_ok_iff.mpr ⟨_, rfl, bind_eq_ok_iff.mpr ⟨p, hclimb, rfl⟩⟩

theorem succeeds_dispatchUserListMessage (h : hub.Ready src) {list : List Ref}
    (hlist : ∀ u ∈ list, u ∈ hub.net.users) :
    Succeeds (hub.dispatchUserListMessage list msg excluded) := by
  have hcons : ∃ cons, list.mapM (getUserConnection hub.net) = .ok cons ∧
      ∀ con ∈ cons, hub.Reaches con := by
    induction list with
    | nil => exact ⟨[], rfl, by simp⟩
    | cons u list ih =>
      obtain ⟨con, hcon, hreach⟩ := h.getUserConnection_eq_ok (hlist u List.mem_cons_self)
      obtain ⟨cons, hcons, hall⟩ := ih fun v hv => hlist v (List.mem_cons_of_mem u hv)
      refine ⟨con :: cons, ?_, List.forall_mem_cons.mpr ⟨hreach, hall⟩⟩
      rw [List.mapM_cons, hcon, hcons]
      rfl
  obtain ⟨cons, hcons, hall⟩ := hcons
  refine Succeeds.bind ⟨_, hcons⟩ ?_
  intro cons' hok
  obtain rfl := Except.ok.inj (hcons.symm.trans hok)
  exact succeeds_sendAll fun con hcon _ => hall con (List.mem_dedup.mp hcon)

theorem succeeds_createNewNickMessage (h : hub.Ready src) (hu : u ∈ hub.net.users)
    (hopcount : Int) : Succeeds (hub.createNewNickMessage u hopcount) := by
  obtain ⟨hnick, hident, hhost⟩ := h.plain.users u hu
  have hplus : isParameter "+" := by decide
  have hhops : isParameter hopcount.repr := isParameter_toString hopcount
  have htoken : isParameter (hub.net.server (hub.net.user u).server).token.repr :=
    isParameter_toString _
  simp [createNewNickMessage, Message.make, Message.appendParameter, Message.appendLastParameter,
    hnick, hident, hhost, hhops, htoken, hplus, Succeeds, bind, Except.bind]

theorem succeeds_dispatchNewUser (h : hub.Ready src) (hu : u ∈ hub.net.users) {hopcount : Int} :
    Succeeds (hub.dispatchNewUser u hopcount excluded) :=
  (h.succeeds_createNewNickMessage hu hopcount).bind fun _ _ => h.succeeds_dispatchServerMessage

/-- Replies to a user, one after another. -/
theorem succeeds_userWelcome (h : hub.Ready src) (hu : u ∈ hub.net.users)
    (hlocal : hub.net.isLocal u) : Succeeds (hub.userWelcome u) := by
  have hone : ∀ {hub' : Hub} {num : Numerics} {parameters : List String} {last : Option String},
      Wrote hub hub' → (∀ p ∈ parameters, isParameter p) → getResourceString num.name = none →
      Succeeds (hub'.reply (hub.net.user u).connection num u parameters last) := by
    intro hub' num parameters last hw hparams htext
    have h' := h.wrote hw
    obtain ⟨r, hr⟩ := h'.exists_local
    have hnick := (h.plain.users u hu).1
    rw [← hw.net] at hnick
    exact succeeds_reply hr ((h.reaches_local hu hlocal).wrote hw) hnick hparams (.inl htext)
  have hnetwork : isParameter ("NETWORK=" ++ hub.net.name) := by
    refine isParameter_iff.mpr ⟨?_, ?_, ?_⟩
    · intro hnil
      simpa using congrArg String.toList hnil
    · simp [String.toList_append]
    · rw [String.toList_append, List.mem_append, not_or]
      exact ⟨by decide, h.plain.name⟩
  refine (hone .refl (by simp) (by decide)).bind fun hub₁ h₁ => ?_
  have hw₁ := wrote_reply h₁
  refine (hone hw₁ (by simp) (by decide)).bind fun hub₂ h₂ => ?_
  have hw₂ := hw₁.trans (wrote_reply h₂)
  refine (hone hw₂ (by simp) (by decide)).bind fun hub₃ h₃ => ?_
  have hw₃ := hw₂.trans (wrote_reply h₃)
  refine (hone hw₃ (by simp) (by decide)).bind fun hub₄ h₄ => ?_
  have hw₄ := hw₃.trans (wrote_reply h₄)
  refine hone hw₄ ?_ (by decide)
  rw [hw₄.net]
  simp only [List.forall_mem_cons]
  exact ⟨by decide, by decide, hnetwork, by simp⟩

theorem succeeds_sendNames (h : hub.Ready src) (hu : u ∈ hub.net.users) (hlocal : hub.net.isLocal u)
    (hc : isParameter (hub.net.channel c).name) : Succeeds (hub.sendNames u c) := by
  obtain ⟨r, hr⟩ := h.exists_local
  have hnick := (h.plain.users u hu).1
  have hreach := h.reaches_local hu hlocal
  refine (succeeds_reply hr hreach hnick ?_ (.inl (by decide))).bind fun hub₁ h₁ => ?_
  · exact List.forall_mem_cons.mpr ⟨by decide, by simpa using hc⟩
  · have hw := wrote_reply h₁
    rw [← hw.net] at hr hnick
    refine succeeds_reply hr (hreach.wrote hw) hnick ?_ (.inr rfl)
    simpa using hc

theorem succeeds_welcome (h : hub.Ready src) (hu : u ∈ hub.net.users)
    (hc : isParameter (hub.net.channel c).name) : Succeeds (hub.welcome src u c) := by
  unfold welcome
  split_ifs with hlocal
  · have hjoin : ∃ m, (Message.make (some (hub.net.user u).nick) "JOIN").appendParameter
        (hub.net.channel c).name = .ok m := by
      simp [Message.make, Message.appendParameter, hc]
    refine Succeeds.bind hjoin fun m _ => (succeeds_send h.source).bind fun hub₁ h₁ => ?_
    have hw₁ := wrote_send h₁
    have h₁ := h.wrote hw₁
    obtain ⟨r, hr⟩ := h₁.exists_local
    have hnick := (h.plain.users u hu).1
    rw [← hw₁.net] at hnick hc hu hlocal
    refine (succeeds_reply hr ⟨src, rfl, h₁.source⟩ hnick (by simp) (.inr rfl)).bind fun hub₂ h₂ => ?_
    have hw₂ := wrote_reply h₂
    rw [← hw₂.net] at hc hu hlocal
    exact (h₁.wrote hw₂).succeeds_sendNames hu hlocal hc
  · exact succeeds_ok

/-! ## Messages of users -/

theorem succeeds_routeMessage (h : hub.Ready src) (hmsg : msg.WellFormed)
    (hsource : hub.checkRegistered src → ∀ target text rest, msg.params = target :: text :: rest →
      isChannelIdentifier target = .ok true → (hub.net.getChannel target).isSome →
      (hub.net.getUser (hub.senderOf src msg)).isSome) : Succeeds (hub.routeMessage src msg) := by
  unfold routeMessage
  split
  · exact succeeds_ok
  · rename_i target text rest hparams hunreg
    have hregistered : hub.checkRegistered src := by
      unfold checkRegistered
      split
      · rename_i hstr
        exact absurd hstr (hunreg _ _ _)
      · rfl
    have htarget : isParameter target := hmsg.params target (by simp [hparams])
    obtain ⟨c, cs, hchars⟩ : ∃ c cs, target.toList = c :: cs :=
      List.exists_cons_of_ne_nil fun hnil =>
        (isParameter_iff.mp htarget).1 (String.toList_eq_nil_iff.mp hnil)
    have htargets : ∃ targets, messageTargets hub.net (hub.senderOf src msg) target = .ok targets ∧
        ∀ list, targets = some list → ∀ u ∈ list, u ∈ hub.net.users := by
      unfold messageTargets
      cases hid : isChannelIdentifier target with
      | error e => simp [isChannelIdentifier, hchars] at hid
      | ok is =>
        cases is with
        | true =>
          cases hget : hub.net.getChannel target with
          | none => exact ⟨none, rfl, by simp⟩
          | some channel =>
            have hsome := hsource hregistered target text rest hparams hid (by rw [hget]; rfl)
            obtain ⟨source, hsource⟩ := Option.isSome_iff_exists.mp hsome
            have hmembers := h.sound.memberships.present _ channel hget
            by_cases hon : hub.net.isOn source channel
            · refine ⟨some ((hub.net.channel channel).users.filter (· ≠ source)), ?_, ?_⟩
              · simp [bind, Except.bind, hsource, hon, pure, Except.pure]
              · intro list hlist u hu
                obtain rfl := Option.some.inj hlist
                exact (hmembers u (List.mem_filter.mp hu).1).1
            · exact ⟨none, by simp [bind, Except.bind, hsource, hon, pure, Except.pure], by simp⟩
        | false =>
          by_cases hnick : isNickName target
          · refine ⟨(hub.net.getUser (some target)).map fun userTarget => [userTarget], ?_, ?_⟩
            · simp [bind, Except.bind, hnick, pure, Except.pure]
            · intro list hlist u hu
              obtain ⟨v, hv, rfl⟩ := Option.map_eq_some_iff.mp hlist
              obtain rfl := List.mem_singleton.mp hu
              exact (Network.getUser_eq_some hv).1
          · exact ⟨none, by simp [bind, Except.bind, hnick, pure, Except.pure], by simp⟩
    obtain ⟨targets, hok, hmem⟩ := htargets
    refine Succeeds.bind ⟨_, hok⟩ fun targets' hok' => ?_
    obtain rfl := Except.ok.inj (hok.symm.trans hok')
    cases targets with
    | none => exact succeeds_pure
    | some list =>
      refine Succeeds.bind ?_ fun fw _ => h.succeeds_dispatchUserListMessage (hmem list rfl)
      simp [forwardedMessage, Message.create, hmsg.identifier, Message.appendParameter, Message.make,
        htarget, Message.appendLastParameter, bind, Except.bind, pure, Except.pure, Succeeds]
  · exact succeeds_ok

/-! ## Links -/

theorem succeeds_serverMessage (h : hub.Ready src) (hs : hub.net.Registered s)
    (sender : Option String) : Succeeds (hub.serverMessage sender s) := by
  have hname := h.plain.servers s hs
  have hzero : isParameter "0" := by decide
  have htoken : isParameter (hub.net.server s).token.repr := isParameter_toString _
  simp [serverMessage, Message.make, Message.appendParameter, Message.appendLastParameter, hname,
    hzero, htoken, Succeeds, bind, Except.bind]

theorem succeeds_sendServer {depth : Nat} {excluded : Option Ref} {current children : Bool}
    (h : hub.Ready src) (hdest : hub.Writable dest) (hs : hub.net.Registered s)
    (hdepth : hub.net.next < depth + s) :
    Succeeds (sendServer dest excluded depth hub s current children) := by
  induction depth generalizing hub s current children with
  | zero => exact absurd (h.sound.servers_lt s hs) (not_depth_zero hdepth)
  | succ depth ih =>
    by_cases hex : some s = excluded
    · rw [sendServer, if_pos hex]
      exact succeeds_ok
    rw [sendServer, if_neg hex]
    have hcurrent : ∀ sender, Succeeds (if current then hub.serverMessage sender s >>= hub.send dest
        else pure hub) := by
      intro sender
      split_ifs
      · exact (h.succeeds_serverMessage hs sender).bind fun _ _ => succeeds_send hdest
      · exact succeeds_pure
    refine (hcurrent _).bind fun hub₁ h₁ => ?_
    have hw : Wrote hub hub₁ := by
      split_ifs at h₁
      · obtain ⟨m, _, h₁⟩ := bind_eq_ok_iff.mp h₁
        exact wrote_send h₁
      · obtain rfl := Except.ok.inj h₁
        exact .refl
    split_ifs
    · refine succeeds_foldlM (I := Wrote hub) ?_ (fun _ hw hf => hw.trans (wrote_sendServer hf)) hw
      intro hub₂ c hc hw₂
      rw [hw.net] at hc
      obtain ⟨hreg, hparent⟩ := (h.sound.tree.children s hs c).mp hc
      have hlt := h.sound.older c hreg s hparent
      rw [← hw₂.net] at hreg hdepth
      exact ih (h.wrote hw₂) (hdest.wrote hw₂) hreg (depth_child hdepth hlt)
    · exact succeeds_pure

theorem succeeds_sendSelf (h : hub.Ready src) (hdest : hub.Writable dest) :
    Succeeds (hub.sendSelf dest) := by
  obtain ⟨r, hr⟩ := h.exists_local
  rw [sendSelf, hr]
  exact h.succeeds_sendServer hdest (Network.getLocalServer_eq_some hr).1 depth_root

omit [Locale] in
theorem succeeds_sendJoins (hdest : hub.Writable dest) : Succeeds (hub.sendJoins dest u) := by
  unfold sendJoins
  dsimp only
  split_ifs
  · exact succeeds_pure
  · exact Succeeds.bind (succeeds_appendText rfl (some _)) fun _ _ => succeeds_send hdest

theorem succeeds_sendNetSync (h : hub.Ready src) (hdest : hub.Writable dest) {publishSelf : Bool} :
    Succeeds (hub.sendNetSync dest publishSelf) := by
  obtain ⟨r, hr⟩ := h.exists_local
  have hrreg := (Network.getLocalServer_eq_some hr).1
  unfold sendNetSync
  dsimp only
  rw [hr]
  refine (h.succeeds_sendServer hdest hrreg depth_root).bind fun hub₁ h₁ => ?_
  have hw₁ := wrote_sendServer h₁
  have hown : ∀ u ∈ (hub.net.server r).users, u ∈ hub.net.users := fun u hu =>
    (h.sound.isLocal_of_mem hr hu).1
  generalize hpeers : (hub.net.server r).children.filter _ = peers
  have hreg : ∀ s ∈ peers, hub.net.Registered s := by
    intro s hs
    rw [← hpeers] at hs
    exact ((h.sound.tree.children r hrreg s).mp (List.mem_filter.mp hs).1).1
  have husers : ∃ users, peers.foldlM
      (fun users peer => do
        let more ← hub.net.getUsersBehindServer peer
        pure (users ++ more)) (hub.net.server r).users = .ok users ∧ ∀ u ∈ users, u ∈ hub.net.users := by
    refine (exists_foldlM (I := fun peers users =>
      (∀ s ∈ peers, hub.net.Registered s) ∧ ∀ u ∈ users, u ∈ hub.net.users) ?_ ⟨hreg, hown⟩).imp
        fun users husers => ⟨husers.1, husers.2.2⟩
    rintro s peers users ⟨hpeers, husers⟩
    obtain ⟨more, hmore, hmem⟩ := h.sound.getUsersBehindServer_eq_ok (hpeers s List.mem_cons_self)
    refine ⟨users ++ more, bind_eq_ok_iff.mpr ⟨more, hmore, rfl⟩,
      fun t ht => hpeers t (List.mem_cons_of_mem s ht), ?_⟩
    intro u hu
    rcases List.mem_append.mp hu with hu | hu
    · exact husers u hu
    · exact hmem u hu
  obtain ⟨users, hok, hmem⟩ := husers
  refine Succeeds.bind ⟨_, hok⟩ fun users' hok' => ?_
  obtain rfl := Except.ok.inj (hok.symm.trans hok')
  have hnicks : Succeeds (users.foldlM
      (fun hub user => do hub.send dest (← hub.createNewNickMessage user 1)) hub₁) := by
    refine succeeds_foldlM (I := Wrote hub) ?_ ?_ hw₁
    · intro hub₂ u hu hw
      have hu := hmem u hu
      rw [← hw.net] at hu
      exact ((h.wrote hw).succeeds_createNewNickMessage hu 1).bind fun _ _ =>
        succeeds_send (hdest.wrote hw)
    · intro hub₂ u hub₃ _ hw hf
      obtain ⟨m, _, hf⟩ := bind_eq_ok_iff.mp hf
      exact hw.trans (wrote_send hf)
  refine hnicks.bind fun hub₂ h₂ => ?_
  have hw₂ : Wrote hub hub₂ := by
    refine hw₁.trans (wrote_foldlM ?_ h₂)
    intro hub user hub' h
    obtain ⟨m, _, h⟩ := bind_eq_ok_iff.mp h
    exact wrote_send h
  exact succeeds_foldlM (I := Wrote hub) (fun _ hw => succeeds_sendJoins (hdest.wrote hw))
    (fun _ hw hf => hw.trans (wrote_sendJoins hf)) hw₂

theorem succeeds_publishServer (h : hub.Ready src) (hs : hub.net.Registered s)
    (hparent : (hub.net.server s).parent ≠ none) : Succeeds (hub.publishServer s excluded) := by
  unfold publishServer
  split
  · contradiction
  · exact (h.succeeds_serverMessage hs _).bind fun _ _ => h.succeeds_dispatchServerMessage

/-! ## The map -/

theorem succeeds_sendMap {depth : Nat} {text : String} (h : hub.Ready src)
    (hcon : hub.Reaches (hub.net.user u).connection) (hnick : isParameter (hub.net.user u).nick)
    (hs : hub.net.Registered s) (hdepth : hub.net.next < depth + s) :
    Succeeds (sendMap u depth hub text s) := by
  have hone : ∀ {hub' : Hub} {line : String}, Wrote hub hub' → Succeeds (hub'.sendMapReply u line) := by
    intro hub' line hw
    obtain ⟨r, hr⟩ := (h.wrote hw).exists_local
    have hcon := hcon.wrote hw
    rw [← hw.net] at hnick hcon
    exact succeeds_reply hr hcon hnick (by simp) (.inl (by decide))
  induction depth generalizing hub text s with
  | zero => exact absurd (h.sound.servers_lt s hs) (not_depth_zero hdepth)
  | succ depth ih =>
    rw [sendMap]
    refine (hone .refl).bind fun hub₁ h₁ => ?_
    have hw₁ := wrote_reply h₁
    refine (succeeds_foldlM (I := Wrote hub) (fun _ hw => hone hw)
      (fun _ hw hf => hw.trans (wrote_reply hf)) hw₁).bind fun hub₂ h₂ => ?_
    have hw₂ := hw₁.trans (wrote_foldlM wrote_reply h₂)
    refine succeeds_foldlM (I := Wrote hub) ?_ (fun _ hw hf => hw.trans (wrote_sendMap hf)) hw₂
    intro hub₃ c hc hw₃
    obtain ⟨hreg, hparent⟩ := (h.sound.tree.children s hs c).mp hc
    have hlt := h.sound.older c hreg s hparent
    have hcon := hcon.wrote hw₃
    rw [← hw₃.net] at hreg hdepth hnick hcon
    refine ih (h.wrote hw₃) hcon hnick hreg (depth_child hdepth hlt) ?_
    intro hub' line hw
    exact hone (hw₃.trans hw)

theorem succeeds_map (h : hub.Ready src) : Succeeds (hub.map src) := by
  unfold map
  split
  · exact h.succeeds_replyError (by decide)
  · exact succeeds_ok
  · rename_i u hstr
    obtain ⟨_, hconnection, hnick⟩ := h.users src u hstr
    have hcon : hub.Reaches (hub.net.user u).connection := ⟨src, hconnection, h.source⟩
    obtain ⟨r, hr⟩ := h.exists_local
    have hrreg := (Network.getLocalServer_eq_some hr).1
    rw [hr]
    refine (h.succeeds_sendMap hcon hnick hrreg depth_root).bind fun hub₁ h₁ => ?_
    have hw := wrote_sendMap h₁
    have hcon := hcon.wrote hw
    rw [← hw.net] at hr hnick hcon
    exact succeeds_reply hr hcon hnick (by simp) (.inr rfl)

/-! ## Nicks -/

theorem succeeds_dispatchNickChange (h : hub.Ready src) {oldNick newNick : String}
    (hnick : isParameter newNick)
    (hcon : hub.net.isLocal u → hub.Reaches (hub.net.user u).connection) :
    Succeeds (hub.dispatchNickChange u oldNick newNick excluded) := by
  refine Succeeds.bind ?_ fun m _ => h.succeeds_dispatchUserMessage.bind fun hub₁ h₁ => ?_
  · simp [Message.make, Message.appendParameter, hnick, Succeeds]
  · have hw := wrote_dispatchUserMessage h₁
    rw [hw.net]
    split_ifs with hlocal
    · exact succeeds_sendTo ((hcon hlocal).wrote hw)
    · exact succeeds_pure

theorem succeeds_dispatchNickCollision (h : hub.Ready src) (user : Option Ref) {nick : Option String}
    (hnick : ∀ n, nick = some n → isParameter n) : Succeeds (hub.dispatchNickCollision user nick) := by
  unfold dispatchNickCollision
  split
  · exact succeeds_ok
  · rename_i n
    have hparam : ∃ m, (Message.make none "KILL").appendParameter n = .ok m ∧ m.hasLast = false := by
      simp [Message.make, Message.appendParameter, hnick n rfl]
    obtain ⟨m, hm, hlast⟩ := hparam
    refine Succeeds.bind ⟨m, hm⟩ fun m₁ h₁ => ?_
    obtain rfl := Except.ok.inj (hm.symm.trans h₁)
    refine (succeeds_appendText hlast (some nickCollisionReason)).bind fun _ _ => ?_
    split
    · exact h.succeeds_dispatchUserMessage
    · exact h.succeeds_dispatchServerMessage

theorem succeeds_ping (h : hub.Ready src) : Succeeds (hub.ping src msg) := by
  refine Succeeds.bind ?_ fun _ _ => succeeds_send h.source
  simp [Message.make, Message.appendLastParameter, Succeeds]

end Ready

/-! ## The loss of a server -/

omit [Locale] in
theorem succeeds_sendNetSplit (hr : hub.net.getLocalServer = some r)
    (hname : isParameter (hub.net.server s).name) (husers : Succeeds (hub.net.getUsersBehindServer s))
    (hpeers : ∀ s ∈ (hub.net.server r).children,
      (hub.net.server s).connection ∉ excluded.map some → hub.Reaches (hub.net.server s).connection)
    (hlocals : ∀ v ∈ (hub.net.server r).users, hub.Reaches (hub.net.user v).connection)
    {reason : Option String} : Succeeds (hub.sendNetSplit s reason excluded) := by
  unfold sendNetSplit
  have hparam : ∃ m, (Message.make none "SQUIT").appendParameter (hub.net.server s).name = .ok m ∧
      m.hasLast = false := by
    simp [Message.make, Message.appendParameter, hname]
  obtain ⟨m, hm, hlast⟩ := hparam
  refine Succeeds.bind ⟨m, hm⟩ fun m₁ h₁ => ?_
  obtain rfl := Except.ok.inj (hm.symm.trans h₁)
  have hmessage : Succeeds (m.appendLastParameter reason) := by
    rw [Message.appendLastParameter, hlast]
    exact succeeds_ok
  refine hmessage.bind fun m₂ _ => (succeeds_dispatchServerMessage hr hpeers).bind fun hub₁ h₁ => ?_
  have hw₁ := wrote_dispatchServerMessage h₁
  refine husers.bind fun users _ => ?_
  rw [hr]
  refine succeeds_foldlM (I := Wrote hub) ?_ ?_ hw₁
  · intro hub₂ u _ hw
    refine Succeeds.bind ?_ fun _ _ => succeeds_sendAll ?_
    · simp [Message.make, Message.appendLastParameter, Succeeds]
    · intro con hcon _
      obtain ⟨v, hv, rfl⟩ := List.mem_map.mp hcon
      exact (hlocals v (List.mem_filter.mp hv).1).wrote hw
  · intro hub₂ u hub₃ _ hw hf
    obtain ⟨m, _, hf⟩ := bind_eq_ok_iff.mp hf
    exact hw.trans (wrote_sendAll hf)

end Hub

end MyLifeHome.Irc

