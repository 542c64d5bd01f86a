import MyLifeHome.Irc.Sending
import MyLifeHome.Irc.Removal
import MyLifeHome.Irc.Addition
import MyLifeHome.Library.Runs

/-!
# Runs of one hub

What happens to a hub is that a connection is opened, that a line comes on one, and that one is
closed. The network stays well formed in exactly the runs that lose no server with servers behind
it, and in which nobody acts who is not on the network any more.
-/
namespace MyLifeHome.Irc

open Checked Runs

variable [Locale]

/-! ## Events -/

inductive Event where
  | opened (c : Conn)
  | received (c : Conn) (message : Message)
  | closed (c : Conn)

/-- The configuration and the surroundings of a hub. -/
structure Configuration where
  networkName : String
  serverName : String
  serverToken : Int
  name : String
  version : String
  buildTimestamp : String
  startTime : String
  locallyInitiated : Conn → Bool
  remoteHost : Conn → Option String

/-- A server that no other is reached through. -/
def Network.Leaf (net : Network) (s : Ref) : Prop :=
  (net.server s).parent ≠ none ∧ (net.server s).children = []

namespace Hub

/-- `IrcServer.init` -/
def init (config : Configuration) : Except Fault Hub := do
  let serverName := config.serverName ++ "." ++ config.networkName
  let (_, net) ← (Network.new config.networkName).serverAdd (some serverName) config.serverToken none
  pure { name := config.name, version := config.version, buildTimestamp := config.buildTimestamp,
         startTime := config.startTime, net := net, structures := fun _ => .new,
         locallyInitiated := config.locallyInitiated, remoteHost := config.remoteHost,
         closed := fun _ => false, sent := [] }

def process (hub : Hub) : Event → Except Fault Hub
  | .opened c => hub.connectionOpened c
  | .received c message => hub.receive c message
  | .closed c => hub.close c

/-- The event is processed without an exception. -/
def Step (hub : Hub) (e : Event) (hub' : Hub) : Prop := hub.process e = .ok hub'

/-- No message comes on a connection that the hub has closed. -/
def Live (hub : Hub) : Event → Prop
  | .received c _ => ¬hub.closed c
  | _ => True

instance (hub : Hub) : (e : Event) → Decidable (hub.Live e)
  | .opened _ => inferInstanceAs (Decidable True)
  | .received c _ => inferInstanceAs (Decidable (¬hub.closed c))
  | .closed _ => inferInstanceAs (Decidable True)

/-! ## Careful events -/

/-- The server is not known yet, nor its token. -/
def IsNewServer (net : Network) (message : Message) : Prop :=
  net.getServer ((message.getParameter 0).getD "") = none ∧
    ∀ token, parseInt (message.getParameter 2) = .ok token → net.getServerByToken token = none

/-- There is a channel to join, and all names are names of channels. -/
def Joins (message : Message) : Prop :=
  ∃ names rest, message.params = names :: rest ∧ splitComma names ≠ [] ∧
    ∀ name ∈ splitComma names, isChannelIdentifier name = .ok true

/-- Only a leaf is lost, and of a link it is the server that the link still stands for. A link
adds servers below its own only while that is registered, and a user joins only while on the
network. -/
def Careful (hub : Hub) : Event → Prop
  | .opened _ => True
  | .closed c => ∀ s, hub.structures c = .server s →
      ∀ t, hub.net.getServer (hub.net.server s).name = some t → t = s ∧ hub.net.Leaf s
  | .received c message =>
    match getCommand message.command with
    | some .squit => hub.checkServer c →
        ∀ s, (message.getParameter 0).bind hub.net.getServer = some s → hub.net.Leaf s
    | some .server => ∀ s, hub.structures c = .server s → message.sender = none →
        IsNewServer hub.net message → hub.net.Registered s
    | some .join => ∀ u, hub.structures c = .user u → Joins message → u ∈ hub.net.users
    | _ => True

/-! ## The invariant -/

/-- The network is sound, and the servers of the links are not the local one. -/
structure Inv (hub : Hub) : Prop where
  sound : hub.net.Sound
  links : ∀ c s, hub.structures c = .server s → (hub.net.server s).parent ≠ none

variable {hub hub' : Hub} {c src con : Conn} {u s r : Ref} {net' : Network} {msg : Message}

namespace Inv

theorem congr (h : hub.Inv) (hnet : hub'.net = hub.net)
    (hstructures : hub'.structures = hub.structures) : hub'.Inv := by
  refine ⟨hnet ▸ h.sound, ?_⟩
  rw [hnet, hstructures]
  exact h.links

theorem wrote (h : hub.Inv) (hw : Wrote hub hub') : hub'.Inv := h.congr hw.net hw.structures

theorem setNet (h : hub.Inv) (hs : net'.Sound)
    (hp : ∀ s, (hub.net.server s).parent ≠ none → (net'.server s).parent ≠ none) :
    Inv { hub with net := net' } :=
  ⟨hs, fun c s hc => hp s (h.links c s hc)⟩

theorem setUnregistered (h : hub.Inv) {nick ident realName : Option String} :
    (hub.setStructure c (.unregistered nick ident realName)).Inv := by
  refine ⟨h.sound, ?_⟩
  intro d s hd
  by_cases hdc : d = c
  · subst hdc
    simp [setStructure] at hd
  · exact h.links d s (by simpa [setStructure, hdc] using hd)

theorem setUser (h : hub.Inv) : (hub.setStructure c (.user u)).Inv := by
  refine ⟨h.sound, ?_⟩
  intro d s hd
  by_cases hdc : d = c
  · subst hdc
    simp [setStructure] at hd
  · exact h.links d s (by simpa [setStructure, hdc] using hd)

theorem setServer (h : hub.Inv) (hs : (hub.net.server s).parent ≠ none) :
    (hub.setStructure c (.server s)).Inv := by
  refine ⟨h.sound, ?_⟩
  intro d t hd
  by_cases hdc : d = c
  · subst hdc
    obtain rfl : s = t := by simpa [setStructure] using hd
    exact hs
  · exact h.links d t (by simpa [setStructure, hdc] using hd)

theorem userRemove (h : hub.Inv) (u : Ref) : Inv { hub with net := hub.net.userRemove u } := by
  obtain ⟨hs, hw⟩ := h.sound.without u
  refine h.setNet hs ?_
  intro s hp
  rw [hw.server]
  exact hp

theorem userPart (h : hub.Inv) (u c : Ref) : Inv { hub with net := hub.net.userPart u c } := by
  refine h.setNet (h.sound.userPart u c) ?_
  intro s hp
  rw [Network.userPart_server]
  exact hp

/-- The connection of an unregistered client is closed. -/
theorem close_unregistered {nick ident realName : Option String}
    (hok : (hub.setStructure c (.unregistered nick ident realName)).close c = .ok hub') :
    hub' = { hub.setStructure c (.unregistered nick ident realName) with
      closed := Function.update hub.closed c true } := by
  have hstr : (Function.update hub.structures c (.unregistered nick ident realName)) c =
      .unregistered nick ident realName := Function.update_self ..
  rw [close, connectionClosed] at hok
  simp only [setStructure, hstr] at hok
  exact (Except.ok.inj hok).symm

theorem drop (h : hub.Inv) (hok : (hub.setStructure c .new).close c = .ok hub') : hub'.Inv := by
  obtain rfl := close_unregistered hok
  exact ⟨h.sound, (h.setUnregistered (c := c)).links⟩

theorem disconnectLocal (h : hub.Inv) {reason : Option String}
    (hok : hub.disconnectLocal u reason = .ok hub') : hub'.Inv ∧ hub'.net = hub.net := by
  unfold Hub.disconnectLocal at hok
  split_ifs at hok
  · split at hok
    · simp at hok
    · obtain ⟨m, _, hok⟩ := bind_eq_ok_iff.mp hok
      obtain ⟨hub₁, h₁, hok⟩ := bind_eq_ok_iff.mp hok
      have hw := wrote_send h₁
      refine ⟨(h.wrote hw).drop hok, ?_⟩
      obtain rfl := close_unregistered hok
      exact hw.net
  · obtain rfl := Except.ok.inj hok
    exact ⟨h, rfl⟩

end Inv

/-! ## What the commands do to the network -/

theorem squit_eq_ok (hok : hub.squit c msg = .ok hub') : Wrote hub hub' ∧ ¬hub.checkServer c ∨
    hub.checkServer c ∧ ∃ s, (msg.getParameter 0).bind hub.net.getServer = some s ∧
      ∃ hub₁, Wrote hub hub₁ ∧ hub' = { hub₁ with net := hub.net.serverRemove s } := by
  unfold squit at hok
  split at hok
  · rename_i hstr
    exact .inl ⟨wrote_replyError hok, by simp [checkServer, hstr]⟩
  · rename_i hstr
    exact .inl ⟨wrote_replyError hok, by simp [checkServer, hstr]⟩
  · rename_i r hr
    right
    refine ⟨by simp [checkServer, hr], ?_⟩
    split at hok
    · simp at hok
    · rename_i name hname
      split at hok
      · simp at hok
      · rename_i s hs
        obtain ⟨hub₁, h₁, hok⟩ := bind_eq_ok_iff.mp hok
        have hw := wrote_sendNetSplit h₁
        refine ⟨s, by rw [hname]; exact hs, hub₁, hw, ?_⟩
        rw [← hw.net]
        exact (Except.ok.inj hok).symm

theorem close_eq_ok (hok : hub.close c = .ok hub') :
    (∃ nick ident realName, hub.structures c = .unregistered nick ident realName ∧
      hub'.net = hub.net ∧ hub'.structures = hub.structures) ∨
    (∃ u, hub.structures c = .user u ∧ hub'.net = hub.net.userRemove u ∧
      hub'.structures = hub.structures) ∨
    ∃ s, hub.structures c = .server s ∧ hub'.net = hub.net.serverRemove s ∧
      hub'.structures = hub.structures := by
  unfold close connectionClosed at hok
  split at hok
  · rename_i nick ident realName hstr
    obtain rfl := Except.ok.inj hok
    exact .inl ⟨nick, ident, realName, hstr, rfl, rfl⟩
  · rename_i s hstr
    obtain ⟨hub₁, h₁, hok⟩ := bind_eq_ok_iff.mp hok
    have hw := wrote_sendNetSplit h₁
    obtain rfl := Except.ok.inj hok
    exact .inr (.inr ⟨s, hstr, congrArg (·.serverRemove s) hw.net, hw.structures⟩)
  · rename_i u hstr
    obtain ⟨m, _, hok⟩ := bind_eq_ok_iff.mp hok
    obtain ⟨hub₁, h₁, hok⟩ := bind_eq_ok_iff.mp hok
    have hw := wrote_dispatchUserMessage h₁
    obtain rfl := Except.ok.inj hok
    exact .inr (.inl ⟨u, hstr, congrArg (·.userRemove u) hw.net, hw.structures⟩)

theorem createServer_eq_ok {parent : Option Ref} {result : Except Fault (Ref × Network)}
    (hok : hub.createServer parent msg = .ok result) : ∃ token,
    parseInt (msg.getParameter 2) = .ok token ∧
      result = hub.net.serverAdd (msg.getParameter 0) token parent := by
  obtain ⟨token, htoken, hok⟩ := bind_eq_ok_iff.mp hok
  exact ⟨token, htoken, (Except.ok.inj hok).symm⟩

omit [Locale] in
theorem publishServer_eq_ok {excluded : List Conn} (hok : hub.publishServer s excluded = .ok hub') :
    ∃ m, hub.dispatchServerMessage m excluded = .ok hub' := by
  unfold publishServer at hok
  split at hok
  · cases hok
  · obtain ⟨m, _, hok⟩ := bind_eq_ok_iff.mp hok
    exact ⟨m, hok⟩

/-- A new server below a server that the sender knows, of which the servers are told. -/
theorem serverInvoke_eq_ok (hok : hub.serverInvoke src s msg = .ok hub') :
    hub' = hub ∧ ¬IsNewServer hub.net msg ∨
    ∃ name token p, hub.net.getServer name = none ∧ hub.net.getServerByToken token = none ∧
      IsNewServer hub.net msg ∧ (msg.sender = none → p = s) ∧
      (msg.sender ≠ none → hub.net.Registered p) ∧
      ∃ m, dispatchServerMessage { hub with net := hub.net.withServer name token (some p) } m [src] =
        .ok hub' := by
  obtain ⟨result, hresult, hok⟩ := bind_eq_ok_iff.mp hok
  obtain ⟨token, htoken, rfl⟩ := createServer_eq_ok hresult
  split at hok
  · rename_i new net' hadd
    right
    obtain ⟨_, hname, htok, rfl, rfl⟩ := Network.serverAdd_eq_ok_iff.mp hadd
    have hpublish := publishServer_eq_ok hok
    have hnew : IsNewServer hub.net msg := by
      refine ⟨hname, ?_⟩
      intro token' htoken'
      rw [htoken] at htoken'
      obtain rfl := Except.ok.inj htoken'
      exact htok
    -- a sender that is not known is the parent of nothing
    cases hsender : msg.sender with
    | none =>
      simp only [hsender] at hpublish
      exact ⟨_, token, s, hname, htok, hnew, fun _ => rfl, fun hne => absurd rfl hne, hpublish⟩
    | some sender =>
      simp only [hsender] at hpublish hok
      cases hp : hub.net.getServer sender with
      | none =>
        simp [hp, publishServer, Network.withServer_server] at hok
      | some p =>
        rw [hp] at hpublish
        exact ⟨_, token, p, hname, htok, hnew, fun hnone => by simp at hnone,
          fun _ => Dictionary.mem_values_iff.mpr ⟨_, hp⟩, hpublish⟩
  · rename_i hexists
    split_ifs at hok
    refine .inl ⟨(Except.ok.inj hok).symm, ?_⟩
    rintro ⟨hname, htok⟩
    rw [Network.serverAdd_eq, hname, htok token htoken] at hexists
    simp only [Option.isSome_none, Bool.false_eq_true, or_self, if_false] at hexists
    split_ifs at hexists
    simp at hexists
  · cases hok

theorem joinChannel_eq_ok {user : Option Ref} {name : String}
    (hok : hub.joinChannel src user name = .ok hub') : ∃ u net', user = some u ∧
      hub.net.userJoin (some u) name = .ok net' ∧ Wrote { hub with net := net' } hub' := by
  obtain ⟨net', hjoin, hok⟩ := bind_eq_ok_iff.mp hok
  dsimp only at hok
  split at hok
  · rename_i u channel _ _
    obtain ⟨m, _, hok⟩ := bind_eq_ok_iff.mp hok
    obtain ⟨hub₁, h₁, hok⟩ := bind_eq_ok_iff.mp hok
    exact ⟨u, net', rfl, hjoin, (wrote_dispatchUserMessage h₁).trans (wrote_welcome hok)⟩
  · cases hok

omit [Locale] in
/-- The check of the names, up to the first that is none. -/
theorem checkNames_eq_ok {names : List String} :
    names.foldlM (fun ok name => if ok then isChannelIdentifier name else pure false) true =
      .ok true ↔ ∀ name ∈ names, isChannelIdentifier name = .ok true := by
  have hfalse : ∀ names : List String, names.foldlM
      (fun ok name => if ok then isChannelIdentifier name else pure false) false =
        (.ok false : Except Fault Bool) := by
    intro names
    induction names with
    | nil => rfl
    | cons name names ih =>
      rw [List.foldlM_cons]
      exact ih
  induction names with
  | nil => simp [pure, Except.pure]
  | cons name names ih =>
    rw [List.foldlM_cons, bind_eq_ok_iff, List.forall_mem_cons]
    constructor
    · rintro ⟨ok, hname, hrest⟩
      cases ok with
      | false =>
        rw [hfalse] at hrest
        simp at hrest
      | true => exact ⟨hname, ih.mp hrest⟩
    · rintro ⟨hname, hrest⟩
      exact ⟨true, hname, ih.mpr hrest⟩

theorem join_eq_ok (hok : hub.join src msg = .ok hub') :
    Wrote hub hub' ∧ (hub.checkRegistered src → ¬Joins msg) ∨
    ∃ names rest, msg.params = names :: rest ∧
      (∀ name ∈ splitComma names, isChannelIdentifier name = .ok true) ∧
      (splitComma names).foldlM (fun hub' name => hub'.joinChannel src (hub.source src msg) name)
        hub = .ok hub' := by
  unfold join at hok
  split_ifs at hok with hregistered
  · split at hok
    · rename_i hparams
      refine .inl ⟨wrote_replyError hok, ?_⟩
      rintro _ ⟨names, rest, hjoins, _⟩
      simp [hparams] at hjoins
    · rename_i names rest hparams
      obtain ⟨ok, hnames, hok⟩ := bind_eq_ok_iff.mp hok
      cases ok with
      | false =>
        refine .inl ⟨wrote_replyError hok, ?_⟩
        rintro _ ⟨names', rest', hjoins, _, hall⟩
        obtain ⟨rfl, rfl⟩ := List.cons.inj (hparams.symm.trans hjoins)
        rw [checkNames_eq_ok.mpr hall] at hnames
        simp at hnames
      | true => exact .inr ⟨names, rest, hparams, checkNames_eq_ok.mp hnames, hok⟩
  · exact .inl ⟨wrote_replyError hok, fun hr => absurd hr hregistered⟩

/-! ## Commands that keep the invariant -/

namespace Inv

theorem kill (h : hub.Inv) (hok : hub.kill src msg = .ok hub') : hub'.Inv := by
  unfold Hub.kill at hok
  split_ifs at hok
  · split at hok
    · obtain rfl := Except.ok.inj hok
      exact h
    · obtain ⟨hub₁, h₁, hok⟩ := bind_eq_ok_iff.mp hok
      obtain ⟨hub₂, h₂, hok⟩ := bind_eq_ok_iff.mp hok
      obtain rfl := Except.ok.inj hok
      exact ((h.wrote (wrote_dispatchServerMessage h₁)).disconnectLocal h₂).1.userRemove _
  · exact h.wrote (wrote_replyError hok)

theorem partChannel (h : hub.Inv) {reason : Option String}
    (hok : hub.partChannel src u r reason = .ok hub') : hub'.Inv := by
  obtain ⟨m, _, hok⟩ := bind_eq_ok_iff.mp hok
  obtain ⟨full, _, hok⟩ := bind_eq_ok_iff.mp hok
  obtain ⟨hub₁, h₁, hok⟩ := bind_eq_ok_iff.mp hok
  obtain ⟨hub₂, h₂, hok⟩ := bind_eq_ok_iff.mp hok
  obtain rfl := Except.ok.inj hok
  have hw : Wrote hub₁ hub₂ := by
    split_ifs at h₂
    · exact wrote_send h₂
    · obtain rfl := Except.ok.inj h₂
      exact .refl
  exact ((h.wrote (wrote_dispatchUserMessage h₁)).wrote hw).userPart u r

theorem part (h : hub.Inv) (hok : hub.part src msg = .ok hub') : hub'.Inv := by
  unfold Hub.part at hok
  split_ifs at hok
  · split at hok
    · exact h.wrote (wrote_replyError hok)
    · dsimp only at hok
      split at hok
      · split_ifs at hok
        obtain rfl := Except.ok.inj hok
        exact h
      · split_ifs at hok
        · exact h.wrote (wrote_replyError hok)
        · exact foldlM_invariant (I := Hub.Inv) (fun _ hI hf => hI.partChannel hf) hok h
  · exact h.wrote (wrote_replyError hok)

theorem userError (h : hub.Inv) {reason : Option String}
    (hok : hub.userError c reason = .ok hub') : hub'.Inv := by
  unfold Hub.userError at hok
  split at hok
  · cases hok
  · obtain ⟨m, _, hok⟩ := bind_eq_ok_iff.mp hok
    obtain ⟨hub₁, h₁, hok⟩ := bind_eq_ok_iff.mp hok
    obtain ⟨hub₂, h₂, hok⟩ := bind_eq_ok_iff.mp hok
    have h₂ := (h.wrote (wrote_send h₁)).drop h₂
    split at hok
    · obtain ⟨m', _, hok⟩ := bind_eq_ok_iff.mp hok
      obtain ⟨hub₃, h₃, hok⟩ := bind_eq_ok_iff.mp hok
      obtain rfl := Except.ok.inj hok
      exact (h₂.wrote (wrote_dispatchUserMessage h₃)).userRemove _
    · obtain rfl := Except.ok.inj hok
      exact h₂

theorem unregisteredCheck (h : hub.Inv) {nick ident realName : Option String}
    (hok : hub.unregisteredCheck src nick ident realName = .ok hub') : hub'.Inv := by
  unfold Hub.unregisteredCheck at hok
  split_ifs at hok
  · obtain rfl := Except.ok.inj hok
    exact h
  · split at hok
    · simp at hok
    · rename_i self hself
      split at hok
      · exact h.userError hok
      · simp at hok
      · rename_i user net' hadd
        obtain ⟨⟨hnick, _⟩, hfree, rfl, rfl⟩ := Network.userAdd_eq_ok_iff.mp hadd
        obtain ⟨hub₁, h₁, hok⟩ := bind_eq_ok_iff.mp hok
        refine (Inv.wrote ?_ (wrote_dispatchNewUser h₁)).wrote (wrote_userWelcome hok)
        have hnone : hub.net.getUser (some (nick.getD "")) = none := by
          cases nick with
          | none => simp [isEmpty] at hnick
          | some nick => exact hfree
        have hself := (Network.getLocalServer_eq_some hself).1
        refine (h.setNet (h.sound.withUser hself hnone rfl).setUserConnection ?_).setUser
        intro s hp
        change ((hub.net.withUser _).server s).parent ≠ none
        rw [Network.withUser_server]
        exact hp

theorem user (h : hub.Inv) (hok : hub.user src msg = .ok hub') : hub'.Inv := by
  unfold Hub.user at hok
  split at hok
  · split_ifs at hok
    · exact h.wrote (wrote_replyError hok)
    · exact (h.setUnregistered).unregisteredCheck hok
  · exact h.wrote (wrote_replyError hok)

theorem setNick (h : hub.Inv) {nick : String} (hfree : hub.net.getUser (some nick) = none) :
    Inv { hub with net := hub.net.modifyUser u fun user => { user with nick := nick } } :=
  h.setNet (h.sound.setNick hfree) fun _ hp => hp

theorem removeUser (h : hub.Inv) (user : Option Ref) : (hub.removeUser user).Inv := by
  cases user with
  | none => exact h
  | some u => exact h.userRemove u

theorem handleNickCollision (h : hub.Inv) {nick1 nick2 : Option String}
    (hok : hub.handleNickCollision nick1 nick2 = .ok hub') : hub'.Inv := by
  unfold Hub.handleNickCollision at hok
  have hlocal : ∀ {hub₁ hub₂ : Hub} {user : Option Ref}, hub₁.Inv →
      hub₁.disconnectLocalNickCollision user = .ok hub₂ → hub₂.Inv := by
    intro hub₁ hub₂ user h₁ hd
    cases user with
    | none =>
      obtain rfl := Except.ok.inj hd
      exact h₁
    | some u => exact (h₁.disconnectLocal hd).1
  dsimp only at hok
  obtain ⟨hub₁, h₁, hok⟩ := bind_eq_ok_iff.mp hok
  obtain ⟨hub₂, h₂, hok⟩ := bind_eq_ok_iff.mp hok
  obtain ⟨hub₃, h₃, hok⟩ := bind_eq_ok_iff.mp hok
  obtain ⟨hub₄, h₄, hok⟩ := bind_eq_ok_iff.mp hok
  obtain rfl := Except.ok.inj hok
  have hI := hlocal (hlocal ((h.wrote (wrote_dispatchNickCollision h₁)).wrote
    (wrote_dispatchNickCollision h₂)) h₃) h₄
  exact (hI.removeUser _).removeUser _

theorem nick (h : hub.Inv) (hok : hub.nick src msg = .ok hub') : hub'.Inv := by
  unfold Hub.nick at hok
  split at hok
  · split at hok
    · unfold nickChangeInvoke at hok
      dsimp only at hok
      split at hok
      · exact h.handleNickCollision hok
      · simp at hok
      · rename_i hchange
        obtain ⟨u, _, _, hfree, rfl⟩ := Network.userChangeNick_eq_ok_iff.mp hchange
        exact (h.setNick hfree).wrote (wrote_dispatchNickChange hok)
      · simp at hok
    · unfold newUserInvoke at hok
      split_ifs at hok
      · exact h.wrote (wrote_replyError hok)
      · obtain ⟨hopcount, _, hok⟩ := bind_eq_ok_iff.mp hok
        obtain ⟨token, _, hok⟩ := bind_eq_ok_iff.mp hok
        split at hok
        · exact h.wrote (wrote_replyError hok)
        · rename_i home hhome
          split at hok
          · exact h.handleNickCollision hok
          · cases hok
          · rename_i user net' hadd
            obtain ⟨⟨hnick, _⟩, hfree, rfl, rfl⟩ := Network.userAdd_eq_ok_iff.mp hadd
            refine Inv.wrote ?_ (wrote_dispatchNewUser hok)
            have hreg : hub.net.Registered home :=
              (h.sound.tree.indexes home).mpr (Dictionary.mem_values_iff.mpr ⟨token, hhome⟩)
            have hnone : hub.net.getUser (some ((msg.getParameter 0).getD "")) = none := by
              cases hp : msg.getParameter 0 with
              | none => simp [hp, isEmpty] at hnick
              | some nick =>
                rw [hp] at hfree
                exact hfree
            refine h.setNet (h.sound.withUser hreg hnone rfl) ?_
            intro s hp
            rw [Network.withUser_server]
            exact hp
  · unfold nickUserInvoke at hok
    split at hok
    · exact h.wrote (wrote_replyError hok)
    · dsimp only at hok
      split_ifs at hok
      · obtain rfl := Except.ok.inj hok
        exact h
      · split at hok
        · exact h.wrote (wrote_replyError hok)
        · simp at hok
        · rename_i hchange
          obtain ⟨u, _, _, hfree, rfl⟩ := Network.userChangeNick_eq_ok_iff.mp hchange
          exact (h.setNick hfree).wrote (wrote_dispatchNickChange hok)
      · exact h.wrote (wrote_replyError hok)
  · unfold nickUnregisteredInvoke at hok
    split at hok
    · exact h.wrote (wrote_replyError hok)
    · split_ifs at hok
      · exact h.wrote (wrote_replyError hok)
      · exact (h.setUnregistered).unregisteredCheck hok
      · exact h.wrote (wrote_replyError hok)

theorem quit (h : hub.Inv) (hok : hub.quit src msg = .ok hub') : hub'.Inv := by
  unfold Hub.quit at hok
  split at hok
  · exact h.wrote (wrote_replyError hok)
  · unfold quitServerInvoke at hok
    split at hok
    · simp at hok
    · obtain ⟨hub₁, h₁, hok⟩ := bind_eq_ok_iff.mp hok
      obtain rfl := Except.ok.inj hok
      exact (h.wrote (wrote_dispatchUserMessage h₁)).userRemove _
  · obtain ⟨m, _, hok⟩ := bind_eq_ok_iff.mp hok
    obtain ⟨hub₁, h₁, hok⟩ := bind_eq_ok_iff.mp hok
    obtain ⟨hub₂, h₂, hok⟩ := bind_eq_ok_iff.mp hok
    obtain rfl := Except.ok.inj hok
    exact ((h.wrote (wrote_dispatchUserMessage h₁)).drop h₂).userRemove _

theorem withServer (h : hub.Inv) {name : String} {token : Int} {p : Ref}
    (hname : hub.net.getServer name = none) (htoken : hub.net.getServerByToken token = none)
    (hp : hub.net.Registered p) :
    Inv { hub with net := hub.net.withServer name token (some p) } := by
  refine h.setNet (h.sound.withServer hname htoken hp) ?_
  intro s hs
  rw [Network.withServer_server]
  by_cases hnew : s = hub.net.next
  · rw [if_pos hnew]
    simp
  · rw [if_neg hnew]
    exact hs

theorem serverRemove (h : hub.Inv) (hs : hub.net.Registered s) (hleaf : hub.net.Leaf s) :
    Inv { hub with net := hub.net.serverRemove s } := by
  refine h.setNet (h.sound.serverRemove hs hleaf.1 hleaf.2) ?_
  intro t hp
  rwa [h.sound.serverRemove_parent]

theorem serverUnregisteredInvoke (h : hub.Inv) {nick ident realName : Option String}
    (hstr : hub.structures src = .unregistered nick ident realName)
    (hok : hub.serverUnregisteredInvoke src msg = .ok hub') : hub'.Inv := by
  obtain ⟨result, hresult, hok⟩ := bind_eq_ok_iff.mp hok
  obtain ⟨token, _, rfl⟩ := createServer_eq_ok hresult
  split at hok
  · rename_i new net' hadd
    obtain ⟨_, hname, htoken, rfl, rfl⟩ := Network.serverAdd_eq_ok_iff.mp hadd
    obtain ⟨hub₁, h₁, hok⟩ := bind_eq_ok_iff.mp hok
    refine (Inv.wrote ?_ (wrote_publishServer h₁)).wrote (wrote_sendNetSync hok)
    obtain ⟨self, hself⟩ := h.sound.tree.exists_local
    rw [hself]
    have hnew := h.withServer hname htoken (Network.getLocalServer_eq_some hself).1
    refine (hnew.setNet hnew.sound.setServerConnection ?_).setServer ?_
    · intro s hp
      rw [Network.setServerConnection_server]
      exact hp
    · rw [Network.setServerConnection_server, Network.withServer_server]
      simp
  · obtain ⟨m, _, hok⟩ := bind_eq_ok_iff.mp hok
    obtain ⟨hub₁, h₁, hok⟩ := bind_eq_ok_iff.mp hok
    have hw := wrote_send h₁
    rw [← hw.structures] at hstr
    rcases close_eq_ok hok with ⟨_, _, _, _, hnet, hs⟩ | ⟨u, hu, _⟩ | ⟨s, hs, _⟩
    · exact (h.wrote hw).congr hnet hs
    · simp [hstr] at hu
    · simp [hstr] at hs
  · cases hok

theorem joinChannel (h : hub.Inv) {name : String} (hu : u ∈ hub.net.users)
    (hok : hub.joinChannel src (some u) name = .ok hub') : hub'.Inv ∧ u ∈ hub'.net.users := by
  obtain ⟨v, net', hv, hjoin, hw⟩ := joinChannel_eq_ok hok
  obtain rfl := Option.some.inj hv
  have hserver : net'.server = hub.net.server ∧ net'.users = hub.net.users :=
    Network.userJoin_frame hjoin
  refine ⟨(h.setNet (h.sound.userJoin hu hjoin) ?_).wrote hw, ?_⟩
  · intro s hp
    rwa [hserver.1]
  · rw [hw.net]
    exact hserver.2 ▸ hu

/-- A careful event keeps the invariant. -/
theorem step (h : hub.Inv) {e : Event} (hcareful : hub.Careful e) (hstep : hub.Step e hub') :
    hub'.Inv := by
  cases e with
  | opened c =>
    have hok : hub.connectionOpened c = .ok hub' := hstep
    unfold connectionOpened at hok
    dsimp only at hok
    split_ifs at hok
    · exact (h.setUnregistered).wrote (wrote_sendSelf hok)
    · obtain rfl := Except.ok.inj hok
      exact h.setUnregistered
  | closed c =>
    rcases close_eq_ok hstep with ⟨_, _, _, _, hnet, hs⟩ | ⟨u, _, hnet, hs⟩ | ⟨s, hstr, hnet, hs⟩
    · exact h.congr hnet hs
    · exact (h.userRemove u).congr hnet hs
    · suffices hremoved : ({ hub with net := hub.net.serverRemove s } : Hub).Inv from
        hremoved.congr hnet hs
      cases hget : hub.net.getServer (hub.net.server s).name with
      | none =>
        rw [Network.serverRemove_of_getServer_eq_none hget]
        exact h
      | some t =>
        obtain ⟨rfl, hleaf⟩ := hcareful s hstr t hget
        exact h.serverRemove (Dictionary.mem_values_iff.mpr ⟨_, hget⟩) hleaf
  | received c message =>
    have hok : hub.receive c message = .ok hub' := hstep
    unfold receive at hok
    unfold Careful at hcareful
    cases hcmd : getCommand message.command with
    | none =>
      rw [hcmd] at hok
      exact h.wrote (wrote_replyError hok)
    | some cmd =>
      simp only [hcmd] at hok hcareful
      cases cmd with
      | squit =>
        rcases squit_eq_ok hok with ⟨hw, _⟩ | ⟨hlink, s, hs, hub₁, hw, rfl⟩
        · exact h.wrote hw
        · suffices hremoved : ({ hub with net := hub.net.serverRemove s } : Hub).Inv from
            hremoved.congr rfl hw.structures
          refine h.serverRemove ?_ (hcareful hlink s hs)
          obtain ⟨name, _, hname⟩ := Option.bind_eq_some_iff.mp hs
          exact Dictionary.mem_values_iff.mpr ⟨_, hname⟩
      | kill => exact h.kill hok
      | map => exact h.wrote (wrote_map hok)
      | privmsg => exact h.wrote (wrote_routeMessage hok)
      | notice => exact h.wrote (wrote_routeMessage hok)
      | pong =>
        obtain rfl := Except.ok.inj hok
        exact h
      | ping => exact h.wrote (wrote_ping hok)
      | server =>
        change hub.server c message = .ok hub' at hok
        unfold server at hok
        split at hok
        · rename_i s hstr
          rcases serverInvoke_eq_ok hok with
            ⟨rfl, _⟩ | ⟨name, token, p, hname, htoken, hnew, hself, hother, m, hm⟩
          · exact h
          · refine (h.withServer hname htoken ?_).wrote (wrote_dispatchServerMessage hm)
            by_cases hsender : message.sender = none
            · rw [hself hsender]
              exact hcareful s hstr hsender hnew
            · exact hother hsender
        · exact h.wrote (wrote_replyError hok)
        · exact h.serverUnregisteredInvoke ‹_› hok
      | part => exact h.part hok
      | join =>
        rcases join_eq_ok hok with ⟨hw, _⟩ | ⟨names, rest, hparams, hnames, hloop⟩
        · exact h.wrote hw
        · cases hsource : hub.source c message with
          | none =>
            -- without a user only an empty loop comes through
            rw [hsource] at hloop
            refine foldlM_invariant (I := Hub.Inv) ?_ hloop h
            intro hub₁ name hub₂ _ _ hf
            obtain ⟨v, _, hv, _⟩ := joinChannel_eq_ok hf
            simp at hv
          | some u =>
            rw [hsource] at hloop
            by_cases hempty : splitComma names = []
            · rw [hempty] at hloop
              obtain rfl := Except.ok.inj hloop
              exact h
            have hu : u ∈ hub.net.users := by
              unfold source at hsource
              split at hsource
              · rename_i v hv
                obtain rfl := Option.some.inj hsource
                exact hcareful v hv ⟨names, rest, hparams, hempty, hnames⟩
              · exact (Network.getUser_eq_some hsource).1
            refine (foldlM_invariant (I := fun hub => hub.Inv ∧ u ∈ hub.net.users) ?_ hloop
              ⟨h, hu⟩).1
            intro hub₁ name hub₂ _ hI hf
            exact hI.1.joinChannel hI.2 hf
      | user => exact h.user hok
      | nick => exact h.nick hok
      | quit => exact h.quit hok

end Inv

/-- What leaves a well-formed network is careful. -/
theorem careful_of_wellFormed (h : hub.Inv) {e : Event} (hstep : hub.Step e hub')
    (hwf : hub'.net.WellFormed) : hub.Careful e := by
  cases e with
  | opened c => trivial
  | closed c =>
    intro s hstr t hget
    rcases close_eq_ok hstep with ⟨_, _, _, hunreg, _⟩ | ⟨u, hu, _⟩ | ⟨r, hr, hnet, _⟩
    · simp [hstr] at hunreg
    · simp [hstr] at hu
    · obtain rfl : s = r := by simpa [hstr] using hr
      rw [hnet] at hwf
      exact h.sound.leaf_of_serverRemove hget hwf
  | received c message =>
    have hok : hub.receive c message = .ok hub' := hstep
    unfold receive at hok
    unfold Careful
    cases hcmd : getCommand message.command with
    | none => simp only [hcmd]
    | some cmd =>
      simp only [hcmd] at hok ⊢
      cases cmd with
      | squit =>
        intro hlink s hs
        rcases squit_eq_ok hok with ⟨_, hnot⟩ | ⟨_, r, hr, hub₁, _, rfl⟩
        · exact absurd hlink hnot
        · obtain rfl : s = r := Option.some.inj (hs.symm.trans hr)
          obtain ⟨name, _, hname⟩ := Option.bind_eq_some_iff.mp hs
          have hreg := h.sound.tree.registered_iff.mp (Dictionary.mem_values_iff.mpr ⟨_, hname⟩)
          exact (h.sound.leaf_of_serverRemove hreg hwf).2
      | server =>
        intro s hstr hsender hnew
        change hub.server c message = .ok hub' at hok
        unfold server at hok
        rw [hstr] at hok
        rcases serverInvoke_eq_ok hok with
          ⟨_, hold⟩ | ⟨name, token, p, hname, htoken, _, hself, _, m, hm⟩
        · exact absurd hnew hold
        · rw [(wrote_dispatchServerMessage hm).net, hself hsender] at hwf
          exact Network.registered_of_withServer hname hwf
      | join =>
        intro u hstr hjoins
        have hregistered : hub.checkRegistered c := by simp [checkRegistered, hstr]
        rcases join_eq_ok hok with ⟨_, hnot⟩ | ⟨names, rest, hparams, _, hloop⟩
        · exact absurd hjoins (hnot hregistered)
        · by_contra hu
          obtain ⟨names', rest', hparams', hne, _⟩ := hjoins
          obtain ⟨rfl, rfl⟩ := List.cons.inj (hparams.symm.trans hparams')
          have hsource : hub.source c message = some u := by simp [source, hstr]
          rw [hsource] at hloop
          -- the first channel already lists the user, and the others keep that
          obtain ⟨name, more, hnames⟩ := List.exists_cons_of_ne_nil hne
          rw [hnames, List.foldlM_cons] at hloop
          obtain ⟨hub₁, h₁, hloop⟩ := bind_eq_ok_iff.mp hloop
          have hstuck : hub₁.net.Stuck u := by
            obtain ⟨v, net', hv, hjoin, hw⟩ := joinChannel_eq_ok h₁
            obtain rfl := Option.some.inj hv
            rw [hw.net]
            exact h.sound.stuck hu hjoin
          refine (foldlM_invariant (I := fun hub : Hub => hub.net.Stuck u) ?_ hloop
            hstuck).not_wellFormed hwf
          intro hub₂ name hub₃ _ hs hf
          obtain ⟨v, net', hv, hjoin, hw⟩ := joinChannel_eq_ok hf
          rw [hw.net]
          exact hs.userJoin hjoin
      | _ => trivial

/-! ## Runs -/

/-- The hub has its own server only. -/
theorem Inv.init {config : Configuration} (hinit : Hub.init config = .ok hub) : hub.Inv := by
  obtain ⟨⟨r, net⟩, hadd, hinit⟩ := bind_eq_ok_iff.mp hinit
  obtain ⟨_, _, _, rfl, rfl⟩ := Network.serverAdd_eq_ok_iff.mp hadd
  obtain rfl := Except.ok.inj hinit
  refine ⟨Network.sound_new_withServer, ?_⟩
  intro c s hc
  simp [Connectable.new] at hc

/-- The network is well formed after each step of exactly the careful runs. -/
theorem wellFormed_iff_careful {config : Configuration} {events : List Event}
    (hinit : init config = .ok hub) :
    Steps (fun hub e hub' => guarded Live Step hub e hub' ∧ hub'.net.WellFormed) hub events hub' ↔
      Steps (guarded Careful (guarded Live Step)) hub events hub' := by
  refine steps_and_iff_guarded (P := Inv) ?_ ?_ (Inv.init hinit)
  · intro hub e hub' hI hstep hwf
    exact hI.step (careful_of_wellFormed hI hstep.2 hwf) hstep.2
  · intro hub e hub' hI hstep
    exact ⟨careful_of_wellFormed hI hstep.2,
      fun hcareful => (hI.step hcareful hstep.2).sound.toWellFormed⟩

theorem foldlM_process_eq_ok {events : List Event} (hok : events.foldlM process hub = .ok hub') :
    Steps Step hub events hub' := by
  induction events generalizing hub with
  | nil =>
    obtain rfl := Except.ok.inj hok
    exact .nil hub
  | cons e events ih =>
    rw [List.foldlM_cons] at hok
    obtain ⟨hub₁, h₁, hok⟩ := bind_eq_ok_iff.mp hok
    exact .cons h₁ (ih hok)

theorem foldlM_live_eq_ok {events : List Event} (hok : events.foldlM
    (fun hub e => if hub.Live e then hub.process e else .error .closedChannel) hub = .ok hub') :
    Steps (guarded Live Step) hub events hub' := by
  induction events generalizing hub with
  | nil =>
    obtain rfl := Except.ok.inj hok
    exact .nil hub
  | cons e events ih =>
    rw [List.foldlM_cons] at hok
    obtain ⟨hub₁, h₁, hok⟩ := bind_eq_ok_iff.mp hok
    split_ifs at h₁ with hlive
    exact .cons ⟨hlive, h₁⟩ (ih hok)

end Hub

end MyLifeHome.Irc

/-! ## A hub in a run -/

namespace MyLifeHome.Irc.Hub

open Checked Runs

/-- A hub of the network `net`, to which all connections come from outside. -/
def exampleConfiguration : Configuration :=
  { networkName := "net", serverName := "a", serverToken := 1, name := "hub", version := "1",
    buildTimestamp := "0", startTime := "now", locallyInitiated := fun _ => false,
    remoteHost := fun _ => some "host" }

theorem exists_init : ∃ hub, init exampleConfiguration = .ok hub := by
  have hok : (init exampleConfiguration).toOption.isSome := by decide +kernel
  obtain ⟨hub, hhub⟩ := Option.isSome_iff_exists.mp hok
  exact ⟨hub, eq_ok_of_toOption hhub⟩

theorem wellFormed_iff_careful_opened : ∃ hub, init exampleConfiguration = .ok hub ∧ ∀ hub',
    Steps (fun hub e hub' => guarded Live Step hub e hub' ∧ hub'.net.WellFormed) hub [.opened 1]
        hub' ↔
      Steps (guarded Careful (guarded Live Step)) hub [.opened 1] hub' := by
  obtain ⟨hub, hinit⟩ := exists_init
  exact ⟨hub, hinit, fun hub' => wellFormed_iff_careful hinit⟩

/-- `b.net` links itself, introduces `c.net` behind it, and the link is lost. -/
def lostLink : List Event :=
  [.opened 1, .received 1 ⟨none, "SERVER", ["b.net", "0", "2", "b.net"], true⟩,
    .received 1 ⟨some "b.net", "SERVER", ["c.net", "0", "3", "c.net"], true⟩, .closed 1]

/-- `c.net` stays registered below a server that is not. -/
theorem not_wellFormed_lostLink : ¬∀ (config : Configuration) (events : List Event)
    (hub hub' : Hub), init config = .ok hub → Steps (guarded Live Step) hub events hub' →
      hub'.net.WellFormed := by
  intro h
  have hresult : ((init exampleConfiguration >>= fun hub => lostLink.foldlM
      (fun hub e => if hub.Live e then hub.process e else .error .closedChannel) hub).toOption.map
      fun hub => (hub.net.servers.values, (hub.net.server 2).parent)) = some ([0, 2], some 1) := by
    decide +kernel
  obtain ⟨hub', hhub', hvalues⟩ := Option.map_eq_some_iff.mp hresult
  obtain ⟨hservers, hparent⟩ := Prod.mk.inj hvalues
  obtain ⟨hub, hinit, hrun⟩ := bind_eq_ok_iff.mp (eq_ok_of_toOption hhub')
  have hwf := h _ _ _ _ hinit (foldlM_live_eq_ok hrun)
  have hreg : ∀ s, hub'.net.Registered s ↔ s = 0 ∨ s = 2 := by
    intro s
    rw [Network.Registered, Network.getServers, hservers]
    simp
  have hgone := (hreg 1).mp (hwf.tree.parent_registered ((hreg 2).mpr (.inr rfl)) hparent)
  simp at hgone

end MyLifeHome.Irc.Hub

