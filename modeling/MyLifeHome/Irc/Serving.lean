import MyLifeHome.Irc.Writing
import MyLifeHome.Irc.Reading
import Mathlib.Data.List.ReduceOption

/-!
# Commands that return

What a message has to be like for its command to return, as conditions on the message and on what
the hub knows, and that the hub is then still ready for the next one.
-/
namespace MyLifeHome.Irc

open Checked Runs

variable [Locale]

namespace Hub

/-! ## Messages that are accepted -/

/-- A client with a nick and an ident has a real name too, and its connection is open, unless the
nick is taken. -/
def AcceptsRegistration (hub : Hub) (src : Conn) (nick ident realName : Option String) : Prop :=
  ¬isEmpty nick → ¬isEmpty ident →
    ¬isEmpty realName ∧ (hub.net.getUser nick = none → ¬hub.closed src)

/-- The token is a number. A new link is open, and what comes on a link names as its parent a
server that is known, for a new server not the local one. -/
def AcceptsServer (hub : Hub) (src : Conn) (msg : Message) : Prop :=
  match hub.structures src with
  | .unregistered _ _ _ => Succeeds (parseInt (msg.getParameter 2)) ∧
      (IsNewServer hub.net msg → ¬hub.closed src)
  | .server _ => Succeeds (parseInt (msg.getParameter 2)) ∧
      ∀ sender, msg.sender = some sender → ∃ p, hub.net.getServer sender = some p ∧
        (IsNewServer hub.net msg → (hub.net.server p).parent ≠ none)
  | .user _ => True

/-- A user takes no empty nick. A link changes the nick of a user to a parameter, or introduces a
user that has a real name and is not on this hub. -/
def AcceptsNick (hub : Hub) (src : Conn) (msg : Message) : Prop :=
  match hub.structures src with
  | .unregistered _ ident realName => ∀ nick rest, msg.params = nick :: rest → isNickName nick →
      hub.net.getUser (some nick) = none → hub.AcceptsRegistration src (some nick) ident realName
  | .user _ => ∀ nick rest, msg.params = nick :: rest → nick ≠ ""
  | .server _ =>
    match msg.params with
    | [newNick] => (hub.net.getUser msg.sender).isSome ∧ isParameter newNick ∧
        ∀ oldNick, msg.sender = some oldNick → isParameter oldNick
    | _ => 7 ≤ msg.parameterCount → Succeeds (parseInt (msg.getParameter 1)) ∧
        ∃ token, parseInt (msg.getParameter 4) = .ok token ∧
          ∀ home, hub.net.getServerByToken token = some home → ¬isEmpty (msg.getParameter 6) ∧
            (hub.net.getUser (msg.getParameter 0) = none → (hub.net.server home).parent ≠ none)

/-- Each name that is looked at is not empty: one that is empty comes after one that is no
channel's. -/
def NoEmptyName (names : List String) : Prop :=
  ∀ front rest, names = front ++ "" :: rest → ∃ name ∈ front, isChannelIdentifier name = .ok false

/-- Who and what the message is about is there. -/
def Accepts (hub : Hub) (src : Conn) (msg : Message) : Prop :=
  match getCommand msg.command with
  | some .squit => hub.checkServer src → ((msg.getParameter 0).bind hub.net.getServer).isSome
  | some .privmsg | some .notice => hub.checkRegistered src → ∀ target text rest,
      msg.params = target :: text :: rest → isChannelIdentifier target = .ok true →
      (hub.net.getChannel target).isSome → (hub.net.getUser (hub.senderOf src msg)).isSome
  | some .server => hub.AcceptsServer src msg
  | some .part => hub.checkRegistered src → ∀ names rest, msg.params = names :: rest →
      splitComma names ≠ [] → (hub.source src msg).isSome
  | some .join => hub.checkRegistered src →
      (∀ names rest, msg.params = names :: rest → NoEmptyName (splitComma names)) ∧
      (Joins msg → (hub.source src msg).isSome)
  | some .user => ∀ nick ident realName, hub.structures src = .unregistered nick ident realName →
      4 ≤ msg.parameterCount →
        hub.AcceptsRegistration src nick (msg.getParameter 0) (msg.getParameter 3)
  | some .nick => hub.AcceptsNick src msg
  | some .quit => hub.checkServer src → (hub.net.getUser msg.sender).isSome
  | some .kill | some .map | some .pong | some .ping | none => True

/-! ## What a command comes to -/

variable {hub hub' : Hub} {c d src con : Conn} {u v s t r : Ref} {msg : Message}
  {x : Except Fault Hub}

/-- The command returns, and the hub is ready again. -/
def Serves (x : Except Fault Hub) (src : Conn) : Prop := ∃ hub', x = .ok hub' ∧ hub'.Ready src

theorem serves_ok (h : hub.Ready src) : Serves (.ok hub) src := ⟨hub, rfl, h⟩

theorem serves_bind {α : Type} {x : Except Fault α} {f : α → Except Fault Hub} (hx : Succeeds x)
    (hf : ∀ a, x = .ok a → Serves (f a) src) : Serves (x >>= f) src := by
  obtain ⟨a, ha⟩ := hx
  obtain ⟨hub', h', hready⟩ := hf a ha
  exact ⟨hub', bind_eq_ok_iff.mpr ⟨a, ha, h'⟩, hready⟩

/-- A parameter that is not the last. -/
theorem exists_parameter {i : Nat} (hmsg : msg.WellFormed) (hi : i + 1 < msg.parameterCount) :
    ∃ p, msg.getParameter i = some p ∧ isParameter p := by
  have hlt : i < msg.params.length := Nat.lt_of_succ_lt hi
  refine ⟨msg.params[i], List.getElem?_eq_getElem hlt, hmsg.params _ ?_⟩
  have hdrop : i < msg.params.dropLast.length := by
    rw [List.length_dropLast]
    exact Nat.lt_sub_of_add_lt hi
  rw [← List.getElem_dropLast hdrop]
  exact List.getElem_mem hdrop

omit [Locale] in
theorem lt_parameterCount_of_parseInt {i : Nat} (h : Succeeds (parseInt (msg.getParameter i))) :
    i < msg.parameterCount := by
  by_contra hnot
  have hnone : msg.getParameter i = none := List.getElem?_eq_none (Nat.le_of_not_lt hnot)
  rw [hnone] at h
  obtain ⟨n, hn⟩ := h
  simp [parseInt] at hn

open Classical in
/-- A server is added, unless its name or its token is known. -/
theorem createServer_eq (hub : Hub) (hmsg : msg.WellFormed)
    (htoken : Succeeds (parseInt (msg.getParameter 2))) : ∃ name token,
      isParameter name ∧ (IsNewServer hub.net msg → hub.net.getServer name = none ∧
        hub.net.getServerByToken token = none) ∧
      ∀ parent, hub.createServer parent msg = .ok (if IsNewServer hub.net msg then
        .ok (hub.net.next, hub.net.withServer name token parent) else .error .alreadyExists) := by
  obtain ⟨name, hname, hparam⟩ := exists_parameter (i := 0) hmsg
    (Nat.lt_of_succ_lt (lt_parameterCount_of_parseInt htoken))
  obtain ⟨token, htoken⟩ := htoken
  have hnonempty : isEmpty (some name) = false := by
    simpa [isEmpty] using (isParameter_iff.mp hparam).1
  have hiff : IsNewServer hub.net msg ↔
      hub.net.getServer name = none ∧ hub.net.getServerByToken token = none := by
    simp only [IsNewServer, hname, htoken, Option.getD_some]
    constructor
    · exact fun h => ⟨h.1, h.2 token rfl⟩
    · rintro ⟨h1, h2⟩
      refine ⟨h1, fun token' heq => ?_⟩
      obtain rfl := Except.ok.inj heq
      exact h2
  refine ⟨name, token, hparam, hiff.mp, fun parent => ?_⟩
  rw [createServer, htoken, hname]
  change Except.ok (hub.net.serverAdd (some name) token parent) = _
  rw [Network.serverAdd_eq, hnonempty]
  simp only [Option.getD_some, Bool.false_eq_true, if_false, Option.isSome_iff_ne_none]
  by_cases h1 : hub.net.getServer name = none
  · by_cases h2 : hub.net.getServerByToken token = none
    · simp [h1, h2, hiff]
    · simp [h1, h2, hiff]
  · simp [h1, hiff]

theorem serves_bind_ok {α : Type} {a : α} {f : α → Except Fault Hub} (h : Serves (f a) src) :
    Serves (.ok a >>= f) src := h

theorem close_new (hub : Hub) (con : Conn) : (hub.setStructure con .new).close con = .ok { hub with
    structures := Function.update hub.structures con .new
    closed := Function.update hub.closed con true } := by
  have hstr : (hub.setStructure con .new).structures con = .unregistered none none none :=
    Function.update_self ..
  unfold close connectionClosed
  dsimp only
  rw [hstr]
  rfl

omit [Locale] in
/-- The names are looked at up to one that is no channel's. -/
theorem succeeds_checkNames {names : List String} (h : NoEmptyName names) : Succeeds (names.foldlM
    (fun ok name => if ok then isChannelIdentifier name else pure false) true) := by
  induction names with
  | nil => exact succeeds_pure
  | cons name names ih =>
    rw [List.foldlM_cons]
    cases hchars : name.toList with
    | nil =>
      obtain rfl := String.toList_eq_nil_iff.mp hchars
      simpa using h [] names rfl
    | cons c cs =>
      refine Succeeds.bind ?_ fun ok hok => ?_
      · simp [isChannelIdentifier, hchars, Succeeds]
      · cases ok with
        | false =>
          exact succeeds_foldlM (I := fun ok => ok = false) (fun _ hs => by simp [hs, succeeds_pure])
            (fun _ hs hf => by
              subst hs
              exact (Except.ok.inj hf).symm) rfl
        | true =>
          refine ih fun front rest heq => ?_
          obtain ⟨n, hn, hfalse⟩ := h (name :: front) rest (by rw [heq]; rfl)
          rcases List.mem_cons.mp hn with rfl | hn
          · simp only [if_true] at hok
            rw [hok] at hfalse
            simp at hfalse
          · exact ⟨n, hn, hfalse⟩

theorem partChannel_channel_name {reason : Option String}
    (hok : hub.partChannel src u c reason = .ok hub') :
    (hub'.net.channel d).name = (hub.net.channel d).name := by
  obtain ⟨m, _, hok⟩ := bind_eq_ok_iff.mp hok
  obtain ⟨full, _, hok⟩ := bind_eq_ok_iff.mp hok
  obtain ⟨hub₁, h₁, hok⟩ := bind_eq_ok_iff.mp hok
  obtain ⟨hub₂, h₂, hok⟩ := bind_eq_ok_iff.mp hok
  obtain rfl := Except.ok.inj hok
  have hw : Wrote hub₁ hub₂ := by
    split_ifs at h₂
    · exact wrote_send h₂
    · obtain rfl := Except.ok.inj h₂
      exact .refl
  change ((hub₂.net.userPart u c).channel d).name = _
  rw [Network.userPart_channel_name, ((wrote_dispatchUserMessage h₁).trans hw).net]

namespace Ready

theorem serves_of_wrote (h : hub.Ready src) (hx : Succeeds x)
    (hw : ∀ {hub'}, x = .ok hub' → Wrote hub hub') : Serves x src := by
  obtain ⟨hub', hok⟩ := hx
  exact ⟨hub', hok, h.wrote (hw hok)⟩

theorem serves_replyError (h : hub.Ready src) {num : Numerics}
    (htext : (getResourceString num.name).isSome) : Serves (hub.replyError src num) src :=
  h.serves_of_wrote (h.succeeds_replyError htext) wrote_replyError

/-- The message goes to the links and to the users who see it, and then the users are fewer. -/
theorem serves_userRemove (h : hub.Ready src) {excluded : List Conn} :
    Serves (do
      let hub ← hub.dispatchUserMessage u msg excluded
      pure { hub with net := hub.net.userRemove u }) src :=
  serves_bind h.succeeds_dispatchUserMessage fun _ h₁ =>
    serves_ok ((h.wrote (wrote_dispatchUserMessage h₁)).userRemove u)

/-! ## Commands about servers -/

theorem squit (h : hub.Ready src) (hcareful : hub.checkServer src →
      ∀ s, (msg.getParameter 0).bind hub.net.getServer = some s → hub.net.Leaf s)
    (haccepts : hub.checkServer src → ((msg.getParameter 0).bind hub.net.getServer).isSome) :
    Serves (hub.squit src msg) src := by
  unfold Hub.squit
  split
  · exact h.serves_replyError (by decide)
  · exact h.serves_replyError (by decide)
  · rename_i hstr
    have hserver : hub.checkServer src := by simp [checkServer, hstr]
    obtain ⟨s, hs⟩ := Option.isSome_iff_exists.mp (haccepts hserver)
    obtain ⟨name, hname, hget⟩ := Option.bind_eq_some_iff.mp hs
    have hreg : hub.net.Registered s := Dictionary.mem_values_iff.mpr ⟨_, hget⟩
    have hleaf := hcareful hserver s hs
    rw [hname]
    dsimp only
    rw [hget]
    obtain ⟨r, hr⟩ := h.exists_local
    obtain ⟨users, husers, _⟩ := h.sound.getUsersBehindServer_eq_ok hreg
    refine serves_bind (succeeds_sendNetSplit hr (h.plain.servers s hreg) ⟨users, husers⟩
      (fun t ht _ => h.reaches_peer hr ht) ?_) fun hub₁ h₁ => ?_
    · intro v hv
      obtain ⟨hmem, hlocal⟩ := h.sound.isLocal_of_mem hr hv
      exact h.reaches_local hmem hlocal
    · have hw := wrote_sendNetSplit h₁
      rw [← hw.net] at hreg hleaf
      exact serves_ok ((h.wrote hw).serverRemove hreg hleaf)

theorem serverInvoke (h : hub.Ready src) (hstr : hub.structures src = .server s)
    (hmsg : msg.WellFormed)
    (hcareful : msg.sender = none → IsNewServer hub.net msg → hub.net.Registered s)
    (htoken : Succeeds (parseInt (msg.getParameter 2)))
    (hsender : ∀ sender, msg.sender = some sender → ∃ p, hub.net.getServer sender = some p ∧
      (IsNewServer hub.net msg → (hub.net.server p).parent ≠ none)) :
    Serves (hub.serverInvoke src s msg) src := by
  classical
  obtain ⟨name, token, hname, hfree, hcreate⟩ := hub.createServer_eq hmsg htoken
  -- the server of the message goes behind one that is there
  have hcommon : ∀ p, (IsNewServer hub.net msg →
      hub.net.Registered p ∧ (hub.net.server p).parent ≠ none) →
      hub.serverInvoke src s msg = (if IsNewServer hub.net msg then
        ({ hub with net := hub.net.withServer name token (some p) } : Hub).publishServer
          hub.net.next [src] else pure hub) → Serves (hub.serverInvoke src s msg) src := by
    intro p hp heq
    rw [heq]
    by_cases hnew : IsNewServer hub.net msg
    · obtain ⟨hfreename, hfreetoken⟩ := hfree hnew
      have hready := h.withServer hfreename hfreetoken (hp hnew).1 (hp hnew).2 hname
      rw [if_pos hnew]
      refine hready.serves_of_wrote (hready.succeeds_publishServer ?_ ?_) wrote_publishServer
      · exact (Network.registered_withServer hfreename).mpr (.inr rfl)
      · rw [Network.withServer_server, if_pos rfl]
        simp
    · rw [if_neg hnew]
      exact serves_ok h
  cases hs : msg.sender with
  | none =>
    refine hcommon s (fun hnew => ⟨hcareful hs hnew, h.links src s hstr⟩) ?_
    unfold Hub.serverInvoke
    rw [hs]
    dsimp only
    rw [hcreate, Option.isSome_some, if_pos rfl]
    split_ifs <;> rfl
  | some sender =>
    obtain ⟨p, hget, hp⟩ := hsender sender hs
    have hreg : hub.net.Registered p := Dictionary.mem_values_iff.mpr ⟨_, hget⟩
    refine hcommon p (fun hnew => ⟨hreg, hp hnew⟩) ?_
    unfold Hub.serverInvoke
    rw [hs]
    dsimp only
    rw [hget, hcreate, Option.isSome_some, if_pos rfl]
    split_ifs <;> rfl

/-- The hub gives the connection up on which nobody is. -/
theorem serves_close (h : hub.Ready src) (con : Conn) (hunreg : hub.Unregistered con) :
    Serves (hub.close con) src := by
  obtain ⟨nick, ident, realName, hstr⟩ := hunreg
  have hready := h.closing con (fun u _ => by simp [hstr]) (fun s _ => by simp [hstr])
    fun _ => ⟨nick, ident, realName, hstr⟩
  refine ⟨_, ?_, hready⟩
  rw [close, connectionClosed]
  simp only [hstr]

theorem serverUnregisteredInvoke (h : hub.Ready src) (hunreg : hub.Unregistered src)
    (hmsg : msg.WellFormed) (htoken : Succeeds (parseInt (msg.getParameter 2)))
    (hopen : IsNewServer hub.net msg → ¬hub.closed src) :
    Serves (hub.serverUnregisteredInvoke src msg) src := by
  classical
  obtain ⟨name, token, hname, hfree, hcreate⟩ := hub.createServer_eq hmsg htoken
  obtain ⟨r, hr⟩ := h.exists_local
  unfold Hub.serverUnregisteredInvoke
  rw [hcreate, hr]
  by_cases hnew : IsNewServer hub.net msg
  · obtain ⟨hfreename, hfreetoken⟩ := hfree hnew
    have hready := h.link hfreename hfreetoken hr hname hunreg (hopen hnew)
    rw [if_pos hnew]
    refine serves_bind_ok (serves_bind (hready.succeeds_publishServer ?_ ?_) fun hub₁ h₁ => ?_)
    · change (hub.net.withServer name token (some r)).Registered hub.net.next
      exact (Network.registered_withServer hfreename).mpr (.inr rfl)
    · change ((hub.net.withPeer name token r src).server hub.net.next).parent ≠ none
      rw [Network.withPeer, Network.setServerConnection_server, Network.withServer_server]
      simp
    · have h₁ := hready.wrote (wrote_publishServer h₁)
      exact h₁.serves_of_wrote (h₁.succeeds_sendNetSync h₁.source) wrote_sendNetSync
  · rw [if_neg hnew]
    have hsend : Serves (hub.send src ⟨none, "ERROR",
        [(getResourceString Numerics.ERR_ALREADYREGISTRED.name).getD "null"], true⟩ >>= fun hub =>
          hub.close src) src := by
      refine serves_bind (succeeds_send h.source) fun hub₁ h₁ => ?_
      have hw := wrote_send h₁
      refine (h.wrote hw).serves_close _ ?_
      rwa [Unregistered, hw.structures]
    exact hsend

theorem server (h : hub.Ready src) (hmsg : msg.WellFormed)
    (hcareful : ∀ s, hub.structures src = .server s → msg.sender = none →
      IsNewServer hub.net msg → hub.net.Registered s)
    (haccepts : hub.AcceptsServer src msg) : Serves (hub.server src msg) src := by
  unfold Hub.server
  unfold AcceptsServer at haccepts
  split
  · rename_i s hstr
    rw [hstr] at haccepts
    exact h.serverInvoke hstr hmsg (hcareful s hstr) haccepts.1 haccepts.2
  · exact h.serves_replyError (by decide)
  · rename_i hstr
    rw [hstr] at haccepts
    exact h.serverUnregisteredInvoke ⟨_, _, _, hstr⟩ hmsg haccepts.1 haccepts.2

/-! ## Commands about channels -/

theorem serves_partChannel (h : hub.Ready src) {reason : Option String}
    (hc : isParameter (hub.net.channel c).name) :
    Serves (hub.partChannel src u c reason) src := by
  have hpart : (Message.make (some (hub.net.user u).nick) "PART").appendParameter
      (hub.net.channel c).name = .ok ⟨some (hub.net.user u).nick, "PART", [(hub.net.channel c).name],
        false⟩ := by
    simp [Message.make, Message.appendParameter, hc]
  unfold Hub.partChannel
  dsimp only
  rw [hpart]
  refine serves_bind_ok (serves_bind (succeeds_appendText rfl reason) fun full _ => ?_)
  refine serves_bind h.succeeds_dispatchUserMessage fun hub₁ h₁ => ?_
  have h₁ := h.wrote (wrote_dispatchUserMessage h₁)
  have hown : Succeeds (if hub₁.net.isLocal u then hub₁.send src
      ⟨some (hub.net.user u).nick, "PART", [(hub.net.channel c).name], false⟩ else pure hub₁) := by
    split_ifs
    · exact succeeds_send h₁.source
    · exact succeeds_pure
  refine serves_bind hown fun hub₂ h₂ => ?_
  have hw : Wrote hub₁ hub₂ := by
    split_ifs at h₂
    · exact wrote_send h₂
    · obtain rfl := Except.ok.inj h₂
      exact .refl
  exact serves_ok ((h₁.wrote hw).userPart u c)

theorem part (h : hub.Ready src) (haccepts : hub.checkRegistered src → ∀ names rest,
      msg.params = names :: rest → splitComma names ≠ [] → (hub.source src msg).isSome) :
    Serves (hub.part src msg) src := by
  unfold Hub.part
  by_cases hregistered : hub.checkRegistered src
  swap
  · rw [if_pos (by simpa using hregistered)]
    exact h.serves_replyError (by decide)
  rw [if_neg (by simpa using hregistered)]
  split
  · exact h.serves_replyError (by decide)
  rename_i names rest hparams
  have hsource := haccepts hregistered names rest hparams
  dsimp only
  cases hs : hub.source src msg with
  | none =>
    have hnil : splitComma names = [] := by
      by_contra hne
      simpa [hs] using hsource hne
    rw [if_pos hnil]
    exact serves_ok h
  | some u =>
    dsimp only
    split_ifs with hnone
    · exact h.serves_replyError (by decide)
    -- the channels of the user are channels of the network, and they keep their names
    generalize hlist : ((splitComma names).map fun name =>
      (hub.net.user u).channels.get (Locale.toLowerCase name)) = channels
    have hnames : ∀ c ∈ channels.reduceOption, isParameter (hub.net.channel c).name := by
      intro c hc
      rw [List.reduceOption_mem_iff, ← hlist] at hc
      obtain ⟨name, _, hget⟩ := List.mem_map.mp hc
      by_cases hu : u ∈ hub.net.users
      · exact h.plain.channels _ c (h.sound.memberships.joined u hu _ c hget).1
      · rw [h.sound.left u hu] at hget
        simp at hget
    have step : ∀ {c : Ref} {cs : List Ref} {hub₁ : Hub},
        (hub₁.Ready src ∧ ∀ d ∈ c :: cs, isParameter (hub₁.net.channel d).name) →
        ∃ hub₂, hub₁.partChannel src u c rest.head? = .ok hub₂ ∧
          hub₂.Ready src ∧ ∀ d ∈ cs, isParameter (hub₂.net.channel d).name := by
      rintro c cs hub₁ ⟨h₁, hcs⟩
      have hpart : Serves (hub₁.partChannel src u c rest.head?) src :=
        h₁.serves_partChannel (hcs c List.mem_cons_self)
      obtain ⟨hub₂, h₂, hready⟩ := hpart
      refine ⟨hub₂, h₂, hready, fun d hd => ?_⟩
      have hname := hcs d (List.mem_cons_of_mem c hd)
      rwa [partChannel_channel_name h₂]
    obtain ⟨hub', hok, hready, _⟩ := exists_foldlM
      (f := fun (hub : Hub) channel => hub.partChannel src u channel rest.head?)
      (I := fun cs (hub' : Hub) => hub'.Ready src ∧ ∀ c ∈ cs, isParameter (hub'.net.channel c).name)
      step ⟨h, hnames⟩
    exact ⟨hub', hok, hready⟩

theorem serves_joinChannel (h : hub.Ready src) {name : String} (hu : u ∈ hub.net.users)
    (hname : isChannelIdentifier name = .ok true) :
    ∃ hub', hub.joinChannel src (some u) name = .ok hub' ∧ hub'.Ready src ∧ u ∈ hub'.net.users := by
  have hparam := isParameter_of_isChannelIdentifier hname
  obtain ⟨net', hjoin⟩ : ∃ net', hub.net.userJoin (some u) name = .ok net' :=
    ⟨_, Network.userJoin_eq_ok_iff.mpr ⟨u, rfl, (isParameter_iff.mp hparam).1, rfl⟩⟩
  have hready := h.userJoin hu hparam hjoin
  have husers := (Network.userJoin_frame hjoin).2
  have hu' : u ∈ net'.users := husers ▸ hu
  obtain ⟨channel, hchannel⟩ : ∃ channel, net'.getChannel name = some channel := by
    obtain ⟨v, hv, _, rfl⟩ := Network.userJoin_eq_ok_iff.mp hjoin
    have hget := (h.sound.withChannel name).2
    split_ifs
    · exact ⟨_, hget⟩
    · exact ⟨_, hget⟩
  have hserves : Serves (hub.joinChannel src (some u) name) src := by
    unfold Hub.joinChannel
    rw [hjoin]
    refine serves_bind_ok ?_
    dsimp only
    rw [hchannel]
    refine serves_bind ?_ fun m _ => ?_
    · simp [Message.make, Message.appendParameter, hparam, Succeeds]
    · refine serves_bind hready.succeeds_dispatchUserMessage fun hub₁ h₁ => ?_
      have hw := wrote_dispatchUserMessage h₁
      have h₁ := hready.wrote hw
      refine h₁.serves_of_wrote (h₁.succeeds_welcome ?_ ?_) wrote_welcome
      · rw [hw.net]
        exact hu'
      · rw [hw.net]
        exact hready.plain.channels _ channel hchannel
  obtain ⟨hub', hok, hready'⟩ := hserves
  obtain ⟨_, net'', hv, hjoin', hw⟩ := joinChannel_eq_ok hok
  obtain rfl := Option.some.inj hv
  obtain rfl := Except.ok.inj (hjoin.symm.trans hjoin')
  exact ⟨hub', hok, hready', by rw [hw.net]; exact hu'⟩

theorem join (h : hub.Ready src)
    (hcareful : ∀ u, hub.structures src = .user u → Joins msg → u ∈ hub.net.users)
    (haccepts : hub.checkRegistered src →
      (∀ names rest, msg.params = names :: rest → NoEmptyName (splitComma names)) ∧
      (Joins msg → (hub.source src msg).isSome)) : Serves (hub.join src msg) src := by
  unfold Hub.join
  by_cases hregistered : hub.checkRegistered src
  swap
  · rw [if_pos (by simpa using hregistered)]
    exact h.serves_replyError (by decide)
  rw [if_neg (by simpa using hregistered)]
  obtain ⟨hempty, hsource⟩ := haccepts hregistered
  split
  · exact h.serves_replyError (by decide)
  rename_i names rest hparams
  dsimp only
  refine serves_bind (succeeds_checkNames (hempty names rest hparams)) fun ok hok => ?_
  cases ok with
  | false => exact h.serves_replyError (by decide)
  | true =>
    have hnames := checkNames_eq_ok.mp hok
    rw [if_pos rfl]
    by_cases hnil : splitComma names = []
    · rw [hnil]
      exact serves_ok h
    have hjoins : Joins msg := ⟨names, rest, hparams, hnil, hnames⟩
    obtain ⟨u, hu⟩ := Option.isSome_iff_exists.mp (hsource hjoins)
    have hmem : u ∈ hub.net.users := by
      unfold Hub.source at hu
      split at hu
      · rename_i v hstr
        obtain rfl := Option.some.inj hu
        exact hcareful v hstr hjoins
      · exact (Network.getUser_eq_some hu).1
    rw [hu]
    have step : ∀ {name : String} {names : List String} {hub₁ : Hub},
        ((∀ n ∈ name :: names, isChannelIdentifier n = .ok true) ∧ hub₁.Ready src ∧
          u ∈ hub₁.net.users) → ∃ hub₂, hub₁.joinChannel src (some u) name = .ok hub₂ ∧
        (∀ n ∈ names, isChannelIdentifier n = .ok true) ∧ hub₂.Ready src ∧ u ∈ hub₂.net.users := by
      rintro name names hub₁ ⟨hnames, h₁, hu₁⟩
      obtain ⟨hub₂, h₂, hready, hu₂⟩ := h₁.serves_joinChannel hu₁ (hnames name List.mem_cons_self)
      exact ⟨hub₂, h₂, fun n hn => hnames n (List.mem_cons_of_mem name hn), hready, hu₂⟩
    obtain ⟨hub', hok, _, hready, _⟩ := exists_foldlM
      (f := fun (hub' : Hub) name => hub'.joinChannel src (some u) name)
      (I := fun names (hub' : Hub) => (∀ name ∈ names, isChannelIdentifier name = .ok true) ∧
        hub'.Ready src ∧ u ∈ hub'.net.users) step ⟨hnames, h, hmem⟩
    exact ⟨hub', hok, hready⟩

/-! ## Commands about users -/

/-- A client that is not registered is sent away. -/
theorem serves_userError (h : hub.Ready src) (hunreg : hub.Unregistered src)
    {reason : Option String} : Serves (hub.userError src reason) src := by
  obtain ⟨nick, ident, realName, hstr⟩ := hunreg
  unfold Hub.userError
  rw [hstr]
  dsimp only
  refine serves_bind_ok (serves_bind (succeeds_send h.source) fun hub₁ h₁ => ?_)
  have hw := wrote_send h₁
  have h₁ := h.wrote hw
  have hunreg₁ : hub₁.Unregistered src := ⟨nick, ident, realName, by rw [hw.structures, hstr]⟩
  have hnew := h₁.setUnregistered hunreg₁ none none none
    (by simp) (by simp)
  obtain ⟨hub₂, h₂, hready⟩ := hnew.serves_close src
    ⟨none, none, none, Function.update_self ..⟩
  exact ⟨hub₂, bind_eq_ok_iff.mpr ⟨hub₂, h₂, rfl⟩, hready⟩

theorem serves_unregisteredCheck (h : hub.Ready src) {nick ident realName : Option String}
    (hstr : hub.structures src = .unregistered nick ident realName)
    (haccepts : hub.AcceptsRegistration src nick ident realName) :
    Serves (hub.unregisteredCheck src nick ident realName) src := by
  unfold Hub.unregisteredCheck
  split_ifs with hincomplete
  · exact serves_ok h
  obtain ⟨hnick, hident⟩ := not_or.mp hincomplete
  obtain ⟨hreal, hopen⟩ := haccepts hnick hident
  obtain ⟨r, hr⟩ := h.exists_local
  obtain ⟨host, hhost, hhostparam⟩ := h.hosts src
  have hhostne : ¬isEmpty (some host) := by simpa [isEmpty] using (isParameter_iff.mp hhostparam).1
  rw [hr, hhost]
  dsimp only
  cases hget : hub.net.getUser nick with
  | some v =>
    have hexists : hub.net.userAdd r nick ident (some host) realName = .error .alreadyExists := by
      rw [Network.userAdd, if_neg, hget]
      · rfl
      · simp [hnick, hident, hhostne, hreal]
    rw [hexists]
    exact h.serves_userError ⟨nick, ident, realName, hstr⟩
  | none =>
    obtain ⟨n, rfl⟩ : ∃ n, nick = some n := by
      cases nick with
      | none => simp [isEmpty] at hnick
      | some n => exact ⟨n, rfl⟩
    obtain ⟨i, rfl⟩ : ∃ i, ident = some i := by
      cases ident with
      | none => simp [isEmpty] at hident
      | some i => exact ⟨i, rfl⟩
    obtain ⟨hnickname, hidentparam⟩ := h.waiting src _ _ _ hstr
    have hnickparam : isParameter n := isParameter_of_isNickName (hnickname n rfl) (by
      simpa [isEmpty] using hnick)
    have hadd : hub.net.userAdd r (some n) (some i) (some host) realName = .ok (hub.net.next,
        hub.net.withUser ⟨r, n, i, host, realName.getD "", none, .empty⟩) :=
      Network.userAdd_eq_ok_iff.mpr ⟨⟨hnick, hident, hhostne, hreal⟩, hget, rfl, rfl⟩
    have hready := h.register ⟨r, n, i, host, realName.getD "", none, .empty⟩ hr hget rfl
      ⟨hnickparam, hidentparam i rfl, hhostparam⟩ ⟨_, _, _, hstr⟩ (hopen hget)
    rw [hadd]
    dsimp only
    have hmem : hub.net.next ∈ (hub.net.withLocalUser
        ⟨r, n, i, host, realName.getD "", none, .empty⟩ src).users :=
      List.mem_append_right _ List.mem_cons_self
    have hlocal : (hub.net.withLocalUser
        ⟨r, n, i, host, realName.getD "", none, .empty⟩ src).isLocal hub.net.next :=
      hready.sound.isLocal_withLocalUser hr
    refine serves_bind (hready.succeeds_dispatchNewUser hmem) fun hub₁ h₁ => ?_
    have hw := wrote_dispatchNewUser h₁
    have h₁ := hready.wrote hw
    refine h₁.serves_of_wrote (h₁.succeeds_userWelcome ?_ ?_) wrote_userWelcome
    · rw [hw.net]
      exact hmem
    · rw [hw.net]
      exact hlocal

theorem user (h : hub.Ready src) (hmsg : msg.WellFormed)
    (haccepts : ∀ nick ident realName, hub.structures src = .unregistered nick ident realName →
      4 ≤ msg.parameterCount →
        hub.AcceptsRegistration src nick (msg.getParameter 0) (msg.getParameter 3)) :
    Serves (hub.user src msg) src := by
  unfold Hub.user
  split
  · rename_i nick ident realName hstr
    split_ifs with hcount
    · exact h.serves_replyError (by decide)
    have hfour := Nat.le_of_not_lt hcount
    obtain ⟨i, hi, hparam⟩ := exists_parameter (i := 0) hmsg (Nat.lt_of_lt_of_le (by decide) hfour)
    have hready := h.setUnregistered ⟨nick, ident, realName, hstr⟩ nick
      (msg.getParameter 0) (msg.getParameter 3)
      (h.waiting src _ _ _ hstr).1 (fun j hj => by
        obtain rfl := Option.some.inj (hi.symm.trans hj)
        exact hparam)
    refine hready.serves_unregisteredCheck (Function.update_self ..) ?_
    exact haccepts nick ident realName hstr hfour
  · exact h.serves_replyError (by decide)

/-- A local user is disconnected, and stays on the network for the moment. -/
theorem disconnectLocal_eq_ok (h : hub.Ready src) (reason : Option String)
    (hu : u ∈ hub.net.users) :
    ∃ hub', hub.disconnectLocal u reason = .ok hub' ∧ hub'.Ready src ∧ hub'.net = hub.net := by
  unfold Hub.disconnectLocal
  split_ifs with hlocal
  · obtain ⟨con, hcon, hattached⟩ := h.locals u hu hlocal
    rw [hcon]
    dsimp only
    have herror : Succeeds (hub.send con ⟨none, "ERROR", [reason.getD "null"], true⟩) :=
      succeeds_send hattached.writable
    obtain ⟨hub₁, h₁⟩ := herror
    have hw := wrote_send h₁
    have hno : ∀ s, hub₁.structures con ≠ .server s := by
      intro s hs
      rw [hw.structures] at hs
      rcases hattached with ⟨hstr, _⟩ | ⟨_, nick, ident, realName, hstr⟩ <;> simp [hstr] at hs
    exact ⟨_, bind_eq_ok_iff.mpr ⟨_, rfl, bind_eq_ok_iff.mpr ⟨hub₁, h₁, close_new hub₁ con⟩⟩,
      (h.wrote hw).drop hno, hw.net⟩
  · exact ⟨hub, rfl, h, rfl⟩

theorem kill (h : hub.Ready src) : Serves (hub.kill src msg) src := by
  unfold Hub.kill
  split_ifs
  · split
    · exact serves_ok h
    · rename_i u hu
      refine serves_bind h.succeeds_dispatchServerMessage fun hub₁ h₁ => ?_
      have hw := wrote_dispatchServerMessage h₁
      have hmem := (Network.getUser_eq_some hu).1
      rw [← hw.net] at hmem
      obtain ⟨hub₂, h₂, hready, _⟩ := (h.wrote hw).disconnectLocal_eq_ok
        (msg.getParameter 1) hmem
      exact ⟨_, bind_eq_ok_iff.mpr ⟨hub₂, h₂, rfl⟩, hready.userRemove u⟩
  · exact h.serves_replyError (by decide)

theorem serves_handleNickCollision (h : hub.Ready src) {nick1 nick2 : Option String}
    (h1 : ∀ n, nick1 = some n → isParameter n) (h2 : ∀ n, nick2 = some n → isParameter n) :
    Serves (hub.handleNickCollision nick1 nick2) src := by
  have hlocal : ∀ {hub' : Hub} (nick : Option String), hub'.Ready src → hub'.net = hub.net →
      ∃ hub'', hub'.disconnectLocalNickCollision (hub.net.getUser nick) = .ok hub'' ∧
        hub''.Ready src ∧ hub''.net = hub.net := by
    intro hub' nick h' hnet
    cases hget : hub.net.getUser nick with
    | none => exact ⟨hub', rfl, h', hnet⟩
    | some u =>
      have hu := (Network.getUser_eq_some hget).1
      rw [← hnet] at hu
      obtain ⟨hub'', h'', hready, hnet'⟩ := h'.disconnectLocal_eq_ok
        (some nickCollisionReason) hu
      exact ⟨hub'', h'', hready, hnet'.trans hnet⟩
  have hremove : ∀ {hub' : Hub} (user : Option Ref), hub'.Ready src → (hub'.removeUser user).Ready src := by
    intro hub' user h'
    cases user with
    | none => exact h'
    | some u => exact h'.userRemove u
  obtain ⟨hub₁, h₁⟩ := h.succeeds_dispatchNickCollision (hub.net.getUser nick1) h1
  have hw₁ := wrote_dispatchNickCollision h₁
  obtain ⟨hub₂, h₂⟩ := (h.wrote hw₁).succeeds_dispatchNickCollision (hub.net.getUser nick2) h2
  have hw₂ := hw₁.trans (wrote_dispatchNickCollision h₂)
  obtain ⟨hub₃, h₃, hready₃, hnet₃⟩ := hlocal nick1 (h.wrote hw₂) hw₂.net
  obtain ⟨hub₄, h₄, hready₄, _⟩ := hlocal nick2 hready₃ hnet₃
  refine ⟨_, ?_, hremove (hub.net.getUser nick2) (hremove (hub.net.getUser nick1) hready₄)⟩
  unfold Hub.handleNickCollision
  exact bind_eq_ok_iff.mpr ⟨hub₁, h₁, bind_eq_ok_iff.mpr ⟨hub₂, h₂, bind_eq_ok_iff.mpr ⟨hub₃, h₃,
    bind_eq_ok_iff.mpr ⟨hub₄, h₄, rfl⟩⟩⟩⟩

/-- The nick of a user changes, unless it is taken. -/
theorem serves_changeNick (h : hub.Ready src) {oldNick newNick : String} {excluded : List Conn}
    (hfree : hub.net.getUser (some newNick) = none) (hparam : isParameter newNick)
    (hcon : u ∈ hub.net.users ∨ hub.structures src = .user u) :
    Serves (Hub.dispatchNickChange
      { hub with net := hub.net.modifyUser u fun user => { user with nick := newNick } } u oldNick newNick
      excluded) src := by
  have hready := h.setNick (u := u) hfree hparam
  refine hready.serves_of_wrote (hready.succeeds_dispatchNickChange hparam ?_) wrote_dispatchNickChange
  intro hlocal
  rcases hcon with hu | hstr
  · exact hready.reaches_local hu hlocal
  · exact ⟨src, (hready.users src u hstr).2.1, hready.source⟩

theorem serves_nickUserInvoke (h : hub.Ready src) (hstr : hub.structures src = .user u)
    (haccepts : ∀ nick rest, msg.params = nick :: rest → nick ≠ "") :
    Serves (hub.nickUserInvoke src u msg) src := by
  unfold Hub.nickUserInvoke
  split
  · exact h.serves_replyError (by decide)
  rename_i newNick rest hparams
  have hne := haccepts newNick rest hparams
  dsimp only
  split_ifs with hname hsame
  · exact serves_ok h
  · have hparam := isParameter_of_isNickName hname hne
    cases hget : hub.net.getUser (some newNick) with
    | some v =>
      have hexists : hub.net.userChangeNick (some u) newNick = .error .alreadyExists := by
        simp [Network.userChangeNick, hne, hget]
      rw [hexists]
      exact h.serves_replyError (by decide)
    | none =>
      have hchange : hub.net.userChangeNick (some u) newNick = .ok (hub.net.modifyUser u fun user =>
          { user with nick := newNick }) :=
        Network.userChangeNick_eq_ok_iff.mpr ⟨u, rfl, hne, hget, rfl⟩
      rw [hchange]
      exact h.serves_changeNick hget hparam (.inr hstr)
  · exact h.serves_replyError (by decide)

theorem serves_nickChangeInvoke (h : hub.Ready src) {oldNick : Option String} {newNick : String}
    (huser : (hub.net.getUser oldNick).isSome) (hparam : isParameter newNick)
    (hold : ∀ n, oldNick = some n → isParameter n) :
    Serves (hub.nickChangeInvoke src oldNick newNick) src := by
  obtain ⟨u, hu⟩ := Option.isSome_iff_exists.mp huser
  have hne := (isParameter_iff.mp hparam).1
  unfold Hub.nickChangeInvoke
  rw [hu]
  dsimp only
  cases hget : hub.net.getUser (some newNick) with
  | some v =>
    have hexists : hub.net.userChangeNick (some u) newNick = .error .alreadyExists := by
      simp [Network.userChangeNick, hne, hget]
    rw [hexists]
    exact h.serves_handleNickCollision hold fun n hn => Option.some.inj hn ▸ hparam
  | none =>
    have hchange : hub.net.userChangeNick (some u) newNick = .ok (hub.net.modifyUser u fun user =>
        { user with nick := newNick }) :=
      Network.userChangeNick_eq_ok_iff.mpr ⟨u, rfl, hne, hget, rfl⟩
    rw [hchange]
    exact h.serves_changeNick hget hparam (.inl (Network.getUser_eq_some hu).1)

theorem serves_newUserInvoke (h : hub.Ready src) (hmsg : msg.WellFormed)
    (haccepts : 7 ≤ msg.parameterCount → Succeeds (parseInt (msg.getParameter 1)) ∧
        ∃ token, parseInt (msg.getParameter 4) = .ok token ∧
          ∀ home, hub.net.getServerByToken token = some home → ¬isEmpty (msg.getParameter 6) ∧
            (hub.net.getUser (msg.getParameter 0) = none → (hub.net.server home).parent ≠ none)) :
    Serves (hub.newUserInvoke src msg) src := by
  unfold Hub.newUserInvoke
  split_ifs with hcount
  · exact h.serves_replyError (by decide)
  have hseven := Nat.le_of_not_lt hcount
  obtain ⟨⟨hopcount, hhops⟩, token, htoken, hhome⟩ := haccepts hseven
  have hget : ∀ i, i + 1 < 7 → ∃ p, msg.getParameter i = some p ∧ isParameter p ∧ ¬isEmpty (some p) := by
    intro i hi
    obtain ⟨p, hp, hparam⟩ := exists_parameter hmsg (Nat.lt_of_lt_of_le hi hseven)
    exact ⟨p, hp, hparam, by simpa [isEmpty] using (isParameter_iff.mp hparam).1⟩
  obtain ⟨nick, hnick, hnickparam, hnickne⟩ := hget 0 (by decide)
  obtain ⟨ident, hident, hidentparam, hidentne⟩ := hget 2 (by decide)
  obtain ⟨host, hhost, hhostparam, hhostne⟩ := hget 3 (by decide)
  rw [hhops, htoken, hnick, hident, hhost]
  refine serves_bind_ok (serves_bind_ok ?_)
  cases hserver : hub.net.getServerByToken token with
  | none => exact h.serves_replyError (by decide)
  | some home =>
    obtain ⟨hreal, hparent⟩ := hhome home hserver
    rw [hnick] at hparent
    dsimp only
    cases hfree : hub.net.getUser (some nick) with
    | some v =>
      have hexists : hub.net.userAdd home (some nick) (some ident) (some host) (msg.getParameter 6) =
          .error .alreadyExists := by
        rw [Network.userAdd, if_neg, hfree]
        · rfl
        · simp [hnickne, hidentne, hhostne, hreal]
      rw [hexists]
      exact h.serves_handleNickCollision (fun n hn => Option.some.inj hn ▸ hnickparam) (by simp)
    | none =>
      have hadd : hub.net.userAdd home (some nick) (some ident) (some host) (msg.getParameter 6) =
          .ok (hub.net.next, hub.net.withUser
            ⟨home, nick, ident, host, (msg.getParameter 6).getD "", none, .empty⟩) :=
        Network.userAdd_eq_ok_iff.mpr ⟨⟨hnickne, hidentne, hhostne, hreal⟩, hfree, rfl, rfl⟩
      have hreg : hub.net.Registered home :=
        (h.sound.tree.indexes home).mpr (Dictionary.mem_values_iff.mpr ⟨token, hserver⟩)
      have hready := h.withUser
        ⟨home, nick, ident, host, (msg.getParameter 6).getD "", none, .empty⟩ hreg
        (hparent hfree) hfree rfl ⟨hnickparam, hidentparam, hhostparam⟩
      rw [hadd]
      exact hready.serves_of_wrote (hready.succeeds_dispatchNewUser
        (List.mem_append_right _ List.mem_cons_self)) wrote_dispatchNewUser

theorem nick (h : hub.Ready src) (hmsg : msg.WellFormed) (haccepts : hub.AcceptsNick src msg) :
    Serves (hub.nick src msg) src := by
  unfold Hub.nick
  unfold AcceptsNick at haccepts
  split
  · rename_i s hstr
    simp only [hstr] at haccepts
    split
    · rename_i newNick hparams
      simp only [hparams] at haccepts
      exact h.serves_nickChangeInvoke haccepts.1 haccepts.2.1 haccepts.2.2
    · rename_i hparams
      refine h.serves_newUserInvoke hmsg ?_
      split at haccepts
      · rename_i newNick hone
        exact absurd hone (hparams newNick)
      · exact haccepts
  · rename_i u hstr
    rw [hstr] at haccepts
    exact h.serves_nickUserInvoke hstr haccepts
  · rename_i nick ident realName hstr
    rw [hstr] at haccepts
    unfold Hub.nickUnregisteredInvoke
    split
    · exact h.serves_replyError (by decide)
    rename_i newNick rest hparams
    split_ifs with hname htaken
    · exact h.serves_replyError (by decide)
    · have hfree : hub.net.getUser (some newNick) = none := by simpa using htaken
      have hready := h.setUnregistered ⟨nick, ident, realName, hstr⟩ (some newNick)
        ident realName (fun n hn => Option.some.inj hn ▸ hname)
        (h.waiting src _ _ _ hstr).2
      exact hready.serves_unregisteredCheck (Function.update_self ..)
        (haccepts newNick rest hparams hname hfree)
    · exact h.serves_replyError (by decide)

theorem quit (h : hub.Ready src)
    (haccepts : hub.checkServer src → (hub.net.getUser msg.sender).isSome) :
    Serves (hub.quit src msg) src := by
  unfold Hub.quit
  split
  · exact h.serves_replyError (by decide)
  · rename_i hstr
    unfold Hub.quitServerInvoke
    obtain ⟨u, hu⟩ := Option.isSome_iff_exists.mp (haccepts (by simp [checkServer, hstr]))
    rw [hu]
    exact h.serves_userRemove
  · rename_i u hstr
    refine serves_bind (succeeds_appendText rfl _) fun m _ => ?_
    refine serves_bind h.succeeds_dispatchUserMessage fun hub₁ h₁ => ?_
    have hw := wrote_dispatchUserMessage h₁
    have hno : ∀ s, hub₁.structures src ≠ .server s := by
      intro s hs
      rw [hw.structures, hstr] at hs
      simp at hs
    exact ⟨_, bind_eq_ok_iff.mpr ⟨_, close_new hub₁ src, rfl⟩, ((h.wrote hw).drop hno).userRemove u⟩

/-! ## Messages -/

/-- An accepted message is processed, and the hub is ready for the next. -/
theorem receive (h : hub.Ready src) (hmsg : msg.WellFormed)
    (hcareful : hub.Careful (.received src msg)) (haccepts : hub.Accepts src msg) :
    Serves (hub.receive src msg) src := by
  unfold Hub.receive
  unfold Careful at hcareful
  unfold Accepts at haccepts
  cases hcmd : getCommand msg.command with
  | none => exact h.serves_replyError (by decide)
  | some cmd =>
    simp only [hcmd] at hcareful haccepts ⊢
    cases cmd with
    | squit => exact h.squit hcareful haccepts
    | kill => exact h.kill
    | map => exact h.serves_of_wrote h.succeeds_map wrote_map
    | privmsg => exact h.serves_of_wrote (h.succeeds_routeMessage hmsg haccepts) wrote_routeMessage
    | notice => exact h.serves_of_wrote (h.succeeds_routeMessage hmsg haccepts) wrote_routeMessage
    | pong => exact serves_ok h
    | ping => exact h.serves_of_wrote h.succeeds_ping wrote_ping
    | server => exact h.server hmsg hcareful haccepts
    | part => exact h.part haccepts
    | join => exact h.join hcareful haccepts
    | user => exact h.user hmsg haccepts
    | nick => exact h.nick hmsg haccepts
    | quit => exact h.quit haccepts

end Ready

end Hub

end MyLifeHome.Irc

