import MyLifeHome.Irc.Departures

/-!
# New nicks, users and servers

Whoever shares a channel with a user is told its new nick, and the user too. A new user is told its
own nick and is on no channel; of new servers no user is told.
-/
namespace MyLifeHome.Irc

open Checked Rooms

variable [Locale]

namespace Hub.Told

variable {hub hub' : Hub} {c d src : Conn} {u v s r : Ref} {msg : Message}
  {nickName ident realName : Option String}

/-! ## Changes of nick -/

theorem dispatchNickChange (h : hub.Told) (hcap : KeepsCapitals) {old new : String}
    (hfree : hub.net.getUser (some new) = none)
    (hnames : u ∈ hub.net.users → hub.net.world.Names nickFold old u)
    (hu : ∀ d, (hub.net.user u).connection = some d → hub.structures d = .user u)
    (hsrc : ∀ v, v ≠ u → hub.structures src ≠ .user v)
    (hok : Hub.dispatchNickChange
      { hub with net := hub.net.modifyUser u fun user => { user with nick := new } } u old new
      [src] = .ok hub') : hub'.Told := by
  obtain ⟨m, hm, hrest⟩ := bind_eq_ok_iff.mp hok
  obtain ⟨hub₁, h₁, hlast⟩ := bind_eq_ok_iff.mp hrest
  obtain ⟨hparam, rfl⟩ := Message.appendParameter_eq_ok hm
  have hl := h.toLinked.setNick (u := u) hfree hparam
  set hub₀ : Hub := { hub with net := hub.net.modifyUser u fun user => { user with nick := new } }
  have huser : ∀ v, (hub₀.net.user v).connection = (hub.net.user v).connection := by
    intro v
    change ((hub.net.modifyUser u fun user => { user with nick := new }).user v).connection = _
    rw [Network.setNick_user]
  have hworld : hub₀.net.world = hub.net.world.rename u new := Network.world_setNick
  have hw := wrote_dispatchUserMessage h₁
  rw [hw.net] at hlast
  have hwrote : Wrote hub₀ hub' := by
    refine hw.trans ?_
    split_ifs at hlast
    · exact wrote_sendTo hlast
    · obtain rfl := Except.ok.inj hlast
      exact .refl
  -- what goes to the user itself goes to nobody else
  have hother : ∀ d, (hub.net.user u).connection ≠ some d → Tells hub₁ d [] hub' := by
    intro d hne
    split_ifs at hlast
    · exact tells_sendTo_nothing (.inl (by rwa [huser])) hlast
    · obtain rfl := Except.ok.inj hlast
      exact .refl
  refine h.rename (hl.wrote hwrote) hwrote.net hnames ?_ (fun d => hwrote.fresh) ?_
  · intro v hv d hcon
    have hcon₀ : (hub₀.net.user v).connection = some d := by rwa [huser]
    have hopen : ¬hub₀.closed d := h.opens v hv d hcon
    by_cases hvu : v = u
    · subst hvu
      refine .inl ⟨.inl rfl, ?_⟩
      have hfirst := hl.tells_dispatchUserMessage_nothing (hl.not_server hv hcon₀)
        (fun w hw hne hwd => hne ((hl.connection_iff hv hcon₀ hw).mp hwd)) h₁
      rw [if_pos (hl.locals v hv d hcon₀).1, hcon₀] at hlast
      rw [← hw.closed] at hopen
      have hsecond := tells_send hopen hlast
      rw [noticeOf_nick (hcap "NICK" (by decide)) rfl rfl] at hsecond
      exact (hfirst.trans hsecond).congr rfl rfl
    · have hne : (hub.net.user u).connection ≠ some d := by
        intro hud
        have hstr := (h.locals v hv d hcon).2
        rw [hu d hud] at hstr
        exact hvu (Connectable.user.inj hstr).symm
      have hex : d ∉ [src] := by
        intro hmem
        obtain rfl := List.mem_singleton.mp hmem
        exact hsrc v hvu (h.locals v hv d hcon).2
      have htold := hl.tells_dispatchUserMessage hv hcon₀ hopen hvu hex h₁
      rw [hworld, noticeOf_nick (hcap "NICK" (by decide)) rfl rfl] at htold
      by_cases hshare : hub.net.world.Share u v
      · rw [if_pos (show (hub.net.world.rename u new).Share u v from hshare)] at htold
        exact .inl ⟨.inr hshare, (htold.nothing (hother d hne)).congr rfl rfl⟩
      · rw [if_neg (show ¬(hub.net.world.rename u new).Share u v from hshare)] at htold
        exact .inr ⟨⟨hvu, hshare⟩, (htold.nothing (hother d hne)).congr rfl rfl⟩
  · intro d hunreg
    have hunreg₀ : hub₀.Unregistered d := hunreg
    have hne : (hub.net.user u).connection ≠ some d := by
      intro hud
      obtain ⟨n, i, r, hstr⟩ := hunreg
      simp [hu d hud] at hstr
    have hfirst := hl.tells_dispatchUserMessage_nothing
      (Lines.not_server_of_unregistered hunreg₀) (fun w hw _ => hl.not_connection hunreg₀ hw) h₁
    exact (hfirst.nothing (hother d hne)).congr rfl rfl

theorem nickUserInvoke (h : hub.Told) (hcap : KeepsCapitals) (hstr : hub.structures src = .user u)
    (hok : hub.nickUserInvoke src u msg = .ok hub') : hub'.Told := by
  unfold Hub.nickUserInvoke at hok
  split at hok
  · exact h.replyError (hcap.silent (by decide) (by decide)) hok
  · dsimp only at hok
    split_ifs at hok
    · obtain rfl := Except.ok.inj hok
      exact h
    · split at hok
      · exact h.replyError (hcap.silent (by decide) (by decide)) hok
      · cases hok
      · rename_i hchange
        obtain ⟨w, hw, _, hfree, rfl⟩ := Network.userChangeNick_eq_ok_iff.mp hchange
        obtain rfl := Option.some.inj hw
        refine h.dispatchNickChange hcap hfree (fun hu => h.sound.distinct.names hu rfl) ?_ ?_ hok
        · intro d hd
          obtain rfl := Option.some.inj ((h.users src u hstr).2.symm.trans hd)
          exact hstr
        · intro v hne hv
          rw [hstr] at hv
          exact hne (Connectable.user.inj hv).symm
    · exact h.replyError (hcap.silent (by decide) (by decide)) hok

theorem nickChangeInvoke (h : hub.Told) (hcap : KeepsCapitals) (hstr : hub.structures src = .server s)
    {old : Option String} {new : String} (hok : hub.nickChangeInvoke src old new = .ok hub') :
    hub'.Told := by
  unfold Hub.nickChangeInvoke at hok
  dsimp only at hok
  split at hok
  · exact h.handleNickCollision hcap hok
  · cases hok
  · rename_i u net' hu hchange
    obtain ⟨w, hw, _, hfree, rfl⟩ := Network.userChangeNick_eq_ok_iff.mp hchange
    rw [hu] at hw
    obtain rfl := Option.some.inj hw
    obtain ⟨hmem, n, hn, _⟩ := Network.getUser_eq_some hu
    subst hn
    refine h.dispatchNickChange hcap hfree (fun _ => h.sound.names_of_getUser hu) ?_ ?_ hok
    · exact fun d hd => (h.locals u hmem d hd).2
    · intro v _ hv
      simp [hstr] at hv
  · cases hok

/-! ## Connections on which nobody is registered -/

omit [Locale] in
theorem unregistered_congr (hstr : hub'.structures d = hub.structures d) :
    hub'.Unregistered d ↔ hub.Unregistered d := by
  rw [Unregistered, hstr]
  exact Iff.rfl

theorem setUnregistered (h : hub.Told) (hunreg : hub.Unregistered src) :
    (hub.setStructure src (.unregistered nickName ident realName)).Told := by
  refine h.same (h.toLinked.setUnregistered hunreg) rfl rfl ?_ fun d _ => .of_sent rfl
  intro d hd hopen
  refine ⟨?_, hopen⟩
  by_cases hds : d = src
  · exact hds ▸ hunreg
  · exact (unregistered_congr (Function.update_of_ne hds ..)).mp hd

/-- The connection is closed. -/
theorem closed (h : hub.Told) (hunreg : hub.Unregistered src) {out : List (Conn × Message)}
    (hout : ∀ d, Tells hub d [] { hub with sent := out }) (x : Connectable)
    (hx : ∃ nick ident realName, x = .unregistered nick ident realName) :
    Told { hub with
      sent := out
      structures := Function.update hub.structures src x
      closed := Function.update hub.closed src true } := by
  obtain ⟨n, i, r, rfl⟩ := hx
  obtain ⟨n', i', r', hstr⟩ := hunreg
  have hleaves : hub.Leaves [] { hub with
      sent := out
      structures := Function.update hub.structures src (.unregistered n i r)
      closed := Function.update hub.closed src true } := by
    intro c
    by_cases hc : c = src
    · subst hc
      exact .inr ⟨by simp [hstr], .inr ⟨⟨n, i, r, Function.update_self ..⟩, by simp [hstr]⟩⟩
    · exact .inl ⟨Function.update_of_ne hc .., Function.update_of_ne hc ..⟩
  refine h.same (h.toLinked.leave hleaves rfl) rfl rfl ?_ fun d _ => (hout d).congr rfl rfl
  intro d hd hopen
  have hds : d ≠ src := by
    rintro rfl
    exact hopen (Function.update_self ..)
  exact ⟨(unregistered_congr (Function.update_of_ne hds ..)).mp hd, by simpa [hds] using hopen⟩

theorem close_unregistered (h : hub.Told) (hunreg : hub.Unregistered c)
    (hok : hub.close c = .ok hub') : hub'.Told := by
  have hstr := hunreg
  obtain ⟨n, i, r, hstr⟩ := hstr
  unfold close connectionClosed at hok
  dsimp only at hok
  rw [hstr] at hok
  obtain rfl := Except.ok.inj hok
  have hclosed := h.closed hunreg (fun _ => .refl) _ ⟨n, i, r, rfl⟩
  rwa [← hstr, Function.update_eq_self] at hclosed

/-- A client is turned away. -/
theorem userError (h : hub.Told) (hcap : KeepsCapitals) (hunreg : hub.Unregistered src)
    {reason : Option String} (hok : hub.userError src reason = .ok hub') : hub'.Told := by
  have hstr := hunreg
  obtain ⟨n, i, r, hstr⟩ := hstr
  unfold Hub.userError at hok
  rw [hstr] at hok
  obtain ⟨m, hm, hok⟩ := bind_eq_ok_iff.mp hok
  obtain ⟨hub₁, h₁, hok⟩ := bind_eq_ok_iff.mp hok
  rw [close_new] at hok
  obtain rfl := Except.ok.inj hok
  obtain ⟨out, rfl⟩ := wrote_send h₁
  refine h.closed hunreg (fun d => ?_) .new ⟨none, none, none, rfl⟩
  obtain rfl := Message.appendLastParameter_eq_ok hm
  have hs : Silent "ERROR" := hcap.silent (by decide) (by decide)
  exact tells_send_nothing (.inr (noticeOf_of_silent hs)) h₁

/-! ## New users -/

section

omit [Locale]

theorem isParameter_of_createNewNickMessage {hopcount : Int}
    (hok : hub.createNewNickMessage u hopcount = .ok msg) : isParameter (hub.net.user u).nick := by
  obtain ⟨m, hm, _⟩ := bind_eq_ok_iff.mp hok
  exact (Message.appendParameter_eq_ok hm).1

theorem not_closed_of_send (hstr : hub.structures c = .user u) (hok : hub.send c msg = .ok hub') :
    ¬hub.closed c := by
  intro hclosed
  rw [send, if_pos hclosed, hstr] at hok
  cases hok

end

/-- A user of this hub. -/
theorem register (h : hub.Told) (hcap : KeepsCapitals) {user : User} {hub₁ : Hub} {hopcount : Int}
    {excluded : List Conn} (hr : hub.net.getLocalServer = some user.server)
    (hfree : hub.net.getUser (some user.nick) = none) (hchannels : user.channels = .empty)
    (hcon : user.connection = none) (hunreg : hub.Unregistered src)
    (h₁ : (({ hub with net := hub.net.withLocalUser user src } : Hub).setStructure src
      (.user hub.net.next)).dispatchNewUser hub.net.next hopcount excluded = .ok hub₁)
    (h₂ : hub₁.userWelcome hub.net.next = .ok hub') : hub'.Told := by
  have hw₁ := wrote_dispatchNewUser h₁
  have hw₂ := wrote_userWelcome h₂
  have hnew : ((hub.net.withLocalUser user src).user hub.net.next).connection = some src ∧
      ((hub.net.withLocalUser user src).user hub.net.next).nick = user.nick := by
    simp [Network.withLocalUser, Network.modifyUser, Network.withUser_user]
  have hparam : isParameter user.nick := by
    obtain ⟨m, hm, _⟩ := bind_eq_ok_iff.mp h₁
    rw [← hnew.2]
    exact isParameter_of_createNewNickMessage hm
  have hcon₁ : (hub₁.net.user hub.net.next).connection = some src := by
    rw [hw₁.net]
    exact hnew.1
  have hopen : ¬hub₁.closed src := by
    obtain ⟨hub₂, hreply, _⟩ := bind_eq_ok_iff.mp h₂
    obtain ⟨m, hm, _⟩ := reply_eq_ok hreply
    rw [hcon₁] at hm
    refine not_closed_of_send (u := hub.net.next) ?_ hm
    rw [hw₁.structures]
    exact Function.update_self ..
  have hopen₀ : ¬hub.closed src := by
    rw [hw₁.closed] at hopen
    exact hopen
  have hl := h.toLinked.register hr hfree hchannels hcon hparam hunreg hopen₀
  set hub₀ : Hub := ({ hub with net := hub.net.withLocalUser user src } : Hub).setStructure src
    (.user hub.net.next)
  have hworld : hub'.net.world = (hub.net.world.rename hub.net.next user.nick).add hub.net.next := by
    rw [(hw₁.trans hw₂).net, ← h.sound.world_withUser hchannels]
    refine Network.world_congr rfl (fun v => ?_) fun v => ?_ <;>
      by_cases hv : v = hub.net.next <;>
        simp [hub₀, setStructure, Network.withLocalUser, Network.modifyUser, hv]
  have hoff : ∀ k, ¬hub.net.world.on hub.net.next k := h.sound.off h.sound.next_notMem
  -- whoever is not a link hears nothing, but the new user
  have hfirst : ∀ d, (∀ s, hub₀.structures d ≠ .server s) → Tells hub₀ d [] hub₁ := by
    intro d hd
    obtain ⟨m, _, h₁⟩ := bind_eq_ok_iff.mp h₁
    exact hl.tells_dispatchServerMessage hd h₁
  have hquiet : ∀ d, d ≠ src → (∀ s, hub₀.structures d ≠ .server s) → Tells hub d [] hub' := by
    intro d hds hd
    have hne : (hub₁.net.user hub.net.next).connection ≠ some d := by
      rw [hcon₁]
      exact fun heq => hds (Option.some.inj heq).symm
    exact ((hfirst d hd).nothing (tells_userWelcome_nothing hne h₂)).congr rfl rfl
  refine ⟨hl.wrote (hw₁.trans hw₂), ?_, ?_⟩
  · intro v hv d hcond
    rw [(hw₁.trans hw₂).net] at hv hcond
    have hserver := hl.not_server hv hcond
    by_cases hvn : v = hub.net.next
    · subst hvn
      obtain rfl := Option.some.inj (hnew.1.symm.trans hcond)
      have hheard : hub'.heard src = [.welcome user.nick] := by
        have hwelcome := tells_userWelcome hcap hcon₁ hopen h₂
        have hnick : (hub₁.net.user hub.net.next).nick = user.nick := by
          rw [hw₁.net]
          exact hnew.2
        rw [hnick] at hwelcome
        have hall : Tells hub src [.welcome user.nick] hub' :=
          ((hfirst src hserver).trans hwelcome).congr rfl rfl
        rw [hall, h.fresh src hunreg hopen₀]
        rfl
      refine ⟨?_, ?_⟩
      · rw [hheard]
        exact ⟨trivial, trivial⟩
      · have hnick : hub'.net.world.nick hub.net.next = user.nick := by
          rw [hworld]
          simp [World.add, World.rename]
        have hnowhere : ∀ k, ¬hub'.net.world.on hub.net.next k := by
          rw [hworld]
          exact hoff
        rw [client, hheard, ← hnick]
        change (Rooms.Listener.new.hear nickFold (.welcome (hub'.net.world.nick hub.net.next))).Shows _ _
        exact Rooms.Listener.Shows.welcome hnowhere
    · have hvold : v ∈ hub.net.users :=
        (List.mem_append.mp hv).resolve_right fun hv => hvn (List.mem_singleton.mp hv)
      have hconold : (hub.net.user v).connection = some d := by
        simpa [hub₀, setStructure, Network.withLocalUser, Network.modifyUser, Network.withUser_user, hvn]
          using hcond
      have hi := h.informed v hvold d hconold
      refine hi.tellNothing (hquiet d ?_ hserver) ?_
      · rintro rfl
        exact h.not_connection hunreg hvold hconold
      · rw [hworld]
        refine (hi.shows.rename_untold (Ne.symm hvn) ?_).add hoff
        rintro ⟨k, hk, _⟩
        exact hoff k hk
  · intro d hunregd hopend
    obtain ⟨hunregd, hopend⟩ := (hw₁.trans hw₂).fresh hunregd hopend
    have hds : d ≠ src := by
      rintro rfl
      obtain ⟨n, i, r, hstr⟩ := hunregd
      simp [hub₀, setStructure] at hstr
    have hserver := Lines.not_server_of_unregistered hunregd
    have hunreg₀ := (unregistered_congr (Function.update_of_ne hds ..)).mp hunregd
    rw [hquiet d hds hserver, h.fresh d hunreg₀ hopend]
    rfl

theorem getUser_getD {net : Network} (hname : ¬isEmpty nickName)
    (hfree : net.getUser nickName = none) : net.getUser (some (nickName.getD "")) = none := by
  cases nickName with
  | none => simp [isEmpty] at hname
  | some name => exact hfree

/-- Both messages have come, and the client becomes a user or is turned away. -/
theorem unregisteredCheck (h : hub.Told) (hcap : KeepsCapitals) (hunreg : hub.Unregistered src)
    (hok : hub.unregisteredCheck src nickName ident realName = .ok hub') : hub'.Told := by
  unfold Hub.unregisteredCheck at hok
  split_ifs at hok
  · obtain rfl := Except.ok.inj hok
    exact h
  · split at hok
    · cases hok
    · rename_i self hself
      split at hok
      · exact h.userError hcap hunreg hok
      · cases hok
      · rename_i user net' hadd
        obtain ⟨⟨hnick, _⟩, hfree, rfl, rfl⟩ := Network.userAdd_eq_ok_iff.mp hadd
        obtain ⟨hub₁, h₁, h₂⟩ := bind_eq_ok_iff.mp hok
        have hnone := getUser_getD hnick hfree
        refine h.register hcap ?_ ?_ ?_ ?_ hunreg h₁ h₂
        · exact hself
        · exact hnone
        · rfl
        · rfl

theorem unregisteredCheck_setStructure (h : hub.Told) (hcap : KeepsCapitals)
    (hunreg : hub.Unregistered src)
    (hok : (hub.setStructure src (.unregistered nickName ident realName)).unregisteredCheck src
      nickName ident realName = .ok hub') : hub'.Told := by
  refine (h.setUnregistered hunreg).unregisteredCheck hcap ?_ hok
  exact ⟨nickName, ident, realName, Function.update_self ..⟩

theorem user (h : hub.Told) (hcap : KeepsCapitals) (hok : hub.user src msg = .ok hub') :
    hub'.Told := by
  unfold Hub.user at hok
  split at hok
  · rename_i n i r hstr
    split_ifs at hok
    · exact h.replyError (hcap.silent (by decide) (by decide)) hok
    · exact h.unregisteredCheck_setStructure hcap ⟨n, i, r, hstr⟩ hok
  · exact h.replyError (hcap.silent (by decide) (by decide)) hok

theorem nickUnregisteredInvoke (h : hub.Told) (hcap : KeepsCapitals)
    (hunreg : hub.Unregistered src)
    (hok : hub.nickUnregisteredInvoke src ident realName msg = .ok hub') : hub'.Told := by
  unfold Hub.nickUnregisteredInvoke at hok
  split at hok
  · exact h.replyError (hcap.silent (by decide) (by decide)) hok
  · split_ifs at hok
    · exact h.replyError (hcap.silent (by decide) (by decide)) hok
    · exact h.unregisteredCheck_setStructure hcap hunreg hok
    · exact h.replyError (hcap.silent (by decide) (by decide)) hok

/-- A user behind a link has no connection, and is on no channel yet. -/
theorem arrive (h : hub.Told) {user : User} {hopcount : Int} {excluded : List Conn}
    (hs : hub.net.Registered user.server) (hfree : hub.net.getUser (some user.nick) = none)
    (hchannels : user.channels = .empty) (hcon : user.connection = none)
    (hok : dispatchNewUser { hub with net := hub.net.withUser user } hub.net.next hopcount excluded =
      .ok hub') : hub'.Told := by
  obtain ⟨m, hm, hdispatch⟩ := bind_eq_ok_iff.mp hok
  have hw := wrote_dispatchServerMessage hdispatch
  have hnew : (hub.net.withUser user).user hub.net.next = user := by
    rw [Network.withUser_user, if_pos rfl]
  have hparam : isParameter user.nick := by
    have hparam := isParameter_of_createNewNickMessage hm
    rwa [hnew] at hparam
  have hl := h.toLinked.withUser hs hfree hchannels hcon hparam
  have hquiet : ∀ d, (∀ s, hub.structures d ≠ .server s) → Tells hub d [] hub' := fun d hd =>
    (hl.tells_dispatchServerMessage hd hdispatch).congr rfl rfl
  have hoff : ∀ k, ¬hub.net.world.on hub.net.next k := h.sound.off h.sound.next_notMem
  refine h.change (hl.wrote hw) ?_ ?_ (fun d => hw.fresh) fun d hunreg =>
    hquiet d (Lines.not_server_of_unregistered hunreg)
  · intro v hv d hcond
    rw [hw.net] at hv hcond
    change ((hub.net.withUser user).user v).connection = some d at hcond
    by_cases hvn : v = hub.net.next
    · rw [hvn, hnew, hcon] at hcond
      cases hcond
    · rw [Network.withUser_user, if_neg hvn] at hcond
      refine ⟨(List.mem_append.mp hv).resolve_right fun hv => hvn (List.mem_singleton.mp hv), hcond⟩
  · intro v hv _ d hcond hi
    have hvn : hub.net.next ≠ v := by
      rintro rfl
      exact h.sound.next_notMem hv
    refine hi.tellNothing (hquiet d (h.not_server hv hcond)) ?_
    rw [hw.net, h.sound.world_withUser hchannels]
    refine (hi.shows.rename_untold hvn ?_).add hoff
    rintro ⟨k, hk, _⟩
    exact hoff k hk

theorem newUserInvoke (h : hub.Told) (hcap : KeepsCapitals)
    (hok : hub.newUserInvoke src msg = .ok hub') : hub'.Told := by
  unfold Hub.newUserInvoke at hok
  split_ifs at hok
  · exact h.replyError (hcap.silent (by decide) (by decide)) hok
  · obtain ⟨hopcount, _, hok⟩ := bind_eq_ok_iff.mp hok
    obtain ⟨token, _, hok⟩ := bind_eq_ok_iff.mp hok
    split at hok
    · exact h.replyError (hcap.silent (by decide) (by decide)) hok
    · rename_i home hhome
      split at hok
      · exact h.handleNickCollision hcap hok
      · cases hok
      · rename_i user net' hadd
        obtain ⟨⟨hnick, _⟩, hfree, rfl, rfl⟩ := Network.userAdd_eq_ok_iff.mp hadd
        have hreg : hub.net.Registered home :=
          (h.sound.tree.indexes home).mpr (Dictionary.mem_values_iff.mpr ⟨token, hhome⟩)
        have hnone := getUser_getD hnick hfree
        refine h.arrive ?_ ?_ ?_ ?_ hok
        · exact hreg
        · exact hnone
        · rfl
        · rfl

theorem nick (h : hub.Told) (hcap : KeepsCapitals) (hok : hub.nick src msg = .ok hub') :
    hub'.Told := by
  unfold Hub.nick at hok
  split at hok
  · rename_i s hstr
    split at hok
    · exact h.nickChangeInvoke hcap hstr hok
    · exact h.newUserInvoke hcap hok
  · rename_i u hstr
    exact h.nickUserInvoke hcap hstr hok
  · rename_i n i r hstr
    exact h.nickUnregisteredInvoke hcap ⟨n, i, r, hstr⟩ hok

/-! ## New servers -/

/-- A connection that is new. The hub may have to introduce itself on it. -/
theorem connectionOpened (h : hub.Told) (hcap : KeepsCapitals) (hnew : hub.structures src = .new)
    (hok : hub.connectionOpened src = .ok hub') : hub'.Told := by
  unfold Hub.connectionOpened setStructure at hok
  rw [← hnew, Function.update_eq_self] at hok
  dsimp only at hok
  split_ifs at hok
  · exact h.wrote (wrote_sendSelf hok) fun d _ =>
      tells_sendSelf (hcap.silent (by decide) (by decide)) hok
  · obtain rfl := Except.ok.inj hok
    exact h

theorem serverInvoke (h : hub.Told)
    (hcareful : msg.sender = none → IsNewServer hub.net msg → hub.net.Registered s)
    (hok : hub.serverInvoke src s msg = .ok hub') : hub'.Told := by
  rcases serverInvoke_eq_ok hok with
    ⟨rfl, _⟩ | ⟨name, token, p, hname, htoken, hnew, hself, hother, m, hm⟩
  · exact h
  · have hp : hub.net.Registered p := by
      by_cases hsender : msg.sender = none
      · rw [hself hsender]
        exact hcareful hsender hnew
      · exact hother hsender
    have hl := h.toLinked.withServer hname htoken hp
    have hw := wrote_dispatchServerMessage hm
    refine h.same (hl.wrote hw) (by rw [hw.net]; rfl) (by rw [hw.net]; rfl) (fun d => hw.fresh) ?_
    exact fun d hd => (hl.tells_dispatchServerMessage hd hm).congr rfl rfl

/-- The server at the other end of a connection. -/
theorem link (h : hub.Told) (hcap : KeepsCapitals) {hub₁ : Hub} {name : String} {token : Int}
    {publishSelf : Bool} {excluded : List Conn} (hname : hub.net.getServer name = none)
    (htoken : hub.net.getServerByToken token = none) (hr : hub.net.getLocalServer = some r)
    (hunreg : hub.Unregistered src)
    (h₁ : (({ hub with net := hub.net.withPeer name token r src } : Hub).setStructure src
      (.server hub.net.next)).publishServer hub.net.next excluded = .ok hub₁)
    (h₂ : hub₁.sendNetSync src publishSelf = .ok hub') : hub'.Told := by
  have hl := h.toLinked.link hname htoken hr hunreg
  obtain ⟨m, hm⟩ := publishServer_eq_ok h₁
  have hw := (wrote_dispatchServerMessage hm).trans (wrote_sendNetSync h₂)
  have hother : ∀ d, d ≠ src → Function.update hub.structures src (.server hub.net.next) d =
      hub.structures d := fun d hd => Function.update_of_ne hd ..
  have hquiet : ∀ d, d ≠ src → (∀ s, hub.structures d ≠ .server s) → Tells hub d [] hub' := by
    intro d hds hd
    have hsilent : Silent "SERVER" := hcap.silent (by decide) (by decide)
    refine Tells.congr ((hl.tells_dispatchServerMessage ?_ hm).nothing
      (tells_sendNetSync hsilent hds.symm h₂)) rfl rfl
    intro s hs
    exact hd s ((hother d hds).symm.trans hs)
  refine ⟨hl.wrote hw, ?_, ?_⟩
  · intro v hv d hcon
    rw [hw.net] at hv hcon
    have hi := h.informed v hv d hcon
    have hds : d ≠ src := by
      rintro rfl
      exact h.not_connection hunreg hv hcon
    refine hi.tellNothing (hquiet d hds (h.not_server hv hcon)) ?_
    rw [hw.net]
    exact hi.shows
  · intro d hunregd hopen
    obtain ⟨hunregd, hopen⟩ := hw.fresh hunregd hopen
    have hds : d ≠ src := by
      rintro rfl
      obtain ⟨n, i, r, hstr⟩ := hunregd
      simp [setStructure] at hstr
    have hunreg₀ := (unregistered_congr (hother d hds)).mp hunregd
    rw [hquiet d hds (Lines.not_server_of_unregistered hunreg₀), h.fresh d hunreg₀ hopen]
    rfl

theorem serverUnregisteredInvoke (h : hub.Told) (hcap : KeepsCapitals)
    (hunreg : hub.Unregistered src) (hok : hub.serverUnregisteredInvoke src msg = .ok hub') :
    hub'.Told := by
  obtain ⟨result, hresult, hok⟩ := bind_eq_ok_iff.mp hok
  obtain ⟨token, _, rfl⟩ := createServer_eq_ok hresult
  split at hok
  · rename_i new net' hadd
    obtain ⟨_, hname, htoken, rfl, rfl⟩ := Network.serverAdd_eq_ok_iff.mp hadd
    obtain ⟨hub₁, h₁, h₂⟩ := bind_eq_ok_iff.mp hok
    obtain ⟨r, hr⟩ := h.sound.tree.exists_local
    rw [hr] at h₁
    exact h.link hcap hname htoken hr hunreg h₁ h₂
  · obtain ⟨m, hm, hok⟩ := bind_eq_ok_iff.mp hok
    obtain ⟨hub₁, h₁, hok⟩ := bind_eq_ok_iff.mp hok
    have hw := wrote_send h₁
    have hunreg₁ : hub₁.Unregistered src := (unregistered_congr (congrFun hw.structures src)).mpr hunreg
    refine Told.close_unregistered (h.wrote hw fun d _ => ?_) hunreg₁ hok
    obtain rfl := Message.appendLastParameter_eq_ok hm
    have hs : Silent "ERROR" := hcap.silent (by decide) (by decide)
    exact tells_send_nothing (.inr (noticeOf_of_silent hs)) h₁
  · cases hok

theorem server (h : hub.Told) (hcap : KeepsCapitals)
    (hcareful : ∀ s, hub.structures src = .server s → msg.sender = none →
      IsNewServer hub.net msg → hub.net.Registered s)
    (hok : hub.server src msg = .ok hub') : hub'.Told := by
  unfold Hub.server at hok
  split at hok
  · rename_i s hstr
    exact h.serverInvoke (hcareful s hstr) hok
  · exact h.replyError (hcap.silent (by decide) (by decide)) hok
  · rename_i n i r hstr
    exact h.serverUnregisteredInvoke hcap ⟨n, i, r, hstr⟩ hok

end Hub.Told

end MyLifeHome.Irc

