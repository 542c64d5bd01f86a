import MyLifeHome.Irc.Informed

/-!
# Users who leave

Quits, kills, collisions of nicks and lost servers: whoever shared a channel with a user who is
gone has been told so. Of a kill by another server only the servers are told, so that it has to be
of a user whom no other local user shares a channel with.
-/
namespace MyLifeHome.Irc

open Checked Rooms

variable [Locale]

namespace Hub.Told

variable {hub hub₀ hub₁ hub' : Hub} {c d src : Conn} {u v s r : Ref} {msg : Message}
  {excluded : List Conn} {n : String}

open Classical in
/-- The users have left the network. -/
theorem leave (h : hub.Told) (us : List (Ref × String)) (hleaves : hub.Leaves (us.map Prod.fst) hub')
    (hnet : hub'.net = (us.map Prod.fst).foldl Network.userRemove hub.net)
    (hnames : ∀ p ∈ us, ∀ v, hub.net.world.Share p.1 v → hub.net.world.Names nickFold p.2 p.1)
    (htells : ∀ v ∈ hub.net.users, (∀ p ∈ us, v ≠ p.1) →
      ∀ d, (hub.net.user v).connection = some d → Tells hub d
        (us.flatMap fun p => if hub.net.world.Share p.1 v then [.gone p.2] else []) hub')
    (hfresh : ∀ d, hub'.Unregistered d → ¬hub'.closed d → hub.Unregistered d ∧ ¬hub.closed d)
    (hnothing : ∀ d, hub.Unregistered d → Tells hub d [] hub') : hub'.Told := by
  have hwithin : hub.net.Within hub'.net := by
    rw [hnet]
    exact Linked.within_removeUsers
  refine h.remove (h.toLinked.leave hleaves hnet) us hwithin ?_ hnames htells hfresh hnothing
  have halike := h.sound.world_removeUsers (us.map Prod.fst)
  rw [List.foldl_map] at halike
  rwa [hnet]

/-- A message about the user goes out, and then the user is gone. What is closed meanwhile is the
connection of the user. -/
theorem dispatch_remove (h : hub.Told) (hnotice : noticeOf msg = some (.gone n))
    (hnames : ∀ v, hub.net.world.Share u v → hub.net.world.Names nickFold n u)
    (hnet₀ : hub₀.net = hub.net) (hstr₀ : hub₀.structures = hub.structures)
    (hsent₀ : hub₀.sent = hub.sent)
    (hopen₀ : ∀ v ∈ hub.net.users, v ≠ u → ∀ d, (hub.net.user v).connection = some d →
      ¬hub₀.closed d ∧ d ∉ excluded)
    (hok : hub₀.dispatchUserMessage u msg excluded = .ok hub₁) (hsent : hub'.sent = hub₁.sent)
    (hnet : hub'.net = hub.net.userRemove u) (hleaves : hub.Leaves [u] hub')
    (hfresh : ∀ d, hub'.Unregistered d → ¬hub'.closed d → hub.Unregistered d ∧ ¬hub.closed d) :
    hub'.Told := by
  classical
  have hlines : hub₀.Lines := h.toLines.congr hnet₀ hstr₀
  refine h.leave [(u, n)] hleaves hnet (by simpa using hnames) ?_ hfresh ?_
  · intro v hv hne d hcon
    have hne : v ≠ u := hne (u, n) List.mem_cons_self
    obtain ⟨hopen, hex⟩ := hopen₀ v hv hne d hcon
    rw [← hnet₀] at hv hcon
    have htold := hlines.tells_dispatchUserMessage hv hcon hopen hne hex hok
    rw [hnotice, hnet₀] at htold
    simpa using htold.congr hsent₀.symm hsent
  · intro d hunreg
    have hunreg₀ : hub₀.Unregistered d := by rwa [Unregistered, hstr₀]
    refine Tells.congr (hlines.tells_dispatchUserMessage_nothing
      (Lines.not_server_of_unregistered hunreg₀) ?_ hok) hsent₀.symm hsent
    exact fun w hw _ => hlines.not_connection hunreg₀ hw

/-! ## Quits -/

theorem quitServerInvoke (h : hub.Told) (hcmd : Locale.toUpperCase msg.command = "QUIT")
    (hstr : hub.structures src = .server s) (hok : hub.quitServerInvoke src msg = .ok hub') :
    hub'.Told := by
  unfold Hub.quitServerInvoke at hok
  split at hok
  · cases hok
  · rename_i u hu
    obtain ⟨hub₁, h₁, hok⟩ := bind_eq_ok_iff.mp hok
    obtain rfl := Except.ok.inj hok
    have hw := wrote_dispatchUserMessage h₁
    obtain ⟨_, nick, hnick, _⟩ := Network.getUser_eq_some hu
    rw [hnick] at hu
    refine h.dispatch_remove (noticeOf_quit hcmd hnick) (fun _ _ => h.sound.names_of_getUser hu)
      rfl rfl rfl ?_ h₁ rfl ?_ (Linked.leaves_of_eq hw.structures hw.closed) ?_
    · intro v hv _ d hcon
      refine ⟨h.opens v hv d hcon, fun hex => ?_⟩
      obtain rfl := List.mem_singleton.mp hex
      exact h.not_server hv hcon s hstr
    · exact congrArg (·.userRemove u) hw.net
    · exact fun d => hw.fresh

theorem quitUserInvoke (h : hub.Told) (hcap : KeepsCapitals) (hstr : hub.structures src = .user u)
    (hok : hub.quitUserInvoke src u msg = .ok hub') : hub'.Told := by
  obtain ⟨m, hm, hok⟩ := bind_eq_ok_iff.mp hok
  obtain ⟨hub₁, h₁, hok⟩ := bind_eq_ok_iff.mp hok
  have hw := wrote_dispatchUserMessage h₁
  rw [close_new] at hok
  obtain rfl := Except.ok.inj hok
  obtain ⟨hsender, hcommand, _⟩ := Message.appendText_eq_ok hm
  have hupper : Locale.toUpperCase m.command = "QUIT" := by
    rw [hcommand]
    exact hcap "QUIT" (by decide)
  have hcon := (h.users src u hstr).2
  have hdrops : hub.Drops [u] { hub₁ with
      structures := Function.update hub₁.structures src .new
      closed := Function.update hub₁.closed src true } := by
    intro c
    by_cases hc : c = src
    · subst hc
      exact .inr ⟨⟨u, List.mem_cons_self, hcon⟩, Function.update_self .., Function.update_self ..⟩
    · exact .inl ⟨(Function.update_of_ne hc ..).trans (congrFun hw.structures c),
        (Function.update_of_ne hc ..).trans (congrFun hw.closed c)⟩
  refine h.dispatch_remove (noticeOf_quit hupper hsender)
    (fun _ hshare => h.sound.names_of_share hshare) rfl rfl rfl ?_ h₁ rfl ?_ (hdrops.leaves ?_)
    fun d => hdrops.fresh
  · intro v hv hne d hcond
    refine ⟨h.opens v hv d hcond, fun hex => ?_⟩
    obtain rfl := List.mem_singleton.mp hex
    have hv' := (h.locals v hv d hcond).2
    rw [hstr] at hv'
    exact hne (Connectable.user.inj hv').symm
  · exact congrArg (·.userRemove u) hw.net
  · intro v hv c hc
    obtain rfl := List.mem_singleton.mp hv
    obtain rfl := Option.some.inj (hcon.symm.trans hc)
    exact hstr

theorem quit (h : hub.Told) (hcap : KeepsCapitals) (hcmd : Locale.toUpperCase msg.command = "QUIT")
    (hok : hub.quit src msg = .ok hub') : hub'.Told := by
  unfold Hub.quit at hok
  split at hok
  · exact h.replyError (hcap.silent (by decide) (by decide)) hok
  · exact h.quitServerInvoke hcmd ‹_› hok
  · exact h.quitUserInvoke hcap ‹_› hok

/-- The connection of a user is lost. -/
theorem close_user (h : hub.Told) (hcap : KeepsCapitals) (hstr : hub.structures c = .user u)
    (hok : hub.close c = .ok hub') : hub'.Told := by
  unfold close connectionClosed at hok
  dsimp only at hok
  rw [hstr] at hok
  obtain ⟨m, hm, hok⟩ := bind_eq_ok_iff.mp hok
  obtain ⟨hub₁, h₁, hok⟩ := bind_eq_ok_iff.mp hok
  obtain rfl := Except.ok.inj hok
  have hw := wrote_dispatchUserMessage h₁
  have hnotice : noticeOf m = some (.gone (hub.net.user u).nick) := by
    obtain rfl := Message.appendLastParameter_eq_ok hm
    exact noticeOf_quit (hcap "QUIT" (by decide)) rfl
  refine h.dispatch_remove hnotice (fun _ hshare => h.sound.names_of_share hshare) ?_ ?_ ?_ ?_ h₁
    rfl ?_ ?_ ?_
  · rfl
  · rfl
  · rfl
  · intro v hv hne d hcon
    refine ⟨?_, List.not_mem_nil⟩
    have hdc : d ≠ c := by
      rintro rfl
      have hv' := (h.locals v hv d hcon).2
      rw [hstr] at hv'
      exact hne (Connectable.user.inj hv').symm
    simpa [hdc] using h.opens v hv d hcon
  · exact congrArg (·.userRemove u) hw.net
  · intro d
    by_cases hdc : d = c
    · subst hdc
      refine .inr ⟨fun v hv => ?_, .inl (congrFun hw.structures d)⟩
      rw [hstr] at hv
      exact List.mem_singleton.mpr (Connectable.user.inj hv).symm
    · refine .inl ⟨congrFun hw.structures d, ?_⟩
      exact (congrFun hw.closed d).trans (Function.update_of_ne hdc ..)
  · intro d hunreg hopen
    rw [Unregistered, show _ = _ from congrFun hw.structures d] at hunreg
    have hdc : d ≠ c := by
      rintro rfl
      obtain ⟨n, i, r, hun⟩ := hunreg
      simp [hstr] at hun
    refine ⟨hunreg, ?_⟩
    rw [show _ = _ from congrFun hw.closed d] at hopen
    simpa [hdc] using hopen

/-! ## Lost servers -/

/-- A server leaves with its users. -/
theorem netSplit (h : hub.Told) (hcap : KeepsCapitals) (hs : hub.net.Registered s)
    (hleaf : hub.net.Leaf s) {reason : Option String} (hnet₀ : hub₀.net = hub.net)
    (hstr₀ : hub₀.structures = hub.structures) (hsent₀ : hub₀.sent = hub.sent)
    (hopen₀ : ∀ v ∈ hub.net.users, ∀ d, (hub.net.user v).connection = some d → ¬hub₀.closed d)
    (hok : hub₀.sendNetSplit s reason excluded = .ok hub₁) (hsent : hub'.sent = hub₁.sent)
    (hnet : hub'.net = hub.net.serverRemove s) (hleaves : hub.Leaves (hub.net.server s).users hub')
    (hfresh : ∀ d, hub'.Unregistered d → ¬hub'.closed d → hub.Unregistered d ∧ ¬hub.closed d) :
    hub'.Told := by
  classical
  have hlines : hub₀.Lines := h.toLines.congr hnet₀ hstr₀
  have hchildren : (hub₀.net.server s).children = [] := by rw [hnet₀]; exact hleaf.2
  have hwithin : hub.net.Within hub'.net := by
    rw [hnet]
    exact h.sound.within_serverRemove
  refine h.remove (h.toLinked.lose hleaves hs hleaf hnet)
    ((hub.net.server s).users.map fun u => (u, (hub.net.user u).nick)) hwithin ?_ ?_ ?_ hfresh ?_
  · have hget := h.sound.tree.registered_iff.mp hs
    have hdrop := Network.serverRemove_of_getServer (h.sound.removeUsers _).2
      (by rw [Network.getServer, hget]; rfl)
    have hworld : hub'.net.world =
        ((hub.net.server s).users.foldl Network.userRemove hub.net).world := by
      rw [hnet, hdrop]
      exact Network.world_dropServer
    rw [hworld, List.foldl_map]
    exact h.sound.world_removeUsers _
  · intro p hp v hshare
    obtain ⟨u, _, rfl⟩ := List.mem_map.mp hp
    exact h.sound.names_of_share hshare
  · intro v hv _ d hcon
    have hopen := hopen₀ v hv d hcon
    rw [← hnet₀] at hv hcon
    have htold := hlines.tells_sendNetSplit hcap hchildren hv hcon hopen hok
    rw [hnet₀] at htold
    rw [List.flatMap_map]
    exact htold.congr hsent₀.symm hsent
  · intro d hunreg
    have hunreg₀ : hub₀.Unregistered d := by rwa [Unregistered, hstr₀]
    exact (hlines.tells_sendNetSplit_nothing hchildren hunreg₀ hok).congr hsent₀.symm hsent

theorem squit (h : hub.Told) (hcap : KeepsCapitals) (hcareful : hub.checkServer src →
      ∀ s, (msg.getParameter 0).bind hub.net.getServer = some s → hub.net.Leaf s)
    (hok : hub.squit src msg = .ok hub') : hub'.Told := by
  unfold Hub.squit at hok
  split at hok
  · exact h.replyError (hcap.silent (by decide) (by decide)) hok
  · exact h.replyError (hcap.silent (by decide) (by decide)) hok
  · rename_i r hstr
    split at hok
    · cases hok
    · rename_i name hname
      split at hok
      · cases hok
      · rename_i s hs
        obtain ⟨hub₁, h₁, hok⟩ := bind_eq_ok_iff.mp hok
        obtain rfl := Except.ok.inj hok
        have hw := wrote_sendNetSplit h₁
        have hleaf := hcareful (by simp [checkServer, hstr]) s (by rw [hname]; exact hs)
        have hreg : hub.net.Registered s := Dictionary.mem_values_iff.mpr ⟨_, hs⟩
        refine h.netSplit hcap hreg hleaf rfl rfl rfl h.opens h₁ rfl ?_
          (Linked.leaves_of_eq hw.structures hw.closed) fun d => hw.fresh
        exact congrArg (·.serverRemove s) hw.net

/-- The connection of a server is lost. -/
theorem close_server (h : hub.Told) (hcap : KeepsCapitals) (hstr : hub.structures c = .server s)
    (hcareful : ∀ t, hub.net.getServer (hub.net.server s).name = some t → t = s ∧ hub.net.Leaf s)
    (hok : hub.close c = .ok hub') : hub'.Told := by
  unfold close connectionClosed at hok
  dsimp only at hok
  rw [hstr] at hok
  obtain ⟨hub₁, h₁, hok⟩ := bind_eq_ok_iff.mp hok
  obtain rfl := Except.ok.inj hok
  have hw := wrote_sendNetSplit h₁
  have hnot : ∀ d, hub.structures d ≠ .server s → d ≠ c := by
    rintro d hd rfl
    exact hd hstr
  have hleaves : ∀ {us}, hub.Leaves us { hub₁ with net := hub₁.net.serverRemove s } := by
    intro us d
    by_cases hdc : d = c
    · subst hdc
      exact .inr ⟨by simp [hstr], .inl (congrFun hw.structures d)⟩
    · exact .inl ⟨congrFun hw.structures d,
        (congrFun hw.closed d).trans (Function.update_of_ne hdc ..)⟩
  have hfresh : ∀ d, Unregistered { hub₁ with net := hub₁.net.serverRemove s } d →
      ¬hub₁.closed d → hub.Unregistered d ∧ ¬hub.closed d := by
    intro d hunreg hopen
    rw [Unregistered, show _ = _ from congrFun hw.structures d] at hunreg
    have hdc := hnot d (Lines.not_server_of_unregistered hunreg s)
    refine ⟨hunreg, ?_⟩
    rw [show _ = _ from congrFun hw.closed d] at hopen
    simpa [hdc] using hopen
  cases hget : hub.net.getServer (hub.net.server s).name with
  | some t =>
    obtain ⟨rfl, hleaf⟩ := hcareful t hget
    have hreg : hub.net.Registered t := Dictionary.mem_values_iff.mpr ⟨_, hget⟩
    refine h.netSplit hcap hreg hleaf ?_ ?_ ?_ ?_ h₁ rfl ?_ hleaves hfresh
    · rfl
    · rfl
    · rfl
    · intro v hv d hcon
      have hdc := hnot d (h.not_server hv hcon t)
      simpa [hdc] using h.opens v hv d hcon
    · exact congrArg (·.serverRemove t) hw.net
  | none =>
    -- the link stands for a server that is gone, and nobody is behind it
    have hreg : ¬hub.net.Registered s := by
      intro hs
      rw [h.sound.tree.registered_iff] at hs
      rw [Network.getServer, hs] at hget
      cases hget
    obtain ⟨husers, hchildren⟩ := h.idle s hreg
    have hnet : hub₁.net.serverRemove s = hub.net := by
      rw [hw.net]
      exact Network.serverRemove_of_getServer_eq_none hget
    have hnobody : hub.Leaves [] { hub₁ with net := hub₁.net.serverRemove s } := hleaves
    refine h.same (h.toLinked.leave hnobody hnet) (congrArg Network.users hnet)
      (congrArg Network.user hnet) hfresh ?_
    intro d hd
    set hub₀ : Hub := { hub with closed := Function.update hub.closed c true } with hhub₀
    have hlines : hub₀.Lines := h.toLines.congr rfl rfl
    have hchildren₀ : (hub₀.net.server s).children = [] := hchildren
    have husers₀ : (hub₀.net.server s).users = [] := husers
    obtain ⟨r, hub₂, squit, _, h₂, h₁⟩ := Lines.sendNetSplit_eq_ok hchildren₀ h₁
    rw [husers₀] at h₁
    obtain rfl := Except.ok.inj h₁
    exact (hlines.tells_dispatchServerMessage hd h₂).congr rfl rfl

/-! ## Kills -/

/-- What is done to a local user who has to go. -/
theorem disconnectLocal_cases {reason : Option String}
    (hok : hub.disconnectLocal u reason = .ok hub') (hcap : KeepsCapitals) :
    hub'.net = hub.net ∧ hub.Drops [u] hub' ∧ ∀ d, Tells hub d [] hub' := by
  unfold Hub.disconnectLocal at hok
  split_ifs at hok
  · split at hok
    · cases hok
    · rename_i con hcon
      obtain ⟨m, hm, hok⟩ := bind_eq_ok_iff.mp hok
      obtain ⟨hub₁, h₁, hok⟩ := bind_eq_ok_iff.mp hok
      have hw := wrote_send h₁
      rw [close_new] at hok
      obtain rfl := Except.ok.inj hok
      refine ⟨hw.net, ?_, ?_⟩
      · intro c
        by_cases hc : c = con
        · subst hc
          exact .inr ⟨⟨u, List.mem_cons_self, hcon⟩, Function.update_self .., Function.update_self ..⟩
        · exact .inl ⟨(Function.update_of_ne hc ..).trans (congrFun hw.structures c),
            (Function.update_of_ne hc ..).trans (congrFun hw.closed c)⟩
      · intro d
        obtain rfl := Message.appendLastParameter_eq_ok hm
        have hs : Silent "ERROR" := hcap.silent (by decide) (by decide)
        exact Tells.congr (tells_send_nothing (.inr (noticeOf_of_silent hs)) h₁) rfl rfl
  · obtain rfl := Except.ok.inj hok
    exact ⟨rfl, fun c => .inl ⟨rfl, rfl⟩, fun d => .refl⟩

theorem kill (h : hub.Told) (hcap : KeepsCapitals)
    (hcandid : hub.checkServer src → ∀ u, hub.net.getUser (msg.getParameter 0) = some u →
      ∀ v ∈ hub.net.users, hub.net.Connected v → v ≠ u → ¬hub.net.world.Share u v)
    (hok : hub.kill src msg = .ok hub') : hub'.Told := by
  classical
  unfold Hub.kill at hok
  split_ifs at hok with hserver
  · split at hok
    · obtain rfl := Except.ok.inj hok
      exact h
    · rename_i u hu
      obtain ⟨hub₁, h₁, hok⟩ := bind_eq_ok_iff.mp hok
      obtain ⟨hub₂, h₂, hok⟩ := bind_eq_ok_iff.mp hok
      obtain rfl := Except.ok.inj hok
      have hw := wrote_dispatchServerMessage h₁
      obtain ⟨hnet, hdrops, htells⟩ := disconnectLocal_cases h₂ hcap
      have hmem := (Network.getUser_eq_some hu).1
      have hall : hub.Drops [u] hub₂ := by
        have hfirst : hub.Drops [] hub₁ := .of_wrote hw
        simpa using hfirst.trans hdrops hw.net
      refine h.leave [(u, (hub.net.user u).nick)] ?_ ?_ ?_ ?_ (fun d => hall.fresh) ?_
      · have hleaves : hub.Leaves [u] hub₂ := by
          refine hall.leaves fun v hv c hcon => ?_
          obtain rfl := List.mem_singleton.mp hv
          exact (h.locals v hmem c hcon).2
        exact hleaves
      · exact congrArg (·.userRemove u) (hnet.trans hw.net)
      · intro p hp v hshare
        obtain rfl := List.mem_singleton.mp hp
        exact h.sound.names_of_share hshare
      · intro v hv hne d hcon
        have hne : v ≠ u := hne _ List.mem_cons_self
        have hshare := hcandid hserver u hu v hv ⟨d, hcon⟩ hne
        have htold := (h.tells_dispatchServerMessage (h.not_server hv hcon) h₁).nothing (htells d)
        rw [List.flatMap_cons, if_neg hshare]
        exact htold.congr rfl rfl
      · intro d hunreg
        exact ((h.tells_dispatchServerMessage (Lines.not_server_of_unregistered hunreg) h₁).nothing
          (htells d)).congr rfl rfl
  · exact h.replyError (hcap.silent (by decide) (by decide)) hok

/-! ## Collisions of nicks -/

/-- The user whom a collision hits, with the nick that is announced. -/
def victims (net : Network) (nick : Option String) : List (Ref × String) :=
  ((net.getUser nick).bind fun u => nick.map fun n => (u, n)).toList

theorem victims_cases (net : Network) (nick : Option String) :
    net.getUser nick = none ∧ victims net nick = [] ∨
    ∃ u n, nick = some n ∧ net.getUser nick = some u ∧ victims net nick = [(u, n)] := by
  cases hu : net.getUser nick with
  | none => exact .inl ⟨rfl, by simp [victims, hu]⟩
  | some u =>
    obtain ⟨_, n, hn, _⟩ := Network.getUser_eq_some hu
    refine .inr ⟨u, n, hn, rfl, ?_⟩
    rw [victims, hu, hn]
    rfl

theorem of_mem_victims {net : Network} {nick : Option String} {p : Ref × String}
    (hp : p ∈ victims net nick) : net.getUser (some p.2) = some p.1 := by
  rcases victims_cases net nick with ⟨_, hnil⟩ | ⟨u, n, hn, hu, hone⟩
  · simp [hnil] at hp
  · rw [hone, List.mem_singleton] at hp
    rw [hp, ← hn, hu]

open Classical in
theorem tells_dispatchNickCollision (h : hub.Lines) (hcap : KeepsCapitals) {nick : Option String}
    (hv : v ∈ hub.net.users) (hcon : (hub.net.user v).connection = some d) (hopen : ¬hub.closed d)
    (hne : ∀ p ∈ victims hub.net nick, v ≠ p.1)
    (hok : hub.dispatchNickCollision (hub.net.getUser nick) nick = .ok hub') :
    Tells hub d ((victims hub.net nick).flatMap fun p =>
      if hub.net.world.Share p.1 v then [.gone p.2] else []) hub' := by
  unfold Hub.dispatchNickCollision at hok
  split at hok
  · obtain rfl := Except.ok.inj hok
    exact .refl
  · rename_i nick
    obtain ⟨m₁, hm₁, hok⟩ := bind_eq_ok_iff.mp hok
    obtain ⟨m, hm, hok⟩ := bind_eq_ok_iff.mp hok
    have hnotice : noticeOf m = some (.gone nick) := by
      obtain ⟨_, rfl⟩ := Message.appendParameter_eq_ok hm₁
      obtain rfl := Message.appendLastParameter_eq_ok hm
      exact noticeOf_kill (hcap "KILL" (by decide)) rfl
    rcases victims_cases hub.net (some nick) with ⟨hu, hnil⟩ | ⟨u, n, hn, hu, hone⟩
    · rw [hu] at hok
      rw [hnil]
      exact h.tells_dispatchServerMessage (h.not_server hv hcon) hok
    · obtain rfl := Option.some.inj hn
      rw [hu] at hok
      have hne : v ≠ u := hne (u, nick) (by rw [hone]; exact List.mem_cons_self)
      have htold := h.tells_dispatchUserMessage hv hcon hopen hne List.not_mem_nil hok
      rw [hnotice] at htold
      simpa [hone] using htold

theorem tells_dispatchNickCollision_nothing (h : hub.Lines) {nick : Option String}
    {user : Option Ref} (hunreg : hub.Unregistered d)
    (hok : hub.dispatchNickCollision user nick = .ok hub') : Tells hub d [] hub' := by
  have hd := Lines.not_server_of_unregistered hunreg
  unfold Hub.dispatchNickCollision at hok
  split at hok
  · obtain rfl := Except.ok.inj hok
    exact .refl
  · obtain ⟨m₁, _, hok⟩ := bind_eq_ok_iff.mp hok
    obtain ⟨m, _, hok⟩ := bind_eq_ok_iff.mp hok
    split at hok
    · exact h.tells_dispatchUserMessage_nothing hd (fun w hw _ => h.not_connection hunreg hw) hok
    · exact h.tells_dispatchServerMessage hd hok

theorem disconnectLocalNickCollision_cases (hcap : KeepsCapitals) {nick : Option String}
    {net : Network} (hok : hub.disconnectLocalNickCollision (net.getUser nick) = .ok hub') :
    hub'.net = hub.net ∧ hub.Drops ((victims net nick).map Prod.fst) hub' ∧
      ∀ d, Tells hub d [] hub' := by
  rcases victims_cases net nick with ⟨hu, hnil⟩ | ⟨u, n, _, hu, hone⟩
  · rw [hu] at hok
    obtain rfl := Except.ok.inj hok
    exact ⟨rfl, fun c => .inl ⟨rfl, rfl⟩, fun d => .refl⟩
  · rw [hu] at hok
    rw [hone]
    exact disconnectLocal_cases hok hcap

theorem removeUser_net (hub : Hub) (net : Network) (nick : Option String) :
    (hub.removeUser (net.getUser nick)).net =
      ((victims net nick).map Prod.fst).foldl Network.userRemove hub.net ∧
    (hub.removeUser (net.getUser nick)).structures = hub.structures ∧
    (hub.removeUser (net.getUser nick)).closed = hub.closed ∧
    (hub.removeUser (net.getUser nick)).sent = hub.sent := by
  rcases victims_cases net nick with ⟨hu, hnil⟩ | ⟨u, n, _, hu, hone⟩
  · rw [hu, hnil]
    exact ⟨rfl, rfl, rfl, rfl⟩
  · rw [hu, hone]
    exact ⟨rfl, rfl, rfl, rfl⟩

theorem handleNickCollision (h : hub.Told) (hcap : KeepsCapitals) {nick1 nick2 : Option String}
    (hok : hub.handleNickCollision nick1 nick2 = .ok hub') : hub'.Told := by
  classical
  unfold Hub.handleNickCollision at hok
  dsimp only at hok
  obtain ⟨hub₁, h₁, hok⟩ := bind_eq_ok_iff.mp hok
  obtain ⟨hub₂, h₂, hok⟩ := bind_eq_ok_iff.mp hok
  obtain ⟨hub₃, h₃, hok⟩ := bind_eq_ok_iff.mp hok
  obtain ⟨hub₄, h₄, hok⟩ := bind_eq_ok_iff.mp hok
  have hw₁ := wrote_dispatchNickCollision h₁
  have hw₂ := wrote_dispatchNickCollision h₂
  have hlines₁ : hub₁.Lines := h.toLines.congr hw₁.net hw₁.structures
  obtain ⟨hnet₃, hdrops₃, htells₃⟩ := disconnectLocalNickCollision_cases hcap h₃
  obtain ⟨hnet₄, hdrops₄, htells₄⟩ := disconnectLocalNickCollision_cases hcap h₄
  have hnet₂ := hw₂.net.trans hw₁.net
  set us := victims hub.net nick1 ++ victims hub.net nick2 with hus
  have hdrops : hub.Drops (us.map Prod.fst) hub₄ := by
    have hfirst : hub.Drops [] hub₂ := .of_wrote (hw₁.trans hw₂)
    have hthen := (hfirst.trans hdrops₃ hnet₂).trans hdrops₄ (hnet₃.trans hnet₂)
    rwa [List.nil_append, ← List.map_append] at hthen
  have hmem : ∀ p ∈ us, hub.net.getUser (some p.2) = some p.1 := fun p hp =>
    (List.mem_append.mp hp).elim of_mem_victims of_mem_victims
  obtain ⟨hnet₅, hstr₅, hclosed₅, hsent₅⟩ := removeUser_net hub₄ hub.net nick1
  obtain ⟨hnet₆, hstr₆, hclosed₆, hsent₆⟩ := removeUser_net
    (hub₄.removeUser (hub.net.getUser nick1)) hub.net nick2
  obtain rfl := Except.ok.inj hok
  set hub₆ := (hub₄.removeUser (hub.net.getUser nick1)).removeUser (hub.net.getUser nick2)
  have hstr : hub₆.structures = hub₄.structures := hstr₆.trans hstr₅
  have hclosed : hub₆.closed = hub₄.closed := hclosed₆.trans hclosed₅
  have hsent : hub₆.sent = hub₄.sent := hsent₆.trans hsent₅
  have hdrops : hub.Drops (us.map Prod.fst) hub₆ := by
    intro c
    rw [hstr, hclosed]
    exact hdrops c
  refine h.leave us (hdrops.leaves ?_) ?_ ?_ ?_ (fun d => hdrops.fresh) ?_
  · intro u hu c hcon
    obtain ⟨p, hp, rfl⟩ := List.mem_map.mp hu
    exact (h.locals p.1 (Network.getUser_eq_some (hmem p hp)).1 c hcon).2
  · rw [hnet₆, hnet₅, hnet₄, hnet₃, hnet₂, ← List.foldl_append, ← List.map_append]
  · exact fun p hp _ _ => h.sound.names_of_getUser (hmem p hp)
  · intro v hv hne d hcon
    have hopen := h.opens v hv d hcon
    obtain ⟨hne₁, hne₂⟩ := List.forall_mem_append.mp hne
    have hfirst := tells_dispatchNickCollision h.toLines hcap hv hcon hopen hne₁ h₁
    rw [← hw₁.net] at hv hcon hne₂ h₂
    rw [← hw₁.closed] at hopen
    have hsecond := tells_dispatchNickCollision hlines₁ hcap hv hcon hopen hne₂ h₂
    rw [hw₁.net] at hsecond
    rw [hus, List.flatMap_append]
    exact ((hfirst.trans hsecond).nothing ((htells₃ d).nothing (htells₄ d))).congr rfl hsent
  · intro d hunreg
    have hunreg₁ : hub₁.Unregistered d := by rwa [Unregistered, hw₁.structures]
    exact ((tells_dispatchNickCollision_nothing h.toLines hunreg h₁).nothing
      ((tells_dispatchNickCollision_nothing hlines₁ hunreg₁ h₂).nothing
        ((htells₃ d).nothing (htells₄ d)))).congr rfl hsent

end Hub.Told

end MyLifeHome.Irc
