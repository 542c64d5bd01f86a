import MyLifeHome.Irc.Turns

/-!
# What a hub announces

One lemma for each change that a hub makes to its network: it comes to the view with that update,
and announces the update.
-/
namespace MyLifeHome.Irc

open Checked Replication

variable [Locale] {V : Type} [DecidableEq V] {L : Layout V} {h : V} {w w' : View V}

omit [Locale] in
omit [DecidableEq V] in
theorem Layout.IsNick.word {u : V × Conn} {nick : String} (hn : L.IsNick u nick) : IsWord nick :=
  ⟨isParameter_of_isNickName hn.1 hn.2.1, isPlain_of_isNickName hn.1⟩

/-- No neighbour is left out but the one that the change came from. -/
def Layout.Spares (L : Layout V) (h : V) (excluded : List Conn) (src : Option Conn) : Prop :=
  ∀ g, L.graph.Adj h g → (L.link h g ∈ excluded ↔ some (L.link h g) = src)

omit [Locale] in
theorem isWord_toString (n : Int) : IsWord (toString n) := by
  refine ⟨isParameter_toString n, ?_⟩
  have hdigits : ∀ m : Nat, IsPlain m.repr := by
    intro m c hc
    rw [Nat.toList_repr] at hc
    have hdigit := Nat.isDigit_of_mem_toDigits (by decide) (by decide) hc
    simp only [Char.isDigit, Bool.and_eq_true, decide_eq_true_eq] at hdigit
    have hlow : ('0' : Char) ≤ c := hdigit.1
    exact Char.le_trans (by decide) hlow
  cases n with
  | ofNat m => exact hdigits m
  | negSucc m =>
    intro c hc
    have htext : (toString (Int.negSucc m)).toList = '-' :: (m + 1).repr.toList := by
      change ("-" ++ (m + 1).repr).toList = _
      simp
    rw [htext] at hc
    rcases List.mem_cons.mp hc with rfl | hc
    · decide
    · exact hdigits _ c hc

namespace Hub

variable {hub hub₁ hub' : Hub} {c d : Conn} {src : Option Conn} {s r root : Ref}
  {net' : Network} {msg : Message} {excluded : List Conn} {u : V × Conn} {g : V}

/-- The connections are as they were, and so are the users, and the nick of this one. -/
structure Stands (hub : Hub) (r : Ref) (hub' : Hub) : Prop where
  structures : hub'.structures = hub.structures
  closed : hub'.closed = hub.closed
  users : hub'.net.users = hub.net.users
  nick : (hub'.net.user r).nick = (hub.net.user r).nick

namespace Shows

section

omit [DecidableEq V]

theorem isNick (hs : hub.Shows L h w) (hr : r ∈ hub.net.users) :
    L.IsNick (L.owner (hub.net.user r).nick) (hub.net.user r).nick :=
  (hs.depicts.legible r hr).nick

theorem named (hs : hub.Shows L h w) (hr : r ∈ hub.net.users)
    (howner : L.owner (hub.net.user r).nick = u) : Update.Named w u (hub.net.user r).nick :=
  ⟨_, howner ▸ hs.depicts.users r hr, rfl⟩

/-- A hub knows of itself. -/
theorem known (hL : L.Proper) (hs : hub.Shows L h w) : (w h).known := by
  obtain ⟨r, hr, hname⟩ := hs.depicts.root
  obtain ⟨v, hv, hvname, _⟩ := hs.depicts.servers r (Network.getLocalServer_eq_some hr).1
  exact hL.names v h (by rw [← hvname, hname]) ▸ hv

theorem not_user (hs : hub.Shows L h w) (hg : L.graph.Adj h g) (r : Ref) :
    hub.structures (L.link h g) ≠ .user r := by
  intro hstr
  rcases (hs.ends g hg).2 with heq | ⟨s, heq⟩ <;> simp [hstr, Connectable.new] at heq

/-- What is dispatched to the servers, before anything else is written that is not for them. -/
theorem writes_dispatch (hs : hub.Shows L h w) (hopen : ¬hub.closed c)
    (hspares : L.Spares h excluded src) {hub₀ : Hub} (hnet : hub₀.net = hub.net)
    (hok : hub₀.dispatchServerMessage msg excluded = .ok hub₁) (hg : L.graph.Adj h g)
    (hdopen : ¬hub₀.closed (L.link h g)) (hquiet : hub₁.Writes (L.link h g) [] hub')
    {a : Update V} (hann : a.Announced L msg) :
    ∃ ms, hub₀.Writes (L.link h g) ms hub' ∧ (¬hub.Hears src (L.link h g) → ms = []) ∧
      (hub.Hears src (L.link h g) → ∃ m, ms = [m] ∧ a.Announced L m) := by
  have hready := hs.exists_ready hopen
  by_cases hlinked : ∃ s, hub.structures (L.link h g) = .server s
  · obtain ⟨s, hstr⟩ := hlinked
    have hw := hready.writes_dispatchServerMessage hstr (hs.links _ s hstr).1 hnet hdopen hok
    refine ⟨_, hw.nothing hquiet, fun hno => ?_, fun hhears => ⟨msg, ?_, hann⟩⟩
    · rw [if_pos]
      by_contra hin
      exact hno ⟨fun hsrc => hin ((hspares g hg).mpr hsrc), s, hstr⟩
    · rw [if_neg fun hin => hhears.1 ((hspares g hg).mp hin)]
  · have hw := hready.writes_dispatchServerMessage_other (not_exists.mp hlinked) hnet hok
    exact ⟨[], hw.nothing hquiet, fun _ => rfl, fun hhears => absurd hhears.2 hlinked⟩

theorem writes_dispatchUser (hs : hub.Shows L h w) (hopen : ¬hub.closed c)
    (hspares : L.Spares h excluded src) {hub₀ : Hub} (hnet : hub₀.net = hub.net)
    (hok : hub₀.dispatchUserMessage r msg excluded = .ok hub₁) (hg : L.graph.Adj h g)
    (hdopen : ¬hub₀.closed (L.link h g)) (hquiet : hub₁.Writes (L.link h g) [] hub')
    {a : Update V} (hann : a.Announced L msg) :
    ∃ ms, hub₀.Writes (L.link h g) ms hub' ∧ (¬hub.Hears src (L.link h g) → ms = []) ∧
      (hub.Hears src (L.link h g) → ∃ m, ms = [m] ∧ a.Announced L m) := by
  have hready := hs.exists_ready hopen
  by_cases hlinked : ∃ s, hub.structures (L.link h g) = .server s
  · obtain ⟨s, hstr⟩ := hlinked
    have hw := hready.writes_dispatchUserMessage hstr (hs.links _ s hstr).1 hnet hdopen hok
    refine ⟨_, hw.nothing hquiet, fun hno => ?_, fun hhears => ⟨msg, ?_, hann⟩⟩
    · rw [if_pos]
      by_contra hin
      exact hno ⟨fun hsrc => hin ((hspares g hg).mpr hsrc), s, hstr⟩
    · rw [if_neg fun hin => hhears.1 ((hspares g hg).mp hin)]
  · have hw := hready.writes_dispatchUserMessage_other (hs.ends g hg).1 (not_exists.mp hlinked)
      (hs.not_user hg) hnet hok
    exact ⟨[], hw.nothing hquiet, fun _ => rfl, fun hhears => absurd hhears.2 hlinked⟩

end

/-! ## A new nick -/

theorem setNick {new : String} (hs : hub.Shows L h w) (hopen : ¬hub.closed c)
    (hr : r ∈ hub.net.users) (howner : L.owner (hub.net.user r).nick = u)
    (hfree : hub.net.getUser (some new) = none) (hnick : L.IsNick u new) :
    Shows { hub with net := hub.net.modifyUser r fun user => { user with nick := new } } L h
      ((Update.rename u (hub.net.user r).nick new).apply w) := by
  have hready := hs.exists_ready hopen
  have hdepicts := hs.depicts.setNick hready.sound hr howner hnick
  have hperson : w.user u = some (hub.net.person r) := howner ▸ hs.depicts.users r hr
  rw [show (Update.rename u (hub.net.user r).nick new).apply w =
    w.setUser u (some { hub.net.person r with nick := new }) by simp [Update.apply, hperson]]
  have huser : ∀ v, (hub.net.modifyUser r fun user => { user with nick := new }).user v =
      { hub.net.user v with nick := if v = r then new else (hub.net.user v).nick } :=
    fun _ => Network.setNick_user
  refine hs.changeUsers (hready.setNick hfree hnick.word.1) hdepicts rfl (fun _ => ⟨rfl, rfl⟩) ?_ ?_
  · intro c v hstr hopen hv hvowner
    refine ⟨hv, ?_⟩
    rw [huser]
    by_cases hvr : v = r
    · subst hvr
      rw [if_pos rfl, hnick.2.2, ← howner, hvowner]
    · rw [if_neg hvr]
      exact hvowner
  · intro v hv hlocal
    have hsame : (hub.net.modifyUser r fun user => { user with nick := new }).isLocal v =
        hub.net.isLocal v := isLocal_congr rfl (fun _ => rfl) (by rw [huser])
    exact ⟨hv, hsame ▸ hlocal⟩

theorem turns_rename (hcap : KeepsCapitals) {new : String} (hs : hub.Shows L h w)
    (hopen : ¬hub.closed c) (hr : r ∈ hub.net.users) (howner : L.owner (hub.net.user r).nick = u)
    (hfree : hub.net.getUser (some new) = none) (hnick : L.IsNick u new)
    (hspares : L.Spares h excluded src)
    (hok : Hub.dispatchNickChange
      { hub with net := hub.net.modifyUser r fun user => { user with nick := new } } r
      (hub.net.user r).nick new excluded = .ok hub') :
    hub.Turns L h w src {u.1} hub' ((Update.rename u (hub.net.user r).nick new).apply w) := by
  have hs₀ := hs.setNick hopen hr howner hfree hnick
  have hpasses : Message.Passes ⟨some (hub.net.user r).nick, "NICK", [] ++ [new], false⟩ :=
    passes_of_capitals hcap (by decide) (by decide)
      (fun s heq => Option.some.inj heq ▸ (hs.isNick hr).word) (by simp) (.inl hnick.word)
  obtain ⟨m, hm, hrest⟩ := bind_eq_ok_iff.mp hok
  obtain ⟨hub₁, h₁, hlast⟩ := bind_eq_ok_iff.mp hrest
  obtain ⟨_, rfl⟩ := Message.appendParameter_eq_ok hm
  have hw := wrote_dispatchUserMessage h₁
  have hwrote := (wrote_dispatchUserMessage h₁).trans <| show Wrote hub₁ hub' by
    split_ifs at hlast
    · exact wrote_sendTo hlast
    · obtain rfl := Except.ok.inj hlast
      exact .refl
  refine turns_announce (hs₀.wrote hwrote) ?_ (by simp [Update.homes])
    (fun g _ => by rw [hwrote.structures]) fun g hg => ?_
  · refine ⟨hnick, fun heq => ?_, hs.named hr howner⟩
    exact Network.getUser_eq_none_iff.mp hfree r hr heq
  · refine hs₀.writes_dispatchUser (c := c) hopen hspares rfl h₁ hg (hs₀.ends g hg).1 ?_
      ⟨hpasses, rfl⟩
    split_ifs at hlast with hlocal
    · refine writes_sendTo_other ?_ hlast
      rw [hw.net] at hlocal ⊢
      exact (hs₀.exists_ready (c := c) hopen).not_connection (hs₀.ends g hg).1 (hs₀.not_user hg) hr
        hlocal
    · obtain rfl := Except.ok.inj hlast
      exact .refl

/-! ## Channels -/

theorem turns_join (hcap : KeepsCapitals) {name : String} (hs : hub.Shows L h w)
    (hopen : ¬hub.closed c) (hr : r ∈ hub.net.users) (howner : L.owner (hub.net.user r).nick = u)
    (hname : IsChannelName name) (hback : hub.net.isLocal r → ∀ g, L.graph.Adj h g → c ≠ L.link h g)
    (hspares : L.Spares h [c] src) (hok : hub.joinChannel c (some r) name = .ok hub') :
    hub.Stands r hub' ∧
      hub.Turns L h w src {u.1} hub' ((Update.join u (hub.net.user r).nick [name]).apply w) := by
  have hready := hs.exists_ready hopen
  have hword := hname.word
  obtain ⟨net', hjoin, hok⟩ := bind_eq_ok_iff.mp hok
  have hwithin := Network.within_userJoin hword.1 hjoin
  obtain ⟨hserver, husers⟩ := Network.userJoin_frame hjoin
  have hperson : w.user u = some (hub.net.person r) := howner ▸ hs.depicts.users r hr
  have hlocal : ∀ v, net'.isLocal v = hub.net.isLocal v := fun v =>
    isLocal_congr (Network.userJoin_servers hjoin) (fun s => by rw [hserver]) (by rw [hwithin.user v])
  have hs₀ : Shows { hub with net := net' } L h
      ((Update.join u (hub.net.user r).nick [name]).apply w) := by
    have hdepicts := hs.depicts.userJoin hready.sound hr howner hname hjoin
    rw [show (Update.join u (hub.net.user r).nick [name]).apply w = w.setUser u (some
      { hub.net.person r with channels := (hub.net.person r).channels ∪ Update.keys [name] }) by
        simp [Update.apply, hperson]]
    refine hs.changeUsers (hready.userJoin hr hword.1 hjoin) hdepicts
      (Network.userJoin_servers hjoin) (fun s => by simp [hserver]) ?_ ?_
    · intro c v hstr hopen hv hvowner
      rw [husers, hwithin.user v]
      exact ⟨hv, hvowner⟩
    · intro v hv hvlocal
      exact ⟨husers ▸ hv, hlocal v ▸ hvlocal⟩
  have hnick : (net'.user r).nick = (hub.net.user r).nick := by rw [hwithin.user r]
  have hpasses : Message.Passes ⟨some (hub.net.user r).nick, "JOIN", [] ++ [name], false⟩ :=
    passes_of_capitals hcap (by decide) (by decide)
      (fun s heq => Option.some.inj heq ▸ (hs.isNick hr).word) (by simp) (.inl hword)
  dsimp only at hok
  split at hok
  · rename_i v channel hv _
    obtain rfl := Option.some.inj hv
    obtain ⟨m, hm, hrest⟩ := bind_eq_ok_iff.mp hok
    obtain ⟨hub₁, h₁, hlast⟩ := bind_eq_ok_iff.mp hrest
    obtain ⟨_, rfl⟩ := Message.appendParameter_eq_ok hm
    have hw := wrote_dispatchUserMessage h₁
    have hwrote := hw.trans (wrote_welcome hlast)
    refine ⟨⟨by rw [hwrote.structures], by rw [hwrote.closed], ?_, ?_⟩, ?_⟩
    · rw [hwrote.net]
      exact husers
    · rw [hwrote.net]
      exact hnick
    · refine turns_announce (hs₀.wrote hwrote) ?_ (by simp [Update.homes])
        (fun g _ => by rw [hwrote.structures]) fun g hg => ?_
      · exact ⟨by simpa using hname, hs.named hr howner⟩
      · refine hs₀.writes_dispatchUser (c := c) hopen hspares rfl h₁ hg (hs₀.ends g hg).1 ?_ ⟨?_, ?_⟩
        · by_cases hloc : hub₁.net.isLocal r
          · rw [hw.net] at hloc
            refine writes_welcome_other (hback (hlocal r ▸ hloc) g hg) ?_ hlast
            rw [hw.net]
            exact (hs₀.exists_ready (c := c) hopen).not_connection (hs₀.ends g hg).1
              (hs₀.not_user hg) (husers ▸ hr) hloc
          · rw [welcome, if_neg hloc] at hlast
            obtain rfl := Except.ok.inj hlast
            exact .refl
        · rw [hnick]
          exact hpasses
        · rw [hnick]
          exact ⟨by simp, false, rfl⟩
  · cases hok

theorem turns_part (hcap : KeepsCapitals) {k : String} {channel : Ref} {reason : Option String}
    (hs : hub.Shows L h w) (hopen : ¬hub.closed c) (hr : r ∈ hub.net.users)
    (howner : L.owner (hub.net.user r).nick = u) (hget : hub.net.channels.get k = some channel)
    (hreason : ∀ text, reason = some text → IsText text)
    (hback : hub.net.isLocal r → ∀ g, L.graph.Adj h g → c ≠ L.link h g)
    (hspares : L.Spares h [c] src) (hok : hub.partChannel c r channel reason = .ok hub') :
    (hub.Stands r hub' ∧ hub'.net.channels = hub.net.channels) ∧
      hub.Turns L h w src {u.1} hub'
        ((Update.part u (hub.net.user r).nick (hub.net.channel channel).name).apply w) := by
  have hready := hs.exists_ready hopen
  have hname := hs.depicts.channels k channel hget
  have hword := hname.word
  have hperson : w.user u = some (hub.net.person r) := howner ▸ hs.depicts.users r hr
  have hwithin : hub.net.Within (hub.net.userPart r channel) := Network.within_userPart
  have hsender : ∀ s, some (hub.net.user r).nick = some s → IsWord s :=
    fun s heq => Option.some.inj heq ▸ (hs.isNick hr).word
  have hs₀ : Shows { hub with net := hub.net.userPart r channel } L h
      ((Update.part u (hub.net.user r).nick (hub.net.channel channel).name).apply w) := by
    have hdepicts := hs.depicts.userPart hready.sound hr howner hget
    rw [show (Update.part u (hub.net.user r).nick (hub.net.channel channel).name).apply w =
      w.setUser u (some { hub.net.person r with channels := (hub.net.person r).channels \ {k} }) by
        simp [Update.apply, hperson, hready.sound.memberships.names k channel hget]]
    refine hs.changeUsers (hready.userPart r channel) hdepicts Network.userPart_servers
      (fun s => by simp [Network.userPart_server]) ?_ ?_
    · intro c v hstr hopen hv hvowner
      rw [Network.userPart_users, hwithin.user v]
      exact ⟨hv, hvowner⟩
    · intro v hv hvlocal
      have hsame : (hub.net.userPart r channel).isLocal v = hub.net.isLocal v :=
        isLocal_congr Network.userPart_servers (fun s => by rw [Network.userPart_server])
          (by rw [hwithin.user v])
      exact ⟨Network.userPart_users ▸ hv, hsame ▸ hvlocal⟩
  obtain ⟨m, hm, hok⟩ := bind_eq_ok_iff.mp hok
  obtain ⟨_, rfl⟩ := Message.appendParameter_eq_ok hm
  obtain ⟨full, hfull, hok⟩ := bind_eq_ok_iff.mp hok
  obtain ⟨hub₁, h₁, hok⟩ := bind_eq_ok_iff.mp hok
  obtain ⟨hub₂, h₂, hok⟩ := bind_eq_ok_iff.mp hok
  obtain rfl := Except.ok.inj hok
  have hw₁ := wrote_dispatchUserMessage h₁
  have hw₂ : Wrote hub₁ hub₂ := by
    split_ifs at h₂
    · exact wrote_send h₂
    · obtain rfl := Except.ok.inj h₂
      exact .refl
  have hw := hw₁.trans hw₂
  have hann : Update.Announced L full
      (.part u (hub.net.user r).nick (hub.net.channel channel).name) := by
    cases reason with
    | none =>
      obtain rfl := Except.ok.inj hfull
      have hpasses : Message.Passes ⟨some (hub.net.user r).nick, "PART",
          [] ++ [(hub.net.channel channel).name], false⟩ :=
        passes_of_capitals hcap (by decide) (by decide) hsender (by simp) (.inl hword)
      exact ⟨hpasses, none, hreason, rfl⟩
    | some text =>
      obtain rfl := Message.appendLastParameter_eq_ok hfull
      have hpasses : Message.Passes ⟨some (hub.net.user r).nick, "PART",
          [(hub.net.channel channel).name] ++ [text], true⟩ :=
        passes_of_capitals hcap (by decide) (by decide) hsender (by simpa using hword)
          (.inr ⟨rfl, hreason text rfl⟩)
      exact ⟨hpasses, some text, hreason, rfl⟩
  have hnet : hub₂.net.userPart r channel = hub.net.userPart r channel := by rw [hw.net]
  refine ⟨⟨⟨hw.structures, hw.closed, ?_, ?_⟩, ?_⟩, ?_⟩
  · rw [hnet, Network.userPart_users]
  · rw [hnet, hwithin.user r]
  · rw [hnet, Network.userPart_channels]
  · have hs' : Shows { hub₂ with net := hub₂.net.userPart r channel } L h
        ((Update.part u (hub.net.user r).nick (hub.net.channel channel).name).apply w) := by
      obtain ⟨out, rfl⟩ := hw
      exact hs₀.wrote ⟨out, rfl⟩
    have hquiet : ∀ g, L.graph.Adj h g → hub₁.Writes (L.link h g) [] hub₂ := by
      intro g hg
      split_ifs at h₂ with hlocal
      · rw [hw₁.net] at hlocal
        exact writes_send_other (hback hlocal g hg) h₂
      · rw [Except.ok.inj h₂]
        exact .refl
    refine turns_announce hs' ⟨hname, hs.named hr howner⟩ (by simp [Update.homes])
      (fun g _ => by rw [hw.structures]) fun g hg => ?_
    exact hs.writes_dispatchUser hopen hspares rfl h₁ hg (hs.ends g hg).1 (hquiet g hg) hann

/-! ## Leaving -/

theorem withoutUser (hs : hub.Shows L h w) (hopen : ¬hub.closed c) (hr : r ∈ hub.net.users)
    (howner : L.owner (hub.net.user r).nick = u) (hlocal : ¬hub.net.isLocal r) :
    Shows { hub with net := hub.net.userRemove r } L h (w.setUser u none) := by
  have hready := hs.exists_ready hopen
  have hwithout := (hready.sound.without r).2
  have huser : ∀ v, v ≠ r → (hub.net.userRemove r).user v = hub.net.user v := fun v hv =>
    hready.sound.userRemove_user hv
  have hmem : ∀ v, v ∈ (hub.net.userRemove r).users ↔ v ∈ hub.net.users ∧ v ≠ r := by
    intro v
    rw [hwithout.users]
    simp
  refine hs.changeUsers (hready.userRemove r) (hs.depicts.userRemove hready.sound hr howner)
    hwithout.servers (fun s => by rw [hwithout.server s]; exact ⟨rfl, rfl⟩) ?_ ?_
  · intro c v hstr hopen hv hvowner
    have hvr : v ≠ r := by
      rintro rfl
      obtain ⟨root, hroot, hname⟩ := hs.depicts.root
      have hhome := hs.depicts.homes v hr
      rw [hvowner, ← hname] at hhome
      refine hlocal (decide_eq_true ?_)
      rw [hroot, Network.Depicts.eq_of_name hready.sound (hready.sound.homes.registered v hr)
        (Network.getLocalServer_eq_some hroot).1 hhome]
    rw [huser v hvr]
    exact ⟨(hmem v).mpr ⟨hv, hvr⟩, hvowner⟩
  · intro v hv hvlocal
    obtain ⟨hv, hvr⟩ := (hmem v).mp hv
    have hsame : (hub.net.userRemove r).isLocal v = hub.net.isLocal v :=
      isLocal_congr hwithout.servers (fun s => by rw [hwithout.server s]) (by rw [huser v hvr])
    exact ⟨hv, hsame ▸ hvlocal⟩

/-- A client has gone, and its connection is closed. -/
theorem leave (hs : hub.Shows L h w) (hopen : ¬hub.closed c) (hstr : hub.structures c = .user r)
    (hsteady : IrcServer.Steady hub') (hnet : hub'.net = hub.net.userRemove r)
    (hclosed : hub'.closed = Function.update hub.closed c true)
    (hstructures : ∀ d, d ≠ c → hub'.structures d = hub.structures d)
    (hself : hub'.structures c = .user r ∨ hub'.structures c = .new)
    (haround : hub.SameSurroundings hub') : hub'.Shows L h (w.setUser (h, c) none) := by
  have hready := hs.exists_ready hopen
  have hwithout := (hready.sound.without r).2
  obtain ⟨hr, howner⟩ := hs.locals c r hstr hopen
  have huser : ∀ v, v ≠ r → (hub.net.userRemove r).user v = hub.net.user v := fun v hv =>
    hready.sound.userRemove_user hv
  have hmem : ∀ v, v ∈ (hub.net.userRemove r).users ↔ v ∈ hub.net.users ∧ v ≠ r := by
    intro v
    rw [hwithout.users]
    simp
  have hother : ∀ d v, hub.structures d = .user v → ¬hub.closed d → v ≠ r → d ≠ c := by
    rintro d v hd hdopen hvr rfl
    exact hvr (Connectable.user.inj (hd.symm.trans hstr))
  have hserver : ∀ s, (hub.net.userRemove r).server s = { hub.net.server s with
      users := ((hub.net.userRemove r).server s).users } := hwithout.server
  refine hs.change hsteady ?_ ?_ ?_ ?_ ?_ ?_ ?_ haround
  · rw [hnet]
    exact hs.depicts.userRemove hready.sound hr howner
  · intro d s hd
    by_cases hdc : d = c
    · subst hdc
      rcases hself with heq | heq <;> simp [heq, Connectable.new] at hd
    · rwa [hstructures d hdc] at hd
  · intro g hg
    have hgc : L.link h g ≠ c := by
      intro heq
      exact hs.not_user hg r (heq ▸ hstr)
    rw [hstructures _ hgc, hclosed, Function.update_of_ne hgc]
    exact ⟨rfl, rfl⟩
  · intro s hpeer
    rw [hnet, hserver s]
    exact ⟨peer_congr hwithout.servers (fun s => by rw [hserver s]) hpeer, rfl⟩
  · intro d v hd hdopen
    rw [hclosed] at hdopen
    have hdc : d ≠ c := by
      rintro rfl
      exact hdopen (Function.update_self ..)
    rw [Function.update_of_ne hdc] at hdopen
    rw [hstructures d hdc] at hd
    obtain ⟨hv, hvowner⟩ := hs.locals d v hd hdopen
    have hvr : v ≠ r := by
      rintro rfl
      exact hdc (congrArg Prod.snd (hvowner.symm.trans howner))
    rw [hnet, huser v hvr]
    exact ⟨(hmem v).mpr ⟨hv, hvr⟩, hvowner⟩
  · intro v hv hvlocal
    rw [hnet] at hv hvlocal
    obtain ⟨hv, hvr⟩ := (hmem v).mp hv
    have hsame : (hub.net.userRemove r).isLocal v = hub.net.isLocal v :=
      isLocal_congr hwithout.servers (fun s => by rw [hserver s]) (by rw [huser v hvr])
    obtain ⟨d, hd, hdopen⟩ := hs.attached v hv (hsame ▸ hvlocal)
    have hdc := hother d v hd hdopen hvr
    refine ⟨d, (hstructures d hdc).trans hd, ?_⟩
    rwa [hclosed, Function.update_of_ne hdc]
  · intro d nick ident realName hd
    by_cases hdc : d = c
    · subst hdc
      rcases hself with heq | heq
      · simp [heq] at hd
      · obtain ⟨rfl, rfl, rfl⟩ := Connectable.unregistered.inj (heq.symm.trans hd)
        exact .inr ⟨by simp, by simp, by simp⟩
    · exact .inl ((hstructures d hdc).symm.trans hd)

/-- The user's going has been told before the user is taken from the network. -/
theorem turns_quit {hub₀ : Hub} (hs : hub.Shows L h w) (hopen : ¬hub.closed c)
    (hr : r ∈ hub.net.users) (howner : L.owner (hub.net.user r).nick = u)
    (hspares : L.Spares h excluded src)
    (hann : Update.Announced L msg (.quit u (hub.net.user r).nick))
    (hnet : hub₀.net = hub.net) (hsent₀ : hub₀.sent = hub.sent)
    (hopens : ∀ g, L.graph.Adj h g → ¬hub₀.closed (L.link h g))
    (hok : hub₀.dispatchUserMessage r msg excluded = .ok hub₁)
    (hs' : hub'.Shows L h (w.setUser u none))
    (hframe : ∀ g, L.graph.Adj h g → hub'.structures (L.link h g) = hub.structures (L.link h g))
    (hsent : hub'.sent = hub₁.sent) :
    hub.Turns L h w src {u.1} hub' ((Update.quit u (hub.net.user r).nick).apply w) := by
  refine turns_announce hs' (hs.named hr howner) (by simp [Update.homes]) hframe ?_
  intro g hg
  obtain ⟨ms, hwrites, hno, hall⟩ := hs.writes_dispatchUser hopen hspares hnet hok hg
    (hopens g hg) .refl hann
  exact ⟨ms, hwrites.congr hsent₀.symm hsent, hno, hall⟩

/-! ## Arriving -/

theorem withUser {user : User} {p : Person} (hs : hub.Shows L h w) (hopen : ¬hub.closed c)
    (hreg : hub.net.Registered user.server) (hparent : (hub.net.server user.server).parent ≠ none)
    (hhome : (hub.net.server user.server).name = L.name u.1)
    (hfree : hub.net.getUser (some user.nick) = none) (hchannels : user.channels = .empty)
    (hnone : w.user u = none) (hp : L.Legible u p)
    (heq : p = ⟨user.nick, user.ident, user.host, user.realName, ∅⟩) :
    Shows { hub with net := hub.net.withUser user } L h (w.setUser u (some p)) := by
  have hready := hs.exists_ready hopen
  have hparams : isParameter user.nick ∧ isParameter user.ident ∧ isParameter user.host := by
    subst heq
    exact ⟨hp.nick.word.1, hp.ident.1, hp.host.1⟩
  have huser : ∀ v, v ≠ hub.net.next → (hub.net.withUser user).user v = hub.net.user v := by
    intro v hv
    rw [Network.withUser_user, if_neg hv]
  have hold : ∀ v ∈ hub.net.users, v ≠ hub.net.next := fun v hv =>
    (hready.sound.users_lt v hv).ne
  have hlocal : ∀ v, v ≠ hub.net.next → (hub.net.withUser user).isLocal v = hub.net.isLocal v :=
    fun v hv => isLocal_congr rfl (fun s => by rw [Network.withUser_server]) (by rw [huser v hv])
  refine hs.changeUsers (hready.withUser user hreg hparent hfree hchannels hparams)
    (hs.depicts.withUser hready.sound hnone hhome hchannels hp heq) rfl
    (fun s => by rw [Network.withUser_server]; exact ⟨rfl, rfl⟩) ?_ ?_
  · intro c v hstr hopen hv hvowner
    rw [huser v (hold v hv)]
    exact ⟨List.mem_append_left _ hv, hvowner⟩
  · intro v hv hvlocal
    rcases List.mem_append.mp hv with hv | hv
    · exact ⟨hv, hlocal v (hold v hv) ▸ hvlocal⟩
    · obtain rfl := List.mem_singleton.mp hv
      have hroot : (hub.net.withUser user).getLocalServer = hub.net.getLocalServer :=
        Network.getLocalServer_congr rfl fun s => by rw [Network.withUser_server]
      rw [Network.isLocal, Network.withUser_user, if_pos rfl, hroot, decide_eq_true_iff] at hvlocal
      exact absurd (Network.getLocalServer_eq_some hvlocal.symm).2 hparent

/-- A client that has told who it is. -/
theorem register {user : User} {p : Person} (hs : hub.Shows L h w) (hopen : ¬hub.closed c)
    (hnotlink : ∀ g, L.graph.Adj h g → c ≠ L.link h g) (hunreg : hub.Unregistered c) (hroot : hub.net.getLocalServer = some user.server)
    (hfree : hub.net.getUser (some user.nick) = none) (hchannels : user.channels = .empty)
    (hnone : w.user (h, c) = none) (hp : L.Legible (h, c) p)
    (heq : p = ⟨user.nick, user.ident, user.host, user.realName, ∅⟩) :
    Shows (({ hub with net := hub.net.withLocalUser user c } : Hub).setStructure c
      (.user hub.net.next)) L h (w.setUser (h, c) (some p)) := by
  have hready := hs.exists_ready hopen
  have hparams : isParameter user.nick ∧ isParameter user.ident ∧ isParameter user.host := by
    subst heq
    exact ⟨hp.nick.word.1, hp.ident.1, hp.host.1⟩
  have hhome : (hub.net.server user.server).name = L.name h := by
    obtain ⟨root, hr, hname⟩ := hs.depicts.root
    obtain rfl := Option.some.inj (hroot.symm.trans hr)
    exact hname
  have hstructures : ∀ d, d ≠ c → (({ hub with net := hub.net.withLocalUser user c } : Hub).setStructure
      c (.user hub.net.next)).structures d = hub.structures d := fun d hd => Function.update_of_ne hd ..
  have hself : (({ hub with net := hub.net.withLocalUser user c } : Hub).setStructure c
      (.user hub.net.next)).structures c = .user hub.net.next := Function.update_self ..
  have huser : ∀ v, v ≠ hub.net.next → (hub.net.withLocalUser user c).user v = hub.net.user v := by
    intro v hv
    simp [Network.withLocalUser, Network.modifyUser, Network.withUser, hv]
  have hnew : (hub.net.withLocalUser user c).user hub.net.next = { user with connection := some c } := by
    simp [Network.withLocalUser, Network.modifyUser, Network.withUser]
  have hserver : ∀ s, (hub.net.withLocalUser user c).server s = { hub.net.server s with
      users := ((hub.net.withLocalUser user c).server s).users } := by
    intro s
    change (hub.net.withUser user).server s = _
    rw [Network.withUser_server]
    rfl
  have hservers : (hub.net.withLocalUser user c).servers = hub.net.servers := rfl
  have hparent : ∀ s, ((hub.net.withLocalUser user c).server s).parent = (hub.net.server s).parent := by
    intro s
    rw [hserver s]
  have hold : ∀ v ∈ hub.net.users, v ≠ hub.net.next := fun v hv =>
    (hready.sound.users_lt v hv).ne
  have hnot : ∀ d x, hub.structures d = x →
      (∀ nick ident realName, x ≠ .unregistered nick ident realName) → d ≠ c := by
    rintro d x hd hx rfl
    obtain ⟨nick, ident, realName, hstr⟩ := hunreg
    exact hx _ _ _ (hd.symm.trans hstr)
  refine hs.change (IrcServer.steady_of_ready
    (hready.register user hroot hfree hchannels hparams hunreg hopen)) ?_ ?_ ?_ ?_ ?_ ?_ ?_ ⟨rfl, rfl⟩
  · exact (hs.depicts.withUser hready.sound hnone hhome hchannels hp heq).setUserConnection
  · intro d s hd
    by_cases hdc : d = c
    · subst hdc
      cases hself.symm.trans hd
    · rwa [hstructures d hdc] at hd
  · exact fun g hg => ⟨hstructures _ (hnotlink g hg).symm, rfl⟩
  · intro s hpeer
    have hpeer' : Peer (hub.net.withLocalUser user c) s := peer_congr hservers hparent hpeer
    have hname : ((hub.net.withLocalUser user c).server s).name = (hub.net.server s).name := by
      rw [hserver s]
    exact ⟨hpeer', hname⟩
  · intro d v hd hdopen
    by_cases hdc : d = c
    · subst hdc
      obtain rfl := Connectable.user.inj (hself.symm.trans hd)
      refine ⟨List.mem_append_right _ (List.mem_singleton_self _), ?_⟩
      have hnick : ((hub.net.withLocalUser user d).user hub.net.next).nick = p.nick := by
        rw [hnew, heq]
      exact (congrArg L.owner hnick).trans hp.nick.2.2
    · rw [hstructures d hdc] at hd
      obtain ⟨hv, hvowner⟩ := hs.locals d v hd hdopen
      refine ⟨List.mem_append_left _ hv, ?_⟩
      have hsame := huser v (hold v hv)
      exact (congrArg (fun x : User => L.owner x.nick) hsame).trans hvowner
  · intro v hv hvlocal
    rcases List.mem_append.mp hv with hv | hv
    · have hsame : (hub.net.withLocalUser user c).isLocal v = hub.net.isLocal v :=
        isLocal_congr hservers hparent (by rw [huser v (hold v hv)])
      obtain ⟨d, hd, hdopen⟩ := hs.attached v hv (hsame ▸ hvlocal)
      exact ⟨d, (hstructures d (hnot d _ hd (by simp))).trans hd, hdopen⟩
    · obtain rfl := List.mem_singleton.mp hv
      exact ⟨c, hself, hopen⟩
  · intro d nick ident realName hd
    by_cases hdc : d = c
    · subst hdc
      cases hself.symm.trans hd
    · exact .inl ((hstructures d hdc).symm.trans hd)

section

omit [DecidableEq V]

theorem token_eq (hL : L.Proper) (hs : hub.Shows L h w) (hreg : hub.net.Registered s) {v : V}
    (hname : (hub.net.server s).name = L.name v) : (hub.net.server s).token = L.token v := by
  obtain ⟨g, _, hgname, htoken⟩ := hs.depicts.servers s hreg
  obtain rfl := hL.names g v (by rw [← hname, hgname])
  exact htoken

/-- What is announced of a user is what is known of it, but for the channels. -/
theorem announced_newUser (hcap : KeepsCapitals) (hL : L.Proper) (hs : hub.Shows L h w)
    (hopen : ¬hub.closed c) (hr : r ∈ hub.net.users) (howner : L.owner (hub.net.user r).nick = u)
    {hopcount : Int} (hlow : -2 ^ 31 ≤ hopcount) (hhigh : hopcount < 2 ^ 31)
    (hok : hub.createNewNickMessage r hopcount = .ok msg) :
    Update.Announced L msg (.arrive u { hub.net.person r with channels := ∅ }) := by
  have hp := hs.depicts.legible r hr
  rw [howner] at hp
  have htoken : (hub.net.server (hub.net.user r).server).token = L.token u.1 := by
    refine hs.token_eq hL ((hs.exists_ready hopen).sound.homes.registered r hr) ?_
    rw [hs.depicts.homes r hr, howner]
  obtain ⟨m, hm, hok⟩ := bind_eq_ok_iff.mp hok
  obtain ⟨m₁, hm₁, hok⟩ := bind_eq_ok_iff.mp hok
  obtain ⟨m₂, hm₂, hok⟩ := bind_eq_ok_iff.mp hok
  obtain ⟨m₃, hm₃, hok⟩ := bind_eq_ok_iff.mp hok
  obtain ⟨m₄, hm₄, hok⟩ := bind_eq_ok_iff.mp hok
  obtain ⟨m₅, hm₅, hok⟩ := bind_eq_ok_iff.mp hok
  obtain ⟨_, rfl⟩ := Message.appendParameter_eq_ok hm
  obtain ⟨_, rfl⟩ := Message.appendParameter_eq_ok hm₁
  obtain ⟨_, rfl⟩ := Message.appendParameter_eq_ok hm₂
  obtain ⟨_, rfl⟩ := Message.appendParameter_eq_ok hm₃
  obtain ⟨_, rfl⟩ := Message.appendParameter_eq_ok hm₄
  obtain ⟨_, rfl⟩ := Message.appendParameter_eq_ok hm₅
  obtain rfl := Message.appendLastParameter_eq_ok hok
  have hpasses : Message.Passes ⟨none, "NICK",
      [(hub.net.user r).nick, toString hopcount, (hub.net.user r).ident, (hub.net.user r).host,
        toString (hub.net.server (hub.net.user r).server).token, "+"] ++ [(hub.net.user r).realName],
      true⟩ := by
    refine passes_of_capitals hcap (by decide) (by decide) (by simp) ?_ (.inr ⟨rfl, hp.realName.1⟩)
    have hplus : IsWord "+" := ⟨by decide, by simp [IsPlain]⟩
    simpa using ⟨hp.nick.word, isWord_toString _, hp.ident, hp.host, isWord_toString _, hplus⟩
  refine ⟨hpasses, hopcount, hlow, hhigh, ?_⟩
  rw [← htoken]
  rfl

end

theorem turns_arrive {hub₀ : Hub} {p : Person} (hcap : KeepsCapitals) (hL : L.Proper)
    (hs₀ : hub₀.Shows L h ((Update.arrive u p).apply w)) (hopen : ¬hub₀.closed c)
    (hfits : (Update.arrive u p).fits L w) (hr : r ∈ hub₀.net.users)
    (howner : L.owner (hub₀.net.user r).nick = u) (hperson : hub₀.net.person r = p)
    (hspares : L.Spares h excluded src) (hsent : hub₀.sent = hub.sent)
    (hframe : ∀ g, L.graph.Adj h g → hub₀.structures (L.link h g) = hub.structures (L.link h g))
    {hopcount : Int} (hlow : -2 ^ 31 ≤ hopcount) (hhigh : hopcount < 2 ^ 31)
    (hok : hub₀.dispatchNewUser r hopcount excluded = .ok hub₁) (hw : Wrote hub₁ hub')
    (hquiet : ∀ g, L.graph.Adj h g → hub₁.Writes (L.link h g) [] hub') :
    hub.Turns L h w src {u.1} hub' ((Update.arrive u p).apply w) := by
  obtain ⟨m, hm, hok⟩ := bind_eq_ok_iff.mp hok
  have hann := announced_newUser hcap hL hs₀ hopen hr howner hlow hhigh hm
  have hp : { hub₀.net.person r with channels := ∅ } = p := by
    rw [hperson, ← hfits.2.1]
  rw [hp] at hann
  have hwrote := (wrote_dispatchServerMessage hok).trans hw
  refine turns_announce (hs₀.wrote hwrote) hfits (by simp [Update.homes]) ?_ ?_
  · intro g hg
    rw [hwrote.structures]
    exact hframe g hg
  · intro g hg
    obtain ⟨ms, hwrites, hno, hall⟩ := hs₀.writes_dispatch hopen hspares rfl hok hg
      (hs₀.ends g hg).1 (hquiet g hg) hann
    simp only [Hears, hframe g hg] at hno hall
    exact ⟨ms, hwrites.congr hsent.symm rfl, hno, hall⟩

/-! ## Servers -/

section

omit [DecidableEq V]

/-- What is told of a server, under whatever name. -/
theorem passes_serverMessage (hcap : KeepsCapitals) (hL : L.Proper) (hs : hub.Shows L h w)
    (hreg : hub.net.Registered s) {v : V} {sender : Option String}
    (hname : (hub.net.server s).name = L.name v) (hsender : ∀ n, sender = some n → IsWord n)
    (hok : hub.serverMessage sender s = .ok msg) :
    msg.Passes ∧ msg = ⟨sender, "SERVER", [L.name v, "0", toString (L.token v), L.name v], true⟩ := by
  obtain ⟨m, hm, hok⟩ := bind_eq_ok_iff.mp hok
  obtain ⟨m₁, hm₁, hok⟩ := bind_eq_ok_iff.mp hok
  obtain ⟨m₂, hm₂, hok⟩ := bind_eq_ok_iff.mp hok
  obtain ⟨_, rfl⟩ := Message.appendParameter_eq_ok hm
  obtain ⟨_, rfl⟩ := Message.appendParameter_eq_ok hm₁
  obtain ⟨_, rfl⟩ := Message.appendParameter_eq_ok hm₂
  obtain rfl := Message.appendLastParameter_eq_ok hok
  have hpasses : Message.Passes ⟨sender, "SERVER",
      [L.name v, "0", toString (L.token v)] ++ [L.name v], true⟩ := by
    refine passes_of_capitals hcap (by decide) (by decide) hsender ?_ (.inl (hL.words v))
    have hzero : IsWord "0" := ⟨by decide, by simp [IsPlain]⟩
    simpa using ⟨hL.words v, hzero, isWord_toString _⟩
  rw [hname, hs.token_eq hL hreg hname]
  exact ⟨hpasses, rfl⟩

theorem announced_server (hcap : KeepsCapitals) (hL : L.Proper) (hs : hub.Shows L h w)
    (hreg : hub.net.Registered s) {v parent : V} (hname : (hub.net.server s).name = L.name v)
    (hok : hub.serverMessage (some (L.name parent)) s = .ok msg) :
    Update.Announced L msg (.server v parent) :=
  hs.passes_serverMessage hcap hL hreg hname
    (fun _ hn => Option.some.inj hn ▸ hL.words parent) hok

end

/-- The neighbours are there as before. -/
theorem peer_withServer {net : Network} {name : String} {token : Int} {t : Ref} (hsound : net.Sound)
    (hname : net.getServer name = none) (htoken : net.getServerByToken token = none)
    (hreg : net.Registered s) (hpeer : Peer net t) : Peer (net.withServer name token (some s)) t ∧
      ((net.withServer name token (some s)).server t).name = (net.server t).name := by
  obtain ⟨htreg, r, hr, htparent⟩ := hpeer
  have hroot := Network.getLocalServer_withServer hsound hname htoken hreg
  refine ⟨⟨(Network.registered_withServer hname).mpr (.inl htreg), r, hroot.trans hr, ?_⟩, ?_⟩
  all_goals rw [Network.withServer_server, if_neg (hsound.servers_lt t htreg).ne]
  exact htparent

theorem withServer {v : V} (hL : L.Proper) (hs : hub.Shows L h w) (hopen : ¬hub.closed c)
    (hv : ¬(w v).known) (hreg : hub.net.Registered s) (hparent : (hub.net.server s).parent ≠ none) :
    Shows { hub with net := hub.net.withServer (L.name v) (L.token v) (some s) } L h
      (w.setKnown v) := by
  have hready := hs.exists_ready hopen
  have hname := hs.depicts.getServer_eq_none hL hready.sound hv
  have htoken := hs.depicts.getServerByToken_eq_none hL hready.sound hv
  have hroot := Network.getLocalServer_withServer hready.sound hname htoken hreg
  refine hs.change (IrcServer.steady_of_ready
    (hready.withServer hname htoken hreg hparent (hL.words v).1))
    (hs.depicts.withServer hL hready.sound hv hreg) (fun _ _ hstr => hstr)
    (fun _ _ => ⟨rfl, rfl⟩) (fun _ hpeer => peer_withServer hready.sound hname htoken hreg hpeer)
    hs.locals ?_ (fun _ _ _ _ hstr => .inl hstr) ⟨rfl, rfl⟩
  · intro r hr hlocal
    refine hs.attached r hr ?_
    have hsame : (hub.net.withServer (L.name v) (L.token v) (some s)).isLocal r =
        hub.net.isLocal r := by
      rw [Network.isLocal, hroot]
      rfl
    exact hsame ▸ hlocal

theorem turns_server {v parent : V} (hcap : KeepsCapitals) (hL : L.Proper) (hs : hub.Shows L h w)
    (hopen : ¬hub.closed c) (hfits : (Update.server v parent).fits L w)
    (hreg : hub.net.Registered s) (hname : (hub.net.server s).name = L.name parent)
    (hparent : (hub.net.server s).parent ≠ none) (hspares : L.Spares h excluded src)
    (hok : Hub.publishServer
      { hub with net := hub.net.withServer (L.name v) (L.token v) (some s) } hub.net.next excluded =
        .ok hub') : hub.Turns L h w src {v, parent} hub' ((Update.server v parent).apply w) := by
  have hready := hs.exists_ready hopen
  have hs₀ := hs.withServer hL hopen hfits.2 hreg hparent
  have hfree := hs.depicts.getServer_eq_none hL hready.sound hfits.2
  have hnew : ((hub.net.withServer (L.name v) (L.token v) (some s)).server hub.net.next).name =
      L.name v ∧
      ((hub.net.withServer (L.name v) (L.token v) (some s)).server hub.net.next).parent = some s := by
    rw [Network.withServer_server, if_pos rfl]
    exact ⟨rfl, rfl⟩
  have hold : ((hub.net.withServer (L.name v) (L.token v) (some s)).server s).name =
      L.name parent := by
    rw [Network.withServer_server, if_neg (hready.sound.servers_lt s hreg).ne]
    exact hname
  unfold publishServer at hok
  simp only [hnew.2] at hok
  obtain ⟨m, hm, hok⟩ := bind_eq_ok_iff.mp hok
  rw [hold] at hm
  have hann := announced_server hcap hL hs₀ ((Network.registered_withServer hfree).mpr (.inr rfl))
    hnew.1 hm
  have hwrote := wrote_dispatchServerMessage hok
  refine turns_announce (hs₀.wrote hwrote) hfits (by simp [Update.homes])
    (fun g _ => by rw [hwrote.structures]) fun g hg => ?_
  exact hs₀.writes_dispatch (c := c) hopen hspares rfl hok hg (hs₀.ends g hg).1 .refl hann

/-! ## Messages of users -/

/-- A message that goes on changes nothing, and says who it is of. -/
theorem turns_talk {nick : String} (hs : hub.Shows L h w) (hopen : ¬hub.closed c)
    (hsender : hub.senderOf c msg = some nick) (hnamed : Update.Named w u nick)
    (hcommand : getCommand msg.command = some .privmsg ∨ getCommand msg.command = some .notice)
    (hpasses : ∀ target text rest, msg.params = target :: text :: rest →
      isCommandIdentifier msg.command = .ok true → isParameter target →
        Message.Passes ⟨some nick, msg.command, [target, text], true⟩)
    (hsrc : ∀ g, L.graph.Adj h g → some (L.link h g) = src → L.link h g = c)
    (hok : hub.routeMessage c msg = .ok hub') :
    hub.Turns L h w src {u.1} hub' ((Update.talk u nick).apply w) := by
  have hwrote := wrote_routeMessage hok
  refine ⟨hs.wrote hwrote, fun _ _ => rfl, fun g _ => by rw [hwrote.structures], ?_⟩
  intro g hg
  have hgopen := (hs.ends g hg).1
  by_cases hlinked : ∃ s, hub.structures (L.link h g) = .server s
  · obtain ⟨ms, hw, hms⟩ := writes_routeMessage hgopen hok
    rcases hms with rfl | ⟨hdc, target, text, rest, hparams, hid, htarget, rfl⟩
    · exact ⟨[], [], hw, .nil, by simp, fun _ => rfl, fun _ => ⟨trivial, rfl⟩⟩
    · rw [hsender] at hw
      have hpass := hpasses target text rest hparams hid htarget
      refine ⟨_, [.talk u nick], hw, .cons ⟨hpass, _, target, text, hcommand, rfl⟩ .nil,
        by simp [Update.homes], fun hno => ?_, fun _ => ⟨⟨hnamed, trivial⟩, rfl⟩⟩
      exact absurd ⟨fun hsrc' => hdc (hsrc g hg hsrc'), hlinked⟩ hno
  · have hw := (hs.exists_ready hopen).writes_routeMessage_other hgopen (not_exists.mp hlinked)
      (hs.not_user hg) hok
    exact ⟨[], [], hw, .nil, by simp, fun _ => rfl, fun hhears => absurd hhears.2 hlinked⟩

end Shows

end Hub

end MyLifeHome.Irc

