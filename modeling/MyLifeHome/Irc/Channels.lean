import MyLifeHome.Irc.Arrivals

/-!
# Joins and parts

Joins and parts are told to the local users who share any channel with the user, though the client
of one who is not on the channel can do nothing with them. So all who share a channel with the user
have to be on the channel in question.
-/
namespace MyLifeHome.Irc

open Checked Rooms

variable [Locale]

/-- The channels of a JOIN or a PART. -/
def channelNames (msg : Message) : List String :=
  (splitComma (msg.params.headD "")).map Locale.toLowerCase

theorem channelNames_cons {msg : Message} {names : String} {rest : List String}
    (hparams : msg.params = names :: rest) :
    channelNames msg = (splitComma names).map Locale.toLowerCase := by
  rw [channelNames, hparams, List.headD_cons]

omit [Locale] in
/-- A lookup that finds all finds them in order. -/
theorem forall₂_reduceOption {α β : Type} {f : α → Option β} {as : List α}
    (h : none ∉ as.map f) : List.Forall₂ (fun a b => f a = some b) as (as.map f).reduceOption := by
  induction as with
  | nil => exact .nil
  | cons a as ih =>
    rw [List.map_cons, List.mem_cons, not_or] at h
    obtain ⟨b, hb⟩ := Option.ne_none_iff_exists'.mp (Ne.symm h.1)
    rw [List.map_cons, hb, List.reduceOption_cons_of_some]
    exact .cons hb (ih h.2)

namespace Hub

/-- Whoever is at the end of the connection acts for the user, and the user has no other one. -/
structure Speaks (hub : Hub) (src : Conn) (u : Ref) : Prop where
  own : ∀ d, (hub.net.user u).connection = some d → d = src
  others : ∀ v ∈ hub.net.users, v ≠ u → (hub.net.user v).connection ≠ some src
  registered : ¬hub.Unregistered src

/-- The users are the same, at the same connections. -/
structure Stays (hub hub' : Hub) : Prop where
  users : hub'.net.users = hub.net.users
  connection : ∀ v, (hub'.net.user v).connection = (hub.net.user v).connection
  structures : hub'.structures = hub.structures

variable {hub hub' : Hub} {c d src : Conn} {u v r : Ref} {msg : Message} {name : String}
  {reason : Option String}

namespace Stays

section

omit [Locale]

theorem of_wrote (hw : Wrote hub hub') : hub.Stays hub' :=
  ⟨by rw [hw.net], fun v => by rw [hw.net], hw.structures⟩

theorem trans {hub'' : Hub} (h : hub.Stays hub') (g : hub'.Stays hub'') : hub.Stays hub'' :=
  ⟨g.users.trans h.users, fun v => (g.connection v).trans (h.connection v),
    g.structures.trans h.structures⟩

theorem connected (h : hub.Stays hub') : hub'.net.Connected = hub.net.Connected := by
  funext v
  rw [Network.Connected, Network.Connected, h.connection]

theorem speaks (h : hub.Stays hub') (hs : hub.Speaks src u) : hub'.Speaks src u := by
  refine ⟨fun d hd => hs.own d ?_, fun v hv hne => ?_, fun hunreg => hs.registered ?_⟩
  · rwa [← h.connection]
  · rw [h.users] at hv
    rw [h.connection]
    exact hs.others v hv hne
  · rwa [Unregistered, h.structures] at hunreg

end

end Stays

/-! ## Joins -/

theorem tells_welcome_nothing (hne : src ≠ d) (hcon : (hub.net.user u).connection ≠ some d)
    (h : hub.welcome src u r = .ok hub') : Tells hub d [] hub' := by
  unfold welcome at h
  split_ifs at h
  · obtain ⟨m, _, h⟩ := bind_eq_ok_iff.mp h
    obtain ⟨hub₁, h₁, h⟩ := bind_eq_ok_iff.mp h
    obtain ⟨hub₂, h₂, h⟩ := bind_eq_ok_iff.mp h
    obtain ⟨hub₃, h₃, h⟩ := bind_eq_ok_iff.mp h
    have hw := (wrote_send h₁).trans (wrote_reply h₂)
    rw [hw.net] at h₃ h
    have hw₃ := wrote_reply h₃
    have hsrc : some src ≠ some d := fun heq => hne (Option.some.inj heq)
    have hnames := (tells_reply_nothing (.inl hcon) h₃).nothing (tells_reply_nothing (.inl hcon) h)
    exact (tells_send_nothing (.inl hne) h₁).nothing
      ((tells_reply_nothing (.inl hsrc) h₂).nothing hnames)
  · obtain rfl := Except.ok.inj h
    exact .refl

/-- A user who has joined is told so, and who else is there. -/
theorem tells_welcome (hcap : KeepsCapitals) (hlocal : hub.net.isLocal u)
    (hcon : (hub.net.user u).connection = some src) (hopen : ¬hub.closed src)
    (hnicks : ∀ v ∈ (hub.net.channel r).users, isParameter (hub.net.user v).nick)
    (h : hub.welcome src u r = .ok hub') :
    Tells hub src [.joined (hub.net.user u).nick (Locale.toLowerCase (hub.net.channel r).name),
      .names (Locale.toLowerCase (hub.net.channel r).name)
        ((hub.net.channel r).users.map fun v => (hub.net.user v).nick)] hub' := by
  rw [welcome, if_pos hlocal] at h
  obtain ⟨m, hm, h⟩ := bind_eq_ok_iff.mp h
  obtain ⟨_, rfl⟩ := Message.appendParameter_eq_ok hm
  obtain ⟨hub₁, h₁, h⟩ := bind_eq_ok_iff.mp h
  obtain ⟨hub₂, h₂, h⟩ := bind_eq_ok_iff.mp h
  have hw := (wrote_send h₁).trans (wrote_reply h₂)
  have hjoined := tells_send hopen h₁
  rw [noticeOf_join (hcap "JOIN" (by decide)) rfl rfl] at hjoined
  have htopic := tells_reply_nothing (d := src) (.inr (hcap.silent (by decide) (by decide))) h₂
  rw [← hw.net] at hcon hnicks
  rw [← hw.closed] at hopen
  have hnames := tells_sendNames hcap hcon hopen hnicks h
  rw [hw.net] at hnames
  exact (hjoined.nothing htopic).trans hnames

namespace Told

theorem joinChannel (h : hub.Told) (hcap : KeepsCapitals) (hu : u ∈ hub.net.users)
    (hs : hub.Speaks src u)
    (hconfined : hub.net.world.Confined hub.net.Connected u (Locale.toLowerCase name))
    (hok : hub.joinChannel src (some u) name = .ok hub') :
    hub'.Told ∧ hub.Stays hub' ∧
      hub'.net.world = hub.net.world.join u (Locale.toLowerCase name) := by
  obtain ⟨net', hjoin, hok⟩ := bind_eq_ok_iff.mp hok
  dsimp only at hok
  split at hok
  · rename_i u' ch hu' hch
    obtain rfl := Option.some.inj hu'
    obtain ⟨m, hm, hok⟩ := bind_eq_ok_iff.mp hok
    obtain ⟨hparam, rfl⟩ := Message.appendParameter_eq_ok hm
    obtain ⟨hub₁, h₁, h₂⟩ := bind_eq_ok_iff.mp hok
    have hl := h.toLinked.userJoin hu hparam hjoin
    have hworld := h.sound.world_userJoin hjoin
    have hwithin := Network.within_userJoin hparam hjoin
    have hw₁ := wrote_dispatchUserMessage h₁
    have hw := hw₁.trans (wrote_welcome h₂)
    set k := Locale.toLowerCase name
    have hname : Locale.toLowerCase (net'.channel ch).name = k :=
      (hl.sound.memberships.names k ch hch).symm
    have hcon : ∀ v, (net'.user v).connection = (hub.net.user v).connection := by
      intro v
      rw [hwithin.user v]
    have hnick : (net'.user u).nick = hub.net.world.nick u := by
      rw [hwithin.user u]
      rfl
    have husers : net'.users = hub.net.users := (Network.userJoin_frame hjoin).2
    have hnicks : ∀ x ∈ (net'.channel ch).users, isParameter (net'.user x).nick :=
      fun x hx => hl.nicks x (hl.sound.memberships.present k ch hch x hx).1
    have hstays : hub.Stays { hub with net := net' } := ⟨husers, hcon, rfl⟩
    have hworld' : hub'.net.world = hub.net.world.join u k := by rw [hw.net, hworld]
    refine ⟨?_, hstays.trans (.of_wrote hw), hworld'⟩
    refine h.change (hl.wrote hw) ?_ ?_ (fun d => hw.fresh) ?_
    · intro v hv d hcond
      rw [hw.net] at hv hcond
      exact ⟨husers ▸ hv, hcon v ▸ hcond⟩
    · intro v hv _ d hcond hi
      have hopen := h.opens v hv d hcond
      have hserver := h.not_server hv hcond
      have hv₀ : v ∈ net'.users := husers ▸ hv
      have hcon₀ : (net'.user v).connection = some d := (hcon v).trans hcond
      by_cases hvu : v = u
      · subst hvu
        obtain rfl := hs.own d hcond
        have hfirst := hl.tells_dispatchUserMessage_nothing hserver
          (fun w hw hne hwd => hne ((hl.connection_iff hv₀ hcon₀ hw).mp hwd)) h₁
        have hwelcome := tells_welcome hcap (by rw [hw₁.net]; exact (hl.locals v hv₀ d hcon₀).1)
          (by rw [hw₁.net]; exact hcon₀) (by rwa [hw₁.closed]) (by rw [hw₁.net]; exact hnicks) h₂
        rw [hw₁.net] at hwelcome
        simp only [hname, hnick] at hwelcome
        refine hi.tell ((hfirst.trans hwelcome).congr rfl rfl) ?_ ?_
        · exact ⟨.inl (hi.shows.own_iff.mpr rfl), trivial, trivial⟩
        · rw [hworld']
          refine hi.shows.join_own fun n => ?_
          rw [← hworld]
          exact hl.sound.memberships.mem_nicks_iff hch
      · have hds : src ≠ d := by
          rintro rfl
          exact hs.others v hv hvu hcond
        have hud : (hub₁.net.user u).connection ≠ some d := by
          intro hud
          rw [hw₁.net, hcon] at hud
          exact hds (hs.own d hud).symm
        have htold := (hl.tells_dispatchUserMessage hv₀ hcon₀ hopen hvu (by simpa using hds.symm)
          h₁).nothing (tells_welcome_nothing hds hud h₂)
        rw [noticeOf_join (hcap "JOIN" (by decide)) rfl rfl] at htold
        have hshare : net'.world.Share u v ↔ hub.net.world.Share u v ∨ hub.net.world.on v k := by
          rw [hworld]
          exact World.share_join (Ne.symm hvu)
        by_cases hk : hub.net.world.on v k
        · rw [if_pos (hshare.mpr (.inr hk)), hnick] at htold
          refine hi.tellOne (htold.congr rfl rfl) (.inr (hi.shows.isSome_iff.mpr hk)) ?_
          rw [hworld']
          exact hi.shows.join_other h.sound.distinct hv hu (Ne.symm hvu) hk
        · rw [if_neg] at htold
          · refine hi.tellNothing (htold.congr rfl rfl) ?_
            rw [hworld']
            exact hi.shows.join_elsewhere (Ne.symm hvu) hk
          · intro hshared
            rcases hshare.mp hshared with hbefore | hon
            · exact hk (hconfined v hv ⟨d, hcond⟩ hvu hbefore)
            · exact hk hon
    · intro d hunreg
      have hds : src ≠ d := by
        rintro rfl
        exact hs.registered hunreg
      have hud : (hub₁.net.user u).connection ≠ some d := by
        rw [hw₁.net, hcon]
        exact h.not_connection hunreg hu
      exact ((hl.tells_dispatchUserMessage_nothing (Lines.not_server_of_unregistered hunreg)
        (fun w hw _ => hl.not_connection hunreg hw) h₁).nothing
          (tells_welcome_nothing hds hud h₂)).congr rfl rfl
  · cases hok

theorem joinChannels (h : hub.Told) (hcap : KeepsCapitals) (hu : u ∈ hub.net.users)
    (hs : hub.Speaks src u) {names : List String}
    (hconfined : World.ConfinedJoins hub.net.Connected u hub.net.world
      (names.map Locale.toLowerCase))
    (hok : names.foldlM (fun hub name => hub.joinChannel src (some u) name) hub = .ok hub') :
    hub'.Told := by
  induction names generalizing hub with
  | nil =>
    obtain rfl := Except.ok.inj hok
    exact h
  | cons name names ih =>
    rw [List.foldlM_cons] at hok
    obtain ⟨hub₁, h₁, hok⟩ := bind_eq_ok_iff.mp hok
    obtain ⟨hname, hnames⟩ := hconfined
    obtain ⟨htold, hstays, hworld⟩ := h.joinChannel hcap hu hs hname h₁
    refine ih htold (hstays.users ▸ hu) (hstays.speaks hs) ?_ hok
    rwa [hstays.connected, hworld]

/-! ## Parts -/

theorem partChannel (h : hub.Told) (hcap : KeepsCapitals) (hu : u ∈ hub.net.users)
    (hs : hub.Speaks src u) {k : String} (hget : hub.net.channels.get k = some r)
    (hconfined : hub.net.world.Confined hub.net.Connected u k)
    (hon : hub.net.Connected u → hub.net.world.on u k)
    (hok : hub.partChannel src u r reason = .ok hub') :
    hub'.Told ∧ hub.Stays hub' ∧ hub'.net.world = hub.net.world.part u k ∧
      hub'.net.channels = hub.net.channels := by
  obtain ⟨m, hm, hok⟩ := bind_eq_ok_iff.mp hok
  obtain ⟨_, rfl⟩ := Message.appendParameter_eq_ok hm
  obtain ⟨full, hfull, hok⟩ := bind_eq_ok_iff.mp hok
  obtain ⟨hub₁, h₁, hok⟩ := bind_eq_ok_iff.mp hok
  obtain ⟨hub₂, h₂, hok⟩ := bind_eq_ok_iff.mp hok
  obtain rfl := Except.ok.inj hok
  obtain ⟨hsender, hcommand, hparams⟩ := Message.appendText_eq_ok hfull
  have hw₁ := wrote_dispatchUserMessage h₁
  have hw₂ : Wrote hub₁ hub₂ := by
    split_ifs at h₂
    · exact wrote_send h₂
    · obtain rfl := Except.ok.inj h₂
      exact .refl
  have hw := hw₁.trans hw₂
  have hname : Locale.toLowerCase (hub.net.channel r).name = k :=
    (h.sound.memberships.names k r hget).symm
  have hupper : Locale.toUpperCase full.command = "PART" := by
    rw [hcommand]
    exact hcap "PART" (by decide)
  have hnotice : noticeOf full = some (.left (hub.net.world.nick u) k) := by
    rw [← hname]
    exact noticeOf_part hupper hsender hparams
  have hcon : ∀ v, ((hub₂.net.userPart u r).user v).connection = (hub.net.user v).connection := by
    intro v
    rw [Network.within_userPart.user v, hw.net]
  have hworld : (hub₂.net.userPart u r).world = hub.net.world.part u k := by
    rw [hw.net]
    exact h.sound.world_userPart hget
  have husers : (hub₂.net.userPart u r).users = hub.net.users := by
    rw [Network.userPart_users, hw.net]
  have hother : ∀ d, d ≠ src → Tells hub₁ d [] hub₂ := by
    intro d hds
    split_ifs at h₂
    · exact tells_send_nothing (.inl hds.symm) h₂
    · obtain rfl := Except.ok.inj h₂
      exact .refl
  refine ⟨?_, ⟨husers, hcon, hw.structures⟩, hworld, ?_⟩
  · refine h.change ((h.toLinked.wrote hw).userPart u r) ?_ ?_ (fun d => hw.fresh) ?_
    · intro v hv d hcond
      exact ⟨husers ▸ hv, hcon v ▸ hcond⟩
    · intro v hv _ d hcond hi
      have hopen := h.opens v hv d hcond
      by_cases hvu : v = u
      · subst hvu
        obtain rfl := hs.own d hcond
        have hfirst := h.tells_dispatchUserMessage_nothing (h.not_server hv hcond)
          (fun w hw hne hwd => hne ((h.connection_iff hv hcond hw).mp hwd)) h₁
        have hlocal := (h.locals v hv d hcond).1
        rw [if_pos (by rwa [hw₁.net])] at h₂
        rw [← hw₁.closed] at hopen
        have hsecond := tells_send hopen h₂
        rw [noticeOf_part (hcap "PART" (by decide)) rfl rfl, hname] at hsecond
        refine hi.tellOne ((hfirst.trans hsecond).congr rfl rfl) ?_ ?_
        · exact hi.shows.isSome_iff.mpr (hon ⟨d, hcond⟩)
        · rw [hworld]
          exact hi.shows.part_own h.sound.distinct hv
      · have hds : d ≠ src := by
          rintro rfl
          exact hs.others v hv hvu hcond
        have htold := (h.tells_dispatchUserMessage hv hcond hopen hvu (by simpa using hds)
          h₁).nothing (hother d hds)
        by_cases hshare : hub.net.world.Share u v
        · have hk := hconfined v hv ⟨d, hcond⟩ hvu hshare
          rw [if_pos hshare, hnotice] at htold
          refine hi.tellOne (htold.congr rfl rfl) (hi.shows.isSome_iff.mpr hk) ?_
          rw [hworld]
          exact hi.shows.part_other h.sound.distinct hv hu (Ne.symm hvu) hk
        · rw [if_neg hshare] at htold
          refine hi.tellNothing (htold.congr rfl rfl) ?_
          rw [hworld]
          by_cases hk : hub.net.world.on v k
          · rw [World.part_eq_self fun hon => hshare ⟨k, hon, hk⟩]
            exact hi.shows
          · exact hi.shows.part_elsewhere h.sound.distinct hu (Ne.symm hvu) hk
    · intro d hunreg
      have hds : d ≠ src := by
        rintro rfl
        exact hs.registered hunreg
      exact ((h.tells_dispatchUserMessage_nothing (Lines.not_server_of_unregistered hunreg)
        (fun w hw _ => h.not_connection hunreg hw) h₁).nothing (hother d hds)).congr rfl rfl
  · rw [← hw.net]
    exact Network.userPart_channels

theorem partChannels (h : hub.Told) (hcap : KeepsCapitals) (hu : u ∈ hub.net.users)
    (hs : hub.Speaks src u) {ks : List String} {cs : List Ref}
    (hcs : List.Forall₂ (fun k c => hub.net.channels.get k = some c) ks cs)
    (hconfined : World.ConfinedParts hub.net.Connected u hub.net.world ks)
    (hok : cs.foldlM (fun hub c => hub.partChannel src u c reason) hub = .ok hub') :
    hub'.Told := by
  induction cs generalizing hub ks with
  | nil =>
    obtain rfl := Except.ok.inj hok
    exact h
  | cons c cs ih =>
    rw [List.foldlM_cons] at hok
    obtain ⟨hub₁, h₁, hok⟩ := bind_eq_ok_iff.mp hok
    obtain ⟨k, ks, hget, hrest, rfl⟩ := List.forall₂_cons_right_iff.mp hcs
    obtain ⟨hfirst, hon, hmore⟩ := hconfined
    obtain ⟨htold, hstays, hworld, hchannels⟩ := h.partChannel hcap hu hs hget hfirst hon h₁
    rw [← hchannels] at hrest
    refine ih htold (hstays.users ▸ hu) (hstays.speaks hs) hrest ?_ hok
    rwa [hstays.connected, hworld]

/-! ## The commands -/

/-- A client acts for itself, and a link for those who have no connection here. -/
theorem speaks (h : hub.Lines) (hregistered : hub.checkRegistered src)
    (hsource : hub.source src msg = some u)
    (hown : ∀ d, (hub.net.user u).connection = some d → d = src) : hub.Speaks src u := by
  refine ⟨hown, fun v hv hne hcon => ?_, ?_⟩
  · rw [source, (h.locals v hv src hcon).2] at hsource
    exact hne (Option.some.inj hsource)
  · rintro ⟨n, i, r, hstr⟩
    simp [checkRegistered, hstr] at hregistered

theorem join (h : hub.Told) (hcap : KeepsCapitals)
    (hcareful : ∀ u, hub.structures src = .user u → Joins msg → u ∈ hub.net.users)
    (hcandid : hub.checkRegistered src → Joins msg → ∀ u, hub.source src msg = some u →
      (∀ d, (hub.net.user u).connection = some d → d = src) ∧
        World.ConfinedJoins hub.net.Connected u hub.net.world (channelNames msg))
    (hok : hub.join src msg = .ok hub') : hub'.Told := by
  unfold Hub.join at hok
  split_ifs at hok with hregistered
  · split at hok
    · exact h.replyError (hcap.silent (by decide) (by decide)) hok
    · rename_i names rest hparams
      obtain ⟨ok, hnames, hok⟩ := bind_eq_ok_iff.mp hok
      cases ok with
      | false => exact h.replyError (hcap.silent (by decide) (by decide)) hok
      | true =>
        by_cases hempty : splitComma names = []
        · rw [hempty] at hok
          obtain rfl := Except.ok.inj hok
          exact h
        have hjoins : Joins msg := ⟨names, rest, hparams, hempty, checkNames_eq_ok.mp hnames⟩
        cases hsource : hub.source src msg with
        | none =>
          obtain ⟨name, more, hcons⟩ := List.exists_cons_of_ne_nil hempty
          rw [hsource, hcons, if_pos rfl, List.foldlM_cons] at hok
          obtain ⟨hub₁, h₁, _⟩ := bind_eq_ok_iff.mp hok
          obtain ⟨u, _, hu, _⟩ := joinChannel_eq_ok h₁
          cases hu
        | some u =>
          rw [hsource, if_pos rfl] at hok
          obtain ⟨hown, hconfined⟩ := hcandid hregistered hjoins u hsource
          rw [channelNames_cons hparams] at hconfined
          have hu : u ∈ hub.net.users := by
            have hfound := hsource
            unfold source at hfound
            split at hfound
            · rename_i v hv
              obtain rfl := Option.some.inj hfound
              exact hcareful v hv hjoins
            · exact (Network.getUser_eq_some hfound).1
          exact h.joinChannels hcap hu (speaks h.toLines hregistered hsource hown) hconfined hok
  · exact h.replyError (hcap.silent (by decide) (by decide)) hok

theorem part (h : hub.Told) (hcap : KeepsCapitals)
    (hcandid : hub.checkRegistered src → ∀ u, hub.source src msg = some u →
      channelNames msg ≠ [] → (∀ k ∈ channelNames msg, hub.net.world.on u k) →
      (∀ d, (hub.net.user u).connection = some d → d = src) ∧
        World.ConfinedParts hub.net.Connected u hub.net.world (channelNames msg))
    (hok : hub.part src msg = .ok hub') : hub'.Told := by
  unfold Hub.part at hok
  split_ifs at hok with hregistered
  · split at hok
    · exact h.replyError (hcap.silent (by decide) (by decide)) hok
    · rename_i names rest hparams
      dsimp only at hok
      split at hok
      · split_ifs at hok
        obtain rfl := Except.ok.inj hok
        exact h
      · rename_i u hsource
        split_ifs at hok with hnone
        · exact h.replyError (hcap.silent (by decide) (by decide)) hok
        · by_cases hempty : splitComma names = []
          · rw [hempty] at hok
            obtain rfl := Except.ok.inj hok
            exact h
          have hfound := (forall₂_reduceOption hnone).imp fun name c hget => (h.sound.joined hget).1
          have hon : ∀ k ∈ channelNames msg, hub.net.world.on u k := by
            intro k hk
            rw [channelNames_cons hparams] at hk
            obtain ⟨name, hname, rfl⟩ := List.mem_map.mp hk
            refine Option.isSome_iff_ne_none.mpr fun hget => hnone ?_
            exact List.mem_map.mpr ⟨name, hname, hget⟩
          have hne : channelNames msg ≠ [] := by
            rwa [channelNames_cons hparams, Ne, List.map_eq_nil_iff]
          obtain ⟨hown, hconfined⟩ := hcandid hregistered u hsource hne hon
          have hu : u ∈ hub.net.users := by
            obtain ⟨k, ks, hks⟩ := List.exists_cons_of_ne_nil hne
            by_contra hu
            exact h.sound.off hu k (hon k (by rw [hks]; exact List.mem_cons_self))
          rw [channelNames_cons hparams] at hconfined
          refine h.partChannels hcap hu (speaks h.toLines hregistered hsource hown) ?_ hconfined hok
          exact List.forall₂_map_left_iff.mpr hfound
  · exact h.replyError (hcap.silent (by decide) (by decide)) hok

end Told

end Hub

end MyLifeHome.Irc

