import MyLifeHome.Irc.Clients

/-!
# What comes on a link

A message that announces an update, when the update can be made in the view of the hub that reads
it, brings this hub to the view with the update, and goes on to all other neighbours.
-/
namespace MyLifeHome.Irc

open Checked Replication

variable [Locale] {V : Type} [DecidableEq V] {L : Layout V} {h : V} {w w' : View V}

/-! ## The commands of neighbours -/

theorem getCommand_server (hcap : KeepsCapitals) : getCommand "SERVER" = some .server := by
  rw [getCommand, hcap _ (by decide)]
  rfl

theorem getCommand_nick (hcap : KeepsCapitals) : getCommand "NICK" = some .nick := by
  rw [getCommand, hcap _ (by decide)]
  rfl

theorem getCommand_join (hcap : KeepsCapitals) : getCommand "JOIN" = some .join := by
  rw [getCommand, hcap _ (by decide)]
  rfl

theorem getCommand_part (hcap : KeepsCapitals) : getCommand "PART" = some .part := by
  rw [getCommand, hcap _ (by decide)]
  rfl

theorem getCommand_quit (hcap : KeepsCapitals) : getCommand "QUIT" = some .quit := by
  rw [getCommand, hcap _ (by decide)]
  rfl

/-! ## Lists of channels -/

section

omit [Locale]

/-- Names with a comma between them are read as they were. -/
theorem splitComma_intercalate {names : List String} (hne : names ≠ [])
    (hnames : ∀ name ∈ names, name ≠ "" ∧ ',' ∉ name.toList) :
    splitComma (",".intercalate names) = names := by
  obtain ⟨name, rest, rfl⟩ := List.exists_cons_of_ne_nil hne
  rcases rest with _ | ⟨next, rest⟩
  · rw [String.intercalate_singleton, splitComma, if_neg (hnames name (by simp)).2]
  · have hsplit : Text.split ',' (",".intercalate (name :: next :: rest)) = name :: next :: rest := by
      have hchars : ∀ l ∈ (name :: next :: rest).map String.toList, ',' ∉ l := by
        intro l hl
        obtain ⟨x, hx, rfl⟩ := List.mem_map.mp hl
        exact (hnames x hx).2
      have hcomma : ",".toList = [','] := rfl
      rw [Text.split, String.toList_intercalate, hcomma, List.splitOn_intercalate ',' hchars (by simp)]
      simp
    have hmem : ',' ∈ (",".intercalate (name :: next :: rest)).toList := by
      rw [String.intercalate_cons_cons]
      simp
    rw [splitComma, if_pos hmem, hsplit]
    obtain ⟨last, front, hfront⟩ : ∃ last front, (name :: next :: rest).reverse = last :: front :=
      List.exists_cons_of_ne_nil (by simp)
    have hlast : last ≠ "" := (hnames last (List.mem_reverse.mp (by simp [hfront]))).1
    rw [hfront, List.dropWhile_cons_of_neg (by simpa using hlast), ← hfront, List.reverse_reverse]

theorem notMem_comma {name : String} (h : isChannelIdentifier name = .ok true) :
    name ≠ "" ∧ ',' ∉ name.toList := by
  unfold isChannelIdentifier at h
  split at h
  · cases h
  · rename_i c cs hcs
    obtain ⟨hstart, hparts⟩ := Bool.and_eq_true_iff.mp (Except.ok.inj h)
    refine ⟨?_, ?_⟩
    · rintro rfl
      simp at hcs
    · rw [hcs, List.mem_cons, not_or]
      constructor
      · rintro rfl
        exact absurd hstart (by decide)
      · intro hmem
        exact absurd (List.all_eq_true.mp hparts ',' hmem) (by decide)

end

namespace Hub

variable {hub hub₁ hub' : Hub} {c : Conn} {r s : Ref} {u : V × Conn} {v parent k : V} {msg : Message}

/-- The connection is a link to a neighbour. -/
structure IsLink (hub : Hub) (L : Layout V) (h k : V) (c : Conn) (s : Ref) : Prop where
  adj : L.graph.Adj h k
  eq : c = L.link h k
  server : hub.structures c = .server s

section

omit [Locale] [DecidableEq V]

theorem spares_self : L.Spares h [c] (some c) := by
  intro g _
  simp

theorem IsLink.checkRegistered (hl : hub.IsLink L h k c s) : hub.checkRegistered c := by
  simp [Hub.checkRegistered, hl.server]

end

omit [DecidableEq V] in
theorem IsLink.source (hl : hub.IsLink L h k c s) : hub.source c msg = hub.net.getUser msg.sender := by
  simp [Hub.source, hl.server]

omit [Locale] [DecidableEq V] in
/-- No error goes to a server. -/
theorem IsLink.eq_of_replyError (hl : hub.IsLink L h k c s) {num : Numerics}
    (hok : hub.replyError c num = .ok hub') : hub' = hub := by
  obtain ⟨m, _, hok⟩ := bind_eq_ok_iff.mp hok
  rw [hl.server] at hok
  obtain ⟨_, _, hok⟩ := bind_eq_ok_iff.mp hok
  exact (Except.ok.inj hok).symm

namespace Shows

section

omit [DecidableEq V]

theorem open_of_link (hs : hub.Shows L h w) (hl : hub.IsLink L h k c s) : ¬hub.closed c :=
  hl.eq ▸ (hs.ends k hl.adj).1

/-- Whom a neighbour speaks of is known. -/
theorem exists_named {nick : String} (hL : L.Proper) (hs : hub.Shows L h w) (hopen : ¬hub.closed c)
    (hnamed : Update.Named w u nick) : ∃ r ∈ hub.net.users, hub.net.getUser (some nick) = some r ∧
      L.owner (hub.net.user r).nick = u ∧ (hub.net.user r).nick = nick := by
  obtain ⟨p, hp, rfl⟩ := hnamed
  obtain ⟨r, hr, hget, howner, hperson⟩ := hs.depicts.getUser_eq_some hL
    (hs.exists_ready hopen).sound hp (show equalsIgnoreCase p.nick p.nick by simp [equalsIgnoreCase])
  exact ⟨r, hr, hget, howner, congrArg Person.nick hperson⟩

end

theorem turns_linkServer (hcap : KeepsCapitals) (hL : L.Proper) (hs : hub.Shows L h w)
    (hl : hub.IsLink L h k c s) (hann : Update.Announced L msg (.server v parent))
    (hfits : (Update.server v parent).fits L w) (hne : parent ≠ h)
    (hok : hub.server c msg = .ok hub') :
    hub.Turns L h w (some c) {v, parent} hub' ((Update.server v parent).apply w) := by
  have hopen := hs.open_of_link hl
  have hready := hs.exists_ready hopen
  obtain ⟨hpasses, rfl⟩ := hann
  obtain ⟨q, hget, hreg, hname⟩ := hs.depicts.getServer_eq_some hready.sound hfits.1
  obtain ⟨root, hroot⟩ := hready.exists_local
  have hparent : (hub.net.server q).parent ≠ none := by
    intro hnone
    have hq := hready.sound.tree.eq_root hroot hreg hnone
    exact hne ((hs.depicts.eq_hub_iff hL hready.sound hroot hreg hname).mp hq)
  have hserver := hok
  unfold server at hserver
  rw [hl.server] at hserver
  obtain ⟨created, hcreated, hserver⟩ := bind_eq_ok_iff.mp hserver
  have hadd : hub.net.serverAdd (some (L.name v)) (L.token v) (some q) =
      .ok (hub.net.next, hub.net.withServer (L.name v) (L.token v) (some q)) := by
    refine Network.serverAdd_eq_ok_iff.mpr ⟨?_, hs.depicts.getServer_eq_none hL hready.sound hfits.2,
      hs.depicts.getServerByToken_eq_none hL hready.sound hfits.2, rfl, rfl⟩
    simpa [isEmpty] using (isParameter_iff.mp (hL.words v).1).1
  have hcreate : hub.createServer (some q) ⟨some (L.name parent), "SERVER",
      [L.name v, "0", toString (L.token v), L.name v], true⟩ =
        .ok (.ok (hub.net.next, hub.net.withServer (L.name v) (L.token v) (some q))) := by
    have hnumber := parseInt_toString (hL.numbers v).1 (hL.numbers v).2
    refine bind_eq_ok_iff.mpr ⟨L.token v, hnumber, ?_⟩
    exact congrArg Except.ok hadd
  simp only [hget] at hcreated
  obtain rfl := Except.ok.inj (hcreate.symm.trans hcreated)
  exact hs.turns_server hcap hL hopen hfits hreg hname hparent spares_self hserver

theorem turns_linkArrive {p : Person} (hcap : KeepsCapitals) (hL : L.Proper) (hs : hub.Shows L h w)
    (hl : hub.IsLink L h k c s) (hann : Update.Announced L msg (.arrive u p))
    (hfits : (Update.arrive u p).fits L w) (hne : u.1 ≠ h) (hok : hub.nick c msg = .ok hub') :
    hub.Turns L h w (some c) {u.1} hub' ((Update.arrive u p).apply w) := by
  have hopen := hs.open_of_link hl
  have hready := hs.exists_ready hopen
  obtain ⟨hpasses, hopcount, hlow, hhigh, rfl⟩ := hann
  obtain ⟨hp, hempty, hknown, hnone⟩ := hfits
  obtain ⟨home, hget, hreg, hname⟩ := hs.depicts.getServerByToken_eq_some hL hready.sound hknown
  obtain ⟨root, hroot⟩ := hready.exists_local
  have hparent : (hub.net.server home).parent ≠ none := by
    intro hnull
    have hq := hready.sound.tree.eq_root hroot hreg hnull
    exact hne ((hs.depicts.eq_hub_iff hL hready.sound hroot hreg hname).mp hq)
  have hfree : hub.net.getUser (some p.nick) = none :=
    hs.depicts.getUser_eq_none hL fun q hq => by simp [hp.nick.2.2, hnone] at hq
  have hadd : hub.net.userAdd home (some p.nick) (some p.ident) (some p.host) (some p.realName) =
      .ok (hub.net.next, hub.net.withUser ⟨home, p.nick, p.ident, p.host, p.realName, none, .empty⟩) := by
    refine Network.userAdd_eq_ok_iff.mpr ⟨⟨?_, ?_, ?_, ?_⟩, hfree, rfl, rfl⟩
    · simpa [isEmpty] using hp.nick.2.1
    · simpa [isEmpty] using (isParameter_iff.mp hp.ident.1).1
    · simpa [isEmpty] using (isParameter_iff.mp hp.host.1).1
    · simpa [isEmpty] using hp.realName.2
  have hnick := hok
  unfold Hub.nick at hnick
  rw [hl.server] at hnick
  change hub.newUserInvoke c _ = .ok hub' at hnick
  unfold newUserInvoke at hnick
  rw [if_neg (by simp [Message.parameterCount])] at hnick
  obtain ⟨hop, hhop, hnick⟩ := bind_eq_ok_iff.mp hnick
  obtain ⟨token, htoken, hnick⟩ := bind_eq_ok_iff.mp hnick
  obtain rfl : hopcount = hop := Except.ok.inj ((parseInt_toString hlow hhigh).symm.trans hhop)
  obtain rfl : L.token u.1 = token :=
    Except.ok.inj ((parseInt_toString (hL.numbers u.1).1 (hL.numbers u.1).2).symm.trans htoken)
  rw [hget] at hnick
  simp only [Message.getParameter, List.getElem?_cons_zero, List.getElem?_cons_succ, hadd] at hnick
  set user : User := ⟨home, p.nick, p.ident, p.host, p.realName, none, .empty⟩ with huser
  have hperson : p = ⟨user.nick, user.ident, user.host, user.realName, ∅⟩ := by
    rw [huser, ← hempty]
  have hs₀ := hs.withUser hopen (show hub.net.Registered user.server from hreg) hparent hname hfree
    rfl hnone hp hperson
  have hnew : (hub.net.withUser user).user hub.net.next = user := by
    rw [Network.withUser_user, if_pos rfl]
  refine turns_arrive hcap hL hs₀ hopen ⟨hp, hempty, hknown, hnone⟩
    (List.mem_append_right _ (List.mem_singleton_self _)) ?_ ?_ spares_self rfl (fun _ _ => rfl)
    (Int.le_bmod (by decide)) (Int.bmod_lt (by decide)) hnick .refl fun _ _ => .refl
  · exact (congrArg (fun x : User => L.owner x.nick) hnew).trans hp.nick.2.2
  · have hsame : (hub.net.withUser user).person hub.net.next = p := by
      rw [hperson]
      simp only [Network.person, Network.world, hnew]
      simp [huser]
    exact hsame

theorem turns_linkRename {old new : String} (hcap : KeepsCapitals) (hL : L.Proper)
    (hs : hub.Shows L h w) (hl : hub.IsLink L h k c s)
    (hann : Update.Announced L msg (.rename u old new)) (hfits : (Update.rename u old new).fits L w)
    (hok : hub.nick c msg = .ok hub') :
    hub.Turns L h w (some c) {u.1} hub' ((Update.rename u old new).apply w) := by
  have hopen := hs.open_of_link hl
  obtain ⟨hpasses, rfl⟩ := hann
  obtain ⟨hnick, hdiffer, hnamed⟩ := hfits
  obtain ⟨r, hr, hget, howner, rfl⟩ := hs.exists_named hL hopen hnamed
  have hfree : hub.net.getUser (some new) = none := by
    refine hs.depicts.getUser_eq_none hL fun q hq heq => hdiffer ?_
    rw [hnick.2.2, ← howner, hs.depicts.users r hr] at hq
    obtain rfl := Option.some.inj hq
    exact heq
  have hchange : hub.net.userChangeNick (some r) new =
      .ok (hub.net.modifyUser r fun user => { user with nick := new }) :=
    Network.userChangeNick_eq_ok_iff.mpr ⟨r, rfl, hnick.2.1, hfree, rfl⟩
  unfold Hub.nick at hok
  rw [hl.server] at hok
  change hub.nickChangeInvoke c (some (hub.net.user r).nick) new = .ok hub' at hok
  unfold nickChangeInvoke at hok
  rw [hget] at hok
  dsimp only at hok
  rw [hchange] at hok
  exact hs.turns_rename hcap hopen hr howner hfree hnick spares_self hok

theorem turns_linkJoin {nick : String} {names : List String} (hcap : KeepsCapitals) (hL : L.Proper)
    (hs : hub.Shows L h w) (hl : hub.IsLink L h k c s)
    (hann : Update.Announced L msg (.join u nick names)) (hfits : (Update.join u nick names).fits L w)
    (hne : u.1 ≠ h) (hok : hub.join c msg = .ok hub') :
    hub.Turns L h w (some c) {u.1} hub' ((Update.join u nick names).apply w) := by
  have hopen := hs.open_of_link hl
  obtain ⟨hpasses, hnonempty, last, rfl⟩ := hann
  obtain ⟨hnames, hnamed⟩ := hfits
  obtain ⟨r, hr, hget, howner, rfl⟩ := hs.exists_named hL hopen hnamed
  have hsplit : splitComma (",".intercalate names) = names :=
    splitComma_intercalate hnonempty fun name hname => notMem_comma (hnames name hname).1
  have hcheck : names.foldlM (fun ok name => if ok then isChannelIdentifier name else pure false) true =
      .ok true := checkNames_eq_ok.mpr fun name hname => (hnames name hname).1
  unfold Hub.join at hok
  rw [if_neg (by simp [hl.checkRegistered])] at hok
  simp only [hsplit, hcheck, hl.source, hget] at hok
  exact hs.turns_joins hcap hL hopen hr howner hnames (fun heq => absurd heq hne) spares_self hok

theorem turns_linkPart {nick name : String} (hcap : KeepsCapitals) (hL : L.Proper)
    (hs : hub.Shows L h w) (hl : hub.IsLink L h k c s)
    (hann : Update.Announced L msg (.part u nick name)) (hfits : (Update.part u nick name).fits L w)
    (hne : u.1 ≠ h) (hok : hub.part c msg = .ok hub') :
    hub.Turns L h w (some c) {u.1} hub' ((Update.part u nick name).apply w) := by
  have hopen := hs.open_of_link hl
  have hready := hs.exists_ready hopen
  obtain ⟨hpasses, reason, hreason, rfl⟩ := hann
  obtain ⟨hname, hnamed⟩ := hfits
  obtain ⟨r, hr, hget, howner, rfl⟩ := hs.exists_named hL hopen hnamed
  have hsplit : splitComma name = [name] := by
    rw [splitComma, if_neg (notMem_comma hname.1).2]
  unfold Hub.part at hok
  rw [if_neg (by simp [hl.checkRegistered])] at hok
  simp only [hsplit, hl.source, hget, List.map_cons, List.map_nil] at hok
  have hperson : w.user u = some (hub.net.person r) := howner ▸ hs.depicts.users r hr
  have hreasons : reason.toList.head? = reason := by cases reason <;> rfl
  cases hon : (hub.net.user r).channels.get (Locale.toLowerCase name) with
  | none =>
    -- the channel is none of the user's
    rw [hon, if_pos (by simp)] at hok
    have hsame : (Update.part u (hub.net.user r).nick name).apply w = w := by
      refine View.setUser_eq_self ?_
      have hnot : Locale.toLowerCase name ∉ (hub.net.person r).channels := by
        simp [Network.person, Network.world, hon]
      rw [hperson, Option.map_some, Set.sdiff_singleton_eq_self hnot]
    rw [hsame, hl.eq_of_replyError hok]
    exact hs.turns_refl
  | some channel =>
    rw [hon, if_neg (by simp)] at hok
    simp only [List.reduceOption_cons_of_some, List.reduceOption_nil, hreasons,
      List.foldlM_cons, List.foldlM_nil] at hok
    obtain ⟨hub₁, h₁, hok⟩ := bind_eq_ok_iff.mp hok
    obtain rfl := Except.ok.inj hok
    have hchannel := (hready.sound.joined hon).1
    have hkey := hready.sound.memberships.names _ channel hchannel
    obtain ⟨_, hturns⟩ := hs.turns_part hcap hopen hr howner hchannel hreason
      (fun hlocal => absurd (howner ▸ (hs.depicts.isLocal_iff hL hready.sound hr).mp hlocal) hne)
      spares_self h₁
    have happly : (Update.part u (hub.net.user r).nick (hub.net.channel channel).name).apply w =
        (Update.part u (hub.net.user r).nick name).apply w := by
      simp only [Update.apply, hkey]
    exact happly ▸ hturns

theorem turns_linkQuit {nick : String} (hL : L.Proper)
    (hs : hub.Shows L h w) (hl : hub.IsLink L h k c s)
    (hann : Update.Announced L msg (.quit u nick)) (hfits : (Update.quit u nick).fits L w)
    (hne : u.1 ≠ h) (hok : hub.quit c msg = .ok hub') :
    hub.Turns L h w (some c) {u.1} hub' ((Update.quit u nick).apply w) := by
  have hopen := hs.open_of_link hl
  obtain ⟨r, hr, hget, howner, rfl⟩ := hs.exists_named hL hopen hfits
  have hsender := hann.2.1
  unfold Hub.quit at hok
  rw [hl.server] at hok
  change hub.quitServerInvoke c msg = .ok hub' at hok
  unfold quitServerInvoke at hok
  rw [hsender, hget] at hok
  obtain ⟨hub₁, h₁, hok⟩ := bind_eq_ok_iff.mp hok
  obtain rfl := Except.ok.inj hok
  have hw := wrote_dispatchUserMessage h₁
  have hlocal : ¬hub.net.isLocal r := fun hlocal =>
    hne (howner ▸ (hs.depicts.isLocal_iff hL (hs.exists_ready hopen).sound hr).mp hlocal)
  have hs' : Shows { hub₁ with net := hub₁.net.userRemove r } L h (w.setUser u none) := by
    have hs₀ := hs.withoutUser hopen hr howner hlocal
    obtain ⟨out, rfl⟩ := hw
    exact hs₀.wrote ⟨out, rfl⟩
  exact hs.turns_quit hopen hr howner spares_self hann rfl rfl (fun g hg => (hs.ends g hg).1) h₁ hs'
    (fun g _ => by rw [hw.structures]) rfl

theorem turns_linkTalk {nick : String} (hs : hub.Shows L h w) (hl : hub.IsLink L h k c s)
    (hann : Update.Announced L msg (.talk u nick)) (hfits : (Update.talk u nick).fits L w)
    (hok : hub.routeMessage c msg = .ok hub') :
    hub.Turns L h w (some c) {u.1} hub' ((Update.talk u nick).apply w) := by
  obtain ⟨hpasses, command, target, text, hcommand, rfl⟩ := hann
  refine hs.turns_talk (hs.open_of_link hl) (by rw [senderOf, hl.server]) hfits hcommand ?_
    (fun g _ heq => Option.some.inj heq) hok
  intro target' text' rest hparams _ _
  obtain ⟨rfl, hrest⟩ := List.cons.inj hparams
  obtain ⟨rfl, _⟩ := List.cons.inj hrest
  exact hpasses

/-! ## All that comes on a link -/

omit [DecidableEq V] in
/-- What a neighbour announces is accepted. -/
theorem accepts_of_announced (hcap : KeepsCapitals) (hL : L.Proper) (hs : hub.Shows L h w)
    (hl : hub.IsLink L h k c s) {a : Update V} (hann : a.Announced L msg) (hfits : a.fits L w)
    (hne : h ∉ a.homes) : hub.Careful (.received c msg) ∧ hub.Accepts c msg := by
  have hopen := hs.open_of_link hl
  have hready := hs.exists_ready hopen
  obtain ⟨root, hroot⟩ := hready.exists_local
  -- a server that is not the local one has a parent
  have hparent : ∀ {x : V} {q : Ref}, x ≠ h → hub.net.Registered q →
      (hub.net.server q).name = L.name x → (hub.net.server q).parent ≠ none := by
    intro x q hx hreg hname hnull
    have hq := hready.sound.tree.eq_root hroot hreg hnull
    exact hx ((hs.depicts.eq_hub_iff hL hready.sound hroot hreg hname).mp hq)
  have hnumber : ∀ x : V, parseInt (some (toString (L.token x))) = .ok (L.token x) := fun x =>
    parseInt_toString (hL.numbers x).1 (hL.numbers x).2
  have hsome : ∀ {u : V × Conn} {nick : String}, Update.Named w u nick →
      (hub.net.getUser (some nick)).isSome := by
    intro u nick hnamed
    obtain ⟨r, _, hget, _⟩ := hs.exists_named hL hopen hnamed
    rw [hget]
    rfl
  cases a with
  | hello v => exact hann.2.elim
  | server v parent =>
    obtain ⟨_, rfl⟩ := hann
    have hcmd := getCommand_server hcap
    obtain ⟨q, hget, hreg, hname⟩ := hs.depicts.getServer_eq_some hready.sound hfits.1
    have hx : parent ≠ h := fun heq => hne (by simp [Update.homes, heq])
    simp only [Careful, Accepts, hcmd, AcceptsServer, hl.server]
    refine ⟨by simp, ⟨_, hnumber v⟩, ?_⟩
    intro sender hsender
    obtain rfl := Option.some.inj hsender
    exact ⟨q, hget, fun _ => hparent hx hreg hname⟩
  | arrive u p =>
    obtain ⟨_, hopcount, hlow, hhigh, rfl⟩ := hann
    obtain ⟨hp, _, hknown, _⟩ := hfits
    have hcmd := getCommand_nick hcap
    obtain ⟨home, hget, hreg, hname⟩ := hs.depicts.getServerByToken_eq_some hL hready.sound hknown
    have hx : u.1 ≠ h := fun heq => hne (by simp [Update.homes, heq])
    simp only [Careful, Accepts, hcmd, AcceptsNick, hl.server]
    refine ⟨trivial, fun _ => ⟨⟨_, parseInt_toString hlow hhigh⟩, L.token u.1, hnumber u.1, ?_⟩⟩
    intro home' hhome
    obtain rfl := Option.some.inj (hget.symm.trans hhome)
    refine ⟨?_, fun _ => hparent hx hreg hname⟩
    simpa [Message.getParameter, isEmpty] using hp.realName.2
  | rename u old new =>
    obtain ⟨_, rfl⟩ := hann
    obtain ⟨hnick, _, hnamed⟩ := hfits
    have hcmd := getCommand_nick hcap
    obtain ⟨r, hr, hget, howner, rfl⟩ := hs.exists_named hL hopen hnamed
    simp only [Careful, Accepts, hcmd, AcceptsNick, hl.server]
    refine ⟨trivial, hsome hnamed, hnick.word.1, ?_⟩
    intro old hold
    obtain rfl := Option.some.inj hold
    exact (hs.isNick hr).word.1
  | join u nick names =>
    obtain ⟨_, hnonempty, last, rfl⟩ := hann
    obtain ⟨hnames, hnamed⟩ := hfits
    have hcmd := getCommand_join hcap
    have hsplit : splitComma (",".intercalate names) = names :=
      splitComma_intercalate hnonempty fun name hname => notMem_comma (hnames name hname).1
    simp only [Careful, Accepts, hcmd, hl.source]
    refine ⟨by simp [hl.server], fun _ => ⟨?_, fun _ => hsome hnamed⟩⟩
    intro text rest hparams front more hfront
    obtain ⟨rfl, _⟩ := List.cons.inj hparams
    rw [hsplit] at hfront
    exact absurd rfl (notMem_comma (hnames "" (by simp [hfront])).1).1
  | part u nick name =>
    obtain ⟨_, reason, _, rfl⟩ := hann
    have hcmd := getCommand_part hcap
    simp only [Careful, Accepts, hcmd, hl.source]
    exact ⟨trivial, fun _ _ _ _ _ => hsome hfits.2⟩
  | quit u nick =>
    obtain ⟨_, hsender, hcommand⟩ := hann
    have hcmd : getCommand msg.command = some .quit := by
      rw [hcommand]
      exact getCommand_quit hcap
    simp only [Careful, Accepts, hcmd, hsender]
    exact ⟨trivial, fun _ => hsome hfits⟩
  | talk u nick =>
    obtain ⟨_, command, target, text, hcommand, rfl⟩ := hann
    have hsender : hub.senderOf c ⟨some nick, command, [target, text], true⟩ = some nick := by
      rw [senderOf, hl.server]
    rcases hcommand with hcmd | hcmd <;> simp only [Careful, Accepts, hcmd, hsender] <;>
      exact ⟨trivial, fun _ _ _ _ _ _ _ => hsome hfits⟩

/-- What a neighbour announces is done here too, and announced to all the others. -/
theorem turns_relay (hcap : KeepsCapitals) (hL : L.Proper) (hs : hub.Shows L h w)
    (hl : hub.IsLink L h k c s) {a : Update V} (hann : a.Announced L msg) (hfits : a.fits L w)
    (hne : h ∉ a.homes) : ∃ hub', hub.receive c msg = .ok hub' ∧
      hub.Turns L h w (some c) a.homes hub' (a.apply w) := by
  obtain ⟨hcareful, haccepts⟩ := hs.accepts_of_announced hcap hL hl hann hfits hne
  obtain ⟨hub', hok, _⟩ := (hs.exists_ready (hs.open_of_link hl)).receive hann.1.sendable.toWellFormed
    hcareful haccepts
  refine ⟨hub', hok, ?_⟩
  have hinvoke : ∀ cmd, getCommand msg.command = some cmd → cmd.invoke hub c msg = .ok hub' := by
    intro cmd hcmd
    rw [receive, hcmd] at hok
    exact hok
  cases a with
  | hello v => exact hann.2.elim
  | server v parent =>
    have hcmd : getCommand msg.command = some .server := by
      rw [hann.2]
      exact getCommand_server hcap
    exact hs.turns_linkServer hcap hL hl hann hfits (fun heq => hne (by simp [Update.homes, heq]))
      (hinvoke _ hcmd)
  | arrive u p =>
    have hcmd : getCommand msg.command = some .nick := by
      obtain ⟨_, _, _, _, rfl⟩ := hann
      exact getCommand_nick hcap
    exact hs.turns_linkArrive hcap hL hl hann hfits (fun heq => hne (by simp [Update.homes, heq]))
      (hinvoke _ hcmd)
  | rename u old new =>
    have hcmd : getCommand msg.command = some .nick := by
      rw [hann.2]
      exact getCommand_nick hcap
    exact hs.turns_linkRename hcap hL hl hann hfits (hinvoke _ hcmd)
  | join u nick names =>
    have hcmd : getCommand msg.command = some .join := by
      obtain ⟨_, _, _, rfl⟩ := hann
      exact getCommand_join hcap
    exact hs.turns_linkJoin hcap hL hl hann hfits (fun heq => hne (by simp [Update.homes, heq]))
      (hinvoke _ hcmd)
  | part u nick name =>
    have hcmd : getCommand msg.command = some .part := by
      obtain ⟨_, _, _, rfl⟩ := hann
      exact getCommand_part hcap
    exact hs.turns_linkPart hcap hL hl hann hfits (fun heq => hne (by simp [Update.homes, heq]))
      (hinvoke _ hcmd)
  | quit u nick =>
    have hcmd : getCommand msg.command = some .quit := by
      rw [hann.2.2]
      exact getCommand_quit hcap
    exact hs.turns_linkQuit hL hl hann hfits (fun heq => hne (by simp [Update.homes, heq]))
      (hinvoke _ hcmd)
  | talk u nick =>
    have hroute : hub.routeMessage c msg = .ok hub' := by
      obtain ⟨_, _, _, _, hcommand, rfl⟩ := hann
      rcases hcommand with hcmd | hcmd
      · exact hinvoke _ hcmd
      · exact hinvoke _ hcmd
    exact hs.turns_linkTalk hl hann hfits hroute

end Shows

end Hub

end MyLifeHome.Irc

