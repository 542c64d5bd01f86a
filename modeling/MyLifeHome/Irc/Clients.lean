import MyLifeHome.Irc.Announcing

/-!
# What clients do

A line of a client brings the hub to another view, in which only what the hub itself has differs,
and all neighbours are told.
-/
namespace MyLifeHome.Irc

open Checked Replication

variable [Locale] {V : Type} [DecidableEq V] {L : Layout V} {h : V} {w w' : View V}

/-! ## Printable lines -/

/-- The parameters can be passed on. -/
structure Message.Printable (msg : Message) : Prop where
  words : ∀ p ∈ msg.params.dropLast, IsWord p
  texts : ∀ p ∈ msg.params, IsText p

omit [Locale] in
theorem Message.Printable.word {msg : Message} (h : msg.Printable) {i : Nat} {p : String}
    (hi : i + 1 < msg.params.length) (hp : msg.getParameter i = some p) : IsWord p := by
  refine h.words p ?_
  obtain ⟨hlt, rfl⟩ := List.getElem?_eq_some_iff.mp hp
  have hdrop : i < msg.params.dropLast.length := by
    rw [List.length_dropLast]
    exact Nat.lt_sub_of_add_lt hi
  rw [← List.getElem_dropLast hdrop]
  exact List.getElem_mem hdrop

theorem printable_parseRawMessage {line : List Char} {msg : Message}
    (hline : ∀ c ∈ line, Parser.isTerminator c = false) (hok : parseRawMessage line = .ok msg)
    (hplain : ∀ p ∈ msg.params.dropLast, IsPlain p) : msg.Printable := by
  have hwords : ∀ p ∈ msg.params.dropLast, IsWord p := fun p hp =>
    ⟨(wellFormed_parseRawMessage hok).params p hp, hplain p hp⟩
  refine ⟨hwords, fun p hp => ?_⟩
  by_cases hlast : msg.params.getLast? = some p
  · refine ⟨fun c hc => hline c ((chars_parseRawMessage hok).subset ?_),
      last_parseRawMessage hok p hlast⟩
    exact List.mem_append_right _ (List.mem_flatMap.mpr ⟨p, hp, hc⟩)
  · refine (hwords p ?_).text
    have hne : msg.params ≠ [] := List.ne_nil_of_mem hp
    have hsplit := List.dropLast_append_getLast hne
    rw [← hsplit] at hp
    refine (List.mem_append.mp hp).resolve_right fun hin => hlast ?_
    rw [List.mem_singleton.mp hin]
    exact List.getLast?_eq_some_getLast hne

section

omit [Locale]

theorem subset_of_mem_splitOn {sep : Char} {xs piece : List Char} (h : piece ∈ xs.splitOn sep) :
    piece ⊆ xs := by
  induction xs generalizing piece with
  | nil => simp_all
  | cons x xs ih =>
    rw [List.splitOn_cons_eq_if_modifyHead] at h
    split_ifs at h
    · rcases List.mem_cons.mp h with rfl | h
      · simp
      · exact List.subset_cons_of_subset x (ih h)
    · cases hs : xs.splitOn sep with
      | nil => simp at hs
      | cons v vs =>
        rw [hs, List.modifyHead_cons] at h
        rcases List.mem_cons.mp h with rfl | h
        · exact List.cons_subset_cons x (ih (by simp [hs]))
        · exact List.subset_cons_of_subset x (ih (by simp [hs, h]))

theorem isPlain_of_mem_splitComma {s name : String} (hs : IsPlain s) (h : name ∈ splitComma s) :
    IsPlain name := by
  unfold splitComma at h
  split_ifs at h with hcomma
  · have hmem : name ∈ Text.split ',' s := by
      have hsub := (List.dropWhile_sublist (fun t : String => decide (t = ""))
        (l := (Text.split ',' s).reverse)).subset (List.mem_reverse.mp h)
      exact List.mem_reverse.mp hsub
    obtain ⟨piece, hpiece, rfl⟩ := List.mem_map.mp hmem
    intro c hc
    rw [String.toList_ofList] at hc
    exact hs c (subset_of_mem_splitOn hpiece hc)
  · rw [List.mem_singleton.mp h]
    exact hs

end

theorem Network.isSome_of_userAdd {net : Network} {s : Ref} {nick ident host realName : Option String}
    (h : net.userAdd s nick ident host realName = .error .alreadyExists) :
    (net.getUser nick).isSome := by
  by_contra hnot
  unfold Network.userAdd at h
  split_ifs at h
  · cases h

namespace Hub

variable {hub hub₁ hub' : Hub} {c : Conn} {src : Option Conn} {r : Ref} {u : V × Conn} {msg : Message}
  {nick ident realName : Option String}

omit [Locale] in
theorem isText_of_all {s : String} (hall : s.toList.all fun c => !Parser.isTerminator c)
    (hlast : s.toList.getLast?.all fun c => ' ' < c) : IsText s := by
  refine ⟨fun c hc => by simpa using List.all_eq_true.mp hall c hc, fun c hc => ?_⟩
  rw [hc, Option.all_some, decide_eq_true_iff] at hlast
  exact Char.not_le.mpr hlast

/-- The connection is that of a client. -/
structure Client (hub : Hub) (L : Layout V) (h : V) (c : Conn) : Prop where
  opened : ¬hub.closed c
  apart : ∀ g, L.graph.Adj h g → c ≠ L.link h g

/-- What a client may send: it takes no nick of somebody else, and is no server. Only a text at the
end may have control characters in it. -/
structure Allows (hub : Hub) (L : Layout V) (h : V) (c : Conn) (msg : Message) : Prop where
  accepts : hub.Accepts c msg
  plain : ∀ p ∈ msg.params.dropLast, IsPlain p
  names : getCommand msg.command = some .join → ∀ p ∈ msg.params, IsPlain p
  nick : getCommand msg.command = some .nick → ∀ n rest, msg.params = n :: rest → n ≠ "" →
    L.owner n = (h, c)
  server : getCommand msg.command = some .server → hub.checkRegistered c

namespace Client

omit [Locale] [DecidableEq V] in
theorem spares (hc : hub.Client L h c) {excluded : List Conn} (hexcluded : excluded ⊆ [c]) :
    L.Spares h excluded none := by
  intro g hg
  refine iff_of_false (fun hin => ?_) (by simp)
  exact hc.apart g hg (List.mem_singleton.mp (hexcluded hin)).symm

omit [DecidableEq V] in
theorem not_server (hc : hub.Client L h c) (hs : hub.Shows L h w) (s : Ref) :
    hub.structures c ≠ .server s := by
  intro hstr
  obtain ⟨_, g, hg, heq, _⟩ := hs.links c s hstr
  exact hc.apart g hg heq

end Client

namespace Shows

/-! ## What changes nothing -/

theorem turns_replyError (hs : hub.Shows L h w) (hc : hub.Client L h c) {num : Numerics}
    {X : Set V} (hok : hub.replyError c num = .ok hub') : hub.Turns L h w src X hub' w :=
  hs.turns_wrote (wrote_replyError hok) fun g hg => writes_replyError_other (hc.apart g hg) hok

theorem turns_ping (hs : hub.Shows L h w) (hc : hub.Client L h c) {X : Set V}
    (hok : hub.ping c msg = .ok hub') : hub.Turns L h w src X hub' w :=
  hs.turns_wrote (wrote_ping hok) fun g hg => writes_ping_other (hc.apart g hg) hok

theorem turns_map (hs : hub.Shows L h w) (hc : hub.Client L h c) {X : Set V}
    (hok : hub.map c = .ok hub') : hub.Turns L h w src X hub' w := by
  refine hs.turns_wrote (wrote_map hok) fun g hg => writes_map_other (hc.apart g hg) ?_ hok
  intro u hstr hcon
  obtain ⟨_, hcon', _⟩ := (hs.exists_ready hc.opened).users c u hstr
  exact hc.apart g hg (Option.some.inj (hcon'.symm.trans hcon))

/-! ## Registering -/

section

omit [DecidableEq V]

/-- A client who has not registered is nobody yet. -/
theorem absent (hL : L.Proper) (hs : hub.Shows L h w) (hopen : ¬hub.closed c)
    (hunreg : hub.Unregistered c) : w.user (h, c) = none := by
  refine Option.eq_none_iff_forall_ne_some.mpr fun p hp => ?_
  obtain ⟨r, hr, howner, _⟩ := hs.depicts.present _ p hp
  have hlocal := (hs.depicts.isLocal_iff hL (hs.exists_ready hopen).sound hr).mpr (by rw [howner])
  obtain ⟨d, hd, hdopen⟩ := hs.attached r hr hlocal
  have hdc : d = c := congrArg Prod.snd ((hs.locals d r hd hdopen).2.symm.trans howner)
  obtain ⟨nick, ident, realName, hstr⟩ := hunreg
  cases (hdc ▸ hd).symm.trans hstr

theorem setUnregistered (hs : hub.Shows L h w) (hc : hub.Client L h c) (hunreg : hub.Unregistered c)
    (hname : ∀ n, nick = some n → isNickName n) (hnick : ∀ n, nick = some n → n ≠ "" → L.owner n = (h, c))
    (hident : ∀ i, ident = some i → IsWord i) (hreal : ∀ r, realName = some r → IsText r) :
    Shows (hub.setStructure c (.unregistered nick ident realName)) L h w := by
  have hready := hs.exists_ready hc.opened
  have hother : ∀ d, d ≠ c → (hub.setStructure c (.unregistered nick ident realName)).structures d =
      hub.structures d := fun d hd => Function.update_of_ne hd ..
  have hself : (hub.setStructure c (.unregistered nick ident realName)).structures c =
      .unregistered nick ident realName := Function.update_self ..
  refine hs.change (IrcServer.steady_of_ready (hready.setUnregistered hunreg nick ident realName hname
    fun i hi => (hident i hi).1)) hs.depicts ?_ ?_ (fun s hpeer => ⟨hpeer, rfl⟩) ?_ ?_ ?_ ⟨rfl, rfl⟩
  · intro d s hd
    by_cases hdc : d = c
    · subst hdc
      cases hself.symm.trans hd
    · rwa [hother d hdc] at hd
  · exact fun g hg => ⟨hother _ (hc.apart g hg).symm, rfl⟩
  · intro d r hd hdopen
    by_cases hdc : d = c
    · subst hdc
      cases hself.symm.trans hd
    · rw [hother d hdc] at hd
      exact hs.locals d r hd hdopen
  · intro r hr hlocal
    obtain ⟨d, hd, hdopen⟩ := hs.attached r hr hlocal
    have hdc : d ≠ c := by
      rintro rfl
      obtain ⟨n, i, m, hstr⟩ := hunreg
      cases hd.symm.trans hstr
    exact ⟨d, (hother d hdc).trans hd, hdopen⟩
  · intro d n i m hd
    by_cases hdc : d = c
    · subst hdc
      obtain ⟨rfl, rfl, rfl⟩ := Connectable.unregistered.inj (hself.symm.trans hd)
      exact .inr ⟨hnick, hident, hreal⟩
    · exact .inl ((hother d hdc).symm.trans hd)

end

/-- Both messages may have come. -/
theorem turns_unregisteredCheck (hcap : KeepsCapitals) (hL : L.Proper) (hs : hub.Shows L h w)
    (hc : hub.Client L h c) (hstr : hub.structures c = .unregistered nick ident realName)
    (hok : hub.unregisteredCheck c nick ident realName = .ok hub') :
    ∃ w', hub.Turns L h w none {h} hub' w' := by
  have hready := hs.exists_ready hc.opened
  obtain ⟨hnick, hident, hreal⟩ := hs.waiting c nick ident realName hstr
  have habsent := hs.absent hL hc.opened ⟨_, _, _, hstr⟩
  unfold unregisteredCheck at hok
  split_ifs at hok with hincomplete
  · obtain rfl := Except.ok.inj hok
    exact ⟨w, hs.turns_refl⟩
  obtain ⟨host, hhost, _⟩ := hready.hosts c
  obtain ⟨root, hroot⟩ := hready.exists_local
  rw [hroot, hhost] at hok
  dsimp only at hok
  obtain ⟨hn, hi⟩ := not_or.mp hincomplete
  obtain ⟨n, rfl⟩ : ∃ n, nick = some n := by
    cases nick with
    | none => simp [isEmpty] at hn
    | some n => exact ⟨n, rfl⟩
  obtain ⟨i, rfl⟩ : ∃ i, ident = some i := by
    cases ident with
    | none => simp [isEmpty] at hi
    | some i => exact ⟨i, rfl⟩
  have hne : n ≠ "" := by simpa [isEmpty] using hn
  have howner := hnick n rfl hne
  have hfree : hub.net.getUser (some n) = none :=
    hs.depicts.getUser_eq_none hL fun p hp => by simp [howner, habsent] at hp
  split at hok
  · rename_i hadd
    have hsome := Network.isSome_of_userAdd hadd
    simp [hfree] at hsome
  · cases hok
  · rename_i user net hadd
    obtain ⟨⟨_, _, _, hrealne⟩, _, rfl, rfl⟩ := Network.userAdd_eq_ok_iff.mp hadd
    obtain ⟨m, rfl⟩ : ∃ m, realName = some m := by
      cases realName with
      | none => simp [isEmpty] at hrealne
      | some m => exact ⟨m, rfl⟩
    simp only [Option.getD_some] at hok
    have hlegible : L.Legible (h, c) ⟨n, i, host, m, ∅⟩ := by
      refine ⟨⟨(hready.waiting c _ _ _ hstr).1 n rfl, hne, howner⟩, hident i rfl, hs.hosts c host hhost,
        hreal m rfl, ?_⟩
      simpa [isEmpty] using hrealne
    set user : User := ⟨root, n, i, host, m, none, .empty⟩ with huser
    have hs₀ := hs.register hc.opened hc.apart ⟨_, _, _, hstr⟩
      (show hub.net.getLocalServer = some user.server from hroot) hfree rfl habsent hlegible rfl
    obtain ⟨hub₁, h₁, h₂⟩ := bind_eq_ok_iff.mp hok
    have hnew : (hub.net.withLocalUser ⟨root, n, i, host, m, none, .empty⟩ c).user hub.net.next =
        ⟨root, n, i, host, m, some c, .empty⟩ := by
      simp [Network.withLocalUser, Network.modifyUser, Network.withUser]
    have hw := wrote_dispatchNewUser h₁
    refine ⟨_, turns_arrive hcap hL hs₀ hc.opened ⟨hlegible, rfl, hs.known hL, habsent⟩
      (List.mem_append_right _ (List.mem_singleton_self _)) ?_ ?_ (hc.spares (by simp)) rfl ?_
      (by decide) (by decide) h₁ (wrote_userWelcome h₂) ?_⟩
    · exact (congrArg (fun x : User => L.owner x.nick) hnew).trans howner
    · have hperson : (hub.net.withLocalUser ⟨root, n, i, host, m, none, .empty⟩ c).person
          hub.net.next = ⟨n, i, host, m, ∅⟩ := by
        simp only [Network.person, Network.world, hnew]
        simp
      exact hperson
    · exact fun g hg => Function.update_of_ne (hc.apart g hg).symm ..
    · intro g hg
      refine writes_userWelcome_other ?_ h₂
      rw [hw.net]
      have hcon := congrArg User.connection hnew
      intro heq
      exact hc.apart g hg (Option.some.inj (hcon.symm.trans heq))

theorem turns_setStructure {x : Connectable} (hs' : (hub.setStructure c x).Shows L h w)
    (hc : hub.Client L h c) {X : Set V} : hub.Turns L h w src X (hub.setStructure c x) w :=
  hs'.turns_quiet (fun g hg => Function.update_of_ne (hc.apart g hg).symm ..) fun _ _ => .of_sent rfl

theorem turns_user (hcap : KeepsCapitals) (hL : L.Proper) (hs : hub.Shows L h w)
    (hc : hub.Client L h c) (hprintable : msg.Printable) (hok : hub.user c msg = .ok hub') :
    ∃ w', hub.Turns L h w none {h} hub' w' := by
  unfold Hub.user at hok
  split at hok
  · rename_i nick ident realName hstr
    split_ifs at hok with hcount
    · exact ⟨w, hs.turns_replyError hc hok⟩
    have hfour : 4 ≤ msg.params.length := Nat.le_of_not_lt hcount
    obtain ⟨hnick, _, _⟩ := hs.waiting c nick ident realName hstr
    have hname := ((hs.exists_ready hc.opened).waiting c _ _ _ hstr).1
    have hident : ∀ i, msg.getParameter 0 = some i → IsWord i := fun i hi =>
      hprintable.word (Nat.lt_of_lt_of_le (by decide) hfour) hi
    have hreal : ∀ r, msg.getParameter 3 = some r → IsText r := fun r hr =>
      hprintable.texts r (List.mem_of_getElem? hr)
    have hs₀ := hs.setUnregistered hc ⟨_, _, _, hstr⟩ hname hnick hident hreal
    have hc₀ : (hub.setStructure c (.unregistered nick (msg.getParameter 0)
      (msg.getParameter 3))).Client L h c := ⟨hc.opened, hc.apart⟩
    obtain ⟨w', hturns⟩ := hs₀.turns_unregisteredCheck hcap hL hc₀ (Function.update_self ..) hok
    exact ⟨w', (hs₀.turns_setStructure hc).trans hturns⟩
  · exact ⟨w, hs.turns_replyError hc hok⟩

/-! ## Nicks -/

theorem turns_nickUnregisteredInvoke (hcap : KeepsCapitals) (hL : L.Proper) (hs : hub.Shows L h w)
    (hc : hub.Client L h c) (hstr : hub.structures c = .unregistered nick ident realName)
    (hown : ∀ n rest, msg.params = n :: rest → n ≠ "" → L.owner n = (h, c))
    (hok : hub.nickUnregisteredInvoke c ident realName msg = .ok hub') :
    ∃ w', hub.Turns L h w none {h} hub' w' := by
  unfold nickUnregisteredInvoke at hok
  split at hok
  · exact ⟨w, hs.turns_replyError hc hok⟩
  · rename_i n rest hparams
    split_ifs at hok with hname htaken
    · exact ⟨w, hs.turns_replyError hc hok⟩
    · obtain ⟨_, hident, hreal⟩ := hs.waiting c nick ident realName hstr
      have hnick : ∀ m, some n = some m → isNickName m := fun m hm => Option.some.inj hm ▸ hname
      have howner : ∀ m, some n = some m → m ≠ "" → L.owner m = (h, c) := fun m hm =>
        Option.some.inj hm ▸ hown n rest hparams
      have hs₀ := hs.setUnregistered hc ⟨_, _, _, hstr⟩ hnick howner hident hreal
      have hc₀ : (hub.setStructure c (.unregistered (some n) ident realName)).Client L h c :=
        ⟨hc.opened, hc.apart⟩
      obtain ⟨w', hturns⟩ := hs₀.turns_unregisteredCheck hcap hL hc₀ (Function.update_self ..) hok
      exact ⟨w', (hs₀.turns_setStructure hc).trans hturns⟩
    · exact ⟨w, hs.turns_replyError hc hok⟩

theorem turns_nickUserInvoke (hcap : KeepsCapitals) (hs : hub.Shows L h w)
    (hc : hub.Client L h c) (hstr : hub.structures c = .user r)
    (hown : ∀ n rest, msg.params = n :: rest → n ≠ "" → L.owner n = (h, c))
    (hok : hub.nickUserInvoke c r msg = .ok hub') : ∃ w', hub.Turns L h w none {h} hub' w' := by
  obtain ⟨hr, howner⟩ := hs.locals c r hstr hc.opened
  unfold nickUserInvoke at hok
  split at hok
  · exact ⟨w, hs.turns_replyError hc hok⟩
  · rename_i n rest hparams
    dsimp only at hok
    split_ifs at hok with hname hsame
    · obtain rfl := Except.ok.inj hok
      exact ⟨w, hs.turns_refl⟩
    · split at hok
      · exact ⟨w, hs.turns_replyError hc hok⟩
      · cases hok
      · rename_i net' hchange
        obtain ⟨u, hu, hne, hfree, rfl⟩ := Network.userChangeNick_eq_ok_iff.mp hchange
        obtain rfl := Option.some.inj hu
        have hnick : L.IsNick (h, c) n := ⟨hname, hne, hown n rest hparams hne⟩
        exact ⟨_, hs.turns_rename hcap hc.opened hr howner hfree hnick (hc.spares (by simp)) hok⟩
    · exact ⟨w, hs.turns_replyError hc hok⟩

/-! ## Channels -/

theorem turns_joins (hcap : KeepsCapitals) (hL : L.Proper) {names : List String}
    (hs : hub.Shows L h w) (hopen : ¬hub.closed c) (hr : r ∈ hub.net.users)
    (howner : L.owner (hub.net.user r).nick = u) (hnames : ∀ name ∈ names, IsChannelName name)
    (hback : u.1 = h → ∀ g, L.graph.Adj h g → c ≠ L.link h g) (hspares : L.Spares h [c] src)
    (hok : names.foldlM (fun hub name => hub.joinChannel c (some r) name) hub = .ok hub') :
    hub.Turns L h w src {u.1} hub' ((Update.join u (hub.net.user r).nick names).apply w) := by
  induction names generalizing hub w with
  | nil =>
    obtain rfl := Except.ok.inj hok
    rw [Update.apply_join_nil]
    exact hs.turns_refl
  | cons name names ih =>
    rw [List.foldlM_cons] at hok
    obtain ⟨hub₁, h₁, hok⟩ := bind_eq_ok_iff.mp hok
    obtain ⟨hname, hnames⟩ := List.forall_mem_cons.mp hnames
    have hlocal : hub.net.isLocal r → ∀ g, L.graph.Adj h g → c ≠ L.link h g := fun hlocal =>
      hback (howner ▸ (hs.depicts.isLocal_iff hL (hs.exists_ready hopen).sound hr).mp hlocal)
    obtain ⟨hstands, hturns⟩ := hs.turns_join hcap hopen hr howner hname hlocal hspares h₁
    have hrest := ih hturns.shows (by rwa [hstands.closed]) (by rwa [hstands.users])
      (by rw [hstands.nick, howner]) hnames hok
    rw [hstands.nick, Update.apply_join_cons] at hrest
    exact hturns.trans hrest

theorem turns_parts (hcap : KeepsCapitals) {channels : List Ref} {reason : Option String}
    (hs : hub.Shows L h w) (hc : hub.Client L h c) (hr : r ∈ hub.net.users)
    (howner : L.owner (hub.net.user r).nick = u)
    (hchannels : ∀ d ∈ channels, ∃ k, hub.net.channels.get k = some d)
    (hreason : ∀ text, reason = some text → IsText text)
    (hok : channels.foldlM (fun hub d => hub.partChannel c r d reason) hub = .ok hub') :
    ∃ w', hub.Turns L h w none {u.1} hub' w' := by
  induction channels generalizing hub w with
  | nil =>
    obtain rfl := Except.ok.inj hok
    exact ⟨w, hs.turns_refl⟩
  | cons d channels ih =>
    rw [List.foldlM_cons] at hok
    obtain ⟨hub₁, h₁, hok⟩ := bind_eq_ok_iff.mp hok
    obtain ⟨⟨k, hk⟩, hchannels⟩ := List.forall_mem_cons.mp hchannels
    obtain ⟨⟨hstands, hsame⟩, hturns⟩ := hs.turns_part hcap hc.opened hr howner hk hreason
      (fun _ => hc.apart) (hc.spares (by simp)) h₁
    have hc₁ : hub₁.Client L h c := ⟨by rw [hstands.closed]; exact hc.opened, hc.apart⟩
    obtain ⟨w', hrest⟩ := ih hturns.shows hc₁ (by rwa [hstands.users]) (by rw [hstands.nick, howner])
      (by rwa [hsame]) hok
    exact ⟨w', hturns.trans hrest⟩

omit [DecidableEq V] in
/-- Who a client acts for. -/
theorem source_eq (msg : Message) (hs : hub.Shows L h w) (hc : hub.Client L h c) (hregistered : hub.checkRegistered c) :
    ∃ r, hub.structures c = .user r ∧ hub.source c msg = some r ∧ r ∈ hub.net.users ∧
      L.owner (hub.net.user r).nick = (h, c) := by
  cases hstr : hub.structures c with
  | unregistered nick ident realName => simp [checkRegistered, hstr] at hregistered
  | server s => exact absurd hstr (hc.not_server hs s)
  | user r =>
    obtain ⟨hr, howner⟩ := hs.locals c r hstr hc.opened
    exact ⟨r, rfl, by rw [source, hstr], hr, howner⟩

theorem turns_clientJoin (hcap : KeepsCapitals) (hL : L.Proper) (hs : hub.Shows L h w)
    (hc : hub.Client L h c) (hplain : ∀ p ∈ msg.params, IsPlain p) (hok : hub.join c msg = .ok hub') :
    ∃ w', hub.Turns L h w none {h} hub' w' := by
  unfold Hub.join at hok
  split_ifs at hok with hregistered
  · split at hok
    · exact ⟨w, hs.turns_replyError hc hok⟩
    · rename_i channelNames rest hparams
      obtain ⟨ok, hnames, hok⟩ := bind_eq_ok_iff.mp hok
      cases ok with
      | false => exact ⟨w, hs.turns_replyError hc hok⟩
      | true =>
        obtain ⟨r, _, hsource, hr, howner⟩ := hs.source_eq msg hc hregistered
        rw [hsource, if_pos rfl] at hok
        refine ⟨_, hs.turns_joins hcap hL hc.opened hr howner ?_ (fun _ => hc.apart)
          (hc.spares (by simp)) hok⟩
        intro name hname
        have hlist := hplain channelNames (by simp [hparams])
        exact ⟨checkNames_eq_ok.mp hnames name hname, isPlain_of_mem_splitComma hlist hname⟩
  · exact ⟨w, hs.turns_replyError hc hok⟩

theorem turns_clientPart (hcap : KeepsCapitals) (hs : hub.Shows L h w)
    (hc : hub.Client L h c) (hprintable : msg.Printable) (hok : hub.part c msg = .ok hub') :
    ∃ w', hub.Turns L h w none {h} hub' w' := by
  unfold Hub.part at hok
  split_ifs at hok with hregistered
  · split at hok
    · exact ⟨w, hs.turns_replyError hc hok⟩
    · rename_i names rest hparams
      obtain ⟨r, _, hsource, hr, howner⟩ := hs.source_eq msg hc hregistered
      rw [hsource] at hok
      dsimp only at hok
      split_ifs at hok with hnone
      · exact ⟨w, hs.turns_replyError hc hok⟩
      · refine hs.turns_parts hcap hc hr howner ?_ ?_ hok
        · intro d hd
          obtain ⟨name, _, hget⟩ := List.mem_map.mp (List.reduceOption_mem_iff.mp hd)
          exact ⟨_, ((hs.exists_ready hc.opened).sound.joined hget).1⟩
        · intro text htext
          refine hprintable.texts text ?_
          rw [hparams]
          exact List.mem_cons_of_mem _ (List.mem_of_mem_head? htext)
  · exact ⟨w, hs.turns_replyError hc hok⟩

/-! ## Messages -/

theorem turns_clientTalk (hs : hub.Shows L h w) (hc : hub.Client L h c) (hmsg : msg.WellFormed)
    (hprintable : msg.Printable)
    (hcommand : getCommand msg.command = some .privmsg ∨ getCommand msg.command = some .notice)
    (hok : hub.routeMessage c msg = .ok hub') : ∃ w', hub.Turns L h w none {h} hub' w' := by
  cases hstr : hub.structures c with
  | unregistered nick ident realName =>
    unfold routeMessage at hok
    rw [hstr] at hok
    obtain rfl := Except.ok.inj hok
    exact ⟨w, hs.turns_refl⟩
  | server s => exact absurd hstr (hc.not_server hs s)
  | user r =>
    obtain ⟨hr, howner⟩ := hs.locals c r hstr hc.opened
    have hsender : hub.senderOf c msg = some (hub.net.user r).nick := by rw [senderOf, hstr]
    refine ⟨_, hs.turns_talk hc.opened hsender (hs.named hr howner) hcommand ?_ (by simp) hok⟩
    intro target text rest hparams hid htarget
    have hword : IsWord target := hprintable.words target (by simp [hparams])
    have htext := hprintable.texts text (by simp [hparams])
    have hsend : ∀ s, some (hub.net.user r).nick = some s → IsWord s := fun s heq =>
      Option.some.inj heq ▸ (hs.isNick hr).word
    have hfront : ∀ p ∈ [target], IsWord p := by simpa using hword
    have hpasses : Message.Passes ⟨some (hub.net.user r).nick, msg.command, [target] ++ [text], true⟩ :=
      passes_of_words hmsg.command hid hsend hfront (.inr ⟨rfl, htext⟩)
    exact hpasses

/-! ## Leaving -/

omit [DecidableEq V] in
theorem announced_quit (hcap : KeepsCapitals) {sender : String} {text : Option String} {v : V × Conn}
    (hsender : L.IsNick v sender) (htext : ∀ t, text = some t → IsText t)
    (hok : (Message.make (some sender) "QUIT").appendText text = .ok msg) :
    Update.Announced L msg (.quit u sender) := by
  have hword : ∀ s, some sender = some s → IsWord s := fun s heq =>
    Option.some.inj heq ▸ hsender.word
  cases text with
  | none =>
    obtain rfl := Except.ok.inj hok
    have hpasses : Message.Passes ⟨some sender, "QUIT", [], false⟩ :=
      passes_of_command (by decide) (isCommandIdentifier_of_capitals hcap (by decide) (by decide)) hword
    exact ⟨hpasses, rfl, rfl⟩
  | some text =>
    obtain rfl := Message.appendLastParameter_eq_ok hok
    have hpasses : Message.Passes ⟨some sender, "QUIT", [] ++ [text], true⟩ :=
      passes_of_capitals hcap (by decide) (by decide) hword (by simp) (.inr ⟨rfl, htext text rfl⟩)
    exact ⟨hpasses, rfl, rfl⟩

theorem turns_quitUserInvoke (hcap : KeepsCapitals) (hs : hub.Shows L h w)
    (hc : hub.Client L h c) (hstr : hub.structures c = .user r) (hprintable : msg.Printable)
    (hsteady : IrcServer.Steady hub') (hok : hub.quitUserInvoke c r msg = .ok hub') :
    ∃ w', hub.Turns L h w none {h} hub' w' := by
  obtain ⟨hr, howner⟩ := hs.locals c r hstr hc.opened
  obtain ⟨m, hm, hok⟩ := bind_eq_ok_iff.mp hok
  obtain ⟨hub₁, h₁, hok⟩ := bind_eq_ok_iff.mp hok
  obtain ⟨hub₂, h₂, hok⟩ := bind_eq_ok_iff.mp hok
  obtain rfl := Except.ok.inj hok
  rw [close_new] at h₂
  obtain rfl := Except.ok.inj h₂
  have hw := wrote_dispatchUserMessage h₁
  have hs' := hs.leave hc.opened hstr hsteady (by rw [hw.net]) (by rw [hw.closed])
    (fun d hd => (Function.update_of_ne hd ..).trans (by rw [hw.structures]))
    (.inr (Function.update_self ..)) hw.sameSurroundings
  refine ⟨_, hs.turns_quit hc.opened hr howner (hc.spares (by simp)) ?_ rfl rfl
    (fun g hg => (hs.ends g hg).1) h₁ hs' ?_ rfl⟩
  · have htext : ∀ t, msg.getParameter 0 = some t → IsText t := fun t ht =>
      hprintable.texts t (List.mem_of_getElem? ht)
    exact announced_quit hcap (hs.isNick hr) htext hm
  · intro g hg
    exact (Function.update_of_ne (hc.apart g hg).symm ..).trans (by rw [hw.structures])

/-- The client itself closes the connection. -/
theorem turns_close (hcap : KeepsCapitals) (hs : hub.Shows L h w) (hc : hub.Client L h c)
    (hsteady : IrcServer.Steady hub') (hok : hub.close c = .ok hub') :
    ∃ w', hub.Turns L h w none {h} hub' w' := by
  have hother : ∀ d, d ≠ c → Function.update hub.closed c true d = hub.closed d :=
    fun d hd => Function.update_of_ne hd ..
  have hopens : ∀ g, L.graph.Adj h g → ¬Function.update hub.closed c true (L.link h g) := by
    intro g hg
    rw [hother _ (hc.apart g hg).symm]
    exact (hs.ends g hg).1
  unfold close connectionClosed at hok
  dsimp only at hok
  split at hok
  · rename_i nick ident realName hstr
    obtain rfl := Except.ok.inj hok
    have hs' : Shows { hub with closed := Function.update hub.closed c true } L h w := by
      refine hs.change hsteady hs.depicts (fun _ _ hd => hd) ?_ (fun s hpeer => ⟨hpeer, rfl⟩) ?_ ?_
        (fun _ _ _ _ hd => .inl hd) ⟨rfl, rfl⟩
      · exact fun g hg => ⟨rfl, hother _ (hc.apart g hg).symm⟩
      · intro d r hd hdopen
        refine hs.locals d r hd fun hclosed => hdopen ?_
        by_cases hdc : d = c
        · subst hdc
          exact Function.update_self ..
        · exact (hother d hdc).trans hclosed
      · intro r hr hlocal
        obtain ⟨d, hd, hdopen⟩ := hs.attached r hr hlocal
        have hdc : d ≠ c := by
          rintro rfl
          cases hd.symm.trans hstr
        exact ⟨d, hd, fun hclosed => hdopen ((hother d hdc).symm.trans hclosed)⟩
    exact ⟨w, hs'.turns_quiet (fun _ _ => rfl) fun _ _ => .of_sent rfl⟩
  · rename_i s hstr
    exact absurd hstr (hc.not_server hs s)
  · rename_i r hstr
    obtain ⟨hr, howner⟩ := hs.locals c r hstr hc.opened
    obtain ⟨m, hm, hok⟩ := bind_eq_ok_iff.mp hok
    obtain ⟨hub₁, h₁, hok⟩ := bind_eq_ok_iff.mp hok
    obtain rfl := Except.ok.inj hok
    have hw := wrote_dispatchUserMessage h₁
    have hs' := hs.leave hc.opened hstr hsteady (by rw [hw.net]) (by rw [hw.closed])
      (fun d _ => by rw [hw.structures]) (.inl (by rw [hw.structures]; exact hstr)) hw.sameSurroundings
    have htext : ∀ t, some "Connection error" = some t → IsText t := fun t ht => by
      obtain rfl := Option.some.inj ht
      exact isText_of_all (by decide +kernel) (by decide +kernel)
    have hnet : ({ hub with closed := Function.update hub.closed c true } : Hub).net = hub.net := rfl
    have hspares : L.Spares h [] none := hc.spares (by simp)
    exact ⟨_, hs.turns_quit hc.opened hr howner hspares
      (announced_quit hcap (hs.isNick hr) htext hm) hnet rfl hopens h₁ hs'
      (fun g _ => by rw [hw.structures]) rfl⟩

/-! ## The lines of a client -/

theorem turns_receive (hcap : KeepsCapitals) (hL : L.Proper) (hs : hub.Shows L h w)
    (hc : hub.Client L h c) (hmsg : msg.WellFormed) (hprintable : msg.Printable)
    (hallows : hub.Allows L h c msg) : ∃ hub' w', hub.receive c msg = .ok hub' ∧
      hub.Turns L h w none {h} hub' w' := by
  have hready := hs.exists_ready hc.opened
  have hunserver : hub.checkServer c ≠ true := by
    intro hserver
    unfold checkServer at hserver
    split at hserver
    · rename_i s hstr
      exact hc.not_server hs s hstr
    · cases hserver
  have hcareful : hub.Careful (.received c msg) := by
    unfold Careful
    dsimp only
    split
    · exact fun hserver => absurd hserver hunserver
    · exact fun s hstr => absurd hstr (hc.not_server hs s)
    · exact fun r hstr _ => (hs.locals c r hstr hc.opened).1
    · trivial
  obtain ⟨hub', hok, hready'⟩ := hready.receive hmsg hcareful hallows.accepts
  have hsteady := IrcServer.steady_of_ready hready'
  suffices hturns : ∃ w', hub.Turns L h w none {h} hub' w' by
    obtain ⟨w', hturns⟩ := hturns
    exact ⟨hub', w', hok, hturns⟩
  have hnick := hallows.nick
  have hserver := hallows.server
  unfold receive at hok
  cases hcmd : getCommand msg.command with
  | none =>
    simp only [hcmd] at hok
    exact ⟨w, hs.turns_replyError hc hok⟩
  | some cmd =>
    simp only [hcmd] at hok
    cases cmd with
    | squit =>
      change hub.squit c msg = .ok hub' at hok
      unfold squit at hok
      split at hok
      · exact ⟨w, hs.turns_replyError hc hok⟩
      · exact ⟨w, hs.turns_replyError hc hok⟩
      · rename_i s hstr
        exact absurd hstr (hc.not_server hs s)
    | kill =>
      change hub.kill c msg = .ok hub' at hok
      rw [kill, if_neg hunserver] at hok
      exact ⟨w, hs.turns_replyError hc hok⟩
    | map => exact ⟨w, hs.turns_map hc hok⟩
    | privmsg => exact hs.turns_clientTalk hc hmsg hprintable (.inl hcmd) hok
    | notice => exact hs.turns_clientTalk hc hmsg hprintable (.inr hcmd) hok
    | pong =>
      obtain rfl := Except.ok.inj hok
      exact ⟨w, hs.turns_refl⟩
    | ping => exact ⟨w, hs.turns_ping hc hok⟩
    | server =>
      change hub.server c msg = .ok hub' at hok
      unfold server at hok
      split at hok
      · rename_i s hstr
        exact absurd hstr (hc.not_server hs s)
      · exact ⟨w, hs.turns_replyError hc hok⟩
      · rename_i hstr
        have hregistered := hserver hcmd
        simp [checkRegistered, hstr] at hregistered
    | part => exact hs.turns_clientPart hcap hc hprintable hok
    | join => exact hs.turns_clientJoin hcap hL hc (hallows.names hcmd) hok
    | user => exact hs.turns_user hcap hL hc hprintable hok
    | nick =>
      change hub.nick c msg = .ok hub' at hok
      unfold Hub.nick at hok
      split at hok
      · rename_i s hstr
        exact absurd hstr (hc.not_server hs s)
      · rename_i r hstr
        exact hs.turns_nickUserInvoke hcap hc hstr (hnick hcmd) hok
      · rename_i hstr
        exact hs.turns_nickUnregisteredInvoke hcap hL hc hstr (hnick hcmd) hok
    | quit =>
      change hub.quit c msg = .ok hub' at hok
      unfold Hub.quit at hok
      split at hok
      · exact ⟨w, hs.turns_replyError hc hok⟩
      · rename_i s hstr
        exact absurd hstr (hc.not_server hs s)
      · rename_i r hstr
        exact hs.turns_quitUserInvoke hcap hc hstr hprintable hsteady hok

end Shows

end Hub

end MyLifeHome.Irc

