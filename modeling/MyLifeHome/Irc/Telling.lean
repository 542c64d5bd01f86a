import MyLifeHome.Irc.Linked
import MyLifeHome.Irc.Serving

/-!
# What commands tell

What the client at the end of a connection is told when the hub replies, dispatches a message, or
lets a server know of others.
-/
namespace MyLifeHome.Irc

open Checked Rooms

variable [Locale]

/-! ## What messages are made of -/

namespace Message

variable {msg msg' : Message} {p : String} {text : Option String} {ps : List String}

section

omit [Locale]

theorem appendParameter_eq_ok (h : msg.appendParameter p = .ok msg') :
    isParameter p ∧ msg' = { msg with params := msg.params ++ [p] } := by
  unfold appendParameter at h
  split_ifs at h with _ hp
  exact ⟨hp, (Except.ok.inj h).symm⟩

theorem appendLastParameter_eq_ok (h : msg.appendLastParameter text = .ok msg') :
    msg' = { msg with params := msg.params ++ [text.getD "null"], hasLast := true } := by
  unfold appendLastParameter at h
  split_ifs at h
  exact (Except.ok.inj h).symm

theorem appendText_eq_ok (h : msg.appendText text = .ok msg') :
    msg'.sender = msg.sender ∧ msg'.command = msg.command ∧
      msg'.params = msg.params ++ text.toList := by
  cases text with
  | none =>
    obtain rfl := Except.ok.inj h
    simp
  | some text =>
    obtain rfl := appendLastParameter_eq_ok h
    exact ⟨rfl, rfl, rfl⟩

theorem foldlM_appendParameter_eq_ok (h : ps.foldlM appendParameter msg = .ok msg') :
    msg' = { msg with params := msg.params ++ ps } := by
  induction ps generalizing msg with
  | nil =>
    obtain rfl := Except.ok.inj h
    rw [List.append_nil]
  | cons p ps ih =>
    rw [List.foldlM_cons] at h
    obtain ⟨m, hm, h⟩ := bind_eq_ok_iff.mp h
    obtain ⟨_, rfl⟩ := appendParameter_eq_ok hm
    rw [ih h, List.append_assoc, List.singleton_append]

end

end Message

namespace Hub

variable {hub hub' : Hub} {c d src dest : Conn} {msg : Message} {u v user : Ref} {con : Option Conn}
  {ns ms : List (Notice String String)} {excluded : List Conn} {num : Numerics}
  {parameters : List String} {last : Option String}

/-! ## Replies -/

section

omit [Locale]

theorem createMessage_eq_ok {user : Option Ref} (h : hub.createMessage num user parameters = .ok msg) :
    msg.command = num.digits ∧
      msg.params = (user.map fun user => (hub.net.user user).nick).toList ++ parameters ++
        (getResourceString num.name).toList := by
  unfold createMessage at h
  split at h
  · cases h
  · obtain ⟨m, hm, h⟩ := bind_eq_ok_iff.mp h
    obtain rfl := Message.foldlM_appendParameter_eq_ok hm
    obtain ⟨_, hcommand, hparams⟩ := Message.appendText_eq_ok h
    exact ⟨hcommand, hparams⟩

/-- A reply goes to the one connection, and starts with the nick. -/
theorem reply_eq_ok (h : hub.reply con num user parameters last = .ok hub') : ∃ msg,
    hub.sendTo con msg = .ok hub' ∧ msg.command = num.digits ∧
      msg.params = (hub.net.user user).nick :: (parameters ++
        (getResourceString num.name).toList ++ last.toList) := by
  obtain ⟨m, hm, h⟩ := bind_eq_ok_iff.mp h
  obtain ⟨m', hm', h⟩ := bind_eq_ok_iff.mp h
  obtain ⟨hcommand, hparams⟩ := createMessage_eq_ok hm
  obtain ⟨_, hcommand', hparams'⟩ := Message.appendText_eq_ok hm'
  exact ⟨m', h, hcommand'.trans hcommand, by rw [hparams', hparams]; simp⟩

end

theorem tells_reply_nothing (hnot : con ≠ some d ∨ Silent num.digits)
    (h : hub.reply con num user parameters last = .ok hub') : Tells hub d [] hub' := by
  obtain ⟨m, h, hcommand, _⟩ := reply_eq_ok h
  refine tells_sendTo_nothing (hnot.imp_right fun hs => noticeOf_of_silent ?_) h
  rwa [hcommand]

theorem tells_replyError (hs : Silent num.digits) (h : hub.replyError dest num = .ok hub') :
    Tells hub d [] hub' := by
  obtain ⟨m, hm, h⟩ := bind_eq_ok_iff.mp h
  split at h
  · obtain ⟨_, _, h⟩ := bind_eq_ok_iff.mp h
    obtain rfl := Except.ok.inj h
    exact .refl
  · refine tells_send_nothing (.inr (noticeOf_of_silent ?_)) h
    rwa [(createMessage_eq_ok hm).1]

/-- A new user is told its nick. -/
theorem tells_userWelcome (hcap : KeepsCapitals) (hcon : (hub.net.user u).connection = some d)
    (hopen : ¬hub.closed d) (h : hub.userWelcome u = .ok hub') :
    Tells hub d [.welcome (hub.net.user u).nick] hub' := by
  obtain ⟨hub₁, h₁, h⟩ := bind_eq_ok_iff.mp h
  obtain ⟨hub₂, h₂, h⟩ := bind_eq_ok_iff.mp h
  obtain ⟨hub₃, h₃, h⟩ := bind_eq_ok_iff.mp h
  obtain ⟨hub₄, h₄, h⟩ := bind_eq_ok_iff.mp h
  have hfirst : Tells hub d [.welcome (hub.net.user u).nick] hub₁ := by
    obtain ⟨m, hm, hcommand, hparams⟩ := reply_eq_ok h₁
    rw [hcon] at hm
    have hnotice : noticeOf m = some (.welcome (hub.net.user u).nick) := by
      have hupper : Locale.toUpperCase m.command = "001" := by
        rw [hcommand]
        exact hcap "001" (by decide)
      simp only [noticeOf, hupper, hparams]
    simpa [hnotice] using tells_send hopen hm
  have hsecond := tells_reply_nothing (d := d) (.inr (hcap.silent (by decide) (by decide))) h₂
  have hthird := tells_reply_nothing (d := d) (.inr (hcap.silent (by decide) (by decide))) h₃
  have hfourth := tells_reply_nothing (d := d) (.inr (hcap.silent (by decide) (by decide))) h₄
  have hfifth := tells_reply_nothing (d := d) (.inr (hcap.silent (by decide) (by decide))) h
  exact hfirst.nothing (hsecond.nothing (hthird.nothing (hfourth.nothing hfifth)))

theorem tells_userWelcome_nothing (hne : (hub.net.user u).connection ≠ some d)
    (h : hub.userWelcome u = .ok hub') : Tells hub d [] hub' := by
  obtain ⟨hub₁, h₁, h⟩ := bind_eq_ok_iff.mp h
  obtain ⟨hub₂, h₂, h⟩ := bind_eq_ok_iff.mp h
  obtain ⟨hub₃, h₃, h⟩ := bind_eq_ok_iff.mp h
  obtain ⟨hub₄, h₄, h⟩ := bind_eq_ok_iff.mp h
  have hfirst := tells_reply_nothing (.inl hne) h₁
  have hsecond := tells_reply_nothing (.inl hne) h₂
  have hthird := tells_reply_nothing (.inl hne) h₃
  have hfourth := tells_reply_nothing (.inl hne) h₄
  have hfifth := tells_reply_nothing (.inl hne) h
  exact hfirst.nothing (hsecond.nothing (hthird.nothing (hfourth.nothing hfifth)))

/-- A user who has joined is told who is there. -/
theorem tells_sendNames (hcap : KeepsCapitals) (hcon : (hub.net.user u).connection = some d)
    (hopen : ¬hub.closed d)
    (hnicks : ∀ v ∈ (hub.net.channel c).users, isParameter (hub.net.user v).nick)
    (h : hub.sendNames u c = .ok hub') :
    Tells hub d [.names (Locale.toLowerCase (hub.net.channel c).name)
      ((hub.net.channel c).users.map fun v => (hub.net.user v).nick)] hub' := by
  obtain ⟨hub₁, h₁, h⟩ := bind_eq_ok_iff.mp h
  refine Tells.nothing ?_
    (tells_reply_nothing (.inr (hcap.silent (by decide) (by decide))) h)
  obtain ⟨m, hm, hcommand, hparams⟩ := reply_eq_ok h₁
  rw [hcon] at hm
  set nicks := (hub.net.channel c).users.map fun v => (hub.net.user v).nick with hnicksdef
  have hwords : (Text.words ' ' (" ".intercalate nicks).toList).map String.ofList = nicks := by
    rw [String.toList_intercalate]
    change (Text.words ' ' ([' '].intercalate (nicks.map String.toList))).map String.ofList = nicks
    rw [Text.words_intercalate]
    · simp
    · intro w hw
      obtain ⟨n, hn, rfl⟩ := List.mem_map.mp hw
      obtain ⟨x, hx, rfl⟩ := List.mem_map.mp hn
      obtain ⟨hne, _, hblank⟩ := isParameter_iff.mp (hnicks x hx)
      exact ⟨hblank, by simpa using hne⟩
  have hnotice : noticeOf m = some (.names (Locale.toLowerCase (hub.net.channel c).name) nicks) := by
    have hupper : Locale.toUpperCase m.command = "353" := by
      rw [hcommand]
      exact hcap "353" (by decide)
    have hparams' : m.params = [(hub.net.user u).nick, "=", (hub.net.channel c).name,
        " ".intercalate nicks] := hparams
    simp only [noticeOf, hupper, hparams', hwords]
  simpa [hnotice] using tells_send hopen hm

/-! ## Dispatching -/

namespace Lines

/-- A user's connection is no link. -/
theorem not_server (h : hub.Lines) (hv : v ∈ hub.net.users)
    (hcon : (hub.net.user v).connection = some d) (s : Ref) : hub.structures d ≠ .server s := by
  simp [(h.locals v hv d hcon).2]

omit [Locale] in
theorem not_server_of_unregistered (hunreg : hub.Unregistered d) (s : Ref) :
    hub.structures d ≠ .server s := by
  obtain ⟨nick, ident, realName, hstr⟩ := hunreg
  simp [hstr]

/-- No other user has the connection. -/
theorem connection_iff (h : hub.Lines) (hv : v ∈ hub.net.users)
    (hcon : (hub.net.user v).connection = some d) {w : Ref} (hw : w ∈ hub.net.users) :
    (hub.net.user w).connection = some d ↔ w = v := by
  constructor
  · intro hwd
    have hstr := (h.locals w hw d hwd).2
    rw [(h.locals v hv d hcon).2] at hstr
    exact (Connectable.user.inj hstr).symm
  · rintro rfl
    exact hcon

theorem not_connection (h : hub.Lines) (hunreg : hub.Unregistered d) {w : Ref}
    (hw : w ∈ hub.net.users) : (hub.net.user w).connection ≠ some d := by
  intro hwd
  obtain ⟨nick, ident, realName, hstr⟩ := hunreg
  simp [(h.locals w hw d hwd).2] at hstr

theorem tells_dispatchServerMessage (h : hub.Lines) (hd : ∀ s, hub.structures d ≠ .server s)
    (hok : hub.dispatchServerMessage msg excluded = .ok hub') : Tells hub d [] hub' := by
  obtain ⟨cons, hcons, hok⟩ := bind_eq_ok_iff.mp hok
  obtain ⟨peers, _, hcons⟩ := bind_eq_ok_iff.mp hcons
  obtain rfl := Except.ok.inj hcons
  refine tells_sendAll_nothing (.inl ?_) hok
  intro hmem
  obtain ⟨s, _, hs⟩ := List.mem_map.mp hmem
  obtain ⟨t, ht⟩ := h.servers s d hs
  exact hd t ht

/-- It goes to links, and to users who are at the end of other connections. -/
theorem tells_dispatchUserMessage_nothing (h : hub.Lines) (hd : ∀ s, hub.structures d ≠ .server s)
    (hnot : ∀ w ∈ hub.net.users, w ≠ u → (hub.net.user w).connection ≠ some d)
    (hok : hub.dispatchUserMessage u msg excluded = .ok hub') : Tells hub d [] hub' := by
  obtain ⟨hub₁, h₁, hok⟩ := bind_eq_ok_iff.mp hok
  obtain ⟨impacted, himpacted, hok⟩ := bind_eq_ok_iff.mp hok
  have hw := wrote_dispatchServerMessage h₁
  rw [hw.net] at himpacted
  obtain ⟨_, hmem⟩ := h.sound.getLocalImpactedUsers_eq_ok himpacted
  refine (h.tells_dispatchServerMessage hd h₁).nothing (tells_sendAll_nothing (.inl ?_) hok)
  intro hin
  obtain ⟨w, hwin, hwd⟩ := List.mem_map.mp hin
  obtain ⟨hwu, hne, _⟩ := (hmem w).mp hwin
  rw [hw.net] at hwd
  exact hnot w hwu hne hwd

open Classical in
/-- Another user is told who shares a channel with the one that it is about. -/
theorem tells_dispatchUserMessage (h : hub.Lines) (hv : v ∈ hub.net.users)
    (hcon : (hub.net.user v).connection = some d) (hopen : ¬hub.closed d) (hne : v ≠ u)
    (hex : d ∉ excluded)
    (hok : hub.dispatchUserMessage u msg excluded = .ok hub') :
    Tells hub d (if hub.net.world.Share u v then (noticeOf msg).toList else []) hub' := by
  obtain ⟨hub₁, h₁, hok⟩ := bind_eq_ok_iff.mp hok
  obtain ⟨impacted, himpacted, hok⟩ := bind_eq_ok_iff.mp hok
  have hw := wrote_dispatchServerMessage h₁
  rw [hw.net] at himpacted
  obtain ⟨hnodup, hmem⟩ := h.sound.getLocalImpactedUsers_eq_ok himpacted
  have hfirst := h.tells_dispatchServerMessage (h.not_server hv hcon) h₁
  have hiff : ∀ w ∈ impacted, (hub₁.net.user w).connection = some d ↔ w = v := by
    intro w hwin
    rw [hw.net]
    exact h.connection_iff hv hcon ((hmem w).mp hwin).1
  have hlocal := (h.locals v hv d hcon).1
  rw [← hw.closed] at hopen
  split_ifs with hshare
  · have hin := (hmem v).mpr ⟨hv, hne, hlocal, hshare⟩
    simpa using hfirst.trans (tells_sendAll hnodup hin hiff hopen hex hok)
  · refine hfirst.nothing (tells_sendAll_nothing (.inl ?_) hok)
    intro hin
    obtain ⟨w, hwin, hwd⟩ := List.mem_map.mp hin
    obtain rfl := (hiff w hwin).mp hwd
    exact hshare ((hmem w).mp hwin).2.2.2

/-! ## The loss of a server -/

section

omit [Locale]

theorem getUsersBehindServer_of_no_children {net : Network} {s : Ref}
    (hs : (net.server s).children = []) :
    net.getUsersBehindServer s = .ok (net.server s).users := by
  rw [Network.getUsersBehindServer, Network.usersBehind, hs]
  rfl

/-- What is written of the loss. -/
theorem sendNetSplit_eq_ok {s : Ref} {reason : Option String} (hs : (hub.net.server s).children = [])
    (hok : hub.sendNetSplit s reason excluded = .ok hub') : ∃ r hub₁ squit,
      hub.net.getLocalServer = some r ∧ hub.dispatchServerMessage squit excluded = .ok hub₁ ∧
      (hub.net.server s).users.foldlM (fun hub₂ u => hub₂.sendAll
        (((hub.net.server r).users.filter fun w => hub.net.hasCommonChannel w u).map
          fun w => (hub.net.user w).connection)
        ⟨some (hub.net.user u).nick, "QUIT", ["*.net *.split"], true⟩ []) hub₁ = .ok hub' := by
  obtain ⟨m, hm, hok⟩ := bind_eq_ok_iff.mp hok
  obtain ⟨squit, hsquit, hok⟩ := bind_eq_ok_iff.mp hok
  obtain ⟨hub₁, h₁, hok⟩ := bind_eq_ok_iff.mp hok
  obtain ⟨us, hus, hok⟩ := bind_eq_ok_iff.mp hok
  rw [getUsersBehindServer_of_no_children hs] at hus
  obtain rfl := Except.ok.inj hus
  split at hok
  · cases hok
  · rename_i r hr
    exact ⟨r, hub₁, squit, hr, h₁, hok⟩

end

open Classical in
theorem tells_sendNetSplit (hcap : KeepsCapitals) (h : hub.Lines) {s : Ref} {reason : Option String}
    (hs : (hub.net.server s).children = []) (hv : v ∈ hub.net.users)
    (hcon : (hub.net.user v).connection = some d) (hopen : ¬hub.closed d)
    (hok : hub.sendNetSplit s reason excluded = .ok hub') :
    Tells hub d ((hub.net.server s).users.flatMap fun u =>
      if hub.net.world.Share u v then [.gone (hub.net.user u).nick] else []) hub' := by
  obtain ⟨r, hub₁, squit, hr, h₁, hok⟩ := sendNetSplit_eq_ok hs hok
  have hrreg := (Network.getLocalServer_eq_some hr).1
  have hlocal := (h.locals v hv d hcon).1
  have hvr : v ∈ (hub.net.server r).users := by
    refine (h.sound.homes.listed r hrreg v).mpr ⟨hv, ?_⟩
    simpa [Network.isLocal, hr] using hlocal
  rw [← (wrote_dispatchServerMessage h₁).closed] at hopen
  have hfirst := h.tells_dispatchServerMessage (h.not_server hv hcon) h₁
  suffices hrest : ∀ (us : List Ref) (hub₁ : Hub), ¬hub₁.closed d →
      us.foldlM (fun hub₂ u => hub₂.sendAll
        (((hub.net.server r).users.filter fun w => hub.net.hasCommonChannel w u).map
          fun w => (hub.net.user w).connection)
        ⟨some (hub.net.user u).nick, "QUIT", ["*.net *.split"], true⟩ []) hub₁ = .ok hub' →
      Tells hub₁ d (us.flatMap fun u =>
        if hub.net.world.Share u v then [.gone (hub.net.user u).nick] else []) hub' from by
    simpa using hfirst.trans (hrest _ hub₁ hopen hok)
  intro us
  induction us with
  | nil =>
    intro hub₁ _ hok
    obtain rfl := Except.ok.inj hok
    exact .refl
  | cons u us ih =>
    intro hub₁ hopen hok
    rw [List.foldlM_cons] at hok
    obtain ⟨hub₂, h₂, hok⟩ := bind_eq_ok_iff.mp hok
    have hopen₂ : ¬hub₂.closed d := by rwa [(wrote_sendAll h₂).closed]
    have hiff : ∀ w ∈ (hub.net.server r).users.filter fun w => hub.net.hasCommonChannel w u,
        (hub.net.user w).connection = some d ↔ w = v := by
      intro w hw
      exact h.connection_iff hv hcon (h.sound.isLocal_of_mem hr (List.mem_of_mem_filter hw)).1
    rw [List.flatMap_cons]
    refine Tells.trans ?_ (ih hub₂ hopen₂ hok)
    split_ifs with hshare
    · have hupper : Locale.toUpperCase "QUIT" = "QUIT" := hcap "QUIT" (by decide)
      have hin : v ∈ (hub.net.server r).users.filter fun w => hub.net.hasCommonChannel w u :=
        List.mem_filter.mpr
          ⟨hvr, h.sound.hasCommonChannel_iff.mpr (World.share_comm.mp hshare)⟩
      have hquit := tells_sendAll ((h.sound.homes.nodup r hrreg).filter _) hin hiff hopen
        List.not_mem_nil h₂
      simpa only [noticeOf, hupper, Option.toList_some] using hquit
    · refine tells_sendAll_nothing (.inl fun hin => hshare ?_) h₂
      obtain ⟨w, hw, hwd⟩ := List.mem_map.mp hin
      obtain rfl := (hiff w hw).mp hwd
      exact World.share_comm.mp (h.sound.hasCommonChannel_iff.mp (List.mem_filter.mp hw).2)

theorem tells_sendNetSplit_nothing (h : hub.Lines) {s : Ref} {reason : Option String}
    (hs : (hub.net.server s).children = []) (hunreg : hub.Unregistered d)
    (hok : hub.sendNetSplit s reason excluded = .ok hub') : Tells hub d [] hub' := by
  obtain ⟨r, hub₁, squit, hr, h₁, hok⟩ := sendNetSplit_eq_ok hs hok
  refine (h.tells_dispatchServerMessage (not_server_of_unregistered hunreg) h₁).nothing
    (tells_foldlM (fun h₂ => tells_sendAll_nothing (.inl ?_) h₂) hok)
  intro hin
  obtain ⟨w, hw, hwd⟩ := List.mem_map.mp hin
  exact h.not_connection hunreg (h.sound.isLocal_of_mem hr (List.mem_of_mem_filter hw)).1 hwd

end Lines

/-! ## Messages about servers, and of users -/

theorem tells_sendServer {excluded : Option Ref} {depth : Nat} {s : Ref} {current children : Bool}
    (hs : Silent "SERVER")
    (h : sendServer dest excluded depth hub s current children = .ok hub') : Tells hub d [] hub' := by
  induction depth generalizing hub s hub' current children with
  | zero => cases h
  | succ depth ih =>
    by_cases hex : some s = excluded
    · rw [sendServer, if_pos hex] at h
      obtain rfl := Except.ok.inj h
      exact .refl
    rw [sendServer, if_neg hex] at h
    obtain ⟨hub₁, h₁, h⟩ := bind_eq_ok_iff.mp h
    have hfirst : Tells hub d [] hub₁ := by
      split_ifs at h₁
      · obtain ⟨m, hm, h₁⟩ := bind_eq_ok_iff.mp h₁
        obtain ⟨m₁, hm₁, hm⟩ := bind_eq_ok_iff.mp hm
        obtain ⟨m₂, hm₂, hm⟩ := bind_eq_ok_iff.mp hm
        obtain ⟨m₃, hm₃, hm⟩ := bind_eq_ok_iff.mp hm
        obtain ⟨_, rfl⟩ := Message.appendParameter_eq_ok hm₁
        obtain ⟨_, rfl⟩ := Message.appendParameter_eq_ok hm₂
        obtain ⟨_, rfl⟩ := Message.appendParameter_eq_ok hm₃
        obtain rfl := Message.appendLastParameter_eq_ok hm
        exact tells_send_nothing (.inr (noticeOf_of_silent hs)) h₁
      · obtain rfl := Except.ok.inj h₁
        exact .refl
    refine hfirst.nothing ?_
    split_ifs at h
    · exact tells_foldlM ih h
    · obtain rfl := Except.ok.inj h
      exact .refl

theorem tells_sendSelf (hs : Silent "SERVER") (h : hub.sendSelf dest = .ok hub') :
    Tells hub d [] hub' := by
  unfold sendSelf at h
  split at h
  · exact tells_sendServer hs h
  · cases h

/-- A new link is told about the network, and nobody else. -/
theorem tells_sendNetSync {publishSelf : Bool} (hs : Silent "SERVER") (hne : dest ≠ d)
    (h : hub.sendNetSync dest publishSelf = .ok hub') : Tells hub d [] hub' := by
  unfold sendNetSync at h
  dsimp only at h
  split at h
  · cases h
  · obtain ⟨hub₁, h₁, h⟩ := bind_eq_ok_iff.mp h
    obtain ⟨users, _, h⟩ := bind_eq_ok_iff.mp h
    obtain ⟨hub₂, h₂, h⟩ := bind_eq_ok_iff.mp h
    refine (tells_sendServer hs h₁).nothing (Tells.nothing (tells_foldlM ?_ h₂) (tells_foldlM ?_ h))
    · intro hub u hub' hf
      obtain ⟨m, _, hf⟩ := bind_eq_ok_iff.mp hf
      exact tells_send_nothing (.inl hne) hf
    · intro hub u hub' hf
      unfold sendJoins at hf
      dsimp only at hf
      split_ifs at hf
      · obtain rfl := Except.ok.inj hf
        exact .refl
      · obtain ⟨m, _, hf⟩ := bind_eq_ok_iff.mp hf
        exact tells_send_nothing (.inl hne) hf

theorem tells_map (hcap : KeepsCapitals) (h : hub.map src = .ok hub') : Tells hub d [] hub' := by
  have hreply : ∀ {hub hub' : Hub} {u : Ref} {text : String}, hub.sendMapReply u text = .ok hub' →
      Tells hub d [] hub' := by
    intro hub hub' u text h
    exact tells_reply_nothing (.inr (hcap.silent (by decide) (by decide))) h
  have hmap : ∀ (depth : Nat) {hub hub' : Hub} {u : Ref} {text : String} {s : Ref},
      sendMap u depth hub text s = .ok hub' → Tells hub d [] hub' := by
    intro depth
    induction depth with
    | zero =>
      intro hub hub' u text s h
      cases h
    | succ depth ih =>
      intro hub hub' u text s h
      obtain ⟨hub₁, h₁, h⟩ := bind_eq_ok_iff.mp h
      obtain ⟨hub₂, h₂, h⟩ := bind_eq_ok_iff.mp h
      exact (hreply h₁).nothing ((tells_foldlM hreply h₂).nothing (tells_foldlM ih h))
  unfold map at h
  split at h
  · exact tells_replyError (hcap.silent (by decide) (by decide)) h
  · obtain rfl := Except.ok.inj h
    exact .refl
  · split at h
    · cases h
    · obtain ⟨hub₁, h₁, h⟩ := bind_eq_ok_iff.mp h
      exact (hmap _ h₁).nothing
        (tells_reply_nothing (.inr (hcap.silent (by decide) (by decide))) h)

theorem tells_ping (hcap : KeepsCapitals) (h : hub.ping src msg = .ok hub') : Tells hub d [] hub' := by
  obtain ⟨m, hm, h⟩ := bind_eq_ok_iff.mp h
  obtain rfl := Message.appendLastParameter_eq_ok hm
  have hs : Silent "PONG" := hcap.silent (by decide) (by decide)
  exact tells_send_nothing (.inr (noticeOf_of_silent hs)) h

/-- A message of a user goes on with its command. -/
theorem tells_routeMessage (hs : Silent msg.command) (h : hub.routeMessage src msg = .ok hub') :
    Tells hub d [] hub' := by
  unfold routeMessage at h
  split at h
  · obtain rfl := Except.ok.inj h
    exact .refl
  · obtain ⟨targets, _, h⟩ := bind_eq_ok_iff.mp h
    split at h
    · obtain rfl := Except.ok.inj h
      exact .refl
    · obtain ⟨fw, hfw, h⟩ := bind_eq_ok_iff.mp h
      obtain ⟨cons, _, h⟩ := bind_eq_ok_iff.mp h
      have hcommand : fw.command = msg.command := by
        obtain ⟨m, hm, hfw⟩ := bind_eq_ok_iff.mp hfw
        obtain ⟨m₁, hm₁, hfw⟩ := bind_eq_ok_iff.mp hfw
        obtain ⟨ok, _, hm⟩ := bind_eq_ok_iff.mp hm
        split_ifs at hm
        obtain rfl := Except.ok.inj hm
        obtain ⟨_, rfl⟩ := Message.appendParameter_eq_ok hm₁
        obtain rfl := Message.appendLastParameter_eq_ok hfw
        rfl
      refine tells_sendAll_nothing (.inr (noticeOf_of_silent ?_)) h
      rwa [hcommand]
  · obtain rfl := Except.ok.inj h
    exact .refl

end Hub

end MyLifeHome.Irc

