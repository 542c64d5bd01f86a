import MyLifeHome.Irc.Depiction
import MyLifeHome.Irc.Loop
import MyLifeHome.Irc.Telling

/-!
# What a hub passes on

A hub that changes its network announces the change on every link, but for the one on which it was
announced to it.
-/
namespace MyLifeHome.Irc

open Checked Replication

variable [Locale]

namespace Hub

/-- What has been written to the connection in between. -/
def Writes (hub : Hub) (d : Conn) (ms : List Message) (hub' : Hub) : Prop :=
  ∃ out, hub'.sent = hub.sent ++ out ∧ (out.filter fun e => e.1 = d).map Prod.snd = ms

variable {hub hub' hub'' : Hub} {c d src : Conn} {msg : Message} {s r user channel : Ref}
  {ms ms' : List Message} {excluded : List Conn} {con : Option Conn}

section

omit [Locale]

theorem Writes.of_sent (h : hub'.sent = hub.sent) : hub.Writes d [] hub' := ⟨[], by simp [h], rfl⟩

theorem Writes.refl : hub.Writes d [] hub := .of_sent rfl

theorem Writes.trans (h : hub.Writes d ms hub') (g : hub'.Writes d ms' hub'') :
    hub.Writes d (ms ++ ms') hub'' := by
  obtain ⟨out, hsent, rfl⟩ := h
  obtain ⟨out', hsent', rfl⟩ := g
  exact ⟨out ++ out', by rw [hsent', hsent, List.append_assoc], by simp⟩

/-- Nothing more is written. -/
theorem Writes.nothing (h : hub.Writes d ms hub') (g : hub'.Writes d [] hub'') :
    hub.Writes d ms hub'' := by
  simpa using h.trans g

theorem Writes.congr (h : hub.Writes d ms hub') {hub₀ hub₁ : Hub} (h₀ : hub₀.sent = hub.sent)
    (h₁ : hub₁.sent = hub'.sent) : hub₀.Writes d ms hub₁ := by
  obtain ⟨out, hsent, hms⟩ := h
  exact ⟨out, by rw [h₁, h₀, hsent], hms⟩

end

/-! ## Writing -/

section

omit [Locale]

theorem writes_send (hopen : ¬hub.closed d) (h : hub.send d msg = .ok hub') :
    hub.Writes d [msg] hub' := by
  rcases send_eq_ok h with ⟨hclosed, _⟩ | ⟨_, rfl⟩
  · exact absurd hclosed hopen
  · exact ⟨_, rfl, by simp⟩

theorem writes_send_other (hne : c ≠ d) (h : hub.send c msg = .ok hub') : hub.Writes d [] hub' := by
  rcases send_eq_ok h with ⟨_, rfl⟩ | ⟨_, rfl⟩
  · exact .refl
  · exact ⟨_, rfl, by simp [hne]⟩

theorem writes_sendTo_other (hne : con ≠ some d) (h : hub.sendTo con msg = .ok hub') :
    hub.Writes d [] hub' := by
  cases con with
  | none => cases h
  | some c => exact writes_send_other (fun heq => hne (by rw [heq])) h

theorem writes_sendAll_other {cons : List (Option Conn)} (hnot : some d ∉ cons ∨ d ∈ excluded)
    (h : hub.sendAll cons msg excluded = .ok hub') : hub.Writes d [] hub' := by
  induction cons generalizing hub with
  | nil =>
    obtain rfl := Except.ok.inj h
    exact .refl
  | cons con cons ih =>
    unfold sendAll at h
    rw [List.foldlM_cons] at h
    obtain ⟨hub₁, h₁, h⟩ := bind_eq_ok_iff.mp h
    have hrest := hnot.imp_left fun hnot hmem => hnot (List.mem_cons_of_mem con hmem)
    refine Writes.nothing ?_ (ih hrest h)
    split_ifs at h₁ with hex
    · obtain rfl := Except.ok.inj h₁
      exact .refl
    · refine writes_sendTo_other ?_ h₁
      rintro rfl
      rcases hnot with hnot | hin
      · exact hnot List.mem_cons_self
      · exact hex (List.mem_map_of_mem hin)

/-- One of the objects is at the end of the connection. -/
theorem writes_sendAll {α : Type} {refs : List α} {f : α → Option Conn} {r : α} (hnodup : refs.Nodup)
    (hr : r ∈ refs) (hcon : ∀ x ∈ refs, f x = some d ↔ x = r) (hopen : ¬hub.closed d)
    (hex : d ∉ excluded) (h : hub.sendAll (refs.map f) msg excluded = .ok hub') :
    hub.Writes d [msg] hub' := by
  induction refs generalizing hub with
  | nil => simp at hr
  | cons x refs ih =>
    obtain ⟨hnot, hnodup⟩ := List.nodup_cons.mp hnodup
    obtain ⟨hx, hothers⟩ := List.forall_mem_cons.mp hcon
    unfold sendAll at h
    rw [List.map_cons, List.foldlM_cons] at h
    obtain ⟨hub₁, h₁, hrun⟩ := bind_eq_ok_iff.mp h
    rcases List.mem_cons.mp hr with hxr | hr
    · rw [hx.mpr hxr.symm, if_neg (by simpa using hex)] at h₁
      have hnone : some d ∉ refs.map f := by
        intro hmem
        obtain ⟨y, hy, hyd⟩ := List.mem_map.mp hmem
        obtain rfl := (hothers y hy).mp hyd
        exact hnot (hxr ▸ hy)
      exact (writes_send hopen h₁).nothing (writes_sendAll_other (.inl hnone) hrun)
    · have hxd : f x ≠ some d := by
        intro hxd
        obtain rfl := hx.mp hxd
        exact hnot hr
      split_ifs at h₁
      · obtain rfl := Except.ok.inj h₁
        exact ih hnodup hr hothers hopen hrun
      · have hopen₁ : ¬hub₁.closed d := by rwa [(wrote_sendTo h₁).closed]
        exact (writes_sendTo_other hxd h₁).trans (ih hnodup hr hothers hopen₁ hrun)

theorem writes_foldlM {α : Type} {f : Hub → α → Except Fault Hub} {as : List α}
    (step : ∀ {hub a hub'}, f hub a = .ok hub' → hub.Writes d [] hub')
    (h : as.foldlM f hub = .ok hub') : hub.Writes d [] hub' :=
  foldlM_invariant (I := fun hub' => hub.Writes d [] hub') (fun _ ht hf => ht.nothing (step hf)) h .refl

end

/-! ## Replies -/

section

omit [Locale]

theorem writes_reply_other {num : Numerics} {parameters : List String} {last : Option String}
    (hne : con ≠ some d) (h : hub.reply con num user parameters last = .ok hub') :
    hub.Writes d [] hub' := by
  obtain ⟨m, h, _⟩ := reply_eq_ok h
  exact writes_sendTo_other hne h

theorem writes_replyError_other {num : Numerics} (hne : c ≠ d) (h : hub.replyError c num = .ok hub') :
    hub.Writes d [] hub' := by
  obtain ⟨m, _, h⟩ := bind_eq_ok_iff.mp h
  split at h
  · obtain ⟨_, _, h⟩ := bind_eq_ok_iff.mp h
    obtain rfl := Except.ok.inj h
    exact .refl
  · exact writes_send_other hne h

theorem writes_userWelcome_other (hne : (hub.net.user user).connection ≠ some d)
    (h : hub.userWelcome user = .ok hub') : hub.Writes d [] hub' := by
  obtain ⟨hub₁, h₁, h⟩ := bind_eq_ok_iff.mp h
  obtain ⟨hub₂, h₂, h⟩ := bind_eq_ok_iff.mp h
  obtain ⟨hub₃, h₃, h⟩ := bind_eq_ok_iff.mp h
  obtain ⟨hub₄, h₄, h⟩ := bind_eq_ok_iff.mp h
  exact (writes_reply_other hne h₁).nothing ((writes_reply_other hne h₂).nothing
    ((writes_reply_other hne h₃).nothing ((writes_reply_other hne h₄).nothing
      (writes_reply_other hne h))))

theorem writes_welcome_other (hne : c ≠ d) (hcon : (hub.net.user user).connection ≠ some d)
    (h : hub.welcome c user channel = .ok hub') : hub.Writes d [] hub' := by
  unfold welcome at h
  split_ifs at h
  · obtain ⟨m, _, h⟩ := bind_eq_ok_iff.mp h
    obtain ⟨hub₁, h₁, h⟩ := bind_eq_ok_iff.mp h
    obtain ⟨hub₂, h₂, h⟩ := bind_eq_ok_iff.mp h
    obtain ⟨hub₃, h₃, h⟩ := bind_eq_ok_iff.mp h
    have hcon₂ : (hub₂.net.user user).connection ≠ some d := by
      rwa [((wrote_send h₁).trans (wrote_reply h₂)).net]
    exact (writes_send_other hne h₁).nothing ((writes_reply_other (by simpa using hne) h₂).nothing
      ((writes_reply_other hcon₂ h₃).nothing (writes_reply_other hcon₂ h)))
  · obtain rfl := Except.ok.inj h
    exact .refl

theorem writes_ping_other (hne : src ≠ d) (h : hub.ping src msg = .ok hub') : hub.Writes d [] hub' := by
  obtain ⟨m, _, h⟩ := bind_eq_ok_iff.mp h
  exact writes_send_other hne h

theorem writes_map_other (hne : src ≠ d)
    (hcon : ∀ u, hub.structures src = .user u → (hub.net.user u).connection ≠ some d)
    (h : hub.map src = .ok hub') : hub.Writes d [] hub' := by
  have hreply : ∀ {hub hub' : Hub} {u : Ref} {text : String},
      (hub.net.user u).connection ≠ some d → hub.sendMapReply u text = .ok hub' →
      hub.Writes d [] hub' ∧ (hub'.net.user u).connection ≠ some d := by
    intro hub hub' u text hcon h
    refine ⟨writes_reply_other hcon h, ?_⟩
    have hw : Wrote hub hub' := wrote_reply h
    rwa [hw.net]
  have hmap : ∀ (depth : Nat) {hub hub' : Hub} {u : Ref} {text : String} {s : Ref},
      (hub.net.user u).connection ≠ some d → sendMap u depth hub text s = .ok hub' →
      hub.Writes d [] hub' ∧ (hub'.net.user u).connection ≠ some d := by
    have hall : ∀ {α : Type} {f : Hub → α → Except Fault Hub} {as : List α} {u : Ref} {hub hub' : Hub},
        (∀ {hub a hub'}, (hub.net.user u).connection ≠ some d → f hub a = .ok hub' →
          hub.Writes d [] hub' ∧ (hub'.net.user u).connection ≠ some d) →
        (hub.net.user u).connection ≠ some d → as.foldlM f hub = .ok hub' →
        hub.Writes d [] hub' ∧ (hub'.net.user u).connection ≠ some d := by
      intro α f as u hub hub' step hcon h
      refine foldlM_invariant (I := fun hub' => hub.Writes d [] hub' ∧
        (hub'.net.user u).connection ≠ some d) (fun _ ht hf => ?_) h ⟨.refl, hcon⟩
      obtain ⟨hw, hcon⟩ := step ht.2 hf
      exact ⟨ht.1.nothing hw, hcon⟩
    intro depth
    induction depth with
    | zero =>
      intro hub hub' u text s _ h
      cases h
    | succ depth ih =>
      intro hub hub' u text s hcon h
      obtain ⟨hub₁, h₁, h⟩ := bind_eq_ok_iff.mp h
      obtain ⟨hub₂, h₂, h⟩ := bind_eq_ok_iff.mp h
      obtain ⟨hw₁, hcon₁⟩ := hreply hcon h₁
      obtain ⟨hw₂, hcon₂⟩ := hall hreply hcon₁ h₂
      obtain ⟨hw₃, hcon₃⟩ := hall ih hcon₂ h
      exact ⟨hw₁.nothing (hw₂.nothing hw₃), hcon₃⟩
  unfold map at h
  split at h
  · exact writes_replyError_other hne h
  · obtain rfl := Except.ok.inj h
    exact .refl
  · rename_i u hstr
    split at h
    · cases h
    · obtain ⟨hub₁, h₁, h⟩ := bind_eq_ok_iff.mp h
      obtain ⟨hw₁, hcon₁⟩ := hmap _ (hcon u hstr) h₁
      exact hw₁.nothing (writes_reply_other hcon₁ h)

end

/-! ## On a link -/

namespace Ready

/-- One of the peers is behind the link. -/
theorem connection_iff (h : hub.Ready src) (hstr : hub.structures d = .server s) {t : Ref}
    (ht : Peer hub.net t) : (hub.net.server t).connection = some d ↔ t = s := by
  obtain ⟨c, hc, hct, _⟩ := h.peers t ht
  constructor
  · intro htd
    obtain rfl := Option.some.inj (hc.symm.trans htd)
    exact Connectable.server.inj (hct.symm.trans hstr)
  · rintro rfl
    exact (h.servers d t hstr).2.1

/-- No local user is at the end of a connection that is open and has no user on it. -/
theorem not_connection (h : hub.Ready src) (hopen : ¬hub.closed d)
    (hnot : ∀ u, hub.structures d ≠ .user u) (hr : r ∈ hub.net.users)
    (hlocal : hub.net.isLocal r) : (hub.net.user r).connection ≠ some d := by
  intro hcon
  obtain ⟨c, hc, hattached⟩ := h.locals r hr hlocal
  obtain rfl := Option.some.inj (hc.symm.trans hcon)
  rcases hattached with ⟨hstr, _⟩ | ⟨hclosed, _⟩
  · exact hnot r hstr
  · exact hopen hclosed

/-- No peer is at the end of a connection that has no server on it. -/
theorem not_peer (h : hub.Ready src) (hnot : ∀ s, hub.structures d ≠ .server s) {t : Ref}
    (ht : Peer hub.net t) : (hub.net.server t).connection ≠ some d := by
  intro htd
  obtain ⟨c, hc, hct, _⟩ := h.peers t ht
  obtain rfl := Option.some.inj (hc.symm.trans htd)
  exact hnot t hct

theorem peer_of_mem (h : hub.Ready src) {root t : Ref} (hroot : hub.net.getLocalServer = some root) :
    t ∈ (hub.net.server root).children ↔ Peer hub.net t := by
  have hreg := (Network.getLocalServer_eq_some hroot).1
  refine (h.sound.tree.children root hreg t).trans ⟨?_, ?_⟩
  · rintro ⟨ht, hparent⟩
    exact ⟨ht, root, hroot, hparent⟩
  · rintro ⟨ht, r, hr, hparent⟩
    obtain rfl := Option.some.inj (hroot.symm.trans hr)
    exact ⟨ht, hparent⟩

/-- What goes to all servers goes to the one behind the link, whatever has become of the other
connections. -/
theorem writes_dispatchServerMessage (h : hub.Ready src) (hstr : hub.structures d = .server s)
    (hpeer : Peer hub.net s) {hub₀ : Hub} (hnet : hub₀.net = hub.net) (hopen : ¬hub₀.closed d)
    (hok : hub₀.dispatchServerMessage msg excluded = .ok hub') :
    hub₀.Writes d (if d ∈ excluded then [] else [msg]) hub' := by
  obtain ⟨cons, hcons, hok⟩ := bind_eq_ok_iff.mp hok
  obtain ⟨root, hroot⟩ := h.exists_local
  obtain rfl : (hub.net.server root).children.map (fun peer => (hub.net.server peer).connection) =
      cons := by
    rw [peerConnections, Network.getPeerServers, hnet, hroot] at hcons
    exact Except.ok.inj hcons
  split_ifs with hex
  · exact writes_sendAll_other (.inr hex) hok
  · exact writes_sendAll (h.sound.tree.nodup root (Network.getLocalServer_eq_some hroot).1)
      ((h.peer_of_mem hroot).mpr hpeer)
      (fun t ht => h.connection_iff hstr ((h.peer_of_mem hroot).mp ht)) hopen hex hok

theorem writes_dispatchServerMessage_other (h : hub.Ready src)
    (hnot : ∀ s, hub.structures d ≠ .server s) {hub₀ : Hub} (hnet : hub₀.net = hub.net)
    (hok : hub₀.dispatchServerMessage msg excluded = .ok hub') : hub₀.Writes d [] hub' := by
  obtain ⟨cons, hcons, hok⟩ := bind_eq_ok_iff.mp hok
  obtain ⟨root, hroot⟩ := h.exists_local
  obtain rfl : (hub.net.server root).children.map (fun peer => (hub.net.server peer).connection) =
      cons := by
    rw [peerConnections, Network.getPeerServers, hnet, hroot] at hcons
    exact Except.ok.inj hcons
  refine writes_sendAll_other (.inl fun hin => ?_) hok
  obtain ⟨t, ht, htd⟩ := List.mem_map.mp hin
  exact h.not_peer hnot ((h.peer_of_mem hroot).mp ht) htd

/-- What goes to the local users as well goes to no user there. -/
theorem writes_impacted_other (h : hub.Ready src) (hopen : ¬hub.closed d)
    (hnot : ∀ u, hub.structures d ≠ .user u) {hub₀ : Hub} (hnet : hub₀.net = hub.net)
    {impacted : List Ref} (himpacted : hub₀.net.getLocalImpactedUsers r = .ok impacted)
    (hok : hub₀.sendAll (impacted.map fun u => (hub₀.net.user u).connection) msg excluded =
      .ok hub') : hub₀.Writes d [] hub' := by
  rw [hnet] at himpacted hok
  obtain ⟨_, hmem⟩ := h.sound.getLocalImpactedUsers_eq_ok himpacted
  refine writes_sendAll_other (.inl fun hin => ?_) hok
  obtain ⟨v, hv, hvd⟩ := List.mem_map.mp hin
  obtain ⟨hvmem, _, hlocal, _⟩ := (hmem v).mp hv
  exact h.not_connection hopen hnot hvmem hlocal hvd

theorem writes_dispatchUserMessage (h : hub.Ready src) (hstr : hub.structures d = .server s)
    (hpeer : Peer hub.net s) {hub₀ : Hub} (hnet : hub₀.net = hub.net) (hopen : ¬hub₀.closed d)
    (hok : hub₀.dispatchUserMessage r msg excluded = .ok hub') :
    hub₀.Writes d (if d ∈ excluded then [] else [msg]) hub' := by
  obtain ⟨hub₁, h₁, hok⟩ := bind_eq_ok_iff.mp hok
  obtain ⟨impacted, himpacted, hok⟩ := bind_eq_ok_iff.mp hok
  have hw := wrote_dispatchServerMessage h₁
  obtain ⟨c, hc, _, hcopen⟩ := h.peers s hpeer
  obtain rfl := Option.some.inj (hc.symm.trans (h.servers d s hstr).2.1)
  exact (h.writes_dispatchServerMessage hstr hpeer hnet hopen h₁).nothing
    (h.writes_impacted_other hcopen (by simp [hstr]) (hw.net.trans hnet) himpacted hok)

theorem writes_dispatchUserMessage_other (h : hub.Ready src) (hopen : ¬hub.closed d)
    (hserver : ∀ s, hub.structures d ≠ .server s) (huser : ∀ u, hub.structures d ≠ .user u)
    {hub₀ : Hub} (hnet : hub₀.net = hub.net)
    (hok : hub₀.dispatchUserMessage r msg excluded = .ok hub') : hub₀.Writes d [] hub' := by
  obtain ⟨hub₁, h₁, hok⟩ := bind_eq_ok_iff.mp hok
  obtain ⟨impacted, himpacted, hok⟩ := bind_eq_ok_iff.mp hok
  have hw := wrote_dispatchServerMessage h₁
  exact (h.writes_dispatchServerMessage_other hserver hnet h₁).nothing
    (h.writes_impacted_other hopen huser (hw.net.trans hnet) himpacted hok)

/-- The way to a user starts at the user, or at a peer. -/
theorem getUserConnection_other (h : hub.Ready src) (hopen : ¬hub.closed d)
    (hserver : ∀ s, hub.structures d ≠ .server s) (huser : ∀ u, hub.structures d ≠ .user u)
    (hr : r ∈ hub.net.users) : getUserConnection hub.net r ≠ .ok (some d) := by
  intro hok
  unfold getUserConnection at hok
  split_ifs at hok with hlocal
  · exact h.not_connection hopen huser hr hlocal (Except.ok.inj hok)
  · obtain ⟨peers, hpeers, hclimbed⟩ := bind_eq_ok_iff.mp hok
    obtain ⟨peer, hpeer, hend⟩ := bind_eq_ok_iff.mp hclimbed
    obtain ⟨root, hroot⟩ := h.exists_local
    rw [Network.getPeerServers, hroot] at hpeers
    obtain rfl := Except.ok.inj hpeers
    have hclimb : ∀ {depth : Nat} {server : Option Ref} {peer : Ref},
        climbToPeer hub.net (hub.net.server root).children depth server = .ok peer →
        peer ∈ (hub.net.server root).children := by
      intro depth
      induction depth with
      | zero =>
        intro server peer hclimb
        cases server <;> cases hclimb
      | succ depth ih =>
        intro server peer hclimb
        cases server with
        | none => cases hclimb
        | some s =>
          rw [climbToPeer] at hclimb
          split_ifs at hclimb with hs
          · exact Except.ok.inj hclimb ▸ hs
          · exact ih hclimb
    exact h.not_peer hserver ((h.peer_of_mem hroot).mp (hclimb hpeer)) (Except.ok.inj hend)

omit [Locale] in
theorem exists_of_mem_mapM {α β : Type} {f : α → Except Fault β} {as : List α} {bs : List β} {b : β}
    (h : as.mapM f = .ok bs) (hb : b ∈ bs) : ∃ a ∈ as, f a = .ok b := by
  induction as generalizing bs with
  | nil =>
    obtain rfl := Except.ok.inj h
    cases hb
  | cons a as ih =>
    rw [List.mapM_cons] at h
    obtain ⟨b', hb', h⟩ := bind_eq_ok_iff.mp h
    obtain ⟨bs', hbs', h⟩ := bind_eq_ok_iff.mp h
    obtain rfl := Except.ok.inj h
    rcases List.mem_cons.mp hb with rfl | hb
    · exact ⟨a, List.mem_cons_self, hb'⟩
    · obtain ⟨x, hx, hxb⟩ := ih hbs' hb
      exact ⟨x, List.mem_cons_of_mem a hx, hxb⟩

/-- Messages are for users. -/
theorem mem_of_messageTargets (h : hub.Ready src) {sender : Option String} {target : String}
    {targets : List Ref} (hok : messageTargets hub.net sender target = .ok (some targets)) :
    ∀ r ∈ targets, r ∈ hub.net.users := by
  obtain ⟨isChannel, _, hok⟩ := bind_eq_ok_iff.mp hok
  split_ifs at hok
  · split at hok
    · cases hok
    · rename_i channel hget
      split at hok
      · cases hok
      · split_ifs at hok
        · obtain rfl := Option.some.inj (Except.ok.inj hok)
          exact fun r hr => (h.sound.memberships.present _ channel hget r (List.mem_of_mem_filter hr)).1
        · cases hok
  · have htarget := Except.ok.inj hok
    obtain ⟨user, huser, rfl⟩ := Option.map_eq_some_iff.mp htarget
    intro r hr
    rw [List.mem_singleton.mp hr]
    exact (Network.getUser_eq_some huser).1
  · cases hok

theorem writes_routeMessage_other (h : hub.Ready src) (hopen : ¬hub.closed d)
    (hserver : ∀ s, hub.structures d ≠ .server s) (huser : ∀ u, hub.structures d ≠ .user u)
    (hok : hub.routeMessage c msg = .ok hub') : hub.Writes d [] hub' := by
  unfold routeMessage at hok
  split at hok
  · obtain rfl := Except.ok.inj hok
    exact .refl
  · obtain ⟨targets, htargets, hok⟩ := bind_eq_ok_iff.mp hok
    split at hok
    · obtain rfl := Except.ok.inj hok
      exact .refl
    · rename_i targets
      obtain ⟨fw, _, hok⟩ := bind_eq_ok_iff.mp hok
      obtain ⟨cons, hcons, hok⟩ := bind_eq_ok_iff.mp hok
      refine writes_sendAll_other (.inl fun hin => ?_) hok
      obtain ⟨r, hr, hrd⟩ := exists_of_mem_mapM hcons (List.mem_dedup.mp hin)
      exact h.getUserConnection_other hopen hserver huser (h.mem_of_messageTargets htargets r hr) hrd
  · obtain rfl := Except.ok.inj hok
    exact .refl

end Ready

omit [Locale] in
/-- One copy at most goes to each connection. -/
theorem writes_dispatchUserListMessage {list : List Ref} (hopen : ¬hub.closed d)
    (hok : hub.dispatchUserListMessage list msg excluded = .ok hub') :
    ∃ ms, hub.Writes d ms hub' ∧ (ms = [] ∨ d ∉ excluded ∧ ms = [msg]) := by
  obtain ⟨cons, _, hok⟩ := bind_eq_ok_iff.mp hok
  rw [← List.map_id cons.dedup] at hok
  by_cases hin : some d ∈ cons.dedup ∧ d ∉ excluded
  · refine ⟨[msg], ?_, .inr ⟨hin.2, rfl⟩⟩
    exact writes_sendAll (List.nodup_dedup cons) hin.1 (fun _ _ => Iff.rfl) hopen hin.2 hok
  · refine ⟨[], writes_sendAll_other ?_ hok, .inl rfl⟩
    by_cases hex : d ∈ excluded
    · exact .inr hex
    · exact .inl fun hmem => hin ⟨by simpa using hmem, hex⟩

/-- The message goes on as it is. -/
theorem forwardedMessage_eq_ok {sender : Option String} {command target text : String}
    (h : forwardedMessage sender command target text = .ok msg) :
    msg = ⟨sender, command, [target, text], true⟩ ∧ isCommandIdentifier command = .ok true ∧
      isParameter target := by
  obtain ⟨m, hm, h⟩ := bind_eq_ok_iff.mp h
  obtain ⟨m₁, hm₁, h⟩ := bind_eq_ok_iff.mp h
  obtain ⟨ok, hcommand, hm⟩ := bind_eq_ok_iff.mp hm
  split_ifs at hm with hok
  obtain rfl := Except.ok.inj hm
  obtain ⟨htarget, rfl⟩ := Message.appendParameter_eq_ok hm₁
  obtain rfl := Message.appendLastParameter_eq_ok h
  exact ⟨rfl, by rw [hcommand, hok], htarget⟩

theorem writes_routeMessage (hopen : ¬hub.closed d) (h : hub.routeMessage src msg = .ok hub') :
    ∃ ms, hub.Writes d ms hub' ∧ (ms = [] ∨ d ≠ src ∧ ∃ target text rest,
      msg.params = target :: text :: rest ∧ isCommandIdentifier msg.command = .ok true ∧
      isParameter target ∧ ms = [⟨hub.senderOf src msg, msg.command, [target, text], true⟩]) := by
  unfold routeMessage at h
  split at h
  · obtain rfl := Except.ok.inj h
    exact ⟨[], .refl, .inl rfl⟩
  · rename_i target text rest hparams _
    obtain ⟨targets, _, h⟩ := bind_eq_ok_iff.mp h
    split at h
    · obtain rfl := Except.ok.inj h
      exact ⟨[], .refl, .inl rfl⟩
    · obtain ⟨fw, hfw, h⟩ := bind_eq_ok_iff.mp h
      obtain ⟨rfl, hcommand, htarget⟩ := forwardedMessage_eq_ok hfw
      obtain ⟨ms, hw, hms⟩ := writes_dispatchUserListMessage hopen h
      refine ⟨ms, hw, hms.imp_right ?_⟩
      rintro ⟨hnot, rfl⟩
      exact ⟨by simpa using hnot, target, text, rest, hparams, hcommand, htarget, rfl⟩
  · obtain rfl := Except.ok.inj h
    exact ⟨[], .refl, .inl rfl⟩

end Hub

end MyLifeHome.Irc

