import MyLifeHome.Irc.Spreading

/-!
# A hub among others

What a hub has for a view, and how it goes from one view to the next: it tells all its neighbours of
the change, except the one that the change came from.
-/
namespace MyLifeHome.Irc

open Checked Replication

variable [Locale] {V : Type} [DecidableEq V] {L : Layout V} {h : V} {w w' w'' : View V}

namespace Hub

/-- The network is what the view says, the links lead to neighbours, and the clients are those that
their nicks belong to. -/
structure Shows (hub : Hub) (L : Layout V) (h : V) (w : View V) : Prop where
  steady : IrcServer.Steady hub
  depicts : hub.net.Depicts L h w
  links : ∀ d s, hub.structures d = .server s → Peer hub.net s ∧
    ∃ g, L.graph.Adj h g ∧ d = L.link h g ∧ (hub.net.server s).name = L.name g
  ends : ∀ g, L.graph.Adj h g → ¬hub.closed (L.link h g) ∧
    (hub.structures (L.link h g) = .new ∨ ∃ s, hub.structures (L.link h g) = .server s)
  locals : ∀ c r, hub.structures c = .user r → ¬hub.closed c →
    r ∈ hub.net.users ∧ L.owner (hub.net.user r).nick = (h, c)
  attached : ∀ r ∈ hub.net.users, hub.net.isLocal r → ∃ c, hub.structures c = .user r ∧ ¬hub.closed c
  waiting : ∀ c nick ident realName, hub.structures c = .unregistered nick ident realName →
    (∀ n, nick = some n → n ≠ "" → L.owner n = (h, c)) ∧ (∀ i, ident = some i → IsWord i) ∧
      ∀ r, realName = some r → IsText r
  hosts : ∀ c host, hub.remoteHost c = some host → IsWord host
  dials : ∀ g, L.graph.Adj h g → hub.locallyInitiated (L.link h g) = L.dials h g

/-- What is around the hub is as it was. -/
def SameSurroundings (hub hub' : Hub) : Prop :=
  hub'.remoteHost = hub.remoteHost ∧ hub'.locallyInitiated = hub.locallyInitiated

/-- A neighbour is told what does not come from it. -/
def Hears (hub : Hub) (src : Option Conn) (d : Conn) : Prop :=
  some d ≠ src ∧ ∃ s, hub.structures d = .server s

/-- The hub comes to another view, which differs in what some vertices have, and tells its
neighbours. -/
structure Turns (hub : Hub) (L : Layout V) (h : V) (w : View V) (src : Option Conn) (X : Set V)
    (hub' : Hub) (w' : View V) : Prop where
  shows : hub'.Shows L h w'
  outside : Set.EqOn w' w Xᶜ
  frame : ∀ g, L.graph.Adj h g → hub'.structures (L.link h g) = hub.structures (L.link h g)
  told : ∀ g, L.graph.Adj h g → ∃ ms as, hub.Writes (L.link h g) ms hub' ∧
    List.Forall₂ (Update.Announced L) ms as ∧ (∀ a ∈ as, a.homes ⊆ X) ∧
    (¬hub.Hears src (L.link h g) → as = []) ∧ (hub.Hears src (L.link h g) →
      (Update.updates L).FitAll as w ∧ (Update.updates L).applyAll as w = w')

variable {hub hub₁ hub' : Hub} {c d : Conn} {src : Option Conn} {X : Set V} {s r root : Ref}
  {net' : Network} {msg : Message} {a : Update V} {excluded : List Conn}

omit [Locale] in
theorem Wrote.sameSurroundings (hw : Wrote hub hub') : hub.SameSurroundings hub' := by
  obtain ⟨out, rfl⟩ := hw
  exact ⟨rfl, rfl⟩

theorem Turns.trans (h₁ : hub.Turns L h w src X hub₁ w') (h₂ : hub₁.Turns L h w' src X hub' w'') :
    hub.Turns L h w src X hub' w'' := by
  refine ⟨h₂.shows, h₂.outside.trans h₁.outside, ?_, ?_⟩
  · exact fun g hg => (h₂.frame g hg).trans (h₁.frame g hg)
  · intro g hg
    obtain ⟨ms, as, hwrites, hann, hhomes, hno, hall⟩ := h₁.told g hg
    obtain ⟨ms', as', hwrites', hann', hhomes', hno', hall'⟩ := h₂.told g hg
    simp only [Hears, h₁.frame g hg] at hno' hall'
    refine ⟨ms ++ ms', as ++ as', hwrites.trans hwrites', List.rel_append hann hann', ?_, ?_, ?_⟩
    · intro a ha
      exact (List.mem_append.mp ha).elim (hhomes a) (hhomes' a)
    · intro hdeaf
      rw [hno hdeaf, hno' hdeaf, List.append_nil]
    · intro hhears
      obtain ⟨hfits, happly⟩ := hall hhears
      obtain ⟨hfits', happly'⟩ := hall' hhears
      rw [Updates.fitAll_append, Updates.applyAll_append, happly]
      exact ⟨⟨hfits, hfits'⟩, happly'⟩

/-! ## The parts of a view -/

namespace Shows

section

omit [DecidableEq V]

theorem exists_ready (hs : hub.Shows L h w) (hopen : ¬hub.closed c) : hub.Ready c :=
  hs.steady c (IrcServer.writable_of_open hopen)

theorem change (hs : hub.Shows L h w) (hsteady : IrcServer.Steady hub')
    (hdepicts : hub'.net.Depicts L h w')
    (hlinks : ∀ d s, hub'.structures d = .server s → hub.structures d = .server s)
    (hends : ∀ g, L.graph.Adj h g → hub'.structures (L.link h g) = hub.structures (L.link h g) ∧
      hub'.closed (L.link h g) = hub.closed (L.link h g))
    (hpeers : ∀ s, Peer hub.net s → Peer hub'.net s ∧ (hub'.net.server s).name = (hub.net.server s).name)
    (hlocals : ∀ c r, hub'.structures c = .user r → ¬hub'.closed c →
      r ∈ hub'.net.users ∧ L.owner (hub'.net.user r).nick = (h, c))
    (hattached : ∀ r ∈ hub'.net.users, hub'.net.isLocal r →
      ∃ c, hub'.structures c = .user r ∧ ¬hub'.closed c)
    (hwaiting : ∀ c nick ident realName, hub'.structures c = .unregistered nick ident realName →
      hub.structures c = .unregistered nick ident realName ∨
      (∀ n, nick = some n → n ≠ "" → L.owner n = (h, c)) ∧ (∀ i, ident = some i → IsWord i) ∧
        ∀ r, realName = some r → IsText r)
    (haround : hub.SameSurroundings hub') : hub'.Shows L h w' := by
  refine ⟨hsteady, hdepicts, ?_, ?_, hlocals, hattached, ?_, haround.1 ▸ hs.hosts,
    haround.2 ▸ hs.dials⟩
  · intro d s hstr
    obtain ⟨hpeer, g, hadj, hlink, hname⟩ := hs.links d s (hlinks d s hstr)
    obtain ⟨hpeer', hname'⟩ := hpeers s hpeer
    exact ⟨hpeer', g, hadj, hlink, hname'.trans hname⟩
  · intro g hg
    rw [(hends g hg).1, (hends g hg).2]
    exact hs.ends g hg
  · intro c nick ident realName hstr
    exact (hwaiting c nick ident realName hstr).elim (hs.waiting c nick ident realName) id

theorem wrote (hs : hub.Shows L h w) (hw : Wrote hub hub') : hub'.Shows L h w := by
  obtain ⟨out, rfl⟩ := hw
  refine ⟨?_, hs.depicts, hs.links, hs.ends, hs.locals, hs.attached, hs.waiting, hs.hosts, hs.dials⟩
  intro c hc
  exact (hs.steady c hc).wrote ⟨out, rfl⟩

end

section

omit [Locale]

/-- Servers are where they were. -/
theorem peer_congr {net net' : Network} (hservers : net'.servers = net.servers)
    (hparent : ∀ s, (net'.server s).parent = (net.server s).parent) (hpeer : Peer net s) :
    Peer net' s := by
  obtain ⟨hreg, r, hr, hp⟩ := hpeer
  refine ⟨(Network.registered_congr hservers).mpr hreg, r, ?_, (hparent s).trans hp⟩
  rw [Network.getLocalServer_congr hservers hparent, hr]

theorem isLocal_congr {net net' : Network} (hservers : net'.servers = net.servers)
    (hparent : ∀ s, (net'.server s).parent = (net.server s).parent)
    (hhome : (net'.user r).server = (net.user r).server) : net'.isLocal r = net.isLocal r := by
  simp only [Network.isLocal, Network.getLocalServer_congr hservers hparent, hhome]

end

omit [DecidableEq V] in
/-- Only the users differ. -/
theorem changeUsers (hs : hub.Shows L h w)
    (hready : Ready { hub with net := net' } c) (hdepicts : net'.Depicts L h w')
    (hservers : net'.servers = hub.net.servers)
    (hserver : ∀ s, (net'.server s).name = (hub.net.server s).name ∧
      (net'.server s).parent = (hub.net.server s).parent)
    (hlocals : ∀ c r, hub.structures c = .user r → ¬hub.closed c → r ∈ hub.net.users →
      L.owner (hub.net.user r).nick = (h, c) → r ∈ net'.users ∧ L.owner (net'.user r).nick = (h, c))
    (hattached : ∀ r ∈ net'.users, net'.isLocal r → r ∈ hub.net.users ∧ hub.net.isLocal r) :
    Shows { hub with net := net' } L h w' := by
  refine hs.change (IrcServer.steady_of_ready hready) hdepicts (fun _ _ hstr => hstr)
    (fun _ _ => ⟨rfl, rfl⟩) ?_ ?_ ?_ (fun _ _ _ _ hstr => .inl hstr) ⟨rfl, rfl⟩
  · intro s hpeer
    exact ⟨peer_congr hservers (fun s => (hserver s).2) hpeer, (hserver s).1⟩
  · intro c r hstr hopen
    obtain ⟨hr, howner⟩ := hs.locals c r hstr hopen
    exact hlocals c r hstr hopen hr howner
  · intro r hr hlocal
    obtain ⟨hr, hlocal⟩ := hattached r hr hlocal
    exact hs.attached r hr hlocal

/-! ## Telling the neighbours -/

/-- Nothing changes that the neighbours are told. -/
theorem turns_quiet (hs' : hub'.Shows L h w)
    (hframe : ∀ g, L.graph.Adj h g → hub'.structures (L.link h g) = hub.structures (L.link h g))
    (hquiet : ∀ g, L.graph.Adj h g → hub.Writes (L.link h g) [] hub') :
    hub.Turns L h w src X hub' w := by
  refine ⟨hs', fun _ _ => rfl, hframe, fun g hg => ⟨[], [], hquiet g hg, .nil, ?_, ?_, ?_⟩⟩
  · simp
  · simp
  · exact fun _ => ⟨trivial, rfl⟩

theorem turns_refl (hs : hub.Shows L h w) : hub.Turns L h w src X hub w :=
  hs.turns_quiet (fun _ _ => rfl) fun _ _ => .refl

theorem turns_wrote (hs : hub.Shows L h w) (hw : Wrote hub hub')
    (hquiet : ∀ g, L.graph.Adj h g → hub.Writes (L.link h g) [] hub') :
    hub.Turns L h w src X hub' w :=
  (hs.wrote hw).turns_quiet (fun _ _ => by rw [hw.structures]) hquiet

/-- One update is announced to those who hear of it. -/
theorem turns_announce (hs' : hub'.Shows L h (a.apply w)) (hfits : a.fits L w) (hhomes : a.homes ⊆ X)
    (hframe : ∀ g, L.graph.Adj h g → hub'.structures (L.link h g) = hub.structures (L.link h g))
    (hwrites : ∀ g, L.graph.Adj h g → ∃ ms, hub.Writes (L.link h g) ms hub' ∧
      (¬hub.Hears src (L.link h g) → ms = []) ∧
      (hub.Hears src (L.link h g) → ∃ m, ms = [m] ∧ a.Announced L m)) :
    hub.Turns L h w src X hub' (a.apply w) := by
  have hlocal : (Update.updates L).Local X a := Update.local_of_homes hhomes
  refine ⟨hs', hlocal.outside w, hframe, fun g hg => ?_⟩
  obtain ⟨ms, hw, hno, hall⟩ := hwrites g hg
  by_cases hhears : hub.Hears src (L.link h g)
  · obtain ⟨m, rfl, hann⟩ := hall hhears
    refine ⟨[m], [a], hw, .cons hann .nil, by simpa using hhomes, fun hno => absurd hhears hno,
      fun _ => ⟨⟨hfits, trivial⟩, rfl⟩⟩
  · exact ⟨ms, [], hw, by simp [hno hhears], by simp, fun _ => rfl, fun h => absurd h hhears⟩

end Shows

end Hub

end MyLifeHome.Irc

