import MyLifeHome.Irc.Mesh
import MyLifeHome.Irc.Loop
import MyLifeHome.Library.Draining
import Mathlib.Data.Set.Card

/-!
# Runs of many hubs

The loops of hubs that are linked to each other, and of clients. What a hub writes to a link is bytes,
and the other hub reads them in packets of any length. The lines that are left to read are those of
the messages that are on the way in a mesh.
-/
namespace MyLifeHome.Irc

open Checked Draining Replication Runs Utf8

variable [Locale]

/-- The loops, the ends of links that have been opened, and how many of the bytes that one hub has
written to another have been read. -/
structure Cluster (V : Type) where
  servers : V → IrcServer
  up : V → V → Bool
  taken : V → V → Nat

/-- A hub opens its end of a link, a client does something, or a hub reads a packet from another. -/
inductive Turn (V : Type) where
  | opened (b g : V)
  | client (h : V) (input : Input)
  | carried (b g : V) (n : Nat)

def Input.conn : Input → Conn
  | .accepted c | .read c _ | .closed c => c

/-- The hub in whose loop it is. -/
def Turn.hub {V : Type} : Turn V → V
  | .opened b _ => b
  | .client h _ => h
  | .carried _ g _ => g

/-- The names of the configurations are those of the layout. -/
structure Layout.Configured {V : Type} (L : Layout V) (configs : V → Configuration) : Prop where
  name : ∀ h, (configs h).serverName ++ "." ++ (configs h).networkName = L.name h
  token : ∀ h, (configs h).serverToken = L.token h
  network : ∀ h, ' ' ∉ (configs h).networkName.toList
  hosts : ∀ h c, ∃ host, (configs h).remoteHost c = some host ∧ IsWord host
  dials : ∀ h g, L.graph.Adj h g → (configs h).locallyInitiated (L.link h g) = L.dials h g

/-- The network has a server of the name. -/
def Network.Knows (net : Network) (name : String) : Prop :=
  ∃ s ∈ net.getServers, (net.server s).name = name

/-- The users that the network has on servers of the name. -/
def Network.people (net : Network) (name : String) : Set Person :=
  {p | ∃ r ∈ net.users, (net.server (net.user r).server).name = name ∧ net.person r = p}

variable {V : Type} [DecidableEq V] {L : Layout V} {b g h k : V}

section

variable {net : Network} {w : View V} {v : V}

section

omit [DecidableEq V]

theorem Network.Depicts.knows_iff (hd : net.Depicts L h w) (hL : L.Proper) :
    net.Knows (L.name v) ↔ (w v).known := by
  constructor
  · rintro ⟨s, hs, hname⟩
    obtain ⟨v', hknown, hname', _⟩ := hd.servers s hs
    rwa [hL.names v v' (by rw [← hname, hname'])]
  · exact hd.known v

theorem Network.Depicts.people_eq (hd : net.Depicts L h w) (hL : L.Proper) :
    net.people (L.name v) = {p | ∃ c, (w v).users c = some p} := by
  ext p
  constructor
  · rintro ⟨r, hr, hname, rfl⟩
    have hv : (L.owner (net.user r).nick).1 = v := by
      apply hL.names
      rw [← hd.homes r hr, hname]
    refine ⟨(L.owner (net.user r).nick).2, ?_⟩
    rw [← hv]
    exact hd.users r hr
  · rintro ⟨c, hp⟩
    obtain ⟨r, hr, howner, hperson⟩ := hd.present (v, c) p hp
    refine ⟨r, hr, ?_, hperson⟩
    rw [hd.homes r hr, howner]

end

end

namespace Cluster

/-- What the one has written to the other and the other has not read. -/
def unread (s : Cluster V) (L : Layout V) (b g : V) : List UInt8 :=
  ((s.servers b).hub.bytes (L.link b g)).drop (s.taken b g)

/-- What the loop of the hub is given. -/
def input (s : Cluster V) (L : Layout V) : Turn V → Input
  | .opened b g => .accepted (L.link b g)
  | .client _ input => input
  | .carried b g n => .read (L.link g b) ((s.unread L b g).take n)

/-- The loop has gone on. -/
def after (s : Cluster V) (turn : Turn V) (server' : IrcServer) : Cluster V where
  servers := Function.update s.servers turn.hub server'
  up := match turn with
    | .opened b g => fun x y => s.up x y || (x = b && y = g)
    | _ => s.up
  taken := match turn with
    | .carried b g n => fun x y => if x = b ∧ y = g then s.taken x y + n else s.taken x y
    | _ => s.taken

/-- An end of a link is opened once. Clients have connections of their own. There is something to
read on a link when its end is open. -/
def Possible (s : Cluster V) (L : Layout V) : Turn V → Prop
  | .opened b g => L.graph.Adj b g ∧ s.up b g = false
  | .client h input => (s.servers h).Possible input ∧ ∀ g, L.graph.Adj h g → input.conn ≠ L.link h g
  | .carried b g n => L.graph.Adj b g ∧ s.up g b ∧ n ≤ (s.unread L b g).length

/-- One turn of one loop. -/
def process (s : Cluster V) (L : Layout V) (turn : Turn V) : Except Fault (Cluster V) := do
  let server' ← (s.servers turn.hub).handle (s.input L turn)
  pure (s.after turn server')

/-- No exception leaves the loop. -/
def Step (L : Layout V) (s : Cluster V) (turn : Turn V) (s' : Cluster V) : Prop :=
  s.Possible L turn ∧ s.process L turn = .ok s'

/-- Each line can be read, and the client may send it where the lines before it lead. Nothing comes
after the line that closes the connection. -/
def AllowsLines (L : Layout V) (h : V) (c : Conn) : Hub → List (List Char) → Prop
  | _, [] => True
  | hub, rawmsg :: more => ¬hub.closed c ∧ Legible rawmsg ∧ ∀ msg, parseRawMessage rawmsg = .ok msg →
      hub.Allows L h c msg ∧ ∀ hub', hub.receive c msg = .ok hub' → AllowsLines L h c hub' more

/-- The lines of clients are as expected, and no packet between hubs cuts a character. -/
def Allows (L : Layout V) (s : Cluster V) : Turn V → Prop
  | .client h (.read c data) =>
    AllowsLines L h c (s.servers h).hub (Hub.lines ((s.servers h).buffers c ++ decode data)).1
  | .carried b g n => Whole [(s.unread L b g).take n]
  | _ => True

/-- The hubs have been started, and nothing has happened yet. -/
structure Starts (s : Cluster V) (configs : V → Configuration) : Prop where
  hubs : ∀ h, Hub.init (configs h) = .ok (s.servers h).hub
  buffers : ∀ h c, (s.servers h).buffers c = []
  up : ∀ b g, s.up b g = false
  taken : ∀ b g, s.taken b g = 0

/-- Both ends of the link are open. -/
def Linked (s : Cluster V) (L : Layout V) (b g : V) : Prop :=
  L.graph.Adj b g ∧ s.up b g ∧ s.up g b

variable {s s' : Cluster V} {m m' m'' : Mesh V} {hub hub' : Hub} {c : Conn} {ms : List Message}
  {msg : Message}

omit [Locale] in
theorem bytes_writes (hw : hub.Writes c ms hub') :
    hub'.bytes c = hub.bytes c ++ ms.flatMap Parser.writeMessage := by
  obtain ⟨out, hsent, rfl⟩ := hw
  exact bytes_append hsent

end Cluster

theorem Message.Passes.oneLine {msg : Message} (hk : KeepsSigns) (h : msg.Passes) : msg.OneLine := by
  refine ⟨fun hnil => ?_, h.lasting.notMem_write hk h.sendable⟩
  have hparse := h.parse hk
  change parseRawMessage msg.line = .ok msg at hparse
  rw [hnil] at hparse
  cases hparse

/-! ## Moves of a mesh -/

namespace Mesh

variable {m m' m'' : Mesh V} {view : V → View V} {queue : V → V → List (Update V)} {hub' : Hub}
  {n : Nat} {c : Conn}

omit [DecidableEq V] in
/-- All that is on the way is read as it was written. -/
theorem Carries.passes {live up : V → V → Prop} {pending : V → V → List Message}
    (hc : Carries L live up pending queue) (hadj : L.graph.Adj b g) : ∀ msg ∈ pending b g, msg.Passes := by
  have hall : ∀ {ms : List Message} {as : List (Update V)},
      List.Forall₂ (Update.Announced L) ms as → ∀ msg ∈ ms, msg.Passes := by
    intro ms as hann
    induction hann with
    | nil => simp
    | cons hfirst _ ih => exact List.forall_mem_cons.mpr ⟨hfirst.1, ih⟩
  by_cases hlive : live b g
  · by_cases hback : live g b
    · exact hall (hc.both b g hlive hback)
    · obtain ⟨_, msg, ms, as, hms, _, hgreets, hann⟩ := hc.answered b g hlive hback
      rw [hms]
      exact List.forall_mem_cons.mpr ⟨hgreets.1, hall hann⟩
  · by_cases hquiet : live g b ∨ ¬up b g ∨ L.dials b g = false
    · rw [hc.silent b g hadj hlive hquiet]
      simp
    · push Not at hquiet
      obtain ⟨hback, hup, hdials⟩ := hquiet
      obtain ⟨msg, hmsg, hgreets⟩ := hc.greeted b g hadj hlive hback hup (by simpa using hdials)
      rw [hmsg]
      simpa using hgreets.1

/-- The hub has come to another state, and what it has written is on the way. -/
structure Moved (m : Mesh V) (L : Layout V) (h : V) (m' : Mesh V) : Prop where
  up : m'.up = m.up
  hub : ∀ b, b ≠ h → m'.hub b = m.hub b
  others : ∀ b g, b ≠ h → m'.pending b g = m.pending b g
  written : ∀ g, L.graph.Adj h g → ∃ ms, (m.hub h).Writes (L.link h g) ms (m'.hub h) ∧
    m'.pending h g = m.pending h g ++ ms

section

omit [DecidableEq V] [Locale]

theorem Moved.refl : m.Moved L h m :=
  ⟨rfl, fun _ _ => rfl, fun _ _ _ => rfl, fun _ _ => ⟨[], .refl, (List.append_nil _).symm⟩⟩

theorem Moved.trans (h₁ : m.Moved L h m') (h₂ : m'.Moved L h m'') : m.Moved L h m'' := by
  refine ⟨h₂.up.trans h₁.up, fun b hb => (h₂.hub b hb).trans (h₁.hub b hb),
    fun b g hb => (h₂.others b g hb).trans (h₁.others b g hb), fun g hg => ?_⟩
  obtain ⟨ms, hw, hms⟩ := h₁.written g hg
  obtain ⟨ms', hw', hms'⟩ := h₂.written g hg
  exact ⟨ms ++ ms', hw.trans hw', by rw [hms', hms, List.append_assoc]⟩

end

omit [Locale] in
theorem moved_act (haddresses : (m.hub h).Addresses L h hub') : m.Moved L h (m.act L h hub') := by
  refine ⟨rfl, fun b hb => act_hub_of_ne hb, fun b g hb => act_pending_of_ne hb, fun g hg => ?_⟩
  obtain ⟨ms, hw⟩ := haddresses g hg
  refine ⟨ms, ?_, ?_⟩
  · rw [act_hub_self]
    exact hw
  · rw [act_pending_self, hw.written_eq]

/-- The first messages from the one to the other have been read. -/
def skip (m : Mesh V) (k h : V) (n : Nat) : Mesh V :=
  { m with pending := fun b g => if b = k ∧ g = h then (m.pending b g).drop n else m.pending b g }

section

omit [Locale]

theorem skip_zero : m.skip k h 0 = m := by
  simp [skip]

theorem skip_take : (m.take k h).skip k h n = m.skip k h (n + 1) := by
  have hpending : ∀ b g, ((m.take k h).skip k h n).pending b g = (m.skip k h (n + 1)).pending b g := by
    intro b g
    simp only [skip, take]
    split_ifs
    · rw [List.drop_tail]
    · rfl
  rw [skip, skip, Mesh.mk.injEq]
  exact ⟨rfl, rfl, funext fun b => funext fun g => hpending b g⟩

theorem Moved.skip (hkh : k ≠ h) (hmoved : m.Moved L h m') : (m.skip k h n).Moved L h (m'.skip k h n) := by
  refine ⟨hmoved.up, hmoved.hub, fun b g hb => ?_, fun g hg => ?_⟩
  · simp only [Mesh.skip, hmoved.others b g hb]
  · obtain ⟨ms, hw, hms⟩ := hmoved.written g hg
    exact ⟨ms, hw, by simpa [Mesh.skip, hkh.symm] using hms⟩

end

/-! ### Less to read -/

section Work

variable [Fintype V]

open Classical in
/-- The links, in both directions. -/
noncomputable def directions (L : Layout V) : Finset (V × V) :=
  Finset.univ.filter fun e => L.graph.Adj e.1 e.2

/-- How many hubs a message may still get to. -/
noncomputable def ahead (L : Layout V) (e : V × V) : ℕ := (side L.graph e.2 e.1).ncard

open Classical in
/-- The links that are still to come, and the messages that are on the way. -/
noncomputable def work (m : Mesh V) (L : Layout V) : ℕ × Multiset ℕ :=
  (((directions L).filter fun e => ¬m.Live L e.1 e.2).card,
    load (directions L) (ahead L) fun e => (m.pending e.1 e.2).length)

omit [Locale] [DecidableEq V] in
theorem mem_directions {e : V × V} : e ∈ directions L ↔ L.graph.Adj e.1 e.2 := by
  simp [directions]

omit [DecidableEq V] in
theorem ahead_lt (hL : L.Proper) (hkh : L.graph.Adj k h) (hhg : L.graph.Adj h g) (hne : g ≠ k) :
    ahead L (h, g) < ahead L (k, h) := by
  refine Set.ncard_lt_ncard ⟨side_subset hL.tree.isAcyclic hhg.symm hkh.symm hne, fun hsub => ?_⟩
  exact notMem_side hhg.ne.symm (hsub mem_side_self)

theorem work_lt (hL : L.Proper) (hadj : L.graph.Adj k h) (hpending : m.pending k h ≠ [])
    (hleads : m.Leads L k h hub') : Less (((m.take k h).act L h hub').work L) (m.work L) := by
  classical
  rcases hleads with ⟨hdead, hlive⟩ | ⟨hlive, hwrites⟩
  · refine Prod.Lex.left _ _ (Finset.card_lt_card ?_)
    refine Finset.ssubset_iff_of_subset (fun e he => ?_) |>.mpr ⟨(h, k), ?_, ?_⟩
    · obtain ⟨he, hnot⟩ := Finset.mem_filter.mp he
      exact Finset.mem_filter.mpr ⟨he, fun hl => hnot ((hlive _ _).mpr (.inl hl))⟩
    · exact Finset.mem_filter.mpr ⟨mem_directions.mpr hadj.symm, hdead⟩
    · exact fun hin => (Finset.mem_filter.mp hin).2 ((hlive h k).mpr (.inr ⟨rfl, rfl⟩))
  · have hsame : ((m.take k h).act L h hub').Live L = m.Live L := hlive
    rw [work, hsame]
    refine Prod.Lex.right _ (load_lt (e := (k, h)) (mem_directions.mpr hadj) ?_ ?_)
    · dsimp only
      rw [act_pending_of_ne hadj.ne]
      obtain ⟨msg, rest, hms⟩ := List.exists_cons_of_ne_nil hpending
      simp [take, hms]
    · rintro ⟨b, g⟩ hbg hmore
      rw [mem_directions] at hbg
      dsimp only at hbg hmore
      have hb : b = h := by
        by_contra hb
        rw [act_pending_of_ne hb] at hmore
        simp only [take] at hmore
        split_ifs at hmore
        · rw [List.length_tail] at hmore
          omega
        · exact absurd hmore (lt_irrefl _)
      subst hb
      refine ahead_lt hL hadj hbg ?_
      rintro rfl
      have hnone : ((m.take g b).hub b).written hub' (L.link b g) = [] := hwrites.written_eq
      rw [act_pending_self, hnone, List.append_nil] at hmore
      simp [take, hadj.ne.symm] at hmore

end Work

/-- Some view of the hubs fits together with what is on the way. -/
def InTune (m : Mesh V) (L : Layout V) : Prop := ∃ view queue, m.Tuned L view queue

theorem InTune.passes (ht : m.InTune L) (b g : V) (hadj : L.graph.Adj b g) :
    ∀ msg ∈ m.pending b g, msg.Passes := by
  obtain ⟨view, queue, ht⟩ := ht
  exact ht.carries.passes hadj

/-- The first messages on an open link are read one after another. -/
theorem InTune.readAll (hcap : KeepsCapitals) (hL : L.Proper) (ht : m.InTune L)
    (hadj : L.graph.Adj k h) (hup : m.up h k) (hn : n ≤ (m.pending k h).length) : ∃ m',
      ((m.pending k h).take n).foldlM (fun hub message => hub.receive (L.link h k) message) (m.hub h) =
        .ok (m'.hub h) ∧ (m.skip k h n).Moved L h m' ∧ m'.InTune L ∧
      ∀ [Fintype V], n = 0 ∧ m' = m ∨ Less (m'.work L) (m.work L) := by
  induction n generalizing m with
  | zero => exact ⟨m, rfl, by rw [skip_zero]; exact .refl, ht, .inl ⟨rfl, rfl⟩⟩
  | succ n ih =>
    obtain ⟨view, queue, ht⟩ := ht
    obtain ⟨msg, rest, hpending⟩ := List.exists_cons_of_ne_nil
      (List.ne_nil_of_length_pos (Nat.lt_of_lt_of_le n.succ_pos hn))
    obtain ⟨hub', view', queue', hok, haddresses, hleads, ht'⟩ := ht.read hcap hL hadj hup hpending
    set m₁ := (m.take k h).act L h hub' with hm₁
    have hmoved : (m.take k h).Moved L h m₁ := moved_act haddresses
    have hrest : m₁.pending k h = rest := by
      rw [hm₁, act_pending_of_ne hadj.ne]
      simp [take, hpending]
    have hlength : n ≤ (m₁.pending k h).length := by
      rw [hrest]
      rw [hpending, List.length_cons] at hn
      exact Nat.le_of_succ_le_succ hn
    obtain ⟨m', hfold, hmoved', htuned, hless⟩ := ih ⟨view', queue', ht'⟩ (m := m₁) hup hlength
    refine ⟨m', ?_, ?_, htuned, .inr ?_⟩
    · rw [hrest, act_hub_self] at hfold
      rw [hpending, List.take_succ_cons, List.foldlM_cons]
      exact bind_eq_ok_iff.mpr ⟨hub', hok, hfold⟩
    · rw [← skip_take]
      exact (hmoved.skip hadj.ne).trans hmoved'
    · have hfirst : Less (m₁.work L) (m.work L) := work_lt hL hadj (by simp [hpending]) hleads
      rcases hless with ⟨_, rfl⟩ | hless
      · exact hfirst
      · exact hless.trans hfirst

/-- The lines of a client are read one after another. -/
theorem InTune.readLines (hcap : KeepsCapitals) (hL : L.Proper) (ht : m.InTune L)
    (hapart : ∀ g, L.graph.Adj h g → c ≠ L.link h g) {rawmsgs : List (List Char)}
    (hlines : ∀ rawmsg ∈ rawmsgs, ∀ x ∈ rawmsg, Parser.isTerminator x = false)
    (hallows : Cluster.AllowsLines L h c (m.hub h) rawmsgs) : ∃ m',
      rawmsgs.foldlM (fun hub rawmsg => do hub.receive c (← parseRawMessage rawmsg)) (m.hub h) =
        .ok (m'.hub h) ∧ m.Moved L h m' ∧ m'.InTune L := by
  induction rawmsgs generalizing m with
  | nil => exact ⟨m, rfl, .refl, ht⟩
  | cons rawmsg more ih =>
    obtain ⟨hopen, hlegible, hmessage⟩ := hallows
    obtain ⟨hfirst, hmore⟩ := List.forall_mem_cons.mp hlines
    obtain ⟨view, queue, ht⟩ := ht
    obtain ⟨msg, hmsg⟩ := succeeds_parseRawMessage_iff.mpr hlegible
    obtain ⟨hallows, hnext⟩ := hmessage msg hmsg
    obtain ⟨hub', w', hok, hturns⟩ := (ht.shows h).turns_receive hcap hL ⟨hopen, hapart⟩
      (wellFormed_parseRawMessage hmsg) (printable_parseRawMessage hfirst hmsg hallows.plain) hallows
    obtain ⟨queue', ht'⟩ := ht.client hturns
    have hmoved : m.Moved L h (m.act L h hub') := moved_act hturns.addresses
    obtain ⟨m', hfold, hmoved', htuned⟩ := ih ⟨_, queue', ht'⟩ (m := m.act L h hub') hmore
      (by simpa using hnext hub' hok)
    refine ⟨m', ?_, hmoved.trans hmoved', htuned⟩
    rw [act_hub_self] at hfold
    rw [List.foldlM_cons, hmsg]
    exact bind_eq_ok_iff.mpr ⟨hub', hok, hfold⟩

end Mesh

/-! ## What is on the way is written -/

namespace Cluster

variable {s s' : Cluster V} {m m' : Mesh V} {server' : IrcServer} {configs : V → Configuration}
  {turn : Turn V} {turns : List (Turn V)}

/-- What is written and not read spells the messages on the way. -/
structure Wired (s : Cluster V) (L : Layout V) (m : Mesh V) : Prop where
  hub : ∀ h, m.hub h = (s.servers h).hub
  up : ∀ b g, m.up b g ↔ s.up b g
  taken : ∀ b g, L.graph.Adj b g → s.taken b g ≤ ((s.servers b).hub.bytes (L.link b g)).length
  spells : ∀ b g, L.graph.Adj b g →
    Spells ((s.servers g).buffers (L.link g b)) (s.unread L b g) (m.pending b g)
  fresh : ∀ b g, L.graph.Adj b g → s.up b g = false → (s.servers b).buffers (L.link b g) = []

/-- A hub has come to another state, and the loop still has what it has read of a line. -/
theorem Wired.moved (server' : IrcServer) (hk : KeepsSigns) (hw : s.Wired L m) (hmoved : m.Moved L h m')
    (hpasses : ∀ b g, L.graph.Adj b g → ∀ msg ∈ m'.pending b g, msg.Passes) (hhub : server'.hub = m'.hub h)
    (hbuffers : ∀ g, L.graph.Adj h g → server'.buffers (L.link h g) = (s.servers h).buffers (L.link h g)) :
    Wired { s with servers := Function.update s.servers h server' } L m' := by
  have hself : Function.update s.servers h server' h = server' := Function.update_self ..
  have hother : ∀ b, b ≠ h → Function.update s.servers h server' b = s.servers b :=
    fun b hb => Function.update_of_ne hb ..
  have hkeep : ∀ b g, L.graph.Adj b g → (Function.update s.servers h server' b).buffers (L.link b g) =
      (s.servers b).buffers (L.link b g) := by
    intro b g hadj
    by_cases hb : b = h
    · subst hb
      rw [hself, hbuffers g hadj]
    · rw [hother b hb]
  -- what has been written since comes after the rest
  have hbytes : ∀ g, L.graph.Adj h g → ∃ ms, (∀ msg ∈ ms, msg.OneLine) ∧
      m'.pending h g = m.pending h g ++ ms ∧ server'.hub.bytes (L.link h g) =
        (s.servers h).hub.bytes (L.link h g) ++ ms.flatMap Parser.writeMessage := by
    intro g hadj
    obtain ⟨ms, hwrites, hms⟩ := hmoved.written g hadj
    refine ⟨ms, fun msg hmsg => ?_, hms, ?_⟩
    · exact (hpasses h g hadj msg (hms ▸ List.mem_append_right _ hmsg)).oneLine hk
    · rw [hhub, bytes_writes hwrites, hw.hub]
  refine ⟨fun b => ?_, fun b g => ?_, fun b g hadj => ?_, fun b g hadj => ?_, fun b g hadj hdown => ?_⟩
  · by_cases hb : b = h
    · subst hb
      exact hhub.symm.trans (congrArg IrcServer.hub hself.symm)
    · rw [hmoved.hub b hb, hw.hub]
      exact congrArg IrcServer.hub (hother b hb).symm
  · rw [hmoved.up]
    exact hw.up b g
  · by_cases hb : b = h
    · subst hb
      obtain ⟨ms, _, _, happend⟩ := hbytes g hadj
      change _ ≤ ((Function.update s.servers b server' b).hub.bytes _).length
      rw [hself, happend, List.length_append]
      exact Nat.le_add_right_of_le (hw.taken b g hadj)
    · change _ ≤ ((Function.update s.servers h server' b).hub.bytes _).length
      rw [hother b hb]
      exact hw.taken b g hadj
  · change Spells ((Function.update s.servers h server' g).buffers (L.link g b))
      (((Function.update s.servers h server' b).hub.bytes (L.link b g)).drop (s.taken b g)) _
    rw [hkeep g b hadj.symm]
    by_cases hb : b = h
    · subst hb
      obtain ⟨ms, hall, hms, happend⟩ := hbytes g hadj
      rw [hself, happend, List.drop_append_of_le_length (hw.taken b g hadj), hms]
      exact (hw.spells b g hadj).write hall
    · rw [hother b hb, hmoved.others b g hb]
      exact hw.spells b g hadj
  · exact (hkeep b g hadj).trans (hw.fresh b g hadj hdown)

/-- A packet has been taken from a link. -/
theorem Wired.take {n : Nat} (hk : KeepsSigns) (hw : s.Wired L m) (hL : L.Proper)
    (hadj : L.graph.Adj k h) (hup : s.up h k) (hn : n ≤ (s.unread L k h).length)
    (hwhole : Whole [(s.unread L k h).take n]) (hpasses : ∀ msg ∈ m.pending k h, msg.Passes) :
    ∃ j rest, j ≤ (m.pending k h).length ∧
      Parser.readData ((s.servers h).buffers (L.link h k)) ((s.unread L k h).take n) =
        ⟨(m.pending k h).take j, .ok rest⟩ ∧
      Wired { s with
        servers := Function.update s.servers h
          ⟨(s.servers h).hub, Function.update (s.servers h).buffers (L.link h k) rest⟩
        taken := fun x y => if x = k ∧ y = h then s.taken x y + n else s.taken x y } L
        (m.skip k h j) := by
  have hspells := hw.spells k h hadj
  rw [← List.take_append_drop n (s.unread L k h)] at hspells
  obtain ⟨j, rest, hj, hread, hremain⟩ := hspells.read hwhole id fun msg hmsg => (hpasses msg hmsg).parse hk
  rw [List.map_id] at hread
  refine ⟨j, rest, hj, hread, ?_⟩
  set buffers' := Function.update (s.servers h).buffers (L.link h k) rest with hbuffers'
  have hself : Function.update s.servers h ⟨(s.servers h).hub, buffers'⟩ h =
      ⟨(s.servers h).hub, buffers'⟩ := Function.update_self ..
  have hother : ∀ b, b ≠ h → Function.update s.servers h ⟨(s.servers h).hub, buffers'⟩ b = s.servers b :=
    fun b hb => Function.update_of_ne hb ..
  have hhub : ∀ b, (Function.update s.servers h ⟨(s.servers h).hub, buffers'⟩ b).hub =
      (s.servers b).hub := by
    intro b
    by_cases hb : b = h
    · subst hb
      rw [hself]
    · rw [hother b hb]
  have hkeep : ∀ b g, L.graph.Adj b g → ¬(b = h ∧ g = k) →
      (Function.update s.servers h ⟨(s.servers h).hub, buffers'⟩ b).buffers (L.link b g) =
        (s.servers b).buffers (L.link b g) := by
    intro b g hbg hne
    by_cases hb : b = h
    · subst hb
      rw [hself]
      refine Function.update_of_ne (fun heq => hne ⟨rfl, ?_⟩) ..
      exact hL.links b g k hbg hadj.symm heq
    · rw [hother b hb]
  have hthere : (Function.update s.servers h ⟨(s.servers h).hub, buffers'⟩ h).buffers (L.link h k) =
      rest := by
    rw [hself]
    exact Function.update_self ..
  refine ⟨fun b => (hw.hub b).trans (hhub b).symm, hw.up, fun b g hbg => ?_, fun b g hbg => ?_,
    fun b g hbg hdown => ?_⟩
  · dsimp only
    rw [hhub]
    split_ifs with hb
    · obtain ⟨rfl, rfl⟩ := hb
      rw [unread, List.length_drop] at hn
      have htaken := hw.taken b g hadj
      omega
    · exact hw.taken b g hbg
  · simp only [unread, hhub]
    by_cases hb : b = k ∧ g = h
    · obtain ⟨rfl, rfl⟩ := hb
      rw [unread, List.drop_drop] at hremain
      rw [hthere, if_pos ⟨rfl, rfl⟩]
      simpa [Mesh.skip] using hremain
    · rw [hkeep g b hbg.symm fun hand => hb ⟨hand.2, hand.1⟩, if_neg hb]
      simpa [Mesh.skip, hb, unread] using hw.spells b g hbg
  · dsimp only at hdown ⊢
    rw [hkeep b g hbg ?_]
    · exact hw.fresh b g hbg hdown
    · rintro ⟨rfl, rfl⟩
      rw [hup] at hdown
      cases hdown

end Cluster

end MyLifeHome.Irc
