import MyLifeHome.Irc.Cluster
import MyLifeHome.Irc.Federation
import MyLifeHome.Irc.Truthful

/-!
# Hubs that agree

In every run in which clients keep to their own nicks, no exception leaves a loop, reading comes to an
end, and then linked hubs have the same users.
-/
namespace MyLifeHome.Irc

open Checked Draining Replication Runs Utf8

variable [Locale] {V : Type} [DecidableEq V] {L : Layout V} {b g h k : V}

namespace Cluster

variable {s s' : Cluster V} {m m' : Mesh V} {hub hub' : Hub} {c : Conn} {server' : IrcServer}
  {configs : V → Configuration} {turn : Turn V} {turns : List (Turn V)}

/-! ## The beginning -/

/-- Nobody is on the connections, and nothing has been written to them. -/
theorem new_init {config : Configuration} (hinit : Hub.init config = .ok hub) :
    (∀ c, hub.structures c = .new) ∧ hub.sent = [] := by
  obtain ⟨⟨r, net⟩, _, hinit⟩ := bind_eq_ok_iff.mp hinit
  obtain rfl := Except.ok.inj hinit
  exact ⟨fun _ => rfl, rfl⟩

omit [DecidableEq V] in
/-- A hub that has been started knows itself only. -/
theorem shows_init (hL : L.Proper) (hc : L.Configured configs)
    (hinit : Hub.init (configs h) = .ok hub) : hub.Shows L h fun v => ⟨v = h, fun _ => none⟩ := by
  have hplain : (configs h).Plain := by
    refine ⟨hc.network h, ?_, fun c => ?_⟩
    · rw [hc.name]
      exact (hL.words h).1
    · obtain ⟨host, hhost, hword⟩ := hc.hosts h c
      exact ⟨host, hhost, hword.1⟩
  have hsteady := IrcServer.steady_init hplain hinit
  obtain ⟨⟨r, net⟩, hadd, hinit⟩ := bind_eq_ok_iff.mp hinit
  obtain ⟨_, _, _, rfl, rfl⟩ := Network.serverAdd_eq_ok_iff.mp hadd
  obtain rfl := Except.ok.inj hinit
  simp only [Option.getD_some, hc.name, hc.token] at hsteady ⊢
  set net := (Network.new (configs h).networkName).withServer (L.name h) (L.token h) none with hnet
  have hreg : ∀ s, net.Registered s ↔ s = 0 := by
    intro s
    rw [hnet, Network.registered_withServer rfl]
    simp [Network.Registered, Network.getServers, Network.new, Dictionary.values, Dictionary.empty]
  have hroot : net.server 0 = ⟨L.name h, L.token h, none, [], [], none⟩ := by
    rw [hnet, Network.withServer_server]
    rfl
  have husers : net.users = [] := by
    rw [hnet]
    simp [Network.withServer, Network.new]
  have hlocal : net.getLocalServer = some 0 := by
    have hready := hsteady 0 (IrcServer.writable_of_open (by simp))
    obtain ⟨r, hr⟩ := hready.sound.tree.exists_local
    rwa [(hreg r).mp (Network.getLocalServer_eq_some hr).1] at hr
  refine ⟨hsteady, ⟨⟨0, hlocal, by rw [hroot]⟩, fun s hs => ?_, fun v hv => ?_, ?_, ?_, ?_, ?_, ?_⟩,
    ?_, ?_, ?_, ?_, ?_, ?_, ?_⟩
  · obtain rfl := (hreg s).mp hs
    exact ⟨h, rfl, by rw [hroot], by rw [hroot]⟩
  · obtain rfl : v = h := hv
    exact ⟨0, (hreg 0).mpr rfl, by rw [hroot]⟩
  · simp [husers]
  · intro u p hp
    cases hp
  · simp [husers]
  · simp [husers]
  · intro key c hkey
    simp [hnet, Network.withServer, Network.new, Dictionary.get, Dictionary.empty] at hkey
  · intro d s hd
    cases hd
  · exact fun g _ => ⟨by simp, .inl rfl⟩
  · intro c r hstr
    cases hstr
  · simp [husers]
  · intro c nick ident realName hstr
    obtain ⟨rfl, rfl, rfl⟩ := Connectable.unregistered.inj hstr
    simp
  · intro c host hhost
    obtain ⟨host', hhost', hword⟩ := hc.hosts h c
    obtain rfl := Option.some.inj (hhost.symm.trans hhost')
    exact hword
  · exact fun g hg => hc.dials h g hg

/-- Nothing has been written. -/
def still (s : Cluster V) : Mesh V := ⟨fun h => (s.servers h).hub, fun _ _ => False, fun _ _ => []⟩

theorem inTune_still (hL : L.Proper) (hc : L.Configured configs) (hs : s.Starts configs) :
    s.still.InTune L := by
  have hnew := fun h => (new_init (hs.hubs h)).1
  have hdead : ∀ b g, ¬s.still.Live L b g := by
    rintro b g ⟨_, r, hr⟩
    exact absurd ((hnew b _).symm.trans hr) (by simp [Connectable.new])
  refine ⟨fun h v => ⟨v = h, fun _ => none⟩, fun _ _ => [], fun h => shows_init hL hc (hs.hubs h),
    ⟨fun b g hl => absurd hl (hdead b g), fun b g hl => absurd hl (hdead b g),
      fun b g hl => absurd hl (hdead b g), fun b g hl => absurd hl (hdead b g)⟩,
    ⟨fun b g hl => absurd hl (hdead b g), fun b g hl => absurd hl (hdead b g),
      fun b g hl => absurd hl (hdead b g), fun b g hl => absurd hl (hdead b g),
      fun b g _ _ _ hup => hup.elim, fun _ _ _ _ _ => rfl⟩, fun b g hadj _ => ⟨fun v hv => ?_, fun _ _ => rfl⟩⟩
  refine iff_of_false ?_ fun hand => hdead g b hand.2
  rintro rfl
  exact notMem_side hadj.ne hv

omit [DecidableEq V] in
theorem wired_still (hs : s.Starts configs) : s.Wired L s.still := by
  have hsent := fun h => (new_init (hs.hubs h)).2
  refine ⟨fun _ => rfl, fun b g => ?_, fun b g _ => ?_, fun b g _ => ?_, fun b g _ _ => ?_⟩
  · simp [still, hs.up]
  · simp [hs.taken]
  · rw [hs.buffers, unread, Hub.bytes, hsent]
    simp only [List.filter_nil, List.flatMap_nil, List.drop_nil]
    exact .nil
  · exact hs.buffers ..

/-! ## Turns -/

omit [Locale] in
theorem Wired.openEnd (hw : s.Wired L m) :
    Wired { s with up := fun x y => s.up x y || (x = b && y = g) } L (m.openEnd b g) := by
  refine ⟨hw.hub, fun x y => ?_, hw.taken, hw.spells, fun x y hadj hdown => ?_⟩
  · simp [Mesh.openEnd, hw.up]
  · rw [Bool.or_eq_false_iff] at hdown
    exact hw.fresh x y hadj hdown.1

/-- A client has been accepted. -/
theorem turns_accepted {hub hub' : Hub} {c : Conn} {w : View V} (hs : hub.Shows L h w)
    (hapart : ∀ g, L.graph.Adj h g → c ≠ L.link h g) (hstr : hub.structures c = .new)
    (hok : hub.connectionOpened c = .ok hub') : hub.Turns L h w none {h} hub' w := by
  rw [Hub.Shows.connectionOpened_of_new hstr] at hok
  split_ifs at hok
  · exact hs.turns_wrote (Hub.wrote_sendSelf hok) fun g hg =>
      Hub.writes_sendSelf_other (hapart g hg) hok
  · obtain rfl := Except.ok.inj hok
    exact hs.turns_refl

/-- A client is served, which the other hubs are told about. -/
theorem Wired.client (hcap : KeepsCapitals) (hL : L.Proper) (hw : s.Wired L m) (ht : m.InTune L)
    {input : Input} (hpossible : s.Possible L (.client h input)) (hallows : s.Allows L (.client h input)) :
    ∃ server', (s.servers h).handle input = .ok server' ∧
      (∀ g, L.graph.Adj h g → server'.buffers (L.link h g) = (s.servers h).buffers (L.link h g)) ∧
      ∃ m', server'.hub = m'.hub h ∧ m.Moved L h m' ∧ m'.InTune L := by
  obtain ⟨hpossible, hapart⟩ := hpossible
  have hhub := hw.hub h
  have hbuffers : ∀ rest, ∀ g, L.graph.Adj h g →
      Function.update (s.servers h).buffers input.conn rest (L.link h g) =
        (s.servers h).buffers (L.link h g) :=
    fun rest g hg => Function.update_of_ne (hapart g hg).symm ..
  cases input with
  | accepted c =>
    obtain ⟨view, queue, ht⟩ := ht
    have hs := ht.shows h
    rw [hhub] at hs
    obtain ⟨hub', hok, _⟩ := IrcServer.connectionOpened_eq_ok hs.steady hpossible.1 hpossible.2
    have hturns := turns_accepted hs hapart hpossible.1 hok
    rw [← hhub] at hturns
    obtain ⟨queue', ht'⟩ := ht.client hturns
    exact ⟨⟨hub', Function.update (s.servers h).buffers c []⟩, bind_eq_ok_iff.mpr ⟨hub', hok, rfl⟩,
      hbuffers [], _, Mesh.act_hub_self.symm, Mesh.moved_act hturns.addresses, _, queue', ht'⟩
  | read c data =>
    obtain ⟨⟨rawmsgs, rest⟩, hlines⟩ : ∃ p, Hub.lines ((s.servers h).buffers c ++ decode data) = p := ⟨_, rfl⟩
    rw [Allows, hlines] at hallows
    have hends : ∀ rawmsg ∈ rawmsgs, ∀ x ∈ rawmsg, Parser.isTerminator x = false :=
      fun rawmsg hraw x hx => Parser.notMem_of_mem_lines (by rw [hlines]; exact hraw) hx
    obtain ⟨m', hok, hmoved, ht'⟩ := ht.readLines hcap hL hapart hends (by rw [hhub]; exact hallows)
    rw [hhub] at hok
    refine ⟨⟨m'.hub h, Function.update (s.servers h).buffers c rest⟩, ?_, hbuffers rest, m', rfl, hmoved, ht'⟩
    refine bind_eq_ok_iff.mpr ⟨(m'.hub h, rest), ?_, rfl⟩
    rw [Hub.readData, hlines]
    exact bind_eq_ok_iff.mpr ⟨m'.hub h, hok, rfl⟩
  | closed c =>
    obtain ⟨view, queue, ht⟩ := ht
    have hs := ht.shows h
    rw [hhub] at hs
    have hclient : (s.servers h).hub.Client L h c := ⟨hpossible, hapart⟩
    obtain ⟨hub', hok, hsteady⟩ := IrcServer.close_eq_ok hs.steady hpossible
      fun r hstr => absurd hstr (hclient.not_server hs r)
    obtain ⟨w', hturns⟩ := hs.turns_close hcap hclient hsteady hok
    rw [← hhub] at hturns
    obtain ⟨queue', ht'⟩ := ht.client hturns
    exact ⟨{ s.servers h with hub := hub' }, bind_eq_ok_iff.mpr ⟨hub', hok, rfl⟩, fun _ _ => rfl, _,
      Mesh.act_hub_self.symm, Mesh.moved_act hturns.addresses, _, queue', ht'⟩

/-- How much is left to read. -/
noncomputable def left [Fintype V] (s : Cluster V) (L : Layout V) : ℕ :=
  ∑ e ∈ Mesh.directions L, (s.unread L e.1 e.2).length

/-- A packet is read. Without an end of a line in it, there is less to read, and otherwise there is
less work. -/
theorem Wired.carried {n : Nat} (hcap : KeepsCapitals) (hk : KeepsSigns) (hL : L.Proper)
    (hw : s.Wired L m) (ht : m.InTune L) (hpossible : s.Possible L (.carried k h n))
    (hallows : s.Allows L (.carried k h n)) : ∃ server',
      (s.servers h).handle (s.input L (.carried k h n)) = .ok server' ∧
      ∃ m', (s.after (.carried k h n) server').Wired L m' ∧ m'.InTune L ∧ ∀ [Fintype V], 0 < n →
        Less (m'.work L) (m.work L) ∨
          m' = m ∧ (s.after (.carried k h n) server').left L < s.left L := by
  obtain ⟨hadj, hup, hn⟩ := hpossible
  obtain ⟨j, rest, hj, hread, hw'⟩ := hw.take hk hL hadj hup hn hallows (ht.passes k h hadj)
  obtain ⟨m', hok, hmoved, ht', hwork⟩ := ht.readAll hcap hL hadj ((hw.up h k).mpr hup) hj
  rw [hw.hub] at hok
  set server' : IrcServer := ⟨m'.hub h, Function.update (s.servers h).buffers (L.link h k) rest⟩
    with hserver'
  refine ⟨server', ?_, m', ?_, ht', fun hpos => ?_⟩
  · refine bind_eq_ok_iff.mpr ⟨(m'.hub h, rest), Parser.hub_readData_eq_ok_iff.mpr ?_, rfl⟩
    rw [hread]
    exact ⟨rfl, hok⟩
  · have hmoved' := hw'.moved server' hk hmoved ht'.passes rfl fun g _ => by
      simp [hserver']
    simpa [after, Turn.hub] using hmoved'
  · rcases hwork with ⟨_, rfl⟩ | hless
    · refine .inr ⟨rfl, ?_⟩
      have hhub : ∀ b, ((s.after (.carried k h n) server').servers b).hub = (s.servers b).hub := by
        intro b
        by_cases hb : b = h
        · subst hb
          exact (congrArg IrcServer.hub (Function.update_self ..)).trans (hw.hub b)
        · exact congrArg IrcServer.hub (Function.update_of_ne hb ..)
      have hunread : ∀ b g, (s.after (.carried k h n) server').unread L b g =
          if b = k ∧ g = h then (s.unread L b g).drop n else s.unread L b g := by
        intro b g
        rw [unread, unread, hhub, List.drop_drop]
        simp only [after]
        split_ifs <;> rfl
      refine Finset.sum_lt_sum (fun e _ => ?_) ⟨(k, h), Mesh.mem_directions.mpr hadj, ?_⟩
      · rw [hunread]
        split_ifs
        · rw [List.length_drop]
          exact Nat.sub_le ..
        · exact le_rfl
      · rw [hunread, if_pos ⟨rfl, rfl⟩, List.length_drop]
        dsimp only
        omega
    · exact .inl hless

theorem process_eq_ok (hok : (s.servers turn.hub).handle (s.input L turn) = .ok server') :
    s.process L turn = .ok (s.after turn server') := bind_eq_ok_iff.mpr ⟨server', hok, rfl⟩

/-- No exception leaves a turn, and what is on the way is written after it. -/
theorem Wired.exists_turn (hcap : KeepsCapitals) (hk : KeepsSigns) (hL : L.Proper) (hw : s.Wired L m)
    (ht : m.InTune L) (hpossible : s.Possible L turn) (hallows : s.Allows L turn) : ∃ server',
      (s.servers turn.hub).handle (s.input L turn) = .ok server' ∧
      ∃ m', (s.after turn server').Wired L m' ∧ m'.InTune L := by
  cases turn with
  | opened b g =>
    obtain ⟨hadj, hdown⟩ := hpossible
    obtain ⟨view, queue, ht⟩ := ht
    have hclosed : ¬m.up b g := fun hup => by simp [(hw.up b g).mp hup] at hdown
    obtain ⟨hub', hok, haddresses, ht'⟩ := ht.connect hcap hL hadj hclosed
    rw [hw.hub] at hok
    set server' : IrcServer := ⟨hub', Function.update (s.servers b).buffers (L.link b g) []⟩ with hserver'
    refine ⟨server', bind_eq_ok_iff.mpr ⟨hub', hok, rfl⟩, _, ?_, ⟨view, queue, ht'⟩⟩
    have hsame : server'.buffers = (s.servers b).buffers := by
      rw [hserver', ← hw.fresh b g hadj hdown]
      exact Function.update_eq_self ..
    have hpasses := Mesh.InTune.passes ⟨view, queue, ht'⟩
    exact (hw.moved server' hk (Mesh.moved_act haddresses) hpasses Mesh.act_hub_self.symm
      fun _ _ => by rw [hsame]).openEnd
  | client h input =>
    obtain ⟨server', hok, hbuffers, m', hhub, hmoved, ht'⟩ := hw.client hcap hL ht hpossible hallows
    exact ⟨server', hok, m', hw.moved server' hk hmoved ht'.passes hhub hbuffers, ht'⟩
  | carried k h n =>
    obtain ⟨server', hok, m', hw', ht', _⟩ := hw.carried hcap hk hL ht hpossible hallows
    exact ⟨server', hok, m', hw', ht'⟩

/-! ## Runs -/

theorem exists_wired (hcap : KeepsCapitals) (hk : KeepsSigns) (hL : L.Proper) (hc : L.Configured configs)
    (hs : s.Starts configs) (hrun : Steps (guarded (Allows L) (Step L)) s turns s') :
    ∃ m, s'.Wired L m ∧ m.InTune L := by
  refine Steps.invariant (P := fun s : Cluster V => ∃ m, s.Wired L m ∧ m.InTune L) ?_ hrun
    ⟨s.still, wired_still hs, inTune_still hL hc hs⟩
  rintro s₁ turn s₂ ⟨m, hw, ht⟩ ⟨hallows, hpossible, hok⟩
  obtain ⟨server', hok', m', hw', ht'⟩ := hw.exists_turn hcap hk hL ht hpossible hallows
  obtain rfl := Except.ok.inj (hok.symm.trans (process_eq_ok hok'))
  exact ⟨m', hw', ht'⟩

/-- No exception leaves a loop, in whatever order hubs are linked, packets are read and clients are
served. -/
theorem succeeds_of_allows (hcap : KeepsCapitals) (hk : KeepsSigns) (hL : L.Proper)
    (hc : L.Configured configs) (hs : s.Starts configs)
    (hrun : Steps (guarded (Allows L) (Step L)) s turns s') (hpossible : s'.Possible L turn)
    (hallows : s'.Allows L turn) : Succeeds (s'.process L turn) := by
  obtain ⟨m, hw, ht⟩ := exists_wired hcap hk hL hc hs hrun
  obtain ⟨server', hok, _⟩ := hw.exists_turn hcap hk hL ht hpossible hallows
  exact ⟨_, process_eq_ok hok⟩

/-- There is nothing to read on links. -/
def Quiet (s : Cluster V) (L : Layout V) : Prop :=
  ∀ b g, L.graph.Adj b g → s.up g b → s.unread L b g = []

omit [Locale] in
omit [DecidableEq V] in
theorem Wired.quiet (hw : s.Wired L m) (hquiet : s.Quiet L) (b g : V) (hadj : L.graph.Adj b g)
    (hup : m.up g b) : m.pending b g = [] := by
  have hspells := hw.spells b g hadj
  rw [hquiet b g hadj ((hw.up g b).mp hup)] at hspells
  exact hspells.eq_nil

/-- When all has been read, a hub knows the servers that it is linked with, over however many
links, and no others, and has the same users on each as that server itself. -/
theorem agree_of_quiet (hcap : KeepsCapitals) (hk : KeepsSigns) (hL : L.Proper)
    (hc : L.Configured configs) (hs : s.Starts configs)
    (hrun : Steps (guarded (Allows L) (Step L)) s turns s') (hquiet : s'.Quiet L) (v g : V) :
    ((s'.servers g).hub.net.Knows (L.name v) ↔ Relation.ReflTransGen (s'.Linked L) v g) ∧
      (s'.servers g).hub.net.people (L.name v) = {p | Relation.ReflTransGen (s'.Linked L) v g ∧
        p ∈ (s'.servers v).hub.net.people (L.name v)} := by
  obtain ⟨m, hw, view, queue, ht⟩ := exists_wired hcap hk hL hc hs hrun
  have hlinked : m.Linked L = s'.Linked L := by
    funext b g
    simp only [Mesh.Linked, Linked, hw.up]
  have hsettled := ht.settled hL (hw.quiet hquiet) v g
  rw [hlinked] at hsettled
  have hdepicts : ∀ h, (s'.servers h).hub.net.Depicts L h (view h) := fun h => by
    rw [← hw.hub]
    exact (ht.shows h).depicts
  have hself : (view v v).known := (ht.shows v).known hL
  rw [(hdepicts g).knows_iff hL, (hdepicts g).people_eq hL, (hdepicts v).people_eq hL]
  by_cases hpath : Relation.ReflTransGen (s'.Linked L) v g
  · rw [hsettled.1 hpath]
    exact ⟨iff_of_true hself hpath, by simp [hpath]⟩
  · rw [hsettled.2 hpath]
    exact ⟨iff_of_false id hpath, by simp [hpath]⟩

/-- A hub reads some more from another. -/
def Reads (L : Layout V) (s s' : Cluster V) : Prop :=
  ∃ b g n, 0 < n ∧ guarded (Allows L) (Step L) s (.carried b g n) s'

/-- When only hubs read what other hubs have written, this comes to an end, and not before all has
been read. -/
theorem reads_until_quiet [Finite V] (hcap : KeepsCapitals) (hk : KeepsSigns) (hL : L.Proper)
    (hc : L.Configured configs) (hs : s.Starts configs)
    (hrun : Steps (guarded (Allows L) (Step L)) s turns s') :
    (∀ f : ℕ → Cluster V, f 0 = s' → ¬∀ i, Reads L (f i) (f (i + 1))) ∧
      (¬s'.Quiet L → ∃ s'', Reads L s' s'') := by
  have := Fintype.ofFinite V
  obtain ⟨m, hw, ht⟩ := exists_wired hcap hk hL hc hs hrun
  refine ⟨?_, fun hloud => ?_⟩
  · have hwf : WellFounded (Prod.Lex Less fun a b : ℕ => a < b) :=
      wellFounded_less.prod_lex Nat.lt_wfRel.wf
    refine not_forever hwf (P := fun s a => ∃ m : Mesh V, s.Wired L m ∧ m.InTune L ∧
      a = (m.work L, s.left L)) (fun hs hreads => ?_) ⟨m, hw, ht, rfl⟩
    obtain ⟨m, hw, ht, rfl⟩ := hs
    obtain ⟨b, g, n, hpos, hallows, hpossible, hok⟩ := hreads
    obtain ⟨server', hok', m', hw', ht', hless⟩ := hw.carried hcap hk hL ht hpossible hallows
    obtain rfl := Except.ok.inj (hok.symm.trans (process_eq_ok hok'))
    refine ⟨_, ?_, m', hw', ht', rfl⟩
    rcases hless hpos with hwork | ⟨rfl, hfewer⟩
    · exact Prod.Lex.left _ _ hwork
    · exact Prod.Lex.right _ hfewer
  · simp only [Quiet, not_forall] at hloud
    obtain ⟨b, g, hadj, hup, hne⟩ := hloud
    have hpossible : s'.Possible L (.carried b g (s'.unread L b g).length) := ⟨hadj, hup, le_rfl⟩
    have hallows : s'.Allows L (.carried b g (s'.unread L b g).length) := by
      rw [Allows, List.take_length]
      exact (hw.spells b g hadj).whole_of_left
    obtain ⟨server', hok, _⟩ := hw.carried hcap hk hL ht hpossible hallows
    exact ⟨_, b, g, _, List.length_pos_of_ne_nil hne, hallows, hpossible, process_eq_ok hok⟩

end Cluster

end MyLifeHome.Irc

/-! ## Two hubs and a client -/

namespace MyLifeHome.Irc.Cluster

open Checked Runs

/-- `b.net` opens the link to `a.net`, which has all clients. -/
def exampleLayout : Layout Bool where
  graph := ⊤
  link _ _ := 1
  dials h _ := h
  name := hubName
  token h := h.toNat
  owner _ := (false, 2)

def exampleConfigurations (h : Bool) : Configuration :=
  { Hub.exampleConfiguration with
    serverName := if h then "b" else "a", serverToken := h.toNat, locallyInitiated := fun c => h && c == 1 }

def exampleStart : Except Fault (Cluster Bool) := do
  let a ← Hub.init (exampleConfigurations false)
  let b ← Hub.init (exampleConfigurations true)
  pure ⟨fun h => ⟨if h then b else a, fun _ => []⟩, fun _ _ => false, fun _ _ => 0⟩

def nickLine : List UInt8 := Utf8.encode "NICK ann\n".toList

def userLine : List UInt8 := Utf8.encode "USER ann 0 * :Ann\n".toList

/-- A client registers, and the hubs are linked. -/
def exampleTurns : List (Turn Bool) :=
  [.client false (.accepted 2), .client false (.read 2 nickLine), .client false (.read 2 userLine),
    .opened true false, .opened false true, .carried true false 25, .carried false true 55]

instance (s : IrcServer) (input : Input) : Decidable (s.Possible input) :=
  match input with
  | .accepted _ => inferInstanceAs (Decidable (_ ∧ _))
  | .read _ _ | .closed _ => inferInstanceAs (Decidable ¬_)

instance (s : Cluster Bool) (turn : Turn Bool) : Decidable (s.Possible exampleLayout turn) :=
  match turn with
  | .opened b g => inferInstanceAs (Decidable (b ≠ g ∧ _))
  | .client _ _ => inferInstanceAs (Decidable (_ ∧ ∀ g, _ ≠ g → _))
  | .carried b g _ => inferInstanceAs (Decidable (b ≠ g ∧ _ ∧ _))

/-- The client says who it is, and has not said its ident before. Packets cut no character. -/
def Registers (s : Cluster Bool) : Turn Bool → Bool
  | .client h (.read c data) => !h && c == 2 && (data == nickLine || data == userLine) &&
      !(s.servers h).hub.closed c && (s.servers h).buffers c == [] &&
      match (s.servers h).hub.structures c with
      | .unregistered _ none _ => true
      | _ => false
  | .carried b g n =>
    let packet := (s.unread exampleLayout b g).take n
    Utf8.encode (Utf8.decode packet) == packet
  | _ => true

def play (turns : List (Turn Bool)) (s : Cluster Bool) : Except Fault (Cluster Bool) :=
  turns.foldlM (fun s turn =>
    if s.Possible exampleLayout turn ∧ s.Registers turn then s.process exampleLayout turn
    else .error .illegalArgument) s

theorem proper_exampleLayout : exampleLayout.Proper where
  tree := agree_linkedHub.tree
  names v v' h := by
    cases v <;> cases v' <;> first | rfl | exact absurd h (by decide +kernel)
  words v := by
    have hplain : ∀ v, (hubName v).toList.all fun c => ' ' ≤ c := by decide +kernel
    refine ⟨?_, fun c hc => ?_⟩
    · cases v <;> decide +kernel
    · simpa using List.all_eq_true.mp (hplain v) c hc
  tokens v v' h := by
    cases v <;> cases v' <;> first | rfl | exact absurd h (by decide)
  numbers v := by
    cases v <;> decide
  links h g g' hg hg' _ := by
    cases h <;> cases g <;> cases g' <;> first | rfl | exact absurd rfl hg | exact absurd rfl hg'
  dials h g hg := by
    cases h <;> cases g <;> first | rfl | exact absurd rfl hg
  owner _ _ _ := rfl

theorem configured_exampleLayout : exampleLayout.Configured exampleConfigurations where
  name h := by
    cases h <;> rfl
  token _ := rfl
  network _ := (by decide +kernel : ' ' ∉ "net".toList)
  hosts _ _ := by
    have hplain : "host".toList.all fun c => ' ' ≤ c := by decide +kernel
    refine ⟨"host", rfl, by decide +kernel, fun c hc => ?_⟩
    simpa using List.all_eq_true.mp hplain c hc
  dials h g _ := by
    cases h <;> rfl

theorem allows_of_registers {s : Cluster Bool} {turn : Turn Bool} (h : s.Registers turn) :
    s.Allows exampleLayout turn := by
  cases turn with
  | opened => trivial
  | carried b g n =>
    have hwhole : Utf8.encode (Utf8.decode ((s.unread exampleLayout b g).take n)) =
        (s.unread exampleLayout b g).take n := by simpa [Registers] using h
    exact List.forall_mem_singleton.mpr ⟨_, hwhole.symm⟩
  | client b input =>
    cases input with
    | accepted | closed => trivial
    | read c data =>
      simp only [Registers, Bool.and_eq_true, Bool.not_eq_true', beq_iff_eq, Bool.or_eq_true] at h
      obtain ⟨⟨⟨⟨⟨rfl, rfl⟩, hdata⟩, hopen⟩, hbuffer⟩, hfirst⟩ := h
      have hsingle : ∀ (line : List Char) (msg : Message), (Hub.lines (Utf8.decode data)).1 = [line] →
          parseRawMessage line = .ok msg → (s.servers false).hub.Allows exampleLayout false 2 msg →
          s.Allows exampleLayout (.client false (.read 2 data)) := by
        intro line msg hline hparse hallows
        rw [Allows, hbuffer, List.nil_append, hline]
        refine ⟨by simp [hopen], succeeds_parseRawMessage_iff.mp ⟨msg, hparse⟩, fun msg' hmsg' => ?_⟩
        obtain rfl := Except.ok.inj (hparse.symm.trans hmsg')
        exact ⟨hallows, fun _ _ => trivial⟩
      have hplain : ∀ texts : List String, (texts.all fun p => p.toList.all fun c => ' ' ≤ c) →
          ∀ p ∈ texts, IsPlain p := by
        intro texts hall p hp c hc
        simpa using List.all_eq_true.mp (List.all_eq_true.mp hall p hp) c hc
      rcases hdata with rfl | rfl
      · have hcmd : getCommand "NICK" = some .nick := by decide +kernel
        refine hsingle "NICK ann".toList ⟨none, "NICK", ["ann"], false⟩
          (by decide +kernel) (eq_ok_of_toOption (by decide +kernel)) ⟨?_, ?_, ?_, ?_, ?_⟩
        · simp only [Hub.Accepts, hcmd, Hub.AcceptsNick]
          split at hfirst
          · rename_i hstr
            rw [hstr]
            intro _ _ _ _ _ _ hident
            exact absurd rfl hident
          · cases hfirst
        · exact hplain _ (by decide +kernel)
        · simp [hcmd]
        · exact fun _ _ _ _ _ => rfl
        · simp [hcmd]
      · have hcmd : getCommand "USER" = some .user := by decide +kernel
        refine hsingle "USER ann 0 * :Ann".toList ⟨none, "USER", ["ann", "0", "*", "Ann"], true⟩
          (by decide +kernel) (eq_ok_of_toOption (by decide +kernel)) ⟨?_, ?_, ?_, ?_, ?_⟩
        · simp only [Hub.Accepts, hcmd]
          intro _ _ _ _ _ _ _
          exact ⟨by decide +kernel, fun _ => by simp [hopen]⟩
        · exact hplain _ (by decide +kernel)
        · simp [hcmd]
        · simp [hcmd]
        · simp [hcmd]

theorem steps_play {turns : List (Turn Bool)} {s s' : Cluster Bool} (hok : play turns s = .ok s') :
    Steps (guarded (Allows exampleLayout) (Step exampleLayout)) s turns s' := by
  induction turns generalizing s with
  | nil =>
    obtain rfl := Except.ok.inj hok
    exact .nil s
  | cons turn turns ih =>
    rw [play, List.foldlM_cons] at hok
    obtain ⟨s₁, h₁, hok⟩ := bind_eq_ok_iff.mp hok
    split_ifs at h₁ with hturn
    exact .cons ⟨allows_of_registers hturn.2, hturn.1, h₁⟩ (ih hok)

theorem starts_exampleStart {s : Cluster Bool} (hok : exampleStart = .ok s) :
    s.Starts exampleConfigurations := by
  obtain ⟨a, ha, hok⟩ := bind_eq_ok_iff.mp hok
  obtain ⟨b, hb, hok⟩ := bind_eq_ok_iff.mp hok
  obtain rfl := Except.ok.inj hok
  refine ⟨fun h => ?_, fun _ _ => rfl, fun _ _ => rfl, fun _ _ => rfl⟩
  cases h
  · exact ha
  · exact hb

/-- `ann` is on both hubs. -/
theorem agree_of_quiet_ann : ∃ s s' : Cluster Bool, s.Starts exampleConfigurations ∧
    Steps (guarded (Allows exampleLayout) (Step exampleLayout)) s exampleTurns s' ∧
    s'.Quiet exampleLayout ∧ (s'.servers true).hub.net.users ≠ [] ∧
    ((s'.servers true).hub.net.Knows "a.net" ↔
      Relation.ReflTransGen (s'.Linked exampleLayout) false true) ∧
    (s'.servers true).hub.net.people "a.net" =
      {p | Relation.ReflTransGen (s'.Linked exampleLayout) false true ∧
        p ∈ (s'.servers false).hub.net.people "a.net"} := by
  have hresult : ((exampleStart >>= play exampleTurns).toOption.map fun s =>
      (s.unread exampleLayout true false, s.unread exampleLayout false true,
        (s.servers true).hub.net.users)) = some ([], [], [2]) := by
    decide +kernel
  obtain ⟨s', hs', hvalues⟩ := Option.map_eq_some_iff.mp hresult
  obtain ⟨hthere, hback, husers⟩ : s'.unread exampleLayout true false = [] ∧
      s'.unread exampleLayout false true = [] ∧ (s'.servers true).hub.net.users = [2] := by
    simpa using hvalues
  obtain ⟨s, hs, hplay⟩ := bind_eq_ok_iff.mp (eq_ok_of_toOption hs')
  have hquiet : s'.Quiet exampleLayout := by
    intro b g hadj _
    cases b <;> cases g <;> first | exact absurd rfl hadj.ne | exact hthere | exact hback
  have hstarts := starts_exampleStart hs
  exact ⟨s, s', hstarts, steps_play hplay, hquiet, by simp [husers],
    agree_of_quiet Hub.keepsCapitals_ascii keepsSigns_ascii proper_exampleLayout configured_exampleLayout
      hstarts (steps_play hplay) hquiet false true⟩

/-- `ann` may send the line with the ident. -/
theorem succeeds_of_allows_ann : ∃ s s' : Cluster Bool,
    Steps (guarded (Allows exampleLayout) (Step exampleLayout)) s (exampleTurns.take 2) s' ∧
    Succeeds (s'.process exampleLayout (.client false (.read 2 userLine))) := by
  have hresult : ((exampleStart >>= play (exampleTurns.take 2)).toOption.map fun s =>
      (decide (s.Possible exampleLayout (.client false (.read 2 userLine))) &&
        s.Registers (.client false (.read 2 userLine)))) = some true := by
    decide +kernel
  obtain ⟨s', hs', hvalue⟩ := Option.map_eq_some_iff.mp hresult
  obtain ⟨hpossible, hregisters⟩ := Bool.and_eq_true_iff.mp hvalue
  obtain ⟨s, hs, hplay⟩ := bind_eq_ok_iff.mp (eq_ok_of_toOption hs')
  exact ⟨s, s', steps_play hplay,
    succeeds_of_allows Hub.keepsCapitals_ascii keepsSigns_ascii proper_exampleLayout
      configured_exampleLayout (starts_exampleStart hs) (steps_play hplay) (of_decide_eq_true hpossible)
      (allows_of_registers hregisters)⟩

/-- When both ends of the link are open, there is something to read. -/
theorem reads_until_quiet_ann : ∃ s s' : Cluster Bool,
    Steps (guarded (Allows exampleLayout) (Step exampleLayout)) s (exampleTurns.take 5) s' ∧
    ¬s'.Quiet exampleLayout ∧
    (∀ f : ℕ → Cluster Bool, f 0 = s' → ¬∀ i, Reads exampleLayout (f i) (f (i + 1))) ∧
    (¬s'.Quiet exampleLayout → ∃ s'', Reads exampleLayout s' s'') := by
  have hresult : ((exampleStart >>= play (exampleTurns.take 5)).toOption.map fun s =>
      (s.up false true, (s.unread exampleLayout true false).length)) = some (true, 25) := by
    decide +kernel
  obtain ⟨s', hs', hvalues⟩ := Option.map_eq_some_iff.mp hresult
  obtain ⟨hup, hlength⟩ := Prod.mk.inj hvalues
  obtain ⟨s, hs, hplay⟩ := bind_eq_ok_iff.mp (eq_ok_of_toOption hs')
  have hloud : ¬s'.Quiet exampleLayout := by
    intro hquiet
    have hnone := hquiet true false (by simp [exampleLayout]) hup
    rw [hnone] at hlength
    cases hlength
  exact ⟨s, s', steps_play hplay, hloud,
    reads_until_quiet Hub.keepsCapitals_ascii keepsSigns_ascii proper_exampleLayout
      configured_exampleLayout (starts_exampleStart hs) (steps_play hplay)⟩

end MyLifeHome.Irc.Cluster

