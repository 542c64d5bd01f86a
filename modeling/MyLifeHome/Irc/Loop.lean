import MyLifeHome.Irc.Serving

/-!
# The select loop

What the loop of `IrcServer.run` gives to the hub: connections, packets of bytes on them, and their
ends. An exception that comes out of a handler ends the loop. None does as long as each line is
one that the hub accepts in the state that the lines before it have left.
-/
namespace MyLifeHome.Irc

open Checked Runs Utf8

variable [Locale]

/-- The hub, and of each connection what has come of a line that has no end yet. -/
structure IrcServer where
  hub : Hub
  buffers : Conn → List Char

inductive Input where
  | accepted (c : Conn)
  | read (c : Conn) (data : List UInt8)
  | closed (c : Conn)

/-- The names of the configuration can stand in messages, and hosts are known. -/
structure Configuration.Plain (config : Configuration) : Prop where
  network : ' ' ∉ config.networkName.toList
  server : isParameter (config.serverName ++ "." ++ config.networkName)
  hosts : ∀ c, ∃ host, config.remoteHost c = some host ∧ isParameter host

namespace IrcServer

variable {hub hub' : Hub} {s s' : IrcServer} {c d src : Conn} {u r : Ref}

def handle (s : IrcServer) : Input → Except Fault IrcServer
  | .accepted c => do
    let hub ← s.hub.connectionOpened c
    pure ⟨hub, Function.update s.buffers c []⟩
  | .read c data => do
    let (hub, rest) ← s.hub.readData c (s.buffers c) data
    pure ⟨hub, Function.update s.buffers c rest⟩
  | .closed c => do
    let hub ← s.hub.close c
    pure { s with hub := hub }

/-- The selector gives a connection that is new, and otherwise those that are open. -/
def Possible (s : IrcServer) : Input → Prop
  | .accepted c => s.hub.structures c = .new ∧ ¬s.hub.closed c
  | .read c _ => ¬s.hub.closed c
  | .closed c => ¬s.hub.closed c

/-- One turn of the loop, which no exception leaves. -/
def Step (s : IrcServer) (input : Input) (s' : IrcServer) : Prop :=
  s.Possible input ∧ s.handle input = .ok s'

/-- Each line can be read, and is careful and accepted where the lines before it lead. -/
def AcceptsLines (src : Conn) : Hub → List (List Char) → Prop
  | _, [] => True
  | hub, rawmsg :: more => Legible rawmsg ∧ ∀ msg, parseRawMessage rawmsg = .ok msg →
      hub.Careful (.received src msg) ∧ hub.Accepts src msg ∧
        ∀ hub', hub.receive src msg = .ok hub' → AcceptsLines src hub' more

def Accepts (s : IrcServer) : Input → Prop
  | .accepted _ => True
  | .read c data => AcceptsLines c s.hub (Hub.lines (s.buffers c ++ decode data)).1
  | .closed c => s.hub.Careful (.closed c)

/-! ## What the loop keeps -/

/-- The hub is ready on each connection that it can write to. -/
def Steady (hub : Hub) : Prop := ∀ c, hub.Writable c → hub.Ready c

theorem steady_of_ready (h : hub.Ready src) : Steady hub := fun _ hc => h.at_source hc

omit [Locale] in
theorem writable_of_open (hopen : ¬hub.closed c) : hub.Writable c :=
  fun hclosed => absurd hclosed hopen

/-- A connection is closed when whoever was on it is no longer on the network. -/
theorem steady_of_closed {net' : Network} {x : Connectable} {out : List (Conn × Message)}
    (h : Steady hub) (hstr : hub.structures c = x) (hx : ¬hub.Unregistered c)
    (hnet : ∀ d, hub.Ready d → Hub.Ready { hub with net := net' } d)
    (husers : ∀ u ∈ net'.users, x ≠ .user u) (hservers : ∀ t, Hub.Peer net' t → x ≠ .server t) :
    Steady { hub with
      net := net', closed := Function.update hub.closed c true, sent := hub.sent ++ out } := by
  intro d hd
  have hne : d ≠ c := by
    rintro rfl
    exact hx (hd (Function.update_self ..))
  have hwritable : hub.Writable d := fun hclosed => hd (by simpa [hne] using hclosed)
  have hready := (hnet d (h d hwritable)).closing c
    (fun u hu heq => husers u hu (hstr.symm.trans heq))
    (fun t ht heq => hservers t ht (hstr.symm.trans heq)) (fun heq => absurd heq hne)
  exact hready.wrote ⟨out, rfl⟩

/-- Closing a connection from outside takes away whoever was on it. -/
theorem close_eq_ok (h : Steady hub) (hopen : ¬hub.closed c) (hcareful : hub.Careful (.closed c)) :
    ∃ hub', hub.close c = .ok hub' ∧ Steady hub' := by
  have hc := h c (writable_of_open hopen)
  obtain ⟨r, hr⟩ := hc.exists_local
  -- the others can still be written to
  have hother : ∀ d, d ≠ c → hub.Writable d →
      Hub.Writable { hub with closed := Function.update hub.closed c true } d := by
    intro d hd hwritable hclosed
    exact hwritable (by simpa [hd] using hclosed)
  have hpeers : ∀ t ∈ (hub.net.server r).children, ∃ d, (hub.net.server t).connection = some d ∧
      hub.structures d = .server t ∧ ¬hub.closed d := by
    intro t ht
    obtain ⟨hreg, hparent⟩ :=
      (hc.sound.tree.children r (Network.getLocalServer_eq_some hr).1 t).mp ht
    exact hc.peers t ⟨hreg, r, hr, hparent⟩
  have hlocals : ∀ v ∈ (hub.net.server r).users, ∃ d, (hub.net.user v).connection = some d ∧
      hub.Attached d (.user v) := by
    intro v hv
    obtain ⟨hmem, hlocal⟩ := hc.sound.isLocal_of_mem hr hv
    exact hc.locals v hmem hlocal
  cases hstr : hub.structures c with
  | unregistered nick ident realName =>
    refine ⟨{ hub with closed := Function.update hub.closed c true }, ?_, ?_⟩
    · rw [Hub.close, Hub.connectionClosed]
      simp only [hstr]
    · have hready := hc.closing c (fun u _ => by simp [hstr]) (fun t _ => by simp [hstr])
        fun _ => ⟨nick, ident, realName, hstr⟩
      exact steady_of_ready hready
  | user u =>
    have hdispatch : Succeeds (Hub.dispatchUserMessage
        { hub with closed := Function.update hub.closed c true } u
        ⟨some (hub.net.user u).nick, "QUIT", ["Connection error"], true⟩ []) := by
      refine Hub.succeeds_dispatchUserMessage hr ?_ ?_
      · intro t ht _
        obtain ⟨d, hcon, hd, hdopen⟩ := hpeers t ht
        refine ⟨d, hcon, hother d ?_ (writable_of_open hdopen)⟩
        rintro rfl
        simp [hstr] at hd
      · intro v hv hvu
        obtain ⟨d, hcon, hd⟩ := hlocals v hv
        refine ⟨d, hcon, hother d ?_ hd.writable⟩
        rintro rfl
        rcases hd with ⟨hd, _⟩ | ⟨hclosed, _⟩
        · exact hvu (Connectable.user.inj (hd.symm.trans hstr))
        · exact hopen hclosed
    obtain ⟨hub₁, h₁⟩ := hdispatch
    obtain ⟨out, rfl⟩ := Hub.wrote_dispatchUserMessage h₁
    refine ⟨{ hub with
      net := hub.net.userRemove u
      closed := Function.update hub.closed c true
      sent := hub.sent ++ out }, ?_, ?_⟩
    · rw [Hub.close, Hub.connectionClosed]
      simp only [hstr]
      exact bind_eq_ok_iff.mpr ⟨_, rfl, bind_eq_ok_iff.mpr ⟨_, h₁, rfl⟩⟩
    · refine steady_of_closed h hstr ?_ (fun d hd => hd.userRemove u) ?_ (by simp)
      · simp [Hub.Unregistered, hstr]
      · intro v hv hvu
        obtain rfl : v = u := (Connectable.user.inj hvu).symm
        exact ((hc.sound.without v).2.users v |>.mp hv).2 List.mem_cons_self
  | server t =>
    obtain ⟨_, hconnection, hname⟩ := hc.servers c t hstr
    have husers : Succeeds (hub.net.getUsersBehindServer t) := by
      by_cases hreg : hub.net.Registered t
      · obtain ⟨list, hlist, _⟩ := hc.sound.getUsersBehindServer_eq_ok hreg
        exact ⟨list, hlist⟩
      · rw [Network.getUsersBehindServer, Network.usersBehind, hc.idle t hreg]
        exact succeeds_pure
    have hsplit : Succeeds (Hub.sendNetSplit { hub with closed := Function.update hub.closed c true }
        t (some "Connection error") [c]) := by
      apply Hub.succeeds_sendNetSplit
      · exact hr
      · exact hname
      · exact husers
      · intro p hp hex
        obtain ⟨d, hcon, hd, hdopen⟩ := hpeers p hp
        refine ⟨d, hcon, hother d ?_ (writable_of_open hdopen)⟩
        rintro rfl
        exact hex (by rw [hcon]; simp)
      · intro v hv
        obtain ⟨d, hcon, hd⟩ := hlocals v hv
        refine ⟨d, hcon, hother d ?_ hd.writable⟩
        rintro rfl
        rcases hd with ⟨hd, _⟩ | ⟨hclosed, _⟩
        · simp [hstr] at hd
        · exact hopen hclosed
    obtain ⟨hub₁, h₁⟩ := hsplit
    obtain ⟨out, rfl⟩ := Hub.wrote_sendNetSplit h₁
    refine ⟨{ hub with
      net := hub.net.serverRemove t
      closed := Function.update hub.closed c true
      sent := hub.sent ++ out }, ?_, ?_⟩
    · rw [Hub.close, Hub.connectionClosed]
      simp only [hstr, Hub.serverLeft, hconnection]
      exact bind_eq_ok_iff.mpr ⟨_, h₁, rfl⟩
    · have hunreg : ¬hub.Unregistered c := by simp [Hub.Unregistered, hstr]
      cases hget : hub.net.getServer (hub.net.server t).name with
      | none =>
        rw [Network.serverRemove_of_getServer_eq_none hget]
        refine steady_of_closed h hstr hunreg (fun d hd => hd) (by simp) ?_
        intro p hp heq
        obtain rfl := Connectable.server.inj heq
        rw [Network.getServer, hc.sound.tree.registered_iff.mp hp.1] at hget
        simp at hget
      | some p =>
        obtain ⟨rfl, hleaf⟩ := hcareful t hstr p hget
        have hreg : hub.net.Registered p := Dictionary.mem_values_iff.mpr ⟨_, hget⟩
        refine steady_of_closed h hstr hunreg (fun d hd => hd.serverRemove hreg hleaf) (by simp) ?_
        intro q hq heq
        obtain rfl := Connectable.server.inj heq
        exact ((hc.sound.registered_serverRemove hreg).mp hq.1).2 rfl

/-- A new connection, on which the hub may have to introduce itself. -/
theorem connectionOpened_eq_ok (h : Steady hub) (hnew : hub.structures c = .new)
    (hopen : ¬hub.closed c) : ∃ hub', hub.connectionOpened c = .ok hub' ∧ Steady hub' := by
  have hready := (h c (writable_of_open hopen)).setUnregistered ⟨none, none, none, hnew⟩ none
    none none (by simp) (by simp)
  unfold Hub.connectionOpened
  dsimp only
  split_ifs
  · obtain ⟨hub', hok⟩ := hready.succeeds_sendSelf hready.source
    exact ⟨hub', hok, steady_of_ready (hready.wrote (Hub.wrote_sendSelf hok))⟩
  · exact ⟨_, rfl, steady_of_ready hready⟩

/-- The lines of a chunk, one after another. -/
theorem lines_eq_ok (h : hub.Ready c) {rawmsgs : List (List Char)}
    (haccepts : AcceptsLines c hub rawmsgs) : ∃ hub', rawmsgs.foldlM
      (fun hub rawmsg => do hub.receive c (← parseRawMessage rawmsg)) hub = .ok hub' ∧
        hub'.Ready c := by
  induction rawmsgs generalizing hub with
  | nil => exact ⟨hub, rfl, h⟩
  | cons rawmsg more ih =>
    obtain ⟨hlegible, hmessage⟩ := haccepts
    obtain ⟨msg, hmsg⟩ := succeeds_parseRawMessage_iff.mpr hlegible
    obtain ⟨hcareful, haccepted, hmore⟩ := hmessage msg hmsg
    obtain ⟨hub₁, h₁, hready⟩ := h.receive (wellFormed_parseRawMessage hmsg) hcareful haccepted
    obtain ⟨hub', hok, hready'⟩ := ih hready (hmore hub₁ h₁)
    refine ⟨hub', ?_, hready'⟩
    rw [List.foldlM_cons, hmsg]
    exact bind_eq_ok_iff.mpr ⟨hub₁, h₁, hok⟩

theorem handle_eq_ok (h : Steady s.hub) {input : Input} (hpossible : s.Possible input)
    (haccepts : s.Accepts input) : ∃ s', s.handle input = .ok s' ∧ Steady s'.hub := by
  cases input with
  | accepted c =>
    obtain ⟨hub', hok, hsteady⟩ := connectionOpened_eq_ok h hpossible.1 hpossible.2
    exact ⟨⟨hub', Function.update s.buffers c []⟩, bind_eq_ok_iff.mpr ⟨hub', hok, rfl⟩, hsteady⟩
  | read c data =>
    obtain ⟨hub', hok, hready⟩ := lines_eq_ok (h c (writable_of_open hpossible)) haccepts
    refine ⟨⟨hub', Function.update s.buffers c (Hub.lines (s.buffers c ++ decode data)).2⟩, ?_,
      steady_of_ready hready⟩
    exact bind_eq_ok_iff.mpr ⟨_, bind_eq_ok_iff.mpr ⟨hub', hok, rfl⟩, rfl⟩
  | closed c =>
    obtain ⟨hub', hok, hsteady⟩ := close_eq_ok h hpossible haccepts
    exact ⟨{ s with hub := hub' }, bind_eq_ok_iff.mpr ⟨hub', hok, rfl⟩, hsteady⟩

theorem steady_init {config : Configuration} (hconfig : config.Plain)
    (hinit : Hub.init config = .ok hub) : Steady hub := by
  have hinv := Hub.Inv.init hinit
  obtain ⟨⟨r, net⟩, hadd, hinit⟩ := bind_eq_ok_iff.mp hinit
  obtain ⟨_, _, _, rfl, rfl⟩ := Network.serverAdd_eq_ok_iff.mp hadd
  obtain rfl := Except.ok.inj hinit
  have hname : (Network.new config.networkName).getServer
      (config.serverName ++ "." ++ config.networkName) = none := rfl
  have hserver : ∀ s, s ≠ 0 → ((Network.new config.networkName).withServer
      (config.serverName ++ "." ++ config.networkName) config.serverToken none).server s =
        ⟨"", 0, none, [], [], none⟩ := by
    intro s hs
    rw [Network.withServer_server]
    simp [Network.new, hs]
  have hroot : ((Network.new config.networkName).withServer
      (config.serverName ++ "." ++ config.networkName) config.serverToken none).server 0 =
        ⟨config.serverName ++ "." ++ config.networkName, config.serverToken, none, [], [], none⟩ := by
    rw [Network.withServer_server]
    rfl
  have hreg : ∀ s, ((Network.new config.networkName).withServer
      (config.serverName ++ "." ++ config.networkName) config.serverToken none).Registered s ↔
        s = 0 := by
    intro s
    rw [Network.registered_withServer hname]
    simp [Network.Registered, Network.getServers, Network.new, Dictionary.values, Dictionary.empty]
  simp only [Option.getD_some] at hinv ⊢
  intro c _
  refine ⟨hinv, ⟨hconfig.network, ?_, ?_, ?_⟩, ?_, ?_, ?_, ?_, ?_, ?_, hconfig.hosts, ?_⟩
  · intro s hs
    obtain rfl := (hreg s).mp hs
    change isParameter (((Network.new config.networkName).withServer _ _ none).server 0).name
    rw [hroot]
    exact hconfig.server
  · intro u hu
    simp [Network.withServer, Network.new] at hu
  · intro k d hd
    simp [Network.withServer, Network.new, Dictionary.get, Dictionary.empty] at hd
  · intro u hu
    simp [Network.withServer, Network.new] at hu
  · rintro s ⟨hs, r, _, hparent⟩
    obtain rfl := (hreg s).mp hs
    change (((Network.new config.networkName).withServer _ _ none).server 0).parent = some r at hparent
    rw [hroot] at hparent
    simp at hparent
  · intro d u hd
    simp [Connectable.new] at hd
  · intro d s hd
    simp [Connectable.new] at hd
  · intro d nick ident realName hd
    obtain ⟨rfl, rfl, _⟩ := Connectable.unregistered.inj hd
    simp
  · intro s hs
    change (((Network.new config.networkName).withServer _ _ none).server s).children = []
    rw [hserver s fun hzero => hs ((hreg s).mpr hzero)]
  · intro hclosed
    simp at hclosed

/-- No exception leaves a turn of the loop in a run that gives the hub only what it accepts. -/
theorem succeeds_of_accepts {config : Configuration} (hconfig : config.Plain)
    (hinit : Hub.init config = .ok hub) {inputs : List Input}
    (hrun : Steps (guarded Accepts Step) ⟨hub, fun _ => []⟩ inputs s) {input : Input}
    (hpossible : s.Possible input) (haccepts : s.Accepts input) : Succeeds (s.handle input) := by
  have hsteady : Steady s.hub := by
    refine Steps.invariant (P := fun s : IrcServer => Steady s.hub) ?_ hrun
      (steady_init hconfig hinit)
    rintro s₁ input s₂ h ⟨haccepts, hpossible, hok⟩
    obtain ⟨s', hok', hsteady⟩ := handle_eq_ok h hpossible haccepts
    obtain rfl := Except.ok.inj (hok.symm.trans hok')
    exact hsteady
  obtain ⟨s', hok, _⟩ := handle_eq_ok hsteady hpossible haccepts
  exact ⟨s', hok⟩

end IrcServer

end MyLifeHome.Irc

/-! ## A hub in a run -/

namespace MyLifeHome.Irc.IrcServer

open Checked Runs Utf8

theorem plain_exampleConfiguration : Hub.exampleConfiguration.Plain :=
  ⟨by decide, by decide, fun _ => ⟨"host", rfl, by decide⟩⟩

/-- A client that has just connected. -/
theorem exists_accepted : ∃ hub s, Hub.init Hub.exampleConfiguration = .ok hub ∧
    Step ⟨hub, fun _ => []⟩ (.accepted 1) s ∧ ¬s.hub.closed 1 ∧ s.buffers 1 = [] := by
  obtain ⟨hub, hinit⟩ := Hub.exists_init
  have hsource := hinit
  obtain ⟨⟨r, net⟩, _, hinit⟩ := bind_eq_ok_iff.mp hinit
  obtain rfl := Except.ok.inj hinit
  refine ⟨_, _, hsource, ⟨⟨rfl, by simp⟩, rfl⟩, ?_, ?_⟩
  · simp [Hub.setStructure]
  · simp

theorem succeeds_of_accepts_ping : ∃ s : IrcServer,
    Succeeds (s.handle (.read 1 (encode "PING x\n".toList))) := by
  obtain ⟨hub, s, hinit, hstep, hopen, hbuffer⟩ := exists_accepted
  have hrun : Steps (guarded Accepts Step) ⟨hub, fun _ => []⟩ [.accepted 1] s :=
    .cons ⟨trivial, hstep⟩ (.nil s)
  have hlines : (Hub.lines ([] ++ "PING x\n".toList)).1 = ["PING x".toList] := by decide +kernel
  have hparse : parseRawMessage "PING x".toList = .ok ⟨none, "PING", ["x"], false⟩ :=
    eq_ok_of_toOption (by decide +kernel)
  have hping : getCommand "PING" = some .ping := by decide +kernel
  refine ⟨s, succeeds_of_accepts plain_exampleConfiguration hinit hrun hopen ?_⟩
  rw [Accepts, hbuffer, decode_encode, hlines]
  refine ⟨succeeds_parseRawMessage_iff.mp ⟨_, hparse⟩, ?_⟩
  intro msg hmsg
  obtain rfl := Except.ok.inj (hparse.symm.trans hmsg)
  simp [Hub.Careful, Hub.Accepts, hping, AcceptsLines]

/-- A blank line from a client that has just connected stops the hub. -/
theorem not_succeeds_blank : ¬∀ (config : Configuration) (hub : Hub), config.Plain →
    Hub.init config = .ok hub → ∀ inputs s, Steps Step ⟨hub, fun _ => []⟩ inputs s →
      ∀ input, s.Possible input → Succeeds (s.handle input) := by
  intro h
  obtain ⟨hub, s, hinit, hstep, hopen, hbuffer⟩ := exists_accepted
  obtain ⟨s', hok⟩ := h _ hub plain_exampleConfiguration hinit _ s (.cons hstep (.nil s))
    (.read 1 (encode " \n".toList)) hopen
  have hsplit : Hub.lines ([] ++ " \n".toList) = ([[' ']], []) := by decide +kernel
  have hblank : parseRawMessage [' '] = .error .indexOutOfBounds := by
    have htrim : trim [' '] = [] := by decide +kernel
    rw [parseRawMessage, htrim]
  rw [handle, hbuffer, Hub.readData, decode_encode, hsplit] at hok
  simp only [List.foldlM_cons, hblank] at hok
  cases hok

end MyLifeHome.Irc.IrcServer

