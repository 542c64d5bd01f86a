import MyLifeHome.Irc.Channels

/-!
# Clients in runs

In which runs all local users are told the truth about their channels. A user whom another server
kills must share no channel with a client. Joins and parts are told to all who share any channel,
and the user's own client is told on the connection that the command came on.
-/
namespace MyLifeHome.Irc

open Checked Rooms Runs

variable [Locale]

/-- Nobody is known on a network that has its first server only. -/
theorem Network.new_withServer_server {m n : String} {token : Int} (s : Ref) :
    (((new m).withServer n token none).server s).connection = none ∧
      (((new m).withServer n token none).server s).users = [] ∧
      (((new m).withServer n token none).server s).children = [] := by
  rw [withServer_server]
  by_cases hs : s = 0 <;> simp [hs, new]

namespace Hub

/-- A connection is opened only when it is new. -/
def Occurs (hub : Hub) : Event → Prop
  | .opened c => hub.structures c = .new
  | _ => True

/-- A server kills nobody who shares a channel with a client. Users join and part on their own
connection, each channel that they part from while they are on it, and the clients who share
channels with them are on the channel too. -/
def Candid (hub : Hub) : Event → Prop
  | .received c message =>
    match getCommand message.command with
    | some .kill => hub.checkServer c → ∀ u, hub.net.getUser (message.getParameter 0) = some u →
        ∀ v ∈ hub.net.users, hub.net.Connected v → v ≠ u → ¬hub.net.world.Share u v
    | some .join => hub.checkRegistered c → Joins message → ∀ u, hub.source c message = some u →
        (∀ d, (hub.net.user u).connection = some d → d = c) ∧
          World.ConfinedJoins hub.net.Connected u hub.net.world (channelNames message)
    | some .part => hub.checkRegistered c → ∀ u, hub.source c message = some u →
        channelNames message ≠ [] → (∀ k ∈ channelNames message, hub.net.world.on u k) →
        (∀ d, (hub.net.user u).connection = some d → d = c) ∧
          World.ConfinedParts hub.net.Connected u hub.net.world (channelNames message)
    | _ => True
  | _ => True

variable {hub hub' : Hub} {c : Conn} {msg : Message} {config : Configuration}

theorem toUpperCase_of_getCommand (name : String) :
    (getCommand name = some .quit → Locale.toUpperCase name = "QUIT") ∧
    (getCommand name = some .privmsg → Locale.toUpperCase name = "PRIVMSG") ∧
    (getCommand name = some .notice → Locale.toUpperCase name = "NOTICE") := by
  unfold getCommand
  split <;> simp_all

namespace Told

theorem close (h : hub.Told) (hcap : KeepsCapitals) (hcareful : hub.Careful (.closed c))
    (hok : hub.close c = .ok hub') : hub'.Told := by
  cases hstr : hub.structures c with
  | unregistered n i r => exact h.close_unregistered ⟨n, i, r, hstr⟩ hok
  | server s => exact h.close_server hcap hstr (hcareful s hstr) hok
  | user u => exact h.close_user hcap hstr hok

/-- Who was told the truth is told the truth about what happens. -/
theorem step (h : hub.Told) (hcap : KeepsCapitals) {e : Event} (hoccurs : hub.Occurs e)
    (hcareful : hub.Careful e) (hcandid : hub.Candid e) (hstep : hub.Step e hub') : hub'.Told := by
  cases e with
  | opened c => exact h.connectionOpened hcap hoccurs hstep
  | closed c => exact h.close hcap hcareful hstep
  | received c message =>
    have hok : hub.receive c message = .ok hub' := hstep
    obtain ⟨hquit, hprivmsg, hnotice⟩ := toUpperCase_of_getCommand message.command
    unfold receive at hok
    unfold Careful at hcareful
    unfold Candid at hcandid
    cases hcmd : getCommand message.command with
    | none =>
      rw [hcmd] at hok
      exact h.replyError (hcap.silent (by decide) (by decide)) hok
    | some cmd =>
      simp only [hcmd] at hok hcareful hcandid
      cases cmd with
      | squit => exact h.squit hcap hcareful hok
      | kill => exact h.kill hcap hcandid hok
      | map => exact h.wrote (wrote_map hok) fun d _ => tells_map hcap hok
      | privmsg =>
        have hs : Silent message.command := by simp [Silent, hprivmsg hcmd]
        exact h.wrote (wrote_routeMessage hok) fun d _ => tells_routeMessage hs hok
      | notice =>
        have hs : Silent message.command := by simp [Silent, hnotice hcmd]
        exact h.wrote (wrote_routeMessage hok) fun d _ => tells_routeMessage hs hok
      | pong =>
        obtain rfl := Except.ok.inj hok
        exact h
      | ping => exact h.wrote (wrote_ping hok) fun d _ => tells_ping hcap hok
      | server => exact h.server hcap hcareful hok
      | part => exact h.part hcap hcandid hok
      | join => exact h.join hcap hcareful hcandid hok
      | user => exact h.user hcap hok
      | nick => exact h.nick hcap hok
      | quit => exact h.quit hcap (hquit hcmd) hok

/-- Nobody is there yet. -/
theorem init (hinit : Hub.init config = .ok hub) : hub.Told := by
  have hinv := Inv.init hinit
  obtain ⟨⟨r, net⟩, hadd, hinit⟩ := bind_eq_ok_iff.mp hinit
  obtain ⟨_, _, _, rfl, rfl⟩ := Network.serverAdd_eq_ok_iff.mp hadd
  obtain rfl := Except.ok.inj hinit
  refine ⟨⟨⟨hinv, ?_, ?_, ?_, ?_, ?_⟩, ?_⟩, ?_, ?_⟩
  · intro c u hc
    simp [Connectable.new] at hc
  · exact fun u hu => absurd hu List.not_mem_nil
  · intro s c hc
    cases (Network.new_withServer_server s).1.symm.trans hc
  · exact fun u hu => absurd hu List.not_mem_nil
  · exact fun s _ => (Network.new_withServer_server s).2
  · exact fun u hu => absurd hu List.not_mem_nil
  · exact fun u hu => absurd hu List.not_mem_nil
  · intro d _ _
    rfl

/-- Who has been told the truth about the channels knows their members. -/
theorem truthful (h : hub.Told) : hub.Truthful := by
  intro v hv _ d hcon
  obtain ⟨hfollows, hshows⟩ := h.informed v hv d hcon
  refine ⟨hfollows, ?_, ?_⟩
  · intro k c hget
    have hc := (h.sound.joined hget).1
    obtain ⟨nicks, hnicks, hmem⟩ := hshows.inside k (Option.isSome_iff_exists.mpr ⟨c, hget⟩)
    refine ⟨nicks, hnicks, fun n => ?_⟩
    rw [hmem, ← h.sound.memberships.mem_nicks_iff hc, List.mem_map]
  · intro k hnone
    refine hshows.outside k fun hon => ?_
    simp [Network.world, hnone] at hon

end Told

/-- All local users are told the truth about their channels in each state of a candid run. -/
theorem truthful_of_candid (hcap : KeepsCapitals) {events : List Event}
    (hinit : init config = .ok hub)
    (hrun : Steps (guarded (fun hub e => hub.Occurs e ∧ hub.Careful e ∧ hub.Candid e) Step) hub
      events hub') : hub'.Truthful := by
  refine Told.truthful (Steps.invariant (P := Told) ?_ hrun (Told.init hinit))
  intro hub₁ e hub₂ h hstep
  obtain ⟨⟨hoccurs, hcareful, hcandid⟩, hstep⟩ := hstep
  exact h.step hcap hoccurs hcareful hcandid hstep

/-! ## What occurs -/

theorem structures_init (hinit : init config = .ok hub) : hub.structures = fun _ => .new := by
  obtain ⟨⟨r, net⟩, _, hinit⟩ := bind_eq_ok_iff.mp hinit
  obtain rfl := Except.ok.inj hinit
  rfl

theorem structures_of_opened (hstep : hub.Step (.opened c) hub') :
    hub'.structures = Function.update hub.structures c .new := by
  have hok : hub.connectionOpened c = .ok hub' := hstep
  unfold connectionOpened at hok
  dsimp only at hok
  split_ifs at hok
  · exact (wrote_sendSelf hok).structures
  · obtain rfl := Except.ok.inj hok
    rfl

theorem occurs_of_received {events : List Event}
    (hreceived : ∀ e ∈ events, ∃ c m, e = .received c m) (hrun : Steps Step hub events hub') :
    Steps (guarded Occurs Step) hub events hub' := by
  induction hrun with
  | nil hub => exact .nil hub
  | cons hstep _ ih =>
    obtain ⟨he, hall⟩ := List.forall_mem_cons.mp hreceived
    obtain ⟨c, m, rfl⟩ := he
    exact .cons ⟨trivial, hstep⟩ (ih hall)

end Hub

end MyLifeHome.Irc

/-! ## A hub with two clients -/

namespace MyLifeHome.Irc.Hub

open Checked Rooms Runs

theorem toUpper_eq_self {c : Char} (h : isUpperLetter c || c.isDigit) : c.toUpper = c := by
  have hlt : c.val < 'a'.val := by
    rcases (Bool.or_eq_true _ _).mp h with hupper | hdigit
    · have hle : c ≤ 'Z' := of_decide_eq_true (Bool.and_eq_true_iff.mp hupper).2
      exact UInt32.lt_of_le_of_lt hle (by decide)
    · have hle := of_decide_eq_true (Bool.and_eq_true_iff.mp hdigit).2
      exact UInt32.lt_of_le_of_lt hle (by decide)
  exact dif_neg fun hle => absurd hle.1 (UInt32.not_le.mpr hlt)

theorem keepsCapitals_ascii : KeepsCapitals := by
  intro s hs
  refine String.toList_inj.mp ?_
  change (s.map Char.toUpper).toList = s.toList
  rw [String.toList_map, List.map_congr_left (g := id), List.map_id]
  exact fun c hc => toUpper_eq_self (List.all_eq_true.mp hs c hc)

/-- A client becomes a user. -/
def registering : List Event :=
  [.opened 1, .received 1 ⟨none, "NICK", ["a"], false⟩,
    .received 1 ⟨none, "USER", ["a", "0", "*", "A"], true⟩]

/-- It joins a channel. -/
theorem truthful_of_candid_joined : ∃ hub hub', init exampleConfiguration = .ok hub ∧
    Steps (guarded (fun hub e => hub.Occurs e ∧ hub.Careful e ∧ hub.Candid e) Step) hub
      (registering ++ [.received 1 ⟨none, "JOIN", ["#r"], false⟩]) hub' ∧ hub'.Truthful := by
  have hresult : ((init exampleConfiguration >>= fun hub => registering.foldlM process hub).toOption.map
      fun hub => (hub.structures 1, hub.net.users, (hub.net.user 1).connection,
        (hub.receive 1 ⟨none, "JOIN", ["#r"], false⟩).toOption.isSome)) =
      some (.user 1, [1], some 1, true) := by
    decide +kernel
  obtain ⟨hub₃, hhub₃, hvalues⟩ := Option.map_eq_some_iff.mp hresult
  obtain ⟨hstr, husers, hcon, hjoin⟩ : hub₃.structures 1 = .user 1 ∧ hub₃.net.users = [1] ∧
      (hub₃.net.user 1).connection = some 1 ∧
      (hub₃.receive 1 ⟨none, "JOIN", ["#r"], false⟩).toOption.isSome := by
    simpa using hvalues
  obtain ⟨hub', hok⟩ := Option.isSome_iff_exists.mp hjoin
  obtain ⟨hub, hinit, hrun⟩ := bind_eq_ok_iff.mp (eq_ok_of_toOption hhub₃)
  have hnick : getCommand "NICK" = some .nick := by decide +kernel
  have huser : getCommand "USER" = some .user := by decide +kernel
  have hname : getCommand "JOIN" = some .join := by decide +kernel
  have hsteps : Steps (guarded (fun hub e => hub.Occurs e ∧ hub.Careful e ∧ hub.Candid e) Step) hub
      (registering ++ [.received 1 ⟨none, "JOIN", ["#r"], false⟩]) hub' := by
    refine Steps.snoc (u := hub₃) ?_ ⟨⟨trivial, ?_, ?_⟩, eq_ok_of_toOption hok⟩
    · obtain ⟨hub₁, h₁, hrun⟩ := steps_cons_iff.mp (foldlM_process_eq_ok hrun)
      obtain ⟨hub₂, h₂, hrun⟩ := steps_cons_iff.mp hrun
      obtain ⟨hub₃, h₃, hrun⟩ := steps_cons_iff.mp hrun
      obtain rfl := steps_nil_iff.mp hrun
      refine .cons ⟨⟨?_, trivial, trivial⟩, h₁⟩ (.cons ⟨⟨trivial, ?_, ?_⟩, h₂⟩
        (.cons ⟨⟨trivial, ?_, ?_⟩, h₃⟩ (.nil _)))
      · exact congrFun (structures_init hinit) 1
      · simp [Careful, hnick]
      · simp [Candid, hnick]
      · simp [Careful, huser]
      · simp [Candid, huser]
    · simp only [Careful, hname]
      intro u hu _
      rw [hstr] at hu
      obtain rfl := Connectable.user.inj hu
      rw [husers]
      exact List.mem_cons_self
    · simp only [Candid, hname]
      intro _ _ u hu
      rw [source, hstr] at hu
      obtain rfl := Option.some.inj hu
      refine ⟨fun d hd => (Option.some.inj (hcon.symm.trans hd)).symm, ?_, trivial⟩
      intro v hv _ hne _
      exact absurd (List.mem_singleton.mp (husers ▸ hv)) hne
  exact ⟨hub, hub', hinit, hsteps, truthful_of_candid keepsCapitals_ascii hinit hsteps⟩

/-- Two clients join a channel, and a server that links itself kills the second. -/
def killing : List Event :=
  [.received 1 ⟨none, "NICK", ["a"], false⟩, .received 1 ⟨none, "USER", ["a", "0", "*", "A"], true⟩,
    .received 2 ⟨none, "NICK", ["b"], false⟩, .received 2 ⟨none, "USER", ["b", "0", "*", "B"], true⟩,
    .received 1 ⟨none, "JOIN", ["#r"], false⟩, .received 2 ⟨none, "JOIN", ["#r"], false⟩,
    .received 3 ⟨none, "SERVER", ["b.net", "0", "2", "b.net"], true⟩,
    .received 3 ⟨some "b.net", "KILL", ["b", "gone"], true⟩]

/-- The first client still has the nick of the second in its list. -/
theorem not_truthful_killing : ¬∀ (config : Configuration) (events : List Event) (hub hub' : Hub),
    init config = .ok hub → Steps (guarded Occurs Step) hub events hub' → hub'.Truthful := by
  intro h
  have hresult : ((init exampleConfiguration >>= fun hub =>
      (.opened 1 :: .opened 2 :: .opened 3 :: killing : List Event).foldlM process hub).toOption.map
      fun hub => decide (hub.net.users = [1] ∧ hub.net.isLocal 1 ∧
        (hub.net.user 1).connection = some 1 ∧ (hub.net.user 1).channels.get "#r" = some 3 ∧
        (hub.client 1).rooms "#r" = some ["a", "b"] ∧
        (hub.net.channel 3).users.map (fun u => (hub.net.user u).nick) = ["a"])) = some true := by
    decide +kernel
  obtain ⟨hub', hhub', hvalues⟩ := Option.map_eq_some_iff.mp hresult
  obtain ⟨husers, hlocal, hcon, hget, hrooms, hnicks⟩ := of_decide_eq_true hvalues
  obtain ⟨hub, hinit, hrun⟩ := bind_eq_ok_iff.mp (eq_ok_of_toOption hhub')
  obtain ⟨hub₁, h₁, hrun⟩ := steps_cons_iff.mp (foldlM_process_eq_ok hrun)
  obtain ⟨hub₂, h₂, hrun⟩ := steps_cons_iff.mp hrun
  obtain ⟨hub₃, h₃, hrun⟩ := steps_cons_iff.mp hrun
  have hstr := structures_init hinit
  have hstr₁ := structures_of_opened h₁
  have hstr₂ := structures_of_opened h₂
  have hreceived : ∀ e ∈ killing, ∃ c m, e = .received c m := by
    simp [killing]
  have hsteps : Steps (guarded Occurs Step) hub (.opened 1 :: .opened 2 :: .opened 3 :: killing)
      hub' := by
    refine .cons ⟨?_, h₁⟩ (.cons ⟨?_, h₂⟩ (.cons ⟨?_, h₃⟩ (occurs_of_received hreceived hrun)))
    · simp [Occurs, hstr]
    · simp [Occurs, hstr₁, hstr]
    · simp [Occurs, hstr₂, hstr₁, hstr]
  obtain ⟨_, hinside, _⟩ := h _ _ hub hub' hinit hsteps 1 (by simp [husers]) hlocal 1 hcon
  obtain ⟨nicks, hroom, hmem⟩ := hinside "#r" 3 hget
  rw [hrooms] at hroom
  obtain rfl := Option.some.inj hroom
  obtain ⟨u, hu, hb⟩ := (hmem "b").mp (by simp)
  have hin : "b" ∈ (hub'.net.channel 3).users.map fun u => (hub'.net.user u).nick :=
    List.mem_map.mpr ⟨u, hu, hb⟩
  simp [hnicks] at hin

end MyLifeHome.Irc.Hub
