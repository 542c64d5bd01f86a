import MyLifeHome.Core.Process

/-!
# The IRC client of the watcher

The client is a package of its own, so it is a parameter here: `IrcClient` has what the watcher
does to it, and `IrcClient.Lawful` says what the watcher relies on.
-/
namespace MyLifeHome

open Process

/-! ## The client -/

/-- The IRC client that the watcher uses, with states `κ`. -/
structure IrcClient (κ : Type*) where
  initial : κ
  join : String → κ → κ
  part : String → κ → κ
  /-- A connection has been registered. The client may join channels of itself, those that it
  remembers. -/
  registered : κ → κ
  /-- The connection has been lost. -/
  closed : κ → κ
  connected : κ → Prop
  /-- The client is on the channel. -/
  on : κ → String → Prop
  /-- The names of channels, as the server takes them. -/
  channel : String → Prop
  /-- The server takes the two names for one channel. -/
  same : String → String → Prop

/-- Who is connected joins and parts from channels by their names, once the server has answered. -/
structure IrcClient.Lawful {κ : Type*} (client : IrcClient κ) : Prop where
  equivalence : Equivalence client.same
  on_same : ∀ {k c d}, client.same d c → client.on k c → client.on k d
  connected_registered : ∀ k, client.connected (client.registered k)
  connected_join : ∀ {k c}, client.connected k → client.connected (client.join c k)
  connected_part : ∀ {k c}, client.connected k → client.connected (client.part c k)
  on_join : ∀ {k c d}, client.connected k → client.channel c →
    (client.on (client.join c k) d ↔ client.same d c ∨ client.on k d)
  on_part : ∀ {k c d}, client.connected k → client.channel c →
    (client.on (client.part c k) d ↔ client.on k d ∧ ¬client.same d c)

variable {κ : Type*} {client : IrcClient κ} {k : κ} {p q t : Process}

/-- What the watcher makes its client do. After `disconnect` the next watcher has a new one. -/
def IrcClient.effect (client : IrcClient κ) (k : κ) : Effect → κ
  | .join channel => client.join channel k
  | .part channel => client.part channel k
  | .disconnect none => client.initial
  | _ => k

/-- The client after all that has been done since `p`. -/
def Process.clientSince (p : Process) (client : IrcClient κ) (k : κ) (q : Process) : κ :=
  (q.trace.drop p.trace.length).foldl client.effect k

theorem clientSince_self : p.clientSince client k p = k := by simp [clientSince]

theorem clientSince_trans (h : p.trace <+: q.trace) (g : q.trace <+: t.trace) :
    p.clientSince client k t = q.clientSince client (p.clientSince client k q) t := by
  obtain ⟨es, hes⟩ := h
  obtain ⟨fs, hfs⟩ := g
  unfold clientSince
  rw [← hfs, ← hes, List.append_assoc]
  simp

theorem clientSince_of_eq {es : List Effect} (h : q.trace = p.trace ++ es) :
    p.clientSince client k q = es.foldl client.effect k := by
  rw [clientSince, h]
  simp

/-- The client is on the channels that `names` has, under any of their names. -/
structure IrcClient.OnExactly (client : IrcClient κ) (k : κ) (names : String → Prop) : Prop where
  connected : client.connected k
  on : ∀ channel, client.on k channel ↔ ∃ c, names c ∧ client.same channel c

theorem IrcClient.OnExactly.congr {names names' : String → Prop} (h : client.OnExactly k names)
    (hn : ∀ c, names' c ↔ names c) : client.OnExactly k names' :=
  ⟨h.connected, fun channel => by simp only [h.on, hn]⟩

theorem IrcClient.OnExactly.join {names : String → Prop} (hc : client.Lawful)
    (h : client.OnExactly k names) {channel : String} (hn : client.channel channel) :
    client.OnExactly (client.join channel k) fun c => c = channel ∨ names c where
  connected := hc.connected_join h.connected
  on d := by
    rw [hc.on_join h.connected hn, h.on]
    constructor
    · rintro (hd | ⟨c, hc, hd⟩)
      · exact ⟨channel, .inl rfl, hd⟩
      · exact ⟨c, .inr hc, hd⟩
    · rintro ⟨c, rfl | hc, hd⟩
      · exact .inl hd
      · exact .inr ⟨c, hc, hd⟩

theorem onExactly_joins (hc : client.Lawful) {names : String → Prop} (channels : List String)
    (h : client.OnExactly k names) (hn : ∀ c ∈ channels, client.channel c) :
    client.OnExactly ((channels.map Effect.join).foldl client.effect k)
      fun c => c ∈ channels ∨ names c := by
  induction channels generalizing k names with
  | nil => exact h.congr (by simp)
  | cons channel channels ih =>
    refine (ih (h.join hc (hn channel (by simp))) fun c hc => hn c (by simp [hc])).congr fun c => ?_
    simp only [List.mem_cons]
    tauto

/-! ## A client that remembers -/

/-- Channels are kept by their names in small letters. -/
structure Memory where
  connected : Bool
  joined : List (List Char)
  remembered : List (List Char)

def channelKey (channel : String) : List Char := channel.toList.map Char.toLower

/-- A client that is back on its channels when it is connected again: those that it has joined
and not parted from. -/
def rememberingClient : IrcClient Memory where
  initial := ⟨false, [], []⟩
  join c k := { k with
    joined := channelKey c :: k.joined, remembered := channelKey c :: k.remembered }
  part c k := { k with
    joined := k.joined.filter (· ≠ channelKey c)
    remembered := k.remembered.filter (· ≠ channelKey c) }
  registered k := { k with connected := true, joined := k.remembered }
  closed k := { k with connected := false, joined := [] }
  connected k := k.connected = true
  on k c := channelKey c ∈ k.joined
  channel c := c.toList.head? = some '#'
  same c d := channelKey c = channelKey d

theorem rememberingClient_lawful : rememberingClient.Lawful where
  equivalence := ⟨fun _ => rfl, Eq.symm, Eq.trans⟩
  on_same h hon := by
    simp only [rememberingClient] at h hon ⊢
    rwa [h]
  connected_registered _ := rfl
  connected_join h := h
  connected_part h := h
  on_join _ _ := by simp [rememberingClient]
  on_part _ _ := by simp [rememberingClient]

instance : DecidablePred rememberingClient.channel := fun c =>
  inferInstanceAs (Decidable (c.toList.head? = some '#'))

end MyLifeHome
