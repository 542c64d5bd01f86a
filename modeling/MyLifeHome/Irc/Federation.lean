import MyLifeHome.Irc.Copies
import MyLifeHome.Irc.Loop

/-!
# A message in packets

Each hub of a tree reads in packets what its neighbours have written, and passes a message of a user
on. The copies of the message are what is left to read on the links, and what has been written to
users.
-/
namespace MyLifeHome.Irc

open Checked Runs TreeRouting Utf8

/-- The loops of the hubs, and how many of the bytes that one hub has written to another have been
read. -/
structure Federation (V : Type) where
  servers : V → IrcServer
  taken : V → V → Nat

namespace Federation

variable [Locale] {V U : Type} [DecidableEq V]

def hubs (s : Federation V) (h : V) : Hub := (s.servers h).hub

/-- What the one has written to the other and the other has not read. -/
def unread (s : Federation V) (T : Topology V U) (b g : V) : List UInt8 :=
  ((s.hubs b).bytes (T.link b g)).drop (s.taken b g)

/-- The hubs agree, and have read what the others have written to them. -/
structure AtRest (s : Federation V) (T : Topology V U) : Prop where
  agree : Agree T s.hubs
  started : ∀ h c, ∀ x ∈ (s.servers h).buffers c, Parser.isTerminator x = false
  buffers : ∀ h g, T.graph.Adj h g → (s.servers h).buffers (T.link h g) = []
  taken : ∀ h g, T.graph.Adj h g → s.taken h g = ((s.hubs h).bytes (T.link h g)).length

/-- The hub of the user reads the packets of the user. -/
def Sent (T : Topology V U) (u : U) (packets : List (List UInt8)) (s s' : Federation V) : Prop :=
  ∃ server', Steps IrcServer.Step (s.servers (T.home u)) (packets.map (.read (T.con u))) server' ∧
    s' = { s with servers := Function.update s.servers (T.home u) server' }

/-- The hub `g` has read a packet from `b`. -/
def after (s : Federation V) (b g : V) (packet : List UInt8) (server' : IrcServer) : Federation V where
  servers := Function.update s.servers g server'
  taken x y := if x = b ∧ y = g then s.taken x y + packet.length else s.taken x y

/-- A hub reads a packet of what its neighbour has written, and no character is cut. -/
def Forward (T : Topology V U) (s s' : Federation V) : Prop :=
  ∃ b g packet rest server', T.graph.Adj b g ∧ s.unread T b g = packet ++ rest ∧ packet ≠ [] ∧
    Whole [packet] ∧ (s.servers g).Step (.read (T.link g b) packet) server' ∧
    s' = s.after b g packet server'

/-- All that hubs have written to each other is read. -/
def Settled (s : Federation V) (T : Topology V U) : Prop :=
  ∀ b g, T.graph.Adj b g → s.unread T b g = []

/-- What has been written to the user since `s₀`. -/
def inbox (s₀ s : Federation V) (T : Topology V U) (v : U) : List Message :=
  (s₀.hubs (T.home v)).written (s.hubs (T.home v)) (T.con v)

end Federation

/-! ## The packets of a user -/

section

variable [Locale] {s s' : IrcServer} {c : Conn} {packets : List (List UInt8)} {msgs : List Message}
  {rest : List Char}

omit [Locale] in
theorem Delivery.andThen_eq_ok_iff {d : Delivery} {next : List Char → Delivery} :
    d.andThen next = ⟨msgs, .ok rest⟩ ↔ ∃ first buffer more, d = ⟨first, .ok buffer⟩ ∧
      next buffer = ⟨more, .ok rest⟩ ∧ msgs = first ++ more := by
  obtain ⟨first, fault | buffer⟩ := d
  · simp [andThen]
  · rcases hnext : next buffer with ⟨more, ending⟩
    simp only [andThen, hnext, Delivery.mk.injEq, Except.ok.injEq]
    constructor
    · rintro ⟨rfl, rfl⟩
      exact ⟨first, buffer, more, ⟨rfl, rfl⟩, hnext, rfl⟩
    · rintro ⟨_, _, more', ⟨rfl, rfl⟩, hmore, rfl⟩
      obtain ⟨rfl, rfl⟩ := Delivery.mk.inj (hnext.symm.trans hmore)
      exact ⟨rfl, rfl⟩

/-- A packet leads to the messages that its lines are. -/
theorem IrcServer.step_read_iff {data : List UInt8} {buffer : List Char} (hopen : ¬s.hub.closed c)
    (hread : Parser.readData (s.buffers c) data = ⟨msgs, .ok buffer⟩) :
    s.Step (.read c data) s' ↔
      msgs.foldlM (fun hub message => hub.receive c message) s.hub = .ok s'.hub ∧
      s'.buffers = Function.update s.buffers c buffer := by
  constructor
  · rintro ⟨_, hok⟩
    obtain ⟨⟨hub', rest⟩, hdata, hok⟩ := bind_eq_ok_iff.mp hok
    obtain rfl := Except.ok.inj hok
    obtain ⟨hending, hfold⟩ := Parser.hub_readData_eq_ok_iff.mp hdata
    rw [hread] at hending hfold
    obtain rfl := Except.ok.inj hending
    exact ⟨hfold, rfl⟩
  · rintro ⟨hfold, hbuffers⟩
    obtain ⟨hub', buffers'⟩ := s'
    obtain rfl := hbuffers
    refine ⟨hopen, bind_eq_ok_iff.mpr ⟨(hub', buffer), Parser.hub_readData_eq_ok_iff.mpr ?_, rfl⟩⟩
    rw [hread]
    exact ⟨rfl, hfold⟩

theorem IrcServer.steps_read_iff (hopen : ¬s.hub.closed c)
    (hread : Parser.readAll (s.buffers c) packets = ⟨msgs, .ok rest⟩)
    (hkeep : ∀ msg ∈ msgs, ∀ hub hub' : Hub, hub.receive c msg = .ok hub' → hub'.closed = hub.closed) :
    Steps IrcServer.Step s (packets.map (.read c)) s' ↔
      msgs.foldlM (fun hub message => hub.receive c message) s.hub = .ok s'.hub ∧
      s'.buffers = Function.update s.buffers c rest := by
  induction packets generalizing s msgs with
  | nil =>
    obtain ⟨rfl, hrest⟩ := Delivery.mk.inj hread
    obtain rfl := Except.ok.inj hrest
    rw [List.map_nil, steps_nil_iff, Function.update_eq_self]
    constructor
    · rintro rfl
      exact ⟨rfl, rfl⟩
    · rintro ⟨hhub, hbuffers⟩
      obtain ⟨hub', buffers'⟩ := s'
      obtain rfl := Except.ok.inj hhub
      obtain rfl := hbuffers
      rfl
  | cons data packets ih =>
    obtain ⟨first, buffer, more, hfirst, hmore, rfl⟩ := Delivery.andThen_eq_ok_iff.mp hread
    have hopen₁ : ∀ hub₁, first.foldlM (fun hub message => hub.receive c message) s.hub = .ok hub₁ →
        ¬hub₁.closed c := by
      intro hub₁ hfold
      refine foldlM_invariant (I := fun hub : Hub => ¬hub.closed c) ?_ hfold hopen
      intro hub msg hub' hmsg hopen hok
      rwa [hkeep msg (List.mem_append_left _ hmsg) hub hub' hok]
    have hrest : ∀ hub₁ : Hub, ¬hub₁.closed c →
        (Steps IrcServer.Step ⟨hub₁, Function.update s.buffers c buffer⟩ (packets.map (.read c)) s' ↔
          more.foldlM (fun hub message => hub.receive c message) hub₁ = .ok s'.hub ∧
          s'.buffers = Function.update s.buffers c rest) := by
      intro hub₁ hopen₁
      have hone := ih (s := ⟨hub₁, Function.update s.buffers c buffer⟩) hopen₁
        (by simpa using hmore)
        fun msg hmsg => hkeep msg (List.mem_append_right _ hmsg)
      rwa [Function.update_idem] at hone
    rw [List.map_cons, steps_cons_iff, List.foldlM_append, bind_eq_ok_iff]
    constructor
    · rintro ⟨⟨hub₁, buffers₁⟩, hstep, hsteps⟩
      obtain ⟨hfold, hbuffers⟩ := (step_read_iff hopen hfirst).mp hstep
      obtain rfl := hbuffers
      obtain ⟨hfold', hbuffers'⟩ := (hrest hub₁ (hopen₁ hub₁ hfold)).mp hsteps
      exact ⟨⟨hub₁, hfold, hfold'⟩, hbuffers'⟩
    · rintro ⟨⟨hub₁, hfold, hfold'⟩, hbuffers'⟩
      exact ⟨⟨hub₁, Function.update s.buffers c buffer⟩, (step_read_iff hopen hfirst).mpr ⟨hfold, rfl⟩,
        (hrest hub₁ (hopen₁ hub₁ hfold)).mpr ⟨hfold', hbuffers'⟩⟩

end

/-! ## The copies in the packets -/

namespace Federation

variable [Locale] {V U : Type} [DecidableEq V] {T : Topology V U} {s₀ s s' : Federation V}
  {a a' : Traffic V} {b g h : V} {u v : U} {c : Conn} {packet rest : List UInt8}
  {packets : List (List UInt8)} {command target text : String} {ts : Set U} {msg : Message}
  {server' : IrcServer}

/-- The copies are the messages that are left to read on links, and those written to users. -/
structure Simulates (s : Federation V) (T : Topology V U) (s₀ : Federation V) (a : Traffic V) : Prop where
  hubs : ∀ h, a.hubs h = s.hubs h
  taken : ∀ b g, T.graph.Adj b g → s.taken b g ≤ ((s.hubs b).bytes (T.link b g)).length
  spells : ∀ b g, T.graph.Adj b g →
    Spells ((s.servers g).buffers (T.link g b)) (s.unread T b g) (a.on b (T.link b g))
  inbox : ∀ v, s₀.inbox s T v = a.on (T.home v) (T.con v)

omit [Locale] in
theorem written_append {hub hub' hub'' : Hub} {out : List (Conn × Message)} (hw : Hub.Wrote hub hub')
    (hsent : hub''.sent = hub'.sent ++ out) :
    hub.written hub'' c = hub.written hub' c ++ (out.filter fun e => e.1 = c).map Prod.snd := by
  obtain ⟨more, rfl⟩ := hw
  simp [Hub.written, hsent]

theorem oneLine_on (hA : Agree T s₀.hubs) (htalk : Talk command target text)
    (ha : Routed T s₀.hubs u command target text ts a) : ∀ msg ∈ a.on h c, msg.OneLine := by
  intro msg hmsg
  obtain ⟨copy, hcopy, rfl⟩ := List.mem_map.mp hmsg
  rw [ha.message copy (List.mem_filter.mp hcopy).1]
  exact oneLine_forwarded hA htalk

/-- The message that a neighbour reads. -/
def received (T : Topology V U) (s₀ : Federation V) (u : U) (command target text : String) : Message :=
  ⟨some (T.nick s₀.hubs u), command, [target, trimEnd text], true⟩

theorem parse_on (hA : Agree T s₀.hubs) (htalk : Talk command target text)
    (ha : Routed T s₀.hubs u command target text ts a) :
    ∀ msg ∈ a.on h c, parseRawMessage msg.line = .ok (received T s₀ u command target text) := by
  intro msg hmsg
  obtain ⟨copy, hcopy, rfl⟩ := List.mem_map.mp hmsg
  rw [ha.message copy (List.mem_filter.mp hcopy).1]
  exact parse_forwarded hA htalk

/-! ## After a packet -/

section

omit [Locale]

theorem after_servers_of_ne (hne : h ≠ g) : (s.after b g packet server').servers h = s.servers h :=
  Function.update_of_ne hne ..

theorem after_hubs_self : (s.after b g packet server').hubs g = server'.hub :=
  congrArg IrcServer.hub (Function.update_self ..)

theorem after_hubs_of_ne (hne : h ≠ g) : (s.after b g packet server').hubs h = s.hubs h :=
  congrArg IrcServer.hub (after_servers_of_ne hne)

theorem after_taken_self :
    (s.after b g packet server').taken b g = s.taken b g + packet.length := if_pos ⟨rfl, rfl⟩

theorem after_taken_of_ne {x y : V} (hne : ¬(x = b ∧ y = g)) :
    (s.after b g packet server').taken x y = s.taken x y := if_neg hne

/-- The packet has been read. -/
theorem unread_after_self (hg : T.graph.Adj b g) (hunread : s.unread T b g = packet ++ rest) :
    (s.after b g packet server').unread T b g = rest := by
  rw [unread, after_hubs_of_ne hg.ne, after_taken_self, ← List.drop_drop]
  change List.drop _ (s.unread T b g) = rest
  rw [hunread, List.drop_left]

theorem unread_after_of_ne {x y : V} (hx : x ≠ g) (hne : ¬(x = b ∧ y = g)) :
    (s.after b g packet server').unread T x y = s.unread T x y := by
  rw [unread, after_hubs_of_ne hx, after_taken_of_ne hne]
  rfl

/-- What the hub has written is there to be read. -/
theorem unread_after_of_sent (hg : T.graph.Adj b g) {out : List (Conn × Message)}
    (hsent : server'.hub.sent = (s.hubs g).sent ++ out)
    (htaken : s.taken g h ≤ ((s.hubs g).bytes (T.link g h)).length) :
    (s.after b g packet server').unread T g h = s.unread T g h ++
      ((out.filter fun e => e.1 = T.link g h).map Prod.snd).flatMap Parser.writeMessage := by
  rw [unread, after_hubs_self, after_taken_of_ne fun heq => hg.ne heq.1.symm, bytes_append hsent,
    List.drop_append_of_le_length htaken]
  rfl

/-- A hub does not read more than there is. -/
theorem Simulates.taken_after (hs : s.Simulates T s₀ a) (hg : T.graph.Adj b g)
    (hunread : s.unread T b g = packet ++ rest) {out : List (Conn × Message)}
    (hsent : server'.hub.sent = (s.hubs g).sent ++ out) {x y : V} (hxy : T.graph.Adj x y) :
    (s.after b g packet server').taken x y ≤
      (((s.after b g packet server').hubs x).bytes (T.link x y)).length := by
  by_cases hx : x = g
  · subst hx
    rw [after_taken_of_ne fun heq => hg.ne heq.1.symm, after_hubs_self, bytes_append hsent,
      List.length_append]
    exact Nat.le_add_right_of_le (hs.taken x y hxy)
  · rw [after_hubs_of_ne hx]
    by_cases hb : x = b ∧ y = g
    · obtain ⟨rfl, rfl⟩ := hb
      have hcount := congrArg List.length hunread
      have htaken := hs.taken x y hg
      rw [unread, List.length_drop, List.length_append] at hcount
      rw [after_taken_self]
      omega
    · rw [after_taken_of_ne hb]
      exact hs.taken x y hxy

end

/-- The hub has read some messages of a packet, which are copies that it has taken. -/
theorem Simulates.after (hA : Agree T s₀.hubs) (htalk : Talk command target text)
    (hs : s.Simulates T s₀ a) (ha : Routed T s₀.hubs u command target text ts a)
    (ha' : Routed T s₀.hubs u command target text ts a') (hg : T.graph.Adj b g)
    (hunread : s.unread T b g = packet ++ rest) {n : Nat} {out : List (Conn × Message)}
    (hmoves : a.Moves T b g n out a') {buffer : List Char}
    (hleft : Spells buffer rest ((a.on b (T.link b g)).drop n)) :
    (s.after b g packet
      ⟨a'.hubs g, Function.update (s.servers g).buffers (T.link g b) buffer⟩).Simulates T s₀ a' := by
  set server' : IrcServer :=
    ⟨a'.hubs g, Function.update (s.servers g).buffers (T.link g b) buffer⟩ with hserver'
  have hself : (s.after b g packet server').servers g = server' := Function.update_self ..
  have hsent : server'.hub.sent = (s.hubs g).sent ++ out := by
    rw [← hs.hubs g]
    exact hmoves.sent
  refine ⟨fun k => ?_, fun x y hxy => hs.taken_after hg hunread hsent hxy, fun x y hxy => ?_,
    fun v => ?_⟩
  · by_cases hk : k = g
    · subst hk
      rw [after_hubs_self]
    · rw [after_hubs_of_ne hk, hmoves.hubs k hk]
      exact hs.hubs k
  · by_cases hb : x = b ∧ y = g
    · obtain ⟨rfl, rfl⟩ := hb
      rw [hself, unread_after_self hg hunread, hmoves.read, hserver']
      simpa using hleft
    · by_cases hx : x = g
      · subst hx
        rw [after_servers_of_ne hxy.ne.symm, unread_after_of_sent hg hsent (hs.taken x y hxy),
          hmoves.written]
        refine (hs.spells x y hxy).write fun msg hmsg => ?_
        apply oneLine_on (h := x) (c := T.link x y) hA htalk ha'
        rw [hmoves.written]
        exact List.mem_append_right _ hmsg
      · have hon : a'.on x (T.link x y) = a.on x (T.link x y) := by
          refine hmoves.others x _ hx ?_
          rintro ⟨rfl, heq⟩
          exact hb ⟨rfl, hA.link_inj hxy hg heq⟩
        have hbuffer : ((s.after b g packet server').servers y).buffers (T.link y x) =
            (s.servers y).buffers (T.link y x) := by
          by_cases hy : y = g
          · subst hy
            rw [hself]
            refine Function.update_of_ne (fun heq => hb ⟨?_, rfl⟩) ..
            exact hA.link_inj hxy.symm hg.symm heq
          · rw [after_servers_of_ne hy]
        rw [hbuffer, unread_after_of_ne hx hb, hon]
        exact hs.spells x y hxy
  · by_cases hv : T.home v = g
    · have hw : Hub.Wrote (s₀.hubs (T.home v)) (s.hubs (T.home v)) := by
        rw [← hs.hubs]
        exact ha.written _
      have hinbox := hs.inbox v
      rw [Federation.inbox] at hinbox ⊢
      rw [hv] at hw hinbox ⊢
      rw [after_hubs_self, written_append hw hsent, hmoves.written, hinbox]
    · have hon : a'.on (T.home v) (T.con v) = a.on (T.home v) (T.con v) := by
        refine hmoves.others _ _ hv ?_
        rintro ⟨rfl, heq⟩
        exact hA.con_ne_link hg heq
      rw [Federation.inbox, after_hubs_of_ne hv, hon]
      exact hs.inbox v

section Forward

variable [Fintype V]

open Classical in
/-- How much is left to read. -/
noncomputable def left (s : Federation V) (T : Topology V U) : Nat :=
  ∑ e ∈ Finset.univ.filter (fun e : V × V => T.graph.Adj e.1 e.2), (s.unread T e.1 e.2).length

/-- Packets are read without an exception, and the messages in them are copies on their way. Either
there are fewer servers to get to, or there is less to read. -/
theorem Simulates.forward (hA : Agree T s₀.hubs) (hts : T.Recipients s₀.hubs u target ts)
    (htalk : Talk command target text) (hs : s.Simulates T s₀ a)
    (ha : Routed T s₀.hubs u command target text ts a) (hg : T.graph.Adj b g)
    (hunread : s.unread T b g = packet ++ rest) (hne : packet ≠ []) (hwhole : Whole [packet]) :
    ∃ server', (s.servers g).Step (.read (T.link g b) packet) server' ∧
      ∃ a', (s.after b g packet server').Simulates T s₀ a' ∧
        Routed T s₀.hubs u command target text ts a' ∧
        Prod.Lex (· < ·) (· < ·) (measure T a'.copies, (s.after b g packet server').left T)
          (measure T a.copies, s.left T) := by
  have hspells := hs.spells b g hg
  rw [hunread] at hspells
  obtain ⟨n, buffer, hn, hread, hleft⟩ := hspells.read hwhole
    (fun _ => received T s₀ u command target text) (parse_on hA htalk ha)
  rw [List.map_const', List.length_take, Nat.min_eq_left hn] at hread
  obtain ⟨a', out, hfold, hmoves, ha', hless⟩ := ha.relay hA hts htalk hg hn
  rw [hs.hubs] at hfold
  have hafter := hs.after hA htalk ha ha' hg hunread hmoves hleft
  have hopen : ¬(s.hubs g).closed (T.link g b) := by
    rw [← hs.hubs]
    exact ((hA.wrote ha.written).links g b hg.symm).2.2
  refine ⟨⟨a'.hubs g, Function.update (s.servers g).buffers (T.link g b) buffer⟩,
    (IrcServer.step_read_iff hopen hread).mpr ⟨hfold, rfl⟩, a', hafter, ha', ?_⟩
  rcases hless with ⟨_, rfl⟩ | hless
  · have hunread' : ∀ x y, (s.after b g packet
        ⟨a'.hubs g, Function.update (s.servers g).buffers (T.link g b) buffer⟩).unread T x y =
          if x = b ∧ y = g then (s.unread T x y).drop packet.length else s.unread T x y := by
      intro x y
      rw [unread, unread, ← hafter.hubs x, hs.hubs x]
      simp only [Federation.after]
      split_ifs
      · rw [List.drop_drop]
      · rfl
    refine Prod.Lex.right _ (Finset.sum_lt_sum (fun e _ => ?_) ⟨(b, g), by simpa using hg, ?_⟩)
    · rw [hunread' e.1 e.2]
      split_ifs
      · rw [List.length_drop]
        exact Nat.sub_le ..
      · exact le_rfl
    · dsimp only
      rw [hunread' b g, if_pos ⟨rfl, rfl⟩, List.length_drop]
      have hpos := List.length_pos_of_ne_nil hne
      have hlong := congrArg List.length hunread
      rw [List.length_append] at hlong
      omega
  · exact Prod.Lex.left _ _ hless

/-- Reading comes to an end. -/
theorem Simulates.acc (hA : Agree T s₀.hubs) (hts : T.Recipients s₀.hubs u target ts)
    (htalk : Talk command target text) (hs : s.Simulates T s₀ a)
    (ha : Routed T s₀.hubs u command target text ts a) : Acc (fun s' s => Forward T s s') s := by
  have hwf : WellFounded (Prod.Lex (fun m n : ℕ => m < n) fun m n : ℕ => m < n) :=
    Nat.lt_wfRel.wf.prod_lex Nat.lt_wfRel.wf
  generalize hm : (measure T a.copies, s.left T) = m
  induction m using hwf.induction generalizing s a with
  | _ m ih =>
    refine ⟨_, fun s' hstep => ?_⟩
    obtain ⟨b, g, packet, rest, server', hg, hunread, hne, hwhole, hread, rfl⟩ := hstep
    obtain ⟨server₁, hread₁, a', hs', ha', hless⟩ :=
      hs.forward hA hts htalk ha hg hunread hne hwhole
    obtain rfl := Except.ok.inj (hread.2.symm.trans hread₁.2)
    exact ih _ (hm ▸ hless) hs' ha' rfl

end Forward

omit [Locale] in
theorem Simulates.settled (hs : s.Simulates T s₀ a) (hsettled : s.Settled T) : a.Settled T := by
  intro copy hcopy g hg heq
  have hspells := hs.spells copy.hub g hg
  rw [hsettled copy.hub g hg] at hspells
  have hmem : copy.message ∈ a.on copy.hub (T.link copy.hub g) :=
    List.mem_map_of_mem (List.mem_filter.mpr ⟨hcopy, by simpa using heq⟩)
  rw [hspells.eq_nil] at hmem
  exact List.not_mem_nil hmem

/-- The hub of the user has read the message and written the first copies. -/
theorem AtRest.simulates (hrest : s.AtRest T) {buffer : List Char}
    {out : List (Conn × Message)} (hsent : server'.hub.sent = (s.hubs (T.home u)).sent ++ out)
    (hbuffers : server'.buffers =
      Function.update (s.servers (T.home u)).buffers (T.con u) buffer)
    (hone : ∀ e ∈ out, e.2.OneLine) :
    Simulates { s with servers := Function.update s.servers (T.home u) server' } T s
      (.write s.hubs [] (T.home u) server'.hub out) := by
  set s' : Federation V := { s with servers := Function.update s.servers (T.home u) server' } with hs'
  have hon : ∀ h c, (Traffic.write s.hubs [] (T.home u) server'.hub out).on h c =
      if h = T.home u then (out.filter fun e => e.1 = c).map Prod.snd else [] :=
    fun h c => Traffic.on_write
  have hself : s'.servers (T.home u) = server' := Function.update_self ..
  have hother : ∀ k, k ≠ T.home u → s'.servers k = s.servers k := fun k hk => Function.update_of_ne hk ..
  have hbytes : ∀ h c, (s'.hubs h).bytes c = (s.hubs h).bytes c ++
      ((Traffic.write s.hubs [] (T.home u) server'.hub out).on h c).flatMap Parser.writeMessage := by
    intro h c
    rw [hon]
    split_ifs with hh
    · subst hh
      rw [hubs, hself]
      exact bytes_append hsent
    · rw [hubs, hother h hh]
      exact (List.append_nil _).symm
  refine ⟨fun h => ?_, fun b g hg => ?_, fun b g hg => ?_, fun v => ?_⟩
  · by_cases hh : h = T.home u
    · subst hh
      rw [Traffic.write_hubs_self, hubs, hself]
    · rw [hubs, hother h hh]
      exact Function.update_of_ne hh ..
  · change s.taken b g ≤ _
    rw [hrest.taken b g hg, hbytes, List.length_append]
    exact Nat.le_add_right ..
  · have hunread : s'.unread T b g = ((Traffic.write s.hubs [] (T.home u) server'.hub out).on b
        (T.link b g)).flatMap Parser.writeMessage := by
      change List.drop (s.taken b g) _ = _
      rw [hrest.taken b g hg, hbytes, List.drop_left]
    have hbuffer : (s'.servers g).buffers (T.link g b) = [] := by
      by_cases hh : g = T.home u
      · subst hh
        rw [hself, hbuffers, Function.update_of_ne (hrest.agree.con_ne_link hg.symm).symm]
        exact hrest.buffers _ b hg.symm
      · rw [hother g hh]
        exact hrest.buffers g b hg.symm
    have hlines : ∀ m ∈ (Traffic.write s.hubs [] (T.home u) server'.hub out).on b (T.link b g),
        m.OneLine := by
      intro m hm
      rw [hon] at hm
      split_ifs at hm
      · obtain ⟨e, he, rfl⟩ := List.mem_map.mp hm
        exact hone e (List.mem_filter.mp he).1
      · exact absurd hm List.not_mem_nil
    rw [hbuffer, hunread]
    exact Spells.nil.write hlines
  · rw [hon, inbox, Hub.written]
    split_ifs with hh
    · have hhub : s'.hubs (T.home v) = server'.hub := by rw [hh, hubs, hself]
      rw [hhub, hsent, hh, List.drop_left]
    · have hhub : s'.hubs (T.home v) = s.hubs (T.home v) := congrArg IrcServer.hub (hother _ hh)
      rw [hhub, List.drop_length]
      rfl

/-- The packets of a user have the line of a message to users in them, and no other line. -/
structure Says (s : Federation V) (T : Topology V U) (u : U) (packets : List (List UInt8))
    (msg : Message) : Prop where
  line : ∃ line buffer, Hub.lines ((s.servers (T.home u)).buffers (T.con u) ++ decodeEach packets) =
    ([line], buffer) ∧ parseRawMessage line = .ok msg
  users : IsUserMessage msg.command

omit [DecidableEq V] in
theorem Says.talk (h : s.Says T u packets msg) {more : List String}
    (hparams : msg.params = target :: text :: more) : Talk msg.command target text := by
  obtain ⟨line, buffer, hlines, hline⟩ := h.line
  have hmem : line ∈ (Hub.lines ((s.servers (T.home u)).buffers (T.con u) ++ decodeEach packets)).1 := by
    rw [hlines]
    exact List.mem_singleton_self line
  exact talk_of_parse (fun c hc => Parser.notMem_of_mem_lines hmem hc) hline h.users hparams

/-- The user has sent the message. -/
theorem AtRest.sent (hrest : s.AtRest T) (hsaid : s.Says T u packets msg) {more : List String}
    (hparams : msg.params = target :: text :: more) (hts : T.Recipients s.hubs u target ts) :
    (∃ s', Sent T u packets s s') ∧ ∀ s', Sent T u packets s s' →
      ∃ a, s'.Simulates T s a ∧ Routed T s.hubs u msg.command target text ts a := by
  have hA := hrest.agree
  have hcommand := hsaid.users
  obtain ⟨line, buffer, hlines, hline⟩ := hsaid.line
  have hread : Parser.readAll ((s.servers (T.home u)).buffers (T.con u)) packets = ⟨[msg], .ok buffer⟩ := by
    rw [Parser.readAll_eq (Parser.lines_of_notMem (hrest.started _ _)), hlines]
    simp [Parser.parseLines, hline, Delivery.andThen]
  have hkeep : ∀ m ∈ [msg], ∀ hub hub' : Hub, hub.receive (T.con u) m = .ok hub' →
      hub'.closed = hub.closed := by
    intro m hm hub hub' hok
    obtain rfl := List.mem_singleton.mp hm
    rw [receive_of_isUserMessage hcommand] at hok
    exact (Hub.wrote_routeMessage hok).closed
  have hsteps : ∀ server', Steps IrcServer.Step (s.servers (T.home u)) (packets.map (.read (T.con u)))
      server' ↔ (s.servers (T.home u)).hub.receive (T.con u) msg = .ok server'.hub ∧
        server'.buffers = Function.update (s.servers (T.home u)).buffers (T.con u) buffer := by
    intro server'
    rw [IrcServer.steps_read_iff (hA.locals u).2.2 hread hkeep, List.foldlM_cons]
    simp only [List.foldlM_nil, bind_pure]
  obtain ⟨⟨a₀, hub₀, out₀, ⟨⟨m, hm, hok₀⟩, _⟩, _⟩, hrouted⟩ := routed_sent hA hts hline hcommand hparams
  obtain rfl := Except.ok.inj (hline.symm.trans hm)
  refine ⟨⟨_, _, (hsteps ⟨hub₀, Function.update (s.servers (T.home u)).buffers (T.con u) buffer⟩).mpr
    ⟨hok₀, rfl⟩, rfl⟩, ?_⟩
  rintro s' ⟨server', hrun, rfl⟩
  obtain ⟨hok, hbuffers⟩ := (hsteps server').mp hrun
  have hwrote := hok
  rw [receive_of_isUserMessage hcommand] at hwrote
  obtain ⟨out, hout⟩ := Hub.wrote_routeMessage hwrote
  have hsent : server'.hub.sent = (s.hubs (T.home u)).sent ++ out := by
    rw [hout]
    rfl
  have ha := hrouted _ ⟨_, out, ⟨⟨msg, hline, hok⟩, hsent⟩, rfl⟩
  refine ⟨_, hrest.simulates hsent hbuffers fun e he => ?_, ha⟩
  have hcopy := ha.message ⟨T.home u, e.1, e.2⟩ (List.mem_append_right _ (List.mem_map_of_mem he))
  dsimp only at hcopy
  rw [hcopy]
  exact oneLine_forwarded hA (hsaid.talk hparams)

end Federation

end MyLifeHome.Irc

/-! ## Two hubs -/

namespace MyLifeHome.Irc

open Checked

/-- Two hubs with a link, and a user on each. -/
def twoHubs : Topology Bool Bool where
  graph := ⊤
  home u := u
  server h g := if g = h then 0 else 1
  user h u := if u = h then 2 else 3
  link _ _ := 1
  con _ := 2

def hubName (h : Bool) : String := if h then "b.net" else "a.net"

def userOn (server : Ref) (nick : String) : User :=
  ⟨server, nick, "home", "host", "User", none, .empty⟩

def twoServers (h : Bool) : Network :=
  let net := (Network.new "net").withServer (hubName h) h.toNat none
  (net.withServer (hubName !h) (!h).toNat (some 0)).modifyServer 1 fun s =>
    { s with connection := some 1 }

def twoUsers (h : Bool) : Network :=
  let net := (twoServers h).withUser (userOn 0 (if h then "bob" else "ann"))
  (net.withUser (userOn 1 (if h then "ann" else "bob"))).modifyUser 2 fun u =>
    { u with connection := some 2 }

/-- Both users are on the channel. -/
def linkedHub (h : Bool) : Hub where
  name := "hub"
  version := "1"
  buildTimestamp := "0"
  startTime := "now"
  net := (((twoUsers h).withChannel "#c").enter 2 4).enter 3 4
  structures c := if c = 1 then .server 1 else if c = 2 then .user 2 else .new
  locallyInitiated _ := false
  remoteHost _ := some "host"
  closed _ := false
  sent := []

theorem sound_twoServers (h : Bool) : (twoServers h).Sound := by
  have hroot : ((Network.new "net").withServer (hubName h) h.toNat none).Sound :=
    Network.sound_new_withServer
  refine (hroot.withServer ?_ ?_ (Network.getLocalServer_eq_some ?_).1).setServerConnection
  all_goals cases h <;> decide +kernel

theorem sound_twoUsers (h : Bool) : (twoUsers h).Sound := by
  have hservers : (twoServers h).servers.values = [0, 1] := by cases h <;> decide +kernel
  have hreg : ∀ s, (twoServers h).Registered s ↔ s = 0 ∨ s = 1 := by
    intro s
    rw [Network.Registered, Network.getServers, hservers]
    simp
  have hone : ((twoServers h).withUser (userOn 0 (if h then "bob" else "ann"))).Sound :=
    (sound_twoServers h).withUser ((hreg 0).mpr (.inl rfl)) (by cases h <;> decide +kernel) rfl
  have htwo : (((twoServers h).withUser (userOn 0 (if h then "bob" else "ann"))).withUser
      (userOn 1 (if h then "ann" else "bob"))).Sound :=
    hone.withUser ((hreg 1).mpr (.inr rfl)) (by cases h <;> decide +kernel) rfl
  exact htwo.setUserConnection

theorem sound_linkedHub (h : Bool) : (linkedHub h).net.Sound := by
  refine (((sound_twoUsers h).withChannel "#c").1.enter ?_ ?_ ?_).enter ?_ ?_ ?_
  all_goals cases h <;> decide +kernel

theorem agree_linkedHub : Agree twoHubs linkedHub := by
  have hservers : ∀ h, (linkedHub h).net.servers.values = [0, 1] := by decide +kernel
  have husers : ∀ h, (linkedHub h).net.users = [2, 3] := by decide +kernel
  have hchannels : ∀ h u, ((linkedHub h).net.user (twoHubs.user h u)).channels.entries =
      [("#c", 4)] := by decide +kernel
  have hcard : ENat.card Bool ≤ 2 := by simp
  refine ⟨⟨SimpleGraph.connected_top, .of_card_le_two hcard⟩, sound_linkedHub, ?_, ?_, ?_, ?_, ?_,
    ?_, ?_, ?_, ?_, ?_, ?_, ?_⟩
  · decide +kernel
  · decide
  · intro h s
    rw [Network.Registered, Network.getServers, hservers]
    cases h <;> simp [twoHubs, eq_comm, or_comm]
  · simp only [twoHubs, SimpleGraph.top_adj]
    decide +kernel
  · simp only [twoHubs, SimpleGraph.top_adj]
    decide +kernel
  · decide
  · intro h r
    rw [husers]
    cases h <;> simp [twoHubs, eq_comm, or_comm]
  · decide +kernel
  · decide +kernel
  · decide +kernel
  · decide +kernel
  · intro g h u k
    simp [Dictionary.get, hchannels]

namespace Federation

open Utf8

/-- Both hubs have read all. -/
def linked : Federation Bool := ⟨fun h => ⟨linkedHub h, fun _ => []⟩, fun _ _ => 0⟩

end Federation

end MyLifeHome.Irc
