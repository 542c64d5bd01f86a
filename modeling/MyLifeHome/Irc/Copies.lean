import MyLifeHome.Irc.Routing
import MyLifeHome.Irc.Streams
import MyLifeHome.Irc.Updates
import Mathlib.Data.Fintype.Card
import Mathlib.Algebra.Order.BigOperators.Group.Finset

/-!
# A message on its way through the tree

Each hub that gets a copy of a message works out again for whom it is. What holds all along is
that for each recipient exactly one copy is on its way: it has been written to the recipient, or it
is on a link behind which the recipient is. Each time that a hub reads a copy, the servers that
copies can still get to become fewer.
-/
namespace MyLifeHome.Irc

open Checked TreeRouting

/-- A message that a hub has written to one of its connections, and that is not read yet. -/
structure Copy (V : Type) where
  hub : V
  con : Conn
  message : Message

/-- The hubs, and the copies that they have written since the message was sent. -/
structure Traffic (V : Type) where
  hubs : V → Hub
  copies : List (Copy V)

variable [Locale] {V U : Type}

/-- The hub reads the line from the connection, and writes `out`. -/
def Reads (hub : Hub) (src : Conn) (line : List Char) (hub' : Hub) (out : List (Conn × Message)) :
    Prop :=
  (∃ msg, parseRawMessage line = .ok msg ∧ hub.receive src msg = .ok hub') ∧
    hub'.sent = hub.sent ++ out

variable [DecidableEq V]

/-- The hub has read a line and written `out`, on top of the other copies. -/
def Traffic.write (hubs : V → Hub) (others : List (Copy V)) (h : V) (hub' : Hub)
    (out : List (Conn × Message)) : Traffic V :=
  ⟨Function.update hubs h hub', others ++ out.map fun e => ⟨h, e.1, e.2⟩⟩

namespace Traffic

/-- The user sends the line, and nothing else is on its way. -/
def Sent (T : Topology V U) (hubs : V → Hub) (u : U) (line : List Char) (a : Traffic V) : Prop :=
  ∃ hub' out, Reads (hubs (T.home u)) (T.con u) line hub' out ∧
    a = .write hubs [] (T.home u) hub' out

/-- A hub reads a copy that its neighbour has written. -/
def Forward (T : Topology V U) (a a' : Traffic V) : Prop :=
  ∃ b g message before after hub' out, T.graph.Adj b g ∧
    a.copies = before ++ ⟨b, T.link b g, message⟩ :: after ∧
    Reads (a.hubs g) (T.link g b) message.line hub' out ∧
    a' = .write a.hubs (before ++ after) g hub' out

/-- No copy is on a link. -/
def Settled (T : Topology V U) (a : Traffic V) : Prop :=
  ∀ copy ∈ a.copies, ∀ g, T.graph.Adj copy.hub g → copy.con ≠ T.link copy.hub g

/-- What is on the connection of the hub. -/
def on (a : Traffic V) (h : V) (c : Conn) : List Message :=
  (a.copies.filter fun copy => copy.hub = h ∧ copy.con = c).map Copy.message

/-- The hub `g` has read the first messages from `b`, and has written `out`. -/
structure Moves (T : Topology V U) (b g : V) (n : Nat) (out : List (Conn × Message))
    (a a' : Traffic V) : Prop where
  hubs : ∀ k, k ≠ g → a'.hubs k = a.hubs k
  sent : (a'.hubs g).sent = (a.hubs g).sent ++ out
  written : ∀ c, a'.on g c = a.on g c ++ (out.filter fun e => e.1 = c).map Prod.snd
  read : a'.on b (T.link b g) = (a.on b (T.link b g)).drop n
  others : ∀ h c, h ≠ g → ¬(h = b ∧ c = T.link b g) → a'.on h c = a.on h c

variable {T : Topology V U} {a a' a'' : Traffic V} {b g h : V} {c : Conn} {m n : Nat}
  {hubs : V → Hub} {hub' : Hub} {others : List (Copy V)} {out out' : List (Conn × Message)}

section

omit [Locale]

theorem write_hubs_self : (write hubs others g hub' out).hubs g = hub' := Function.update_self ..

theorem on_write : (write hubs others g hub' out).on h c = (⟨hubs, others⟩ : Traffic V).on h c ++
    if h = g then (out.filter fun e => e.1 = c).map Prod.snd else [] := by
  rw [on, on, write, List.filter_append, List.map_append, List.filter_map, List.map_map]
  congr 1
  split_ifs with hh
  · subst hh
    simp [Function.comp_def]
  · simp [Function.comp_def, Ne.symm hh]

theorem Moves.refl : a.Moves T b g 0 [] a :=
  ⟨fun _ _ => rfl, by simp, by simp, by simp, fun _ _ _ _ => rfl⟩

theorem Moves.trans (h₁ : a.Moves T b g m out a') (h₂ : a'.Moves T b g n out' a'') :
    a.Moves T b g (m + n) (out ++ out') a'' where
  hubs k hk := (h₂.hubs k hk).trans (h₁.hubs k hk)
  sent := by rw [h₂.sent, h₁.sent, List.append_assoc]
  written c := by rw [h₂.written, h₁.written, List.filter_append, List.map_append, List.append_assoc]
  read := by rw [h₂.read, h₁.read, List.drop_drop]
  others h c hh hc := (h₂.others h c hh hc).trans (h₁.others h c hh hc)

end

end Traffic

namespace Agree

variable {T : Topology V U} {hubs hubs' : V → Hub} {b g h : V} {u v t : U} {c : Conn}

section

omit [DecidableEq V]

/-- Hubs that have written agree as before. -/
theorem wrote (hA : Agree T hubs) (hw : ∀ h, Hub.Wrote (hubs h) (hubs' h)) : Agree T hubs' := by
  choose out hout using hw
  obtain rfl : hubs' = fun h => { hubs h with sent := (hubs h).sent ++ out h } := funext hout
  exact ⟨hA.tree, hA.sound, hA.root, hA.server_inj, hA.servers, hA.parents, hA.links, hA.user_inj,
    hA.users, hA.homes, hA.locals, hA.nicks, hA.nickNames, hA.channels⟩

theorem recipients_wrote {target : String} {ts : Set U} (hts : T.Recipients hubs u target ts)
    (hw : ∀ h, Hub.Wrote (hubs h) (hubs' h)) : T.Recipients hubs' u target ts := by
  choose out hout using hw
  obtain rfl : hubs' = fun h => { hubs h with sent := (hubs h).sent ++ out h } := funext hout
  exact hts

end

omit [DecidableEq V] [Locale] in
theorem nick_wrote (hw : ∀ h, Hub.Wrote (hubs h) (hubs' h)) : T.nick hubs' u = T.nick hubs u := by
  rw [Topology.nick, (hw _).net]
  rfl

/-! ## Routes and connections -/

section

omit [DecidableEq V]

theorem link_inj (hA : Agree T hubs) {g' : V} (hg : T.graph.Adj h g) (hg' : T.graph.Adj h g')
    (heq : T.link h g = T.link h g') : g = g' := by
  have hstr := (hA.links h g hg).2.1
  rw [heq, (hA.links h g' hg').2.1] at hstr
  exact hA.server_inj h (Connectable.server.inj hstr).symm

theorem con_ne_link (hA : Agree T hubs) (hg : T.graph.Adj (T.home u) g) :
    T.con u ≠ T.link (T.home u) g := by
  intro heq
  have hstr := (hA.locals u).2.1
  rw [heq, (hA.links _ g hg).2.1] at hstr
  simp at hstr

/-- A link is on the way to the users behind it. -/
theorem route_link_iff (hA : Agree T hubs) (hg : T.graph.Adj h g) :
    T.Route h t (T.link h g) ↔ Behind T.graph h g (T.home t) := by
  constructor
  · rintro (⟨rfl, heq⟩ | ⟨g', hg', hbehind, heq⟩)
    · exact absurd heq.symm (hA.con_ne_link hg)
    · rwa [hA.link_inj hg hg' heq]
  · intro hbehind
    exact .inr ⟨g, hg, hbehind, rfl⟩

/-- The connection of a user is on the way to that user only. -/
theorem route_con_iff (hA : Agree T hubs) : T.Route (T.home u) t (T.con u) ↔ t = u := by
  constructor
  · rintro (⟨hhome, heq⟩ | ⟨g, hg, _, heq⟩)
    · have hstr := (hA.locals t).2.1
      rw [← heq, hhome, (hA.locals u).2.1] at hstr
      exact hA.user_inj _ (Connectable.user.inj hstr).symm
    · exact absurd heq (hA.con_ne_link hg)
  · rintro rfl
    exact .inl ⟨rfl, rfl⟩

end

end Agree

/-! ## Reading a copy -/

/-- A message to users, as a command. -/
def IsUserMessage (command : String) : Prop :=
  getCommand command = some .privmsg ∨ getCommand command = some .notice

/-- A message to users that hubs pass on. -/
structure Talk (command target text : String) : Prop where
  users : IsUserMessage command
  blank : ' ' ∉ command.toList
  identifier : isCommandIdentifier command = .ok true
  parameter : isParameter target
  chars : ∀ s ∈ [command, target, text], ∀ c ∈ s.toList, Parser.isTerminator c = false

theorem talk_of_parse {line : List Char} {msg : Message} {target text : String} {rest : List String}
    (hends : ∀ c ∈ line, Parser.isTerminator c = false) (hline : parseRawMessage line = .ok msg)
    (hcommand : IsUserMessage msg.command) (hparams : msg.params = target :: text :: rest) :
    Talk msg.command target text := by
  have hwf := wellFormed_parseRawMessage hline
  have hchars : ∀ c ∈ msg.chars, Parser.isTerminator c = false :=
    fun c hc => hends c ((chars_parseRawMessage hline).subset hc)
  refine ⟨hcommand, hwf.command, hwf.identifier, hwf.params target (by simp [hparams]), ?_⟩
  simp only [Message.chars, hparams, List.mem_append, List.flatMap_cons] at hchars
  simp only [List.forall_mem_cons]
  exact ⟨fun c hc => hchars c (by simp [hc]), fun c hc => hchars c (by simp [hc]),
    fun c hc => hchars c (by simp [hc]), by simp⟩

theorem receive_of_isUserMessage {hub : Hub} {src : Conn} {msg : Message}
    (h : IsUserMessage msg.command) : hub.receive src msg = hub.routeMessage src msg := by
  rcases h with h | h <;> simp [Hub.receive, h, Command.invoke]

section Routed

variable {T : Topology V U} {hubs : V → Hub} {h b g : V} {u v t : U} {c src : Conn}
  {command target text : String} {ts : Set U} {msg : Message} {hub' : Hub}
  {out : List (Conn × Message)} {a a' : Traffic V} {copy : Copy V}

/-- The message as it goes on, with the text that the hub has. Only the hub of the sender has the
text with all that ends it. -/
def forwarded (T : Topology V U) (hubs : V → Hub) (u : U) (command target text : String) (h : V) :
    Message :=
  ⟨some (T.nick hubs u), command, [target, if h = T.home u then text else trimEnd text], true⟩

omit [Locale] in
theorem notMem_of_isNickName {nick : String} (h : isNickName nick) : ' ' ∉ nick.toList := by
  intro hmem
  have hc := List.all_eq_true.mp h ' ' hmem
  simp [isNickCharacter] at hc

/-- The neighbours read what was written, with the end of the text trimmed. -/
theorem parse_forwarded (hA : Agree T hubs) (htalk : Talk command target text) :
    parseRawMessage (forwarded T hubs u command target text h).line =
      .ok ⟨some (T.nick hubs u), command, [target, trimEnd text], true⟩ := by
  obtain ⟨hnick, hne⟩ := hA.nickNames (T.home u) u
  have hparse := parse_write [target] (if h = T.home u then text else trimEnd text)
    hne (notMem_of_isNickName hnick) htalk.blank htalk.identifier (by simpa using htalk.parameter)
  refine hparse.trans ?_
  split_ifs
  · rfl
  · rw [trimEnd_trimEnd]
    rfl

omit [DecidableEq V] [Locale] in
theorem notMem_trimEnd {p : Char → Prop} (h : ∀ c ∈ text.toList, p c) :
    ∀ c ∈ (trimEnd text).toList, p c := by
  intro c hc
  rw [trimEnd, String.toList_ofList, List.mem_reverse] at hc
  exact h c (List.mem_reverse.mp ((List.dropWhile_sublist _).subset hc))

/-- The neighbours read one line. -/
theorem oneLine_forwarded (hA : Agree T hubs) (htalk : Talk command target text) :
    (forwarded T hubs u command target text h).OneLine := by
  obtain ⟨hnick, _⟩ := hA.nickNames (T.home u) u
  have hsender : (forwarded T hubs u command target text h).sender = some (T.nick hubs u) := rfl
  have hline := toList_writeMessage_some hsender
  obtain ⟨hcommand, htarget, htext, _⟩ := by simpa only [List.forall_mem_cons] using htalk.chars
  refine ⟨by rw [Message.line, hline]; simp, ?_⟩
  rw [Message.line, hline]
  refine List.forall_mem_cons.mpr ⟨rfl, List.forall_mem_append.mpr ⟨?_, ?_⟩⟩
  · exact (isPlain_of_isNickName hnick).notMem_terminator
  · refine List.forall_mem_cons.mpr ⟨rfl, List.forall_mem_append.mpr ⟨hcommand, fun c hc => ?_⟩⟩
    rcases mem_parameters hc with rfl | rfl | ⟨p, hp, hcp⟩
    · rfl
    · rfl
    · simp only [forwarded, List.mem_cons, List.not_mem_nil, or_false] at hp
      rcases hp with rfl | rfl
      · exact htarget c hcp
      · split_ifs at hcp
        · exact htext c hcp
        · exact notMem_trimEnd htext c hcp

omit [DecidableEq V] in
/-- What reading a message of `u` comes to. -/
theorem reads_eq (hA : Agree T hubs) (hts : T.Recipients hubs u target ts) {line : List Char}
    {rest : List String} (hline : parseRawMessage line = .ok msg)
    (hsender : (hubs h).senderOf src msg = some (T.nick hubs u))
    (hsrc : ∀ nick ident realName, (hubs h).structures src ≠ .unregistered nick ident realName)
    (hcommand : IsUserMessage msg.command) (hparams : msg.params = target :: text :: rest) :
    ∃ cs : List Conn, cs.Nodup ∧ (∀ c, c ∈ cs ↔ c ≠ src ∧ ∃ t ∈ ts, T.Route h t c) ∧
      ∀ hub' out, Reads (hubs h) src line hub' out ↔
        out = cs.map (fun c =>
          (c, (⟨some (T.nick hubs u), msg.command, [target, text], true⟩ : Message))) ∧
        hub' = { hubs h with sent := (hubs h).sent ++ out } := by
  obtain ⟨cs, hnodup, hcs, hroute⟩ := hA.routeMessage_eq_ok hts h hsender hsrc hparams
    (wellFormed_parseRawMessage hline)
  refine ⟨cs, hnodup, hcs, ?_⟩
  intro hub' out
  constructor
  · rintro ⟨⟨m, hm, hreceive⟩, hsent⟩
    obtain rfl := Except.ok.inj (hline.symm.trans hm)
    rw [receive_of_isUserMessage hcommand, hroute] at hreceive
    obtain rfl := Except.ok.inj hreceive
    obtain rfl := List.append_cancel_left hsent
    exact ⟨rfl, rfl⟩
  · rintro ⟨rfl, rfl⟩
    refine ⟨⟨msg, hline, ?_⟩, rfl⟩
    rw [receive_of_isUserMessage hcommand, hroute]

/-! ## One copy for each recipient -/

/-- The copy is on the way to the user. -/
def Serves (T : Topology V U) (t : U) (copy : Copy V) : Prop := T.Route copy.hub t copy.con

open Classical in
/-- How many copies are on the way to the user. -/
noncomputable def serving (T : Topology V U) (t : U) (copies : List (Copy V)) : Nat :=
  copies.countP fun copy => Serves T t copy

section

omit [Locale] [DecidableEq V]

theorem serving_append {as bs : List (Copy V)} :
    serving T t (as ++ bs) = serving T t as + serving T t bs := List.countP_append

theorem serving_cons_of {copies : List (Copy V)} (h : Serves T t copy) :
    serving T t (copy :: copies) = serving T t copies + 1 :=
  List.countP_cons_of_pos (by simpa using h)

theorem serving_cons_of_not {copies : List (Copy V)} (h : ¬Serves T t copy) :
    serving T t (copy :: copies) = serving T t copies :=
  List.countP_cons_of_neg (by simpa using h)

end

/-- Every copy is on a link away from the sender, or has been written to a recipient, and for each
recipient one is on the way. -/
structure Routed (T : Topology V U) (hubs : V → Hub) (u : U) (command target text : String)
    (ts : Set U) (a : Traffic V) : Prop where
  written : ∀ h, Hub.Wrote (hubs h) (a.hubs h)
  message : ∀ copy ∈ a.copies, copy.message = forwarded T hubs u command target text copy.hub
  place : ∀ copy ∈ a.copies,
    (∃ g, T.graph.Adj copy.hub g ∧ copy.con = T.link copy.hub g ∧
      ¬Behind T.graph copy.hub g (T.home u)) ∨
    ∃ v ∈ ts, T.home v = copy.hub ∧ copy.con = T.con v
  once : ∀ t ∈ ts, serving T t a.copies = 1

omit [DecidableEq V] in
/-- The new copies for a recipient: one, unless the recipient is reached where the message came
from. -/
theorem serving_write (hA : Agree T hubs) {cs : List Conn} (hnodup : cs.Nodup)
    (hcs : ∀ c, c ∈ cs ↔ c ≠ src ∧ ∃ t ∈ ts, T.Route h t c) (ht : t ∈ ts) (m : Message) :
    (T.Route h t src →
      serving T t ((cs.map fun c => (c, m)).map fun e => ⟨h, e.1, e.2⟩) = 0) ∧
    (¬T.Route h t src →
      serving T t ((cs.map fun c => (c, m)).map fun e => ⟨h, e.1, e.2⟩) = 1) := by
  obtain ⟨c, _, hc⟩ := hA.getUserConnection_eq_ok h t
  have hiff : ∀ d, T.Route h t d ↔ d = c := by
    intro d
    constructor
    · intro hd
      exact hA.route_unique hd hc
    · rintro rfl
      exact hc
  have hcount : serving T t ((cs.map fun c => (c, m)).map fun e => ⟨h, e.1, e.2⟩) =
      cs.count c := by
    rw [serving, List.map_map, List.countP_map, List.count]
    refine List.countP_congr ?_
    intro d _
    simp [Serves, hiff]
  rw [hcount, hiff]
  constructor
  · rintro rfl
    refine List.count_eq_zero.mpr fun hmem => ?_
    exact ((hcs src).mp hmem).1 rfl
  · intro hne
    refine List.count_eq_one_of_mem hnodup ((hcs c).mpr ⟨?_, t, ht, hc⟩)
    exact fun heq => hne heq.symm

omit [Locale] in
theorem wrote_update (hw : ∀ h, Hub.Wrote (hubs h) (a.hubs h)) (hhub : Hub.Wrote (a.hubs g) hub')
    (h : V) : Hub.Wrote (hubs h) (Function.update a.hubs g hub' h) := by
  by_cases hg : h = g
  · subst hg
    rw [Function.update_self]
    exact (hw h).trans hhub
  · rw [Function.update_of_ne hg]
    exact hw h

/-- The user sends the message. -/
theorem routed_sent (hA : Agree T hubs) (hts : T.Recipients hubs u target ts) {line : List Char}
    {rest : List String} (hline : parseRawMessage line = .ok msg)
    (hcommand : IsUserMessage msg.command) (hparams : msg.params = target :: text :: rest) :
    (∃ a, Traffic.Sent T hubs u line a) ∧
      ∀ a, Traffic.Sent T hubs u line a → Routed T hubs u msg.command target text ts a := by
  have hstr := (hA.locals u).2.1
  have hsender : (hubs (T.home u)).senderOf (T.con u) msg = some (T.nick hubs u) := by
    simp [Hub.senderOf, hstr, Topology.nick]
  obtain ⟨cs, hnodup, hcs, hreads⟩ := reads_eq hA hts hline hsender (by simp [hstr]) hcommand hparams
  have hself : u ∉ ts := by
    rcases hts with ⟨_, _, rfl⟩ | ⟨_, _, t, ht, _, rfl⟩
    · simp
    · exact fun hu => ht hu.symm
  refine ⟨⟨_, _, _, (hreads _ _).mpr ⟨rfl, rfl⟩, rfl⟩, ?_⟩
  rintro a ⟨hub', out, hread, rfl⟩
  obtain ⟨rfl, rfl⟩ := (hreads _ _).mp hread
  have hcopies : ∀ copy : Copy V, copy ∈ (Traffic.write hubs [] (T.home u)
      { hubs (T.home u) with sent := (hubs (T.home u)).sent ++ cs.map (fun c =>
        (c, (⟨some (T.nick hubs u), msg.command, [target, text], true⟩ : Message))) }
      (cs.map fun c => (c, ⟨some (T.nick hubs u), msg.command, [target, text], true⟩))).copies →
      ∃ c ∈ cs, copy = ⟨T.home u, c, forwarded T hubs u msg.command target text (T.home u)⟩ := by
    intro copy hcopy
    simp only [Traffic.write, List.nil_append, List.map_map, List.mem_map] at hcopy
    obtain ⟨c, hc, rfl⟩ := hcopy
    exact ⟨c, hc, by simp [forwarded]⟩
  refine ⟨?_, ?_, ?_, ?_⟩
  · exact wrote_update (a := ⟨hubs, []⟩) (fun _ => .refl) ⟨_, rfl⟩
  · intro copy hcopy
    obtain ⟨c, _, rfl⟩ := hcopies copy hcopy
    rfl
  · intro copy hcopy
    obtain ⟨c, hc, rfl⟩ := hcopies copy hcopy
    obtain ⟨_, t, ht, hroute⟩ := (hcs c).mp hc
    rcases hroute with ⟨hhome, rfl⟩ | ⟨g, hg, _, rfl⟩
    · exact .inr ⟨t, ht, hhome, rfl⟩
    · exact .inl ⟨g, hg, rfl, fun hback => hback.ne hg.ne.symm rfl⟩
  · intro t ht
    have hnot : ¬T.Route (T.home u) t (T.con u) := by
      rw [hA.route_con_iff]
      rintro rfl
      exact hself ht
    exact (serving_write hA hnodup hcs ht
      (⟨some (T.nick hubs u), msg.command, [target, text], true⟩ : Message)).2 hnot

/-- What the neighbour does with a copy. -/
theorem Routed.reads (hA : Agree T hubs) (hts : T.Recipients hubs u target ts)
    (htalk : Talk command target text)
    (ha : Routed T hubs u command target text ts a) (hg : T.graph.Adj b g)
    (hcopy : ⟨b, T.link b g, msg⟩ ∈ a.copies) : ∃ cs : List Conn, cs.Nodup ∧
      (∀ c, c ∈ cs ↔ c ≠ T.link g b ∧ ∃ t ∈ ts, T.Route g t c) ∧
      ∀ hub' out, Reads (a.hubs g) (T.link g b) msg.line hub' out ↔
        out = cs.map (fun c =>
          (c, (⟨some (T.nick hubs u), command, [target, trimEnd text], true⟩ : Message))) ∧
        hub' = { a.hubs g with sent := (a.hubs g).sent ++ out } := by
  have hA' := hA.wrote ha.written
  have hstr := (hA'.links g b hg.symm).2.1
  have hmsg : msg = forwarded T hubs u command target text b := ha.message _ hcopy
  have hparse : parseRawMessage msg.line =
      .ok ⟨some (T.nick hubs u), command, [target, trimEnd text], true⟩ := by
    rw [hmsg]
    exact parse_forwarded hA htalk
  have hsender : (a.hubs g).senderOf (T.link g b)
      ⟨some (T.nick hubs u), command, [target, trimEnd text], true⟩ = some (T.nick a.hubs u) := by
    simp [Hub.senderOf, hstr, Agree.nick_wrote ha.written]
  have hreads := reads_eq hA' (Agree.recipients_wrote hts ha.written) hparse hsender
    (by simp [hstr]) htalk.users rfl
  rwa [Agree.nick_wrote ha.written] at hreads

/-- A step keeps the copies as they should be. -/
theorem Routed.forward (hA : Agree T hubs) (hts : T.Recipients hubs u target ts)
    (htalk : Talk command target text)
    (ha : Routed T hubs u command target text ts a) (hstep : Traffic.Forward T a a') :
    Routed T hubs u command target text ts a' := by
  obtain ⟨b, g, msg, before, after, hub', out, hg, hcopies, hread, rfl⟩ := hstep
  have hcopy : (⟨b, T.link b g, msg⟩ : Copy V) ∈ a.copies := by rw [hcopies]; simp
  obtain ⟨cs, hnodup, hcs, hreads⟩ := ha.reads hA hts htalk hg hcopy
  obtain ⟨rfl, rfl⟩ := (hreads _ _).mp hread
  have hacyclic := hA.tree.isAcyclic
  have haway : ¬Behind T.graph b g (T.home u) := by
    rcases ha.place _ hcopy with ⟨g', hg', heq, haway⟩ | ⟨v, _, hv, heq⟩
    · rwa [hA.link_inj hg hg' heq]
    · have hv : T.home v = b := hv
      subst hv
      exact absurd heq.symm (hA.con_ne_link hg)
  have hgu : g ≠ T.home u := by
    rintro rfl
    exact haway .refl
  have hmem : ∀ copy : Copy V, copy ∈ before ++ after ++ (cs.map (fun c =>
      (c, (⟨some (T.nick hubs u), command, [target, trimEnd text], true⟩ : Message)))).map
        (fun e => ⟨g, e.1, e.2⟩) →
      copy ∈ a.copies ∨ ∃ c ∈ cs, copy = ⟨g, c, forwarded T hubs u command target text g⟩ := by
    intro copy hcopy
    rw [hcopies]
    simp only [List.mem_append, List.mem_map, List.map_map] at hcopy
    rcases hcopy with (hcopy | hcopy) | ⟨c, hc, rfl⟩
    · exact .inl (List.mem_append_left _ hcopy)
    · exact .inl (List.mem_append_right _ (List.mem_cons_of_mem _ hcopy))
    · exact .inr ⟨c, hc, by simp [forwarded, hgu]⟩
  refine ⟨wrote_update ha.written ⟨_, rfl⟩, ?_, ?_, ?_⟩
  · intro copy hcopy
    rcases hmem copy hcopy with hold | ⟨c, _, rfl⟩
    · exact ha.message copy hold
    · rfl
  · intro copy hcopy
    rcases hmem copy hcopy with hold | ⟨c, hc, rfl⟩
    · exact ha.place copy hold
    · obtain ⟨hne, t, ht, hroute⟩ := (hcs c).mp hc
      rcases hroute with ⟨hhome, rfl⟩ | ⟨g', hg', _, rfl⟩
      · exact .inr ⟨t, ht, hhome, rfl⟩
      · refine .inl ⟨g', hg', rfl, ?_⟩
        have hgb : g' ≠ b := by
          rintro rfl
          exact hne rfl
        exact fun hback => haway (hback.trans hacyclic hg hg' hgb)
  · intro t ht
    have honce := ha.once t ht
    have hnew := serving_write hA hnodup hcs ht
      (⟨some (T.nick hubs u), command, [target, trimEnd text], true⟩ : Message)
    -- the copy that is read is for those on the side of the reader, the new ones for the same
    have hside : Serves T t ⟨b, T.link b g, msg⟩ ↔ ¬T.Route g t (T.link g b) := by
      rw [Serves, hA.route_link_iff hg, hA.route_link_iff hg.symm]
      constructor
      · exact fun hb hback => not_behind_both hacyclic hg hb hback
      · exact fun hback => (behind_or_behind hA.tree hg).resolve_right hback
    rw [hcopies, serving_append] at honce
    rw [Traffic.write, serving_append, serving_append]
    by_cases hroute : T.Route g t (T.link g b)
    · rw [serving_cons_of_not fun hserves => hside.mp hserves hroute] at honce
      rw [hnew.1 hroute]
      omega
    · rw [serving_cons_of (hside.mpr hroute)] at honce
      rw [hnew.2 hroute]
      omega

/-- The first message on a link is read. -/
theorem Routed.relay_first (hA : Agree T hubs) (hts : T.Recipients hubs u target ts)
    (htalk : Talk command target text) (ha : Routed T hubs u command target text ts a)
    (hg : T.graph.Adj b g) {ms : List Message} (hon : a.on b (T.link b g) = msg :: ms) :
    ∃ a' out, a.Forward T a' ∧ (a.hubs g).receive (T.link g b)
        ⟨some (T.nick hubs u), command, [target, trimEnd text], true⟩ = .ok (a'.hubs g) ∧
      a.Moves T b g 1 out a' := by
  obtain ⟨⟨copy, rest⟩, hfilter⟩ : ∃ p : Copy V × List (Copy V), (a.copies.filter fun copy =>
      copy.hub = b ∧ copy.con = T.link b g) = p.1 :: p.2 := by
    obtain ⟨copy, rest, hrest, _⟩ := List.map_eq_cons_iff.mp hon
    exact ⟨(copy, rest), hrest⟩
  obtain ⟨before, after, hcopies, hbefore, hcopy, hafter⟩ := List.filter_eq_cons_iff.mp hfilter
  obtain ⟨h, c, m⟩ := copy
  obtain ⟨rfl, rfl⟩ : h = b ∧ c = T.link b g := by simpa using hcopy
  have hmem : (⟨h, T.link h g, m⟩ : Copy V) ∈ a.copies := by rw [hcopies]; simp
  obtain ⟨cs, _, _, hreads⟩ := ha.reads hA hts htalk hg hmem
  obtain ⟨⟨m', hparse, hreceive⟩, hsent⟩ := (hreads _ _).mpr ⟨rfl, rfl⟩
  have hm : m = forwarded T hubs u command target text h := ha.message _ hmem
  have hparsed := parse_forwarded (h := h) (u := u) hA htalk
  rw [← hm] at hparsed
  obtain rfl := Except.ok.inj (hparse.symm.trans hparsed)
  set out := cs.map fun c =>
    (c, (⟨some (T.nick hubs u), command, [target, trimEnd text], true⟩ : Message)) with hout
  set hub' := { a.hubs g with sent := (a.hubs g).sent ++ out } with hhub'
  refine ⟨.write a.hubs (before ++ after) g hub' out, out,
    ⟨h, g, m, before, after, hub', out, hg, hcopies, ⟨⟨_, hparse, hreceive⟩, hsent⟩, rfl⟩, ?_, ?_⟩
  · rw [Traffic.write_hubs_self]
    exact hreceive
  have hothers : ∀ k c, ¬(k = h ∧ c = T.link h g) →
      (⟨a.hubs, before ++ after⟩ : Traffic V).on k c = a.on k c := by
    intro k c hne
    rw [Traffic.on, Traffic.on, hcopies, List.filter_append, List.filter_append,
      List.filter_cons_of_neg]
    simp only [decide_eq_true_eq]
    exact fun heq => hne ⟨heq.1.symm, heq.2.symm⟩
  refine ⟨fun k hk => ?_, ?_, fun c => ?_, ?_, fun k c hk hne => ?_⟩
  · exact Function.update_of_ne hk ..
  · rw [Traffic.write_hubs_self]
  · rw [Traffic.on_write, if_pos rfl, hothers g c fun heq => hg.ne heq.1.symm]
  · rw [Traffic.on_write, if_neg hg.ne, List.append_nil, Traffic.on, Traffic.on, hfilter,
      List.filter_append, hafter, List.filter_eq_nil_iff.mpr fun copy hin => by
        simpa using hbefore copy hin]
    rfl
  · rw [Traffic.on_write, if_neg hk, List.append_nil, hothers k c hne]

/-! ## Fewer servers to get to -/

section Measure

variable [Fintype V]

open Classical in
/-- The servers behind the link that a copy is on. -/
noncomputable def ahead (T : Topology V U) (h : V) (c : Conn) : Finset V :=
  Finset.univ.filter fun x => ∃ g, T.graph.Adj h g ∧ c = T.link h g ∧ Behind T.graph h g x

omit [Locale] [DecidableEq V] in
theorem mem_ahead {x : V} : x ∈ ahead T h c ↔
    ∃ g, T.graph.Adj h g ∧ c = T.link h g ∧ Behind T.graph h g x := by
  simp [ahead]

noncomputable def measure (T : Topology V U) (copies : List (Copy V)) : Nat :=
  (copies.map fun copy => (ahead T copy.hub copy.con).card).sum

/-- The new copies together get to fewer servers than the one that was read. -/
theorem measure_write (hA : Agree T hubs) (hg : T.graph.Adj b g) {cs : List Conn}
    (hnodup : cs.Nodup) (hcs : ∀ c ∈ cs, c ≠ T.link g b) :
    (cs.map fun c => (ahead T g c).card).sum < (ahead T b (T.link b g)).card := by
  classical
  have hacyclic := hA.tree.isAcyclic
  have hdisjoint : ∀ c ∈ cs.toFinset, ∀ d ∈ cs.toFinset, c ≠ d →
      Disjoint (ahead T g c) (ahead T g d) := by
    intro c _ d _ hne
    rw [Finset.disjoint_left]
    intro x hx hy
    obtain ⟨k, hk, rfl, hkx⟩ := mem_ahead.mp hx
    obtain ⟨l, hl, rfl, hlx⟩ := mem_ahead.mp hy
    exact hne (by rw [behind_unique hacyclic hk hl hkx hlx])
  have hsub : cs.toFinset.biUnion (ahead T g) ⊂ ahead T b (T.link b g) := by
    refine Finset.ssubset_iff_subset_ne.mpr ⟨?_, ?_⟩
    · intro x hx
      obtain ⟨c, hc, hx⟩ := Finset.mem_biUnion.mp hx
      obtain ⟨k, hk, rfl, hkx⟩ := mem_ahead.mp hx
      have hkb : k ≠ b := by
        rintro rfl
        exact hcs _ (List.mem_toFinset.mp hc) rfl
      exact mem_ahead.mpr ⟨g, hg, rfl, hkx.trans hacyclic hg hk hkb⟩
    · intro heq
      have hself : g ∈ ahead T b (T.link b g) := mem_ahead.mpr ⟨g, hg, rfl, .refl⟩
      rw [← heq] at hself
      obtain ⟨c, _, hx⟩ := Finset.mem_biUnion.mp hself
      obtain ⟨k, hk, _, hkg⟩ := mem_ahead.mp hx
      exact hkg.ne hk.ne.symm rfl
  calc
    (cs.map fun c => (ahead T g c).card).sum
        = ∑ c ∈ cs.toFinset, (ahead T g c).card := (List.sum_toFinset _ hnodup).symm
    _ = (cs.toFinset.biUnion (ahead T g)).card := (Finset.card_biUnion hdisjoint).symm
    _ < (ahead T b (T.link b g)).card := Finset.card_lt_card hsub

theorem Routed.measure_lt (hA : Agree T hubs) (hts : T.Recipients hubs u target ts)
    (htalk : Talk command target text)
    (ha : Routed T hubs u command target text ts a) (hstep : Traffic.Forward T a a') :
    measure T a'.copies < measure T a.copies := by
  obtain ⟨b, g, msg, before, after, hub', out, hg, hcopies, hread, rfl⟩ := hstep
  have hcopy : (⟨b, T.link b g, msg⟩ : Copy V) ∈ a.copies := by rw [hcopies]; simp
  obtain ⟨cs, hnodup, hcs, hreads⟩ := ha.reads hA hts htalk hg hcopy
  obtain ⟨rfl, rfl⟩ := (hreads _ _).mp hread
  have hlt := measure_write hA hg hnodup fun c hc => ((hcs c).mp hc).1
  rw [hcopies, Traffic.write]
  simp only [measure, List.map_append, List.map_cons, List.map_map, List.sum_append, List.sum_cons,
    Function.comp_def]
  omega

/-- The first messages on a link are read one after another. -/
theorem Routed.relay (hA : Agree T hubs) (hts : T.Recipients hubs u target ts)
    (htalk : Talk command target text) (ha : Routed T hubs u command target text ts a)
    (hg : T.graph.Adj b g) {n : Nat} (hn : n ≤ (a.on b (T.link b g)).length) :
    ∃ a' out, (List.replicate n
        (⟨some (T.nick hubs u), command, [target, trimEnd text], true⟩ : Message)).foldlM
          (fun hub message => hub.receive (T.link g b) message) (a.hubs g) = .ok (a'.hubs g) ∧
      a.Moves T b g n out a' ∧ Routed T hubs u command target text ts a' ∧
      (n = 0 ∧ a' = a ∨ measure T a'.copies < measure T a.copies) := by
  induction n generalizing a with
  | zero => exact ⟨a, [], rfl, .refl, ha, .inl ⟨rfl, rfl⟩⟩
  | succ n ih =>
    obtain ⟨msg, ms, hon⟩ := List.exists_cons_of_ne_nil
      (List.ne_nil_of_length_pos (Nat.lt_of_lt_of_le n.succ_pos hn))
    obtain ⟨a₁, out, hstep, hok, hmoves⟩ := ha.relay_first hA hts htalk hg hon
    have hlt := ha.measure_lt hA hts htalk hstep
    have hleft : n ≤ (a₁.on b (T.link b g)).length := by
      rw [hmoves.read, List.length_drop]
      omega
    obtain ⟨a', out', hfold, hmoves', ha', hless⟩ := ih (ha.forward hA hts htalk hstep) hleft
    refine ⟨a', out ++ out', ?_, ?_, ha', .inr ?_⟩
    · rw [List.replicate_succ, List.foldlM_cons]
      exact bind_eq_ok_iff.mpr ⟨_, hok, hfold⟩
    · rw [Nat.add_comm n 1]
      exact hmoves.trans hmoves'
    · rcases hless with ⟨_, rfl⟩ | hless
      · exact hlt
      · exact hless.trans hlt

end Measure

/-! ## The end -/

end Routed

end MyLifeHome.Irc
