import MyLifeHome.Irc.Written

/-!
# What one hub writes and another reads

A hub writes bytes to its connections, and what is at the other end of one reads them in packets.
When no packet cuts a character, the lines that have been read are those of the first messages that
were written, and the bytes that are left make up the others.
-/
namespace MyLifeHome.Irc

open Checked Utf8

/-- The message as a line. -/
def Message.line (msg : Message) : List Char := (writeMessage msg).toList

/-- The line is read as one. -/
structure Message.OneLine (msg : Message) : Prop where
  ne_nil : msg.line ≠ []
  notMem : ∀ c ∈ msg.line, Parser.isTerminator c = false

/-- What the hub has written to the connection. -/
def Hub.bytes (hub : Hub) (c : Conn) : List UInt8 :=
  (hub.sent.filter fun e => e.1 = c).flatMap fun e => Parser.writeMessage e.2

/-- What has been written to the connection since. -/
def Hub.written (hub hub' : Hub) (d : Conn) : List Message :=
  ((hub'.sent.drop hub.sent.length).filter fun e => e.1 = d).map Prod.snd

/-- What has been read of a line and the bytes that are left spell the messages. -/
structure Spells (buffer : List Char) (data : List UInt8) (msgs : List Message) : Prop where
  started : ∀ c ∈ buffer, Parser.isTerminator c = false
  whole : encode (decode data) = data
  lines : Hub.lines (buffer ++ decode data) = (msgs.map Message.line, [])

variable {hub hub' : Hub} {c : Conn} {out : List (Conn × Message)} {msgs more : List Message}
  {buffer rest : List Char} {data packet : List UInt8}

/-! ## Writing -/

theorem bytes_append (h : hub'.sent = hub.sent ++ out) : hub'.bytes c =
    hub.bytes c ++ ((out.filter fun e => e.1 = c).map Prod.snd).flatMap Parser.writeMessage := by
  rw [Hub.bytes, Hub.bytes, h, List.filter_append, List.flatMap_append, List.flatMap_map]

theorem flatMap_writeMessage : msgs.flatMap Parser.writeMessage =
    encode (msgs.flatMap fun msg => msg.line ++ ['\r', '\n']) := by
  induction msgs with
  | nil => rfl
  | cons msg msgs ih =>
    rw [List.flatMap_cons, List.flatMap_cons, encode_append, ih]
    rfl

theorem lines_flatMap (h : ∀ msg ∈ msgs, msg.OneLine) :
    Hub.lines (msgs.flatMap fun msg => msg.line ++ ['\r', '\n']) = (msgs.map Message.line, []) := by
  induction msgs with
  | nil => rfl
  | cons msg msgs ih =>
    obtain ⟨hmsg, hmsgs⟩ := List.forall_mem_cons.mp h
    have hone := lines_terminated hmsg.ne_nil hmsg.notMem
    rw [List.flatMap_cons, Parser.lines_append]
    simp only [hone, List.nil_append, ih hmsgs, List.map_cons, List.singleton_append]

/-! ## Reading -/

theorem parseLines_map [Locale] {f : Message → Message}
    (hparse : ∀ msg ∈ msgs, parseRawMessage msg.line = .ok (f msg)) :
    Parser.parseLines rest (msgs.map Message.line) = ⟨msgs.map f, .ok rest⟩ := by
  induction msgs with
  | nil => rfl
  | cons msg msgs ih =>
    obtain ⟨hmsg, hmsgs⟩ := List.forall_mem_cons.mp hparse
    rw [List.map_cons, Parser.parseLines, hmsg, ih hmsgs]
    rfl

namespace Spells

theorem nil : Spells [] [] [] := ⟨by simp, rfl, rfl⟩

/-- Messages are written behind the others. -/
theorem write (h : Spells buffer data msgs) (hmore : ∀ msg ∈ more, msg.OneLine) :
    Spells buffer (data ++ more.flatMap Parser.writeMessage) (msgs ++ more) := by
  have hdecode : decode (data ++ more.flatMap Parser.writeMessage) =
      decode data ++ more.flatMap fun msg => msg.line ++ ['\r', '\n'] := by
    conv_lhs => rw [← h.whole, flatMap_writeMessage, decode_encode_append, decode_encode]
  refine ⟨h.started, ?_, ?_⟩
  · rw [hdecode, encode_append, h.whole, flatMap_writeMessage]
  · rw [hdecode, ← List.append_assoc, Parser.lines_append, h.lines]
    simp only [List.nil_append, lines_flatMap hmore, List.map_append]

/-- A packet that cuts no character has the lines of the first messages. -/
theorem read [Locale] (h : Spells buffer (packet ++ data) msgs) (hwhole : Whole [packet])
    (f : Message → Message) (hparse : ∀ msg ∈ msgs, parseRawMessage msg.line = .ok (f msg)) :
    ∃ n rest, n ≤ msgs.length ∧
      Parser.readData buffer packet = ⟨(msgs.take n).map f, .ok rest⟩ ∧
      Spells rest data (msgs.drop n) := by
  obtain ⟨⟨rawmsgs, rest⟩, hlines⟩ : ∃ p, Hub.lines (buffer ++ decode packet) = p := ⟨_, rfl⟩
  obtain ⟨cs, rfl⟩ := hwhole packet List.mem_cons_self
  have hchars := h.whole
  have hall := h.lines
  rw [decode_encode_append, encode_append] at hchars
  rw [decode_encode_append, ← List.append_assoc, Parser.lines_append, ← decode_encode cs, hlines] at hall
  dsimp only at hall
  obtain ⟨hmessages, hend⟩ := Prod.mk.inj hall
  have hlength := congrArg List.length hmessages
  rw [List.length_append, List.length_map] at hlength
  have hfirst : rawmsgs = (msgs.take rawmsgs.length).map Message.line := by
    rw [List.map_take, ← hmessages, List.take_left]
  refine ⟨rawmsgs.length, rest, by omega, ?_, ⟨fun c hc => Parser.notMem_rest (by rw [hlines]; exact hc),
    List.append_cancel_left hchars, Prod.ext ?_ hend⟩⟩
  · unfold Parser.readData
    rw [hlines]
    dsimp only
    conv_lhs => rw [hfirst]
    exact parseLines_map fun msg hmsg => hparse msg (List.mem_of_mem_take hmsg)
  · rw [List.map_drop, ← hmessages, List.drop_left]

/-- When all has been read, all messages have been. -/
theorem eq_nil (h : Spells buffer [] msgs) : msgs = [] := by
  have hlines := h.lines
  rw [show decode [] = [] from rfl, List.append_nil, Parser.lines_of_notMem h.started] at hlines
  exact List.map_eq_nil_iff.mp (Prod.mk.inj hlines).1.symm

theorem whole_of_left (h : Spells buffer data msgs) : Whole [data] :=
  List.forall_mem_singleton.mpr ⟨decode data, h.whole.symm⟩

end Spells

end MyLifeHome.Irc
