import MyLifeHome.Irc.Reading
import MyLifeHome.Irc.Commands
import MyLifeHome.Library.Utf8
import Mathlib.Algebra.Order.Ring.Nat

/-!
# Packets

What comes over the network is cut anywhere. The parser decodes every packet on its own and keeps
the text after the last end of a line for the next one.
-/
namespace MyLifeHome.Irc

open Checked Utf8

section

variable [Locale]

/-- The messages that the handler is given, and the text that is left, or the exception. -/
structure Delivery where
  messages : List Message
  ending : Except Fault (List Char)

namespace Delivery

/-- What follows has the text that is left, unless there was an exception. -/
def andThen (d : Delivery) (next : List Char → Delivery) : Delivery :=
  match d.ending with
  | .error fault => ⟨d.messages, .error fault⟩
  | .ok rest => ⟨d.messages ++ (next rest).messages, (next rest).ending⟩

omit [Locale] in
theorem andThen_assoc (d : Delivery) (f g : List Char → Delivery) :
    (d.andThen f).andThen g = d.andThen fun rest => (f rest).andThen g := by
  obtain ⟨messages, fault | rest⟩ := d
  · rfl
  · rcases hf : f rest with ⟨more, fault | rest'⟩ <;> simp [andThen, hf]

end Delivery

namespace Parser

def parseLines (rest : List Char) : List (List Char) → Delivery
  | [] => ⟨[], .ok rest⟩
  | rawmsg :: more =>
    match parseRawMessage rawmsg with
    | .error fault => ⟨[], .error fault⟩
    | .ok message => Delivery.andThen ⟨[message], .ok rest⟩ fun _ => parseLines rest more

def readData (buffer : List Char) (data : List UInt8) : Delivery :=
  let (rawmsgs, rest) := Hub.lines (buffer ++ decode data)
  parseLines rest rawmsgs

/-- One call after another, until one throws. -/
def readAll (buffer : List Char) : List (List UInt8) → Delivery
  | [] => ⟨[], .ok buffer⟩
  | data :: more => (readData buffer data).andThen fun buffer => readAll buffer more

variable {xs ys buffer rest line : List Char} {chunks : List (List UInt8)}
  {rawmsgs more : List (List Char)} {message : Message} {messages : List Message}

/-! ## Lines -/

section

omit [Locale]

theorem splitOnP_append {p : Char → Bool} (xs ys : List Char) :
    (xs ++ ys).splitOnP p =
      (xs.splitOnP p).dropLast ++ ((xs.splitOnP p).getLastD [] ++ ys).splitOnP p := by
  induction xs with
  | nil => simp
  | cons x xs ih =>
    have hne : xs.splitOnP p ≠ [] := List.splitOnP_ne_nil p xs
    rw [List.cons_append, List.splitOnP_cons_eq_if_modifyHead, List.splitOnP_cons_eq_if_modifyHead, ih]
    obtain ⟨l, ls, hpieces⟩ := List.exists_cons_of_ne_nil hne
    rw [hpieces]
    split_ifs with hx
    · simp
    · cases ls with
      | nil => simp [List.splitOnP_cons_eq_if_modifyHead, hx]
      | cons m ls => simp

theorem lines_append (xs ys : List Char) :
    Hub.lines (xs ++ ys) =
      ((Hub.lines xs).1 ++ (Hub.lines ((Hub.lines xs).2 ++ ys)).1,
        (Hub.lines ((Hub.lines xs).2 ++ ys)).2) := by
  simp only [Hub.lines]
  rw [splitOnP_append]
  set more := (List.splitOnP (fun c => decide (c = '\r') || decide (c = '\n'))
    ((xs.splitOnP fun c => decide (c = '\r') || decide (c = '\n')).getLastD [] ++ ys))
  have hne : more ≠ [] := List.splitOnP_ne_nil _ _
  rw [List.dropLast_append_of_ne_nil hne, List.filter_append]
  obtain ⟨l, ls, hmore⟩ := List.exists_cons_of_ne_nil hne
  rw [hmore]
  cases hlast : (l :: ls).getLast? with
  | none => simp at hlast
  | some last => simp [List.getLastD_eq_getLast?, hlast]

/-- A line, or the text that is left, does not go over an end of a line. -/
theorem notMem_of_mem_splitOnP {p : Char → Bool} {w : List Char} (h : w ∈ xs.splitOnP p) {c : Char}
    (hc : c ∈ w) : p c = false := by
  induction xs generalizing w with
  | nil => simp_all
  | cons x xs ih =>
    rw [List.splitOnP_cons_eq_if_modifyHead] at h
    obtain ⟨l, ls, hpieces⟩ := List.exists_cons_of_ne_nil (List.splitOnP_ne_nil p xs)
    rw [hpieces] at h ih
    split_ifs at h with hx
    · rcases List.mem_cons.mp h with rfl | h
      · simp at hc
      · exact ih h hc
    · rcases List.mem_cons.mp h with rfl | h
      · rcases List.mem_cons.mp hc with rfl | hc
        · simpa using hx
        · exact ih List.mem_cons_self hc
      · exact ih (List.mem_cons_of_mem _ h) hc

end

def isTerminator (c : Char) : Bool := c = '\r' || c = '\n'

section

omit [Locale]

theorem notMem_of_mem_lines (h : line ∈ (Hub.lines xs).1) {c : Char} (hc : c ∈ line) :
    isTerminator c = false :=
  notMem_of_mem_splitOnP (List.dropLast_subset _ (List.mem_filter.mp h).1) hc

theorem notMem_rest {c : Char} (hc : c ∈ (Hub.lines xs).2) : isTerminator c = false := by
  obtain ⟨l, ls, hpieces⟩ := List.exists_cons_of_ne_nil (List.splitOnP_ne_nil isTerminator xs)
  have hrest : (Hub.lines xs).2 = (xs.splitOnP isTerminator).getLastD [] := rfl
  have hmem : (Hub.lines xs).2 ∈ xs.splitOnP isTerminator := by
    rw [hrest, hpieces, List.getLastD_cons]
    exact List.getLastD_mem_cons ..
  exact notMem_of_mem_splitOnP hmem hc

theorem lines_of_notMem (h : ∀ c ∈ xs, isTerminator c = false) : Hub.lines xs = ([], xs) := by
  have hpieces : xs.splitOnP isTerminator = [xs] := List.splitOnP_eq_singleton h
  have hlines : Hub.lines xs = ((xs.splitOnP isTerminator).dropLast.filter (· ≠ []),
    (xs.splitOnP isTerminator).getLastD []) := rfl
  rw [hlines, hpieces]
  rfl

end

/-! ## Packets -/

theorem parseLines_andThen {f : List Char → Delivery} {rest' : List Char}
    (hf : f rest = parseLines rest' more) :
    (parseLines rest rawmsgs).andThen f = parseLines rest' (rawmsgs ++ more) := by
  induction rawmsgs with
  | nil =>
    simp [parseLines, Delivery.andThen, hf]
  | cons rawmsg rawmsgs ih =>
    rw [List.cons_append, parseLines, parseLines]
    split
    · rfl
    · rw [Delivery.andThen_assoc, ih]
      rfl

/-- What is delivered depends on the text of the packets. -/
theorem readAll_eq (hbuffer : Hub.lines buffer = ([], buffer)) (chunks : List (List UInt8)) :
    readAll buffer chunks = parseLines (Hub.lines (buffer ++ decodeEach chunks)).2
      (Hub.lines (buffer ++ decodeEach chunks)).1 := by
  induction chunks generalizing buffer with
  | nil =>
    have hnil : buffer ++ decodeEach [] = buffer := List.append_nil _
    rw [hnil, hbuffer]
    rfl
  | cons data chunks ih =>
    rw [decodeEach_cons, ← List.append_assoc, lines_append]
    have hrest : Hub.lines (Hub.lines (buffer ++ decode data)).2 =
        ([], (Hub.lines (buffer ++ decode data)).2) := lines_of_notMem fun c hc => notMem_rest hc
    exact parseLines_andThen (ih hrest)

end Parser

/-! ## What a message keeps of its line -/

/-- The characters of a message that are not in ASCII. -/
def Message.wide (msg : Message) : Nat :=
  Utf8.wide (msg.sender.getD "").toList + Utf8.wide msg.command.toList +
    (msg.params.map fun p => Utf8.wide p.toList).sum

variable {msg msg' : Message} {cs rest line : List Char} {c : Char} {sender : Option String}
  {p : String} {text : Option String}

section

omit [Locale]

theorem wide_cons (c : Char) (cs : List Char) : wide (c :: cs) = wide [c] + wide cs := by
  rw [← wide_append, List.singleton_append]

theorem wide_cons_ascii (hc : c.val ≤ 127) : wide (c :: cs) = wide cs := by
  rw [wide, List.countP_cons_of_neg (by simpa using hc)]
  rfl

theorem Message.wide_appendParameter (hok : msg.appendParameter p = .ok msg') :
    msg'.wide = msg.wide + Utf8.wide p.toList := by
  unfold Message.appendParameter at hok
  split_ifs at hok
  obtain rfl := Except.ok.inj hok
  simp [Message.wide]
  omega

theorem Message.wide_appendLastParameter (hok : msg.appendLastParameter (some p) = .ok msg') :
    msg'.wide = msg.wide + Utf8.wide p.toList := by
  unfold Message.appendLastParameter at hok
  split_ifs at hok
  obtain rfl := Except.ok.inj hok
  simp [Message.wide]
  omega

theorem takeWhile_eq_self_of_dropWhile (h : cs.dropWhile (· ≠ ' ') = []) :
    cs.takeWhile (· ≠ ' ') = cs := by
  have hsplit := List.takeWhile_append_dropWhile (p := fun x : Char => decide (x ≠ ' ')) (l := cs)
  rwa [h, List.append_nil] at hsplit

/-- The loop over the parameters, by what it finds in front. -/
theorem parseParameters_rule {P : Message → List Char → Message → Prop}
    (colon : ∀ {msg cs msg'}, msg.appendLastParameter (some (String.ofList cs)) = .ok msg' →
      P msg (':' :: cs) msg')
    (word : ∀ {msg cs msg'}, msg.appendParameter (String.ofList cs) = .ok msg' → P msg cs msg')
    (blank : ∀ {msg cs msg'}, P msg cs msg' → P msg (' ' :: cs) msg')
    (param : ∀ {msg word cs m msg'}, msg.appendParameter (String.ofList word) = .ok m →
      P m cs msg' → P msg (word ++ ' ' :: cs) msg')
    (hok : parseParameters msg cs = .ok msg') : P msg cs msg' := by
  induction hn : cs.length using Nat.strong_induction_on generalizing msg cs with
  | _ n ih =>
    by_cases hcolon : cs.head? = some ':'
    · obtain ⟨cs, rfl⟩ : ∃ tail, cs = ':' :: tail := ⟨cs.tail, (List.cons_head?_tail hcolon).symm⟩
      rw [parseParameters_colon] at hok
      exact colon hok
    cases hdrop : cs.dropWhile (· ≠ ' ') with
    | nil =>
      rw [parseParameters_end hcolon hdrop, takeWhile_eq_self_of_dropWhile hdrop] at hok
      exact word hok
    | cons b rest =>
      obtain ⟨hsplit, _⟩ := eq_append_of_dropWhile hdrop
      have hlen := congrArg List.length hsplit
      rw [List.length_append, List.length_cons] at hlen
      rw [parseParameters_blank hcolon hdrop] at hok
      rw [hsplit]
      split_ifs at hok with hnil
      · rw [hnil]
        exact blank (ih _ (by omega) hok rfl)
      · obtain ⟨m, hm, hok⟩ := bind_eq_ok_iff.mp hok
        exact param hm (ih _ (by omega) hok rfl)

theorem wide_parseParameters (hok : parseParameters msg cs = .ok msg') :
    msg'.wide = msg.wide + wide cs := by
  refine parseParameters_rule (P := fun msg cs msg' => msg'.wide = msg.wide + wide cs)
    ?_ ?_ ?_ ?_ hok
  · intro msg cs msg' hok
    rw [Message.wide_appendLastParameter hok, wide_cons_ascii (by decide), String.toList_ofList]
  · intro msg cs msg' hok
    rw [Message.wide_appendParameter hok, String.toList_ofList]
  · intro msg cs msg' hwide
    rw [hwide, wide_cons_ascii (by decide)]
  · intro msg word cs m msg' hok hwide
    rw [hwide, Message.wide_appendParameter hok, String.toList_ofList, wide_append,
      wide_cons_ascii (by decide)]
    omega

end

theorem wide_parseMessage (hok : parseMessage sender cs = .ok msg) :
    msg.wide = wide (sender.getD "").toList + wide cs := by
  obtain ⟨m, hm, hok⟩ := bind_eq_ok_iff.mp hok
  obtain ⟨ok, _, hm⟩ := bind_eq_ok_iff.mp hm
  have hmwide : m.wide = wide (sender.getD "").toList + wide (cs.takeWhile (· ≠ ' ')) := by
    split_ifs at hm
    obtain rfl := Except.ok.inj hm
    simp [Message.wide, Message.make]
  split at hok
  · rename_i hdrop
    obtain rfl := Except.ok.inj hok
    rw [hmwide, takeWhile_eq_self_of_dropWhile hdrop]
  · rename_i b rest hdrop
    obtain ⟨hsplit, _⟩ := eq_append_of_dropWhile hdrop
    have hwide : wide cs = wide (cs.takeWhile (· ≠ ' ')) + wide rest := by
      conv_lhs => rw [hsplit]
      rw [wide_append, wide_cons_ascii (by decide)]
    rw [wide_parseParameters hok, hmwide, hwide]
    omega

section

omit [Locale]

theorem wide_dropWhile_blank : wide (cs.dropWhile (· ≤ ' ')) = wide cs := by
  induction cs with
  | nil => rfl
  | cons c cs ih =>
    by_cases hc : c ≤ ' '
    · rw [List.dropWhile_cons_of_pos (by simpa using hc), ih, wide_cons_ascii]
      have hval : c.val ≤ 32 := hc
      exact UInt32.le_trans hval (by decide)
    · rw [List.dropWhile_cons_of_neg (by simpa using hc)]

theorem wide_reverse : wide cs.reverse = wide cs := List.countP_reverse

theorem wide_trim : wide (trim cs) = wide cs := by
  rw [trim, wide_reverse, wide_dropWhile_blank, wide_reverse, wide_dropWhile_blank]

end

theorem wide_parseRawMessage (hok : parseRawMessage line = .ok msg) : msg.wide = wide line := by
  rw [← wide_trim]
  unfold parseRawMessage at hok
  split at hok
  · cases hok
  · cases hok
  · rename_i c cs hline
    split at hok
    · cases hok
    · rename_i b rest hdrop
      obtain ⟨hsplit, _⟩ := eq_append_of_dropWhile hdrop
      have hwide : wide (c :: cs) = wide (c :: cs.takeWhile (· ≠ ' ')) + wide rest := by
        conv_lhs => rw [hsplit]
        rw [← List.cons_append, wide_append, wide_cons_ascii (c := ' ') (by decide)]
      rw [wide_parseMessage hok, hline, wide_cons_ascii (by decide), hwide]
      simp
  · rw [wide_parseMessage hok]
    simp [wide]

/-! ## Independence of the packets -/

namespace Parser

section

omit [Locale]

theorem wide_splitOnP {p : Char → Bool} (hp : ∀ c, p c → c.val ≤ 127) (xs : List Char) :
    ((xs.splitOnP p).map wide).sum = wide xs := by
  induction xs with
  | nil => simp
  | cons x xs ih =>
    rw [List.splitOnP_cons_eq_if_modifyHead]
    obtain ⟨l, ls, hpieces⟩ := List.exists_cons_of_ne_nil (List.splitOnP_ne_nil p xs)
    rw [hpieces] at ih ⊢
    split_ifs with hx
    · rw [wide_cons_ascii (hp x hx), ← ih]
      simp [wide]
    · rw [wide_cons x xs, ← ih, List.modifyHead_cons]
      simp only [List.map_cons, List.sum_cons, wide_cons x l]
      omega

theorem wide_filter_ne_nil (ls : List (List Char)) :
    ((ls.filter (· ≠ [])).map wide).sum = (ls.map wide).sum := by
  induction ls with
  | nil => rfl
  | cons l ls ih =>
    by_cases hl : l = []
    · rw [List.filter_cons_of_neg (by simpa using hl), ih, hl]
      simp [wide]
    · rw [List.filter_cons_of_pos (by simpa using hl), List.map_cons, List.sum_cons, ih]
      rfl

theorem wide_lines (xs : List Char) :
    ((Hub.lines xs).1.map wide).sum + wide (Hub.lines xs).2 = wide xs := by
  have hlines : Hub.lines xs = ((xs.splitOnP isTerminator).dropLast.filter (· ≠ []),
    (xs.splitOnP isTerminator).getLastD []) := rfl
  have hterm : ∀ c, isTerminator c → c.val ≤ 127 := by
    intro c hc
    have hcases : c = '\r' ∨ c = '\n' := by simpa [isTerminator] using hc
    rcases hcases with rfl | rfl <;> decide
  have hne := List.splitOnP_ne_nil isTerminator xs
  rw [hlines, wide_filter_ne_nil, ← wide_splitOnP hterm xs, ← List.dropLast_append_getLast hne]
  rw [List.map_append, List.sum_append, List.dropLast_concat, List.getLastD_concat]
  simp

end

end Parser

/-- The same of all that has come out of the parser, and of what is left in it. -/
def Delivery.wide (d : Delivery) : Nat :=
  (d.messages.map Message.wide).sum +
    match d.ending with
    | .error _ => 0
    | .ok rest => Utf8.wide rest

namespace Parser

theorem wide_parseLines (hok : (parseLines rest rawmsgs).ending = .ok cs) :
    (parseLines rest rawmsgs).wide = (rawmsgs.map wide).sum + wide rest := by
  induction rawmsgs with
  | nil => simp [parseLines, Delivery.wide]
  | cons rawmsg rawmsgs ih =>
    rw [parseLines] at hok ⊢
    split at hok
    · cases hok
    · rename_i message hmessage
      have hrest := ih hok
      have hwide := wide_parseRawMessage hmessage
      simp only [Delivery.andThen, Delivery.wide, List.map_append, List.sum_append, List.map_cons,
        List.map_nil, List.sum_cons, List.sum_nil, hwide] at hrest ⊢
      omega

/-- The hub receives the messages one after another. -/
theorem hub_readData_eq_ok_iff {hub hub' : Hub} {src : Conn} {data : List UInt8} :
    hub.readData src buffer data = .ok (hub', rest) ↔
      (readData buffer data).ending = .ok rest ∧
      (readData buffer data).messages.foldlM (fun hub message => hub.receive src message) hub =
        .ok hub' := by
  unfold Hub.readData readData
  obtain ⟨rawmsgs, text⟩ := Hub.lines (buffer ++ decode data)
  dsimp only
  induction rawmsgs generalizing hub with
  | nil =>
    simp [parseLines, pure, Except.pure, bind, Except.bind]
    tauto
  | cons rawmsg rawmsgs ih =>
    rw [parseLines, List.foldlM_cons]
    cases hparse : parseRawMessage rawmsg with
    | error fault => simp [bind, Except.bind]
    | ok message =>
      have hrest : Delivery.andThen ⟨[message], .ok text⟩ (fun _ => parseLines text rawmsgs) =
          ⟨message :: (parseLines text rawmsgs).messages, (parseLines text rawmsgs).ending⟩ := rfl
      dsimp only
      rw [hrest, List.foldlM_cons]
      cases hreceive : hub.receive src message with
      | error fault => simp [hreceive, bind, Except.bind]
      | ok hub₁ => simpa [hreceive, bind, Except.bind] using ih

/-- The lines of the text are such as the parser can read. -/
def WellFormed (text : List Char) : Prop := ∀ line ∈ (Hub.lines text).1, Legible line

theorem ending_parseLines (h : ∀ line ∈ rawmsgs, Legible line) :
    (parseLines rest rawmsgs).ending = .ok rest := by
  induction rawmsgs with
  | nil => rfl
  | cons rawmsg rawmsgs ih =>
    obtain ⟨hfirst, hrest⟩ := List.forall_mem_cons.mp h
    obtain ⟨message, hmessage⟩ := succeeds_parseRawMessage_iff.mpr hfirst
    rw [parseLines, hmessage]
    exact ih hrest

variable {text : List Char} {chunks₁ chunks₂ : List (List UInt8)}

theorem readAll_nil (chunks : List (List UInt8)) : readAll [] chunks =
    parseLines (Hub.lines (decodeEach chunks)).2 (Hub.lines (decodeEach chunks)).1 :=
  readAll_eq (lines_of_notMem (by simp)) chunks

theorem wide_readAll (hok : (readAll [] chunks).ending = .ok cs) :
    (readAll [] chunks).wide = wide (decodeEach chunks) := by
  rw [readAll_nil] at hok ⊢
  rw [wide_parseLines hok, wide_lines]

/-- Compared with packets that cut no character. -/
theorem readAll_eq_iff_whole (htext : WellFormed text) (h₁ : chunks₁.flatten = encode text)
    (h₂ : chunks₂.flatten = encode text) (hwhole : Whole chunks₁) :
    readAll [] chunks₁ = readAll [] chunks₂ ↔ Whole chunks₂ := by
  have htext₁ := decodeEach_of_whole hwhole h₁
  constructor
  · intro heq
    by_contra hcut
    have hlt := wide_lt_decodeEach hcut h₂
    have hok : (readAll [] chunks₁).ending = .ok (Hub.lines text).2 := by
      rw [readAll_nil, htext₁]
      exact ending_parseLines htext
    have hwide₁ := wide_readAll hok
    rw [heq] at hok hwide₁
    rw [wide_readAll hok, htext₁] at hwide₁
    omega
  · intro hwhole₂
    rw [readAll_nil, readAll_nil, htext₁, decodeEach_of_whole hwhole₂ h₂]

/-- Packets that cut no character are read alike, and unlike others; so only a text in ASCII can
be cut anywhere. -/
theorem independent_iff (text : List Char) (htext : WellFormed text) :
    (∀ chunks₁ chunks₂, chunks₁.flatten = encode text → chunks₂.flatten = encode text →
      Whole chunks₁ → (readAll [] chunks₁ = readAll [] chunks₂ ↔ Whole chunks₂)) ∧
    ((∀ chunks₁ chunks₂, chunks₁.flatten = encode text → chunks₂.flatten = encode text →
      readAll [] chunks₁ = readAll [] chunks₂) ↔ wide text = 0) := by
  refine ⟨fun chunks₁ chunks₂ h₁ h₂ => readAll_eq_iff_whole htext h₁ h₂, ?_⟩
  rw [← forall_whole_iff]
  constructor
  · intro hall chunks hflat
    have hone : Whole [encode text] := List.forall_mem_cons.mpr ⟨⟨text, rfl⟩, by simp⟩
    have honeflat : [encode text].flatten = encode text := by simp
    exact (readAll_eq_iff_whole htext honeflat hflat hone).mp (hall _ _ honeflat hflat)
  · intro hall chunks₁ chunks₂ h₁ h₂
    exact (readAll_eq_iff_whole htext h₁ h₂ (hall chunks₁ h₁)).mpr (hall chunks₂ h₂)

end Parser

end

namespace Parser

theorem wellFormed_accent : WellFormed "PING é\r\n".toList := by
  have hlines : (Hub.lines "PING é\r\n".toList).1 = ["PING é".toList] := by decide
  rw [WellFormed, hlines]
  refine List.forall_mem_singleton.mpr (succeeds_parseRawMessage_iff.mp ?_)
  exact ⟨⟨none, "PING", ["é"], false⟩, by decide +kernel⟩

/-- A line with an accent cannot be cut anywhere. -/
theorem independent_accent : ¬∀ chunks₁ chunks₂, chunks₁.flatten = encode "PING é\r\n".toList →
    chunks₂.flatten = encode "PING é\r\n".toList → readAll [] chunks₁ = readAll [] chunks₂ := by
  rw [(independent_iff "PING é\r\n".toList wellFormed_accent).2]
  decide

/-- The first byte of the accent comes in one packet, the second in the next. -/
theorem not_independent : ¬∀ text, WellFormed text → ∀ chunks₁ chunks₂,
    chunks₁.flatten = encode text → chunks₂.flatten = encode text →
      readAll [] chunks₁ = readAll [] chunks₂ := by
  intro h
  have hsame := h _ wellFormed_accent [encode "PING é\r\n".toList]
    [encode "PING ".toList ++ [0xC3], [0xA9, 0x0D, 0x0A]] (by decide +kernel) (by decide +kernel)
  have hmessages := congrArg Delivery.messages hsame
  revert hmessages
  decide +kernel

end Parser

end MyLifeHome.Irc

