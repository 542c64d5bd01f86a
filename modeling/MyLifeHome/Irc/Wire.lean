import MyLifeHome.Irc.Protocol
import MyLifeHome.Library.Checked
import Mathlib.Data.List.Basic

/-!
# What is read of a message that was written

The parser makes messages of which only the last parameter may be any text. When such a message
is written and read again, it is the same but for the end of the line, which loses the characters
up to the blank.
-/
namespace MyLifeHome.Irc

open Checked

variable [Locale]

/-! ## Well-formed messages -/

/-- Only the last parameter may be any text. -/
structure Message.WellFormed (msg : Message) : Prop where
  command : ' ' ∉ msg.command.toList
  identifier : isCommandIdentifier msg.command = .ok true
  params : ∀ p ∈ msg.params.dropLast, isParameter p
  last : msg.hasLast = false → ∀ p ∈ msg.params, isParameter p

omit [Locale] in
theorem isParameter_iff {p : String} :
    isParameter p ↔ p ≠ "" ∧ p.toList.head? ≠ some ':' ∧ ' ' ∉ p.toList := by
  simp [isParameter, and_assoc]

namespace Message.WellFormed

variable {msg msg' : Message} {p : String} {text : Option String}

theorem appendParameter (h : msg.WellFormed) (hok : msg.appendParameter p = .ok msg') :
    msg'.WellFormed := by
  unfold Message.appendParameter at hok
  split_ifs at hok with hlast hp
  obtain rfl := Except.ok.inj hok
  have hlast : msg.hasLast = false := by simpa using hlast
  have hall : ∀ q ∈ msg.params ++ [p], isParameter q := by
    intro q hq
    rcases List.mem_append.mp hq with hq | hq
    · exact h.last hlast q hq
    · rwa [List.mem_singleton.mp hq]
  exact ⟨h.command, h.identifier, fun q hq => hall q (List.dropLast_subset _ hq),
    fun _ => hall⟩

theorem appendLastParameter (h : msg.WellFormed) (hok : msg.appendLastParameter text = .ok msg') :
    msg'.WellFormed := by
  unfold Message.appendLastParameter at hok
  split_ifs at hok with hlast
  obtain rfl := Except.ok.inj hok
  refine ⟨h.command, h.identifier, ?_, fun hno => absurd hno (by simp)⟩
  intro q hq
  rw [List.dropLast_concat] at hq
  exact h.last (by simpa using hlast) q hq

end Message.WellFormed

/-! ## The loop over the parameters -/

variable {msg msg' : Message} {sender : Option String} {cs rest : List Char} {b : Char}

section

omit [Locale]

theorem parseParameters_colon :
    parseParameters msg (':' :: cs) = msg.appendLastParameter (some (String.ofList cs)) := by
  rw [parseParameters]

theorem parseParameters_end (hcolon : cs.head? ≠ some ':') (h : cs.dropWhile (· ≠ ' ') = []) :
    parseParameters msg cs = msg.appendParameter (String.ofList (cs.takeWhile (· ≠ ' '))) := by
  rw [parseParameters.eq_def]
  split
  · simp at hcolon
  · split
    · rfl
    · rename_i hmore
      rw [h] at hmore
      simp at hmore

theorem parseParameters_blank (hcolon : cs.head? ≠ some ':')
    (h : cs.dropWhile (· ≠ ' ') = b :: rest) : parseParameters msg cs =
      if cs.takeWhile (· ≠ ' ') = [] then parseParameters msg rest
      else msg.appendParameter (String.ofList (cs.takeWhile (· ≠ ' '))) >>= fun msg =>
        parseParameters msg rest := by
  rw [parseParameters.eq_def]
  split
  · simp at hcolon
  · split
    · rename_i hend
      rw [h] at hend
      simp at hend
    · rename_i b' rest' hmore
      rw [h] at hmore
      obtain ⟨rfl, rfl⟩ := List.cons.inj hmore
      rfl

end

theorem wellFormed_parseParameters (h : msg.WellFormed)
    (hok : parseParameters msg cs = .ok msg') : msg'.WellFormed := by
  induction hn : cs.length using Nat.strong_induction_on generalizing msg cs with
  | _ n ih =>
    by_cases hcolon : cs.head? = some ':'
    · obtain ⟨cs, rfl⟩ : ∃ tail, cs = ':' :: tail := ⟨cs.tail, (List.cons_head?_tail hcolon).symm⟩
      rw [parseParameters_colon] at hok
      exact h.appendLastParameter hok
    cases hdrop : cs.dropWhile (· ≠ ' ') with
    | nil =>
      rw [parseParameters_end hcolon hdrop] at hok
      exact h.appendParameter hok
    | cons b rest =>
      have hlt : rest.length < n := by
        have hle := (List.dropWhile_sublist (fun x => decide (x ≠ ' ')) (l := cs)).length_le
        rw [hdrop, List.length_cons] at hle
        omega
      rw [parseParameters_blank hcolon hdrop] at hok
      split_ifs at hok
      · exact ih _ hlt h hok rfl
      · obtain ⟨m, hm, hok⟩ := bind_eq_ok_iff.mp hok
        exact ih _ hlt (h.appendParameter hm) hok rfl

/-! ## What the parser accepts -/

omit [Locale] in
theorem notMem_takeWhile_blank : ' ' ∉ (String.ofList (cs.takeWhile (· ≠ ' '))).toList := by
  rw [String.toList_ofList]
  intro hmem
  simpa using List.mem_takeWhile_imp hmem

theorem wellFormed_parseMessage (hok : parseMessage sender cs = .ok msg) : msg.WellFormed := by
  obtain ⟨m, hm, hok⟩ := bind_eq_ok_iff.mp hok
  obtain ⟨ok, hid, hm⟩ := bind_eq_ok_iff.mp hm
  have hwf : m.WellFormed := by
    split_ifs at hm with htrue
    · obtain rfl := Except.ok.inj hm
      refine ⟨notMem_takeWhile_blank, ?_, fun p hp => ?_, fun _ p hp => ?_⟩
      · exact htrue ▸ hid
      · simp [Message.make] at hp
      · simp [Message.make] at hp
  split at hok
  · obtain rfl := Except.ok.inj hok
    exact hwf
  · exact wellFormed_parseParameters hwf hok

theorem wellFormed_parseRawMessage (hok : parseRawMessage cs = .ok msg) : msg.WellFormed := by
  unfold parseRawMessage at hok
  split at hok
  · simp at hok
  · simp at hok
  · split at hok
    · simp at hok
    · exact wellFormed_parseMessage hok
  · exact wellFormed_parseMessage hok

/-! ## Reading what was written -/

/-- The text without the characters up to the blank at its end. -/
def trimEnd (text : String) : String :=
  String.ofList (text.toList.reverse.dropWhile (· ≤ ' ')).reverse

section

omit [Locale]

theorem dropWhile_append_of_not {p : Char → Bool} {as bs : List Char} (h : ¬p b) :
    (as ++ b :: bs).dropWhile p = as.dropWhile p ++ b :: bs := by
  induction as with
  | nil => simp [h]
  | cons a as ih =>
    by_cases ha : p a
    · simpa [ha] using ih
    · simp [ha]

theorem trimEnd_trimEnd (text : String) : trimEnd (trimEnd text) = trimEnd text := by
  simp only [trimEnd, String.toList_ofList, List.reverse_reverse]
  rw [List.dropWhile_eq_self_iff.mpr]
  intro hlt
  exact List.dropWhile_get_zero_not _ _ hlt

end

/-- The parameters in front of the text, each after a blank, and the colon of the text. -/
def body (front : List String) (last : List Char) : List Char :=
  front.flatMap (fun p => p.toList ++ [' ']) ++ ':' :: last

omit [Locale] in
theorem parseParameters_body {front : List String} {last : List Char}
    (hlast : msg.hasLast = false) (hfront : ∀ p ∈ front, isParameter p) :
    parseParameters msg (body front last) = .ok { msg with
      params := msg.params ++ front ++ [String.ofList last], hasLast := true } := by
  induction front generalizing msg with
  | nil =>
    rw [body, List.flatMap_nil, List.nil_append, parseParameters_colon]
    simp [Message.appendLastParameter, hlast]
  | cons p front ih =>
    obtain ⟨hne, hcolon, hblank⟩ := isParameter_iff.mp (hfront p List.mem_cons_self)
    have hchars : p.toList ≠ [] := fun hnil => hne (String.toList_eq_nil_iff.mp hnil)
    have hbody : body (p :: front) last = p.toList ++ ' ' :: body front last := by
      simp [body]
    have hword : ∀ c ∈ p.toList, (decide (c ≠ ' ')) = true := by
      intro c hc
      rw [decide_eq_true_iff]
      rintro rfl
      exact hblank hc
    have hdrop : (body (p :: front) last).dropWhile (· ≠ ' ') = ' ' :: body front last := by
      rw [hbody, List.dropWhile_append_of_pos hword]
      simp
    have htake : (body (p :: front) last).takeWhile (· ≠ ' ') = p.toList := by
      rw [hbody, List.takeWhile_append_of_pos hword]
      simp
    have hhead : (body (p :: front) last).head? ≠ some ':' := by
      rw [hbody, List.head?_append_of_ne_nil _ hchars]
      exact hcolon
    have happend : msg.appendParameter p = .ok { msg with params := msg.params ++ [p] } := by
      simp [Message.appendParameter, hlast, hfront p List.mem_cons_self]
    rw [parseParameters_blank hhead hdrop, htake, if_neg hchars, String.ofList_toList, happend]
    have hrest := @ih { msg with params := msg.params ++ [p] } hlast fun q hq =>
      hfront q (List.mem_cons_of_mem p hq)
    refine hrest.trans ?_
    simp

section Write

variable {command last : String} {front : List String}

section

omit [Locale]

theorem toList_parameters (h : msg.hasLast) :
    (writeMessage.parameters msg (front ++ [last])).toList = ' ' :: body front last.toList := by
  induction front with
  | nil => simp [writeMessage.parameters, h, body]
  | cons p front ih =>
    have hcons : writeMessage.parameters msg (p :: (front ++ [last])) =
        " " ++ p ++ writeMessage.parameters msg (front ++ [last]) := by
      cases front <;> rfl
    rw [List.cons_append, hcons, String.toList_append, String.toList_append, ih]
    simp [body]

theorem trim_body {a : Char} {cs : List Char} (ha : ¬a ≤ ' ') :
    trim (a :: cs ++ body front last.toList) = a :: cs ++ body front (trimEnd last).toList := by
  have hfront : ∀ l, (a :: l).dropWhile (· ≤ ' ') = a :: l := fun l => by simp [ha]
  have hcolon : ¬decide ((':' : Char) ≤ ' ') = true := by decide
  simp only [body, trim, List.cons_append, hfront]
  rw [← List.cons_append, ← List.append_assoc, List.reverse_append, List.reverse_cons,
    List.append_assoc, List.singleton_append, dropWhile_append_of_not hcolon]
  simp [trimEnd]

end

theorem parseMessage_body (hcommand : ' ' ∉ command.toList)
    (hid : isCommandIdentifier command = .ok true) (hfront : ∀ p ∈ front, isParameter p) :
    parseMessage sender (command.toList ++ ' ' :: body front last.toList) =
      .ok ⟨sender, command, front ++ [last], true⟩ := by
  have hword : ∀ c ∈ command.toList, (decide (c ≠ ' ')) = true := by
    intro c hc
    rw [decide_eq_true_iff]
    rintro rfl
    exact hcommand hc
  have hdrop : (command.toList ++ ' ' :: body front last.toList).dropWhile (· ≠ ' ') =
      ' ' :: body front last.toList := by
    rw [List.dropWhile_append_of_pos hword]
    simp
  have htake : (command.toList ++ ' ' :: body front last.toList).takeWhile (· ≠ ' ') =
      command.toList := by
    rw [List.takeWhile_append_of_pos hword]
    simp
  have hcreate : Message.create sender command = .ok (Message.make sender command) := by
    simp [Message.create, hid, bind, Except.bind, pure, Except.pure]
  rw [parseMessage, htake, String.ofList_toList, hcreate]
  refine bind_eq_ok_iff.mpr ⟨_, rfl, ?_⟩
  rw [hdrop]
  refine (parseParameters_body rfl hfront).trans ?_
  simp [Message.make]

theorem parseRawMessage_sender {line cs rest : List Char} {b c : Char}
    (htrim : trim line = ':' :: c :: cs) (hdrop : cs.dropWhile (· ≠ ' ') = b :: rest) :
    parseRawMessage line =
      parseMessage (some (String.ofList (c :: cs.takeWhile (· ≠ ' ')))) rest := by
  unfold parseRawMessage
  rw [htrim]
  simp only [hdrop]

/-- A message with a sender and a text. -/
theorem parse_write {s : String} (front : List String) (last : String) (hs : s ≠ "") (hblank : ' ' ∉ s.toList)
    (hcommand : ' ' ∉ command.toList) (hid : isCommandIdentifier command = .ok true)
    (hfront : ∀ p ∈ front, isParameter p) :
    parseRawMessage (writeMessage ⟨some s, command, front ++ [last], true⟩).toList =
      .ok ⟨some s, command, front ++ [trimEnd last], true⟩ := by
  have hwrite : (writeMessage ⟨some s, command, front ++ [last], true⟩).toList =
      ':' :: (s.toList ++ ' ' :: (command.toList ++ [' '])) ++ body front last.toList := by
    simp [writeMessage, String.toList_append, toList_parameters]
  obtain ⟨c, cs, hchars⟩ : ∃ c cs, s.toList = c :: cs :=
    List.exists_cons_of_ne_nil fun hnil => hs (String.toList_eq_nil_iff.mp hnil)
  have hword : ∀ c ∈ cs, (decide (c ≠ ' ')) = true := by
    intro d hd
    rw [decide_eq_true_iff]
    rintro rfl
    exact hblank (hchars ▸ List.mem_cons_of_mem c hd)
  set text := command.toList ++ ' ' :: body front (trimEnd last).toList with htext
  have hline : ':' :: (s.toList ++ ' ' :: (command.toList ++ [' '])) ++
      body front (trimEnd last).toList = ':' :: c :: (cs ++ ' ' :: text) := by
    simp [hchars, htext]
  have hdrop : (cs ++ ' ' :: text).dropWhile (· ≠ ' ') = ' ' :: text := by
    rw [List.dropWhile_append_of_pos hword]
    simp
  have htake : (cs ++ ' ' :: text).takeWhile (· ≠ ' ') = cs := by
    rw [List.takeWhile_append_of_pos hword]
    simp
  rw [hwrite, parseRawMessage_sender ((trim_body (by decide)).trans hline) hdrop, htake, ← hchars, String.ofList_toList, htext]
  exact parseMessage_body hcommand hid hfront

end Write

end MyLifeHome.Irc

