import MyLifeHome.Irc.Packets

/-!
# What the parser writes, it reads

A message is written as one line. It comes back as it was unless a character of it ends the line
before its end, or is one that is taken off at the end of every line.
-/
namespace MyLifeHome.Irc

open Checked Utf8

section

variable [Locale]

/-- `toUpperCase` changes letters: blanks, control characters and colons stay in the text. -/
structure KeepsSigns : Prop where
  signs : ∀ s : String, ∀ c ∈ s.toList, c ≤ ' ' ∨ c = ':' → c ∈ (Locale.toUpperCase s).toList
  empty : Locale.toUpperCase "" = ""

/-- The bytes for `writeData`. -/
def Parser.writeMessage (msg : Message) : List UInt8 :=
  encode ((Irc.writeMessage msg).toList ++ ['\r', '\n'])

/-- Messages from the constructor and the two ways to append. The sender is a word, and the last
parameter has no end of a line. -/
inductive Message.Built : Message → Prop where
  | create {sender : Option String} {command : String} {msg : Message}
      (hsender : ∀ s, sender = some s → s ≠ "" ∧ ' ' ∉ s.toList)
      (hok : Message.create sender command = .ok msg) : Built msg
  | appendParameter {msg msg' : Message} {p : String} (h : Built msg)
      (hok : msg.appendParameter p = .ok msg') : Built msg'
  | appendLastParameter {msg msg' : Message} {p : String} (h : Built msg)
      (hp : ∀ c ∈ p.toList, Parser.isTerminator c = false)
      (hok : msg.appendLastParameter (some p) = .ok msg') : Built msg'

/-- No sender or parameter has an end of a line, and the last parameter ends in a character that
is not taken off. -/
structure Message.Lasting (msg : Message) : Prop where
  sender : ∀ s, msg.sender = some s → ∀ c ∈ s.toList, Parser.isTerminator c = false
  params : ∀ p ∈ msg.params, ∀ c ∈ p.toList, Parser.isTerminator c = false
  last : ∀ p, msg.params.getLast? = some p → ∀ c, p.toList.getLast? = some c → ¬c ≤ ' '

variable {msg msg' : Message} {cs ds rest line : List Char} {c : Char} {sender : Option String}
  {p command : String} {front : List String}

/-! ## What is read -/

/-- The text of a message. -/
def Message.chars (msg : Message) : List Char :=
  (msg.sender.getD "").toList ++ msg.command.toList ++ msg.params.flatMap String.toList

section

omit [Locale]

theorem Message.chars_appendParameter (hok : msg.appendParameter p = .ok msg') :
    msg'.chars = msg.chars ++ p.toList := by
  unfold Message.appendParameter at hok
  split_ifs at hok
  obtain rfl := Except.ok.inj hok
  simp [Message.chars]

theorem Message.chars_appendLastParameter (hok : msg.appendLastParameter (some p) = .ok msg') :
    msg'.chars = msg.chars ++ p.toList := by
  unfold Message.appendLastParameter at hok
  split_ifs at hok
  obtain rfl := Except.ok.inj hok
  simp [Message.chars]

/-- Nothing is read but what is in the line. -/
theorem chars_parseParameters (hok : parseParameters msg cs = .ok msg') :
    List.Sublist msg'.chars (msg.chars ++ cs) := by
  refine parseParameters_rule (P := fun msg cs msg' => List.Sublist msg'.chars (msg.chars ++ cs))
    ?_ ?_ ?_ ?_ hok
  · intro msg cs msg' hok
    rw [Message.chars_appendLastParameter hok, String.toList_ofList]
    exact (List.Sublist.refl _).append (List.sublist_cons_self _ _)
  · intro msg cs msg' hok
    rw [Message.chars_appendParameter hok, String.toList_ofList]
  · intro msg cs msg' hsub
    exact hsub.trans ((List.Sublist.refl _).append (List.sublist_cons_self _ _))
  · intro msg word cs m msg' hok hsub
    rw [Message.chars_appendParameter hok, String.toList_ofList, List.append_assoc] at hsub
    apply hsub.trans
    apply (List.Sublist.refl _).append
    exact (List.Sublist.refl _).append (List.sublist_cons_self _ _)

end

theorem chars_parseMessage (hok : parseMessage sender cs = .ok msg) :
    List.Sublist msg.chars ((sender.getD "").toList ++ cs) := by
  obtain ⟨m, hm, hok⟩ := bind_eq_ok_iff.mp hok
  obtain ⟨ok, _, hm⟩ := bind_eq_ok_iff.mp hm
  have hmchars : m.chars = (sender.getD "").toList ++ cs.takeWhile (· ≠ ' ') := by
    split_ifs at hm
    obtain rfl := Except.ok.inj hm
    simp [Message.chars, Message.make]
  split at hok
  · rename_i hdrop
    obtain rfl := Except.ok.inj hok
    rw [hmchars, takeWhile_eq_self_of_dropWhile hdrop]
  · rename_i b rest hdrop
    obtain ⟨hsplit, _⟩ := eq_append_of_dropWhile hdrop
    have hsub := chars_parseParameters hok
    rw [hmchars, List.append_assoc] at hsub
    apply hsub.trans
    apply (List.Sublist.refl _).append
    conv_rhs => rw [hsplit]
    exact (List.Sublist.refl _).append (List.sublist_cons_self _ _)

omit [Locale] in
theorem trim_sublist : List.Sublist (trim cs) cs := by
  have hend := (List.dropWhile_sublist (· ≤ ' ') (l := (cs.dropWhile (· ≤ ' ')).reverse)).reverse
  rw [List.reverse_reverse] at hend
  exact hend.trans (List.dropWhile_sublist _)

theorem chars_parseRawMessage (hok : parseRawMessage line = .ok msg) :
    List.Sublist msg.chars line := by
  refine List.Sublist.trans ?_ trim_sublist
  unfold parseRawMessage at hok
  split at hok
  · cases hok
  · cases hok
  · rename_i c cs hline
    split at hok
    · cases hok
    · rename_i b rest hdrop
      obtain ⟨hsplit, _⟩ := eq_append_of_dropWhile hdrop
      have hsub := chars_parseMessage hok
      rw [Option.getD_some, String.toList_ofList] at hsub
      rw [hline, hsplit]
      apply List.Sublist.cons
      apply hsub.trans
      exact (List.Sublist.refl (c :: _)).append (List.sublist_cons_self _ _)
  · simpa using chars_parseMessage hok

omit [Locale] in
/-- A parameter that comes last ends where the line does. -/
theorem last_parseParameters (hok : parseParameters msg cs = .ok msg') :
    ∀ p, msg'.params.getLast? = some p → ∀ c, p.toList.getLast? = some c → cs.getLast? = some c := by
  refine parseParameters_rule (P := fun _ cs msg' => ∀ p, msg'.params.getLast? = some p →
    ∀ c, p.toList.getLast? = some c → cs.getLast? = some c) ?_ ?_ ?_ ?_ hok
  · intro msg cs msg' hok p hp c hc
    unfold Message.appendLastParameter at hok
    split_ifs at hok
    obtain rfl := Except.ok.inj hok
    obtain rfl : String.ofList cs = p := by simpa using hp
    rw [String.toList_ofList] at hc
    rw [List.getLast?_cons, hc]
    rfl
  · intro msg cs msg' hok p hp c hc
    unfold Message.appendParameter at hok
    split_ifs at hok
    obtain rfl := Except.ok.inj hok
    obtain rfl : String.ofList cs = p := by simpa using hp
    rwa [String.toList_ofList] at hc
  · intro msg cs msg' hlast p hp c hc
    rw [List.getLast?_cons, hlast p hp c hc]
    rfl
  · intro msg word cs m msg' _ hlast p hp c hc
    rw [List.getLast?_append, List.getLast?_cons, hlast p hp c hc]
    rfl

theorem last_parseMessage (hok : parseMessage sender cs = .ok msg) :
    ∀ p, msg.params.getLast? = some p → ∀ c, p.toList.getLast? = some c → cs.getLast? = some c := by
  obtain ⟨m, hm, hok⟩ := bind_eq_ok_iff.mp hok
  obtain ⟨ok, _, hm⟩ := bind_eq_ok_iff.mp hm
  split at hok
  · have hmparams : m.params = [] := by
      split_ifs at hm
      obtain rfl := Except.ok.inj hm
      rfl
    obtain rfl := Except.ok.inj hok
    simp [hmparams]
  · rename_i b rest hdrop
    obtain ⟨hsplit, _⟩ := eq_append_of_dropWhile hdrop
    intro p hp c hc
    have hlast := last_parseParameters hok p hp c hc
    rw [hsplit, List.getLast?_append, List.getLast?_cons, hlast]
    rfl

omit [Locale] in
theorem not_le_of_getLast?_trim (h : (trim cs).getLast? = some c) : ¬c ≤ ' ' := by
  rw [trim, List.getLast?_reverse] at h
  have hnot := List.head?_dropWhile_not (fun c : Char => decide (c ≤ ' '))
    (cs.dropWhile (· ≤ ' ')).reverse
  rw [h] at hnot
  simpa using hnot

theorem last_parseRawMessage (hok : parseRawMessage line = .ok msg) :
    ∀ p, msg.params.getLast? = some p → ∀ c, p.toList.getLast? = some c → ¬c ≤ ' ' := by
  intro p hp c hc
  suffices hlast : (trim line).getLast? = some c from not_le_of_getLast?_trim hlast
  unfold parseRawMessage at hok
  split at hok
  · cases hok
  · cases hok
  · rename_i c' cs hline
    split at hok
    · cases hok
    · rename_i b rest hdrop
      obtain ⟨hsplit, _⟩ := eq_append_of_dropWhile hdrop
      have hlast := last_parseMessage hok p hp c hc
      rw [hline, hsplit]
      simp [List.getLast?_cons, List.getLast?_append, hlast]
  · exact last_parseMessage hok p hp c hc

/-! ## What is written -/

/-- Parameters with a blank between two of them. -/
def words : List String → List Char
  | [] => []
  | [p] => p.toList
  | p :: ps => p.toList ++ ' ' :: words ps

section

omit [Locale]

theorem toList_parameters_words (hlast : msg.hasLast = false) (hne : front ≠ []) :
    (writeMessage.parameters msg front).toList = ' ' :: words front := by
  induction front with
  | nil => contradiction
  | cons p front ih =>
    cases front with
    | nil => simp [writeMessage.parameters, words, hlast]
    | cons q front =>
      have hrest := ih (List.cons_ne_nil q front)
      rw [writeMessage.parameters, String.toList_append, String.toList_append, hrest]
      · rfl
      · simp

theorem parseParameters_words (hlast : msg.hasLast = false) (hne : front ≠ [])
    (hfront : ∀ p ∈ front, isParameter p) :
    parseParameters msg (words front) = .ok { msg with params := msg.params ++ front } := by
  induction front generalizing msg with
  | nil => contradiction
  | cons p front ih =>
    have hp := hfront p List.mem_cons_self
    obtain ⟨hpne, hcolon, hblank⟩ := isParameter_iff.mp hp
    have hchars : p.toList ≠ [] := fun hnil => hpne (String.toList_eq_nil_iff.mp hnil)
    have happend : msg.appendParameter p = .ok { msg with params := msg.params ++ [p] } := by
      simp [Message.appendParameter, hlast, hp]
    cases front with
    | nil =>
      have hdrop : p.toList.dropWhile (· ≠ ' ') = [] := by
        rw [List.dropWhile_eq_nil_iff]
        intro c hc
        rw [decide_eq_true_iff]
        rintro rfl
        exact hblank hc
      rw [words, parseParameters_end hcolon hdrop, takeWhile_eq_self_of_dropWhile hdrop,
        String.ofList_toList, happend]
    | cons q front =>
      obtain ⟨htake, hdrop⟩ := takeWhile_append_blank (words (q :: front)) hblank
      have hhead : (p.toList ++ ' ' :: words (q :: front)).head? ≠ some ':' := by
        rwa [List.head?_append_of_ne_nil _ hchars]
      have hwords : words (p :: q :: front) = p.toList ++ ' ' :: words (q :: front) := rfl
      rw [hwords, parseParameters_blank hhead hdrop, htake, if_neg hchars, String.ofList_toList, happend]
      have hrest := @ih { msg with params := msg.params ++ [p] } hlast (List.cons_ne_nil q front)
        fun r hr => hfront r (List.mem_cons_of_mem p hr)
      refine hrest.trans ?_
      simp

end

theorem parseMessage_append (hcommand : ' ' ∉ command.toList)
    (hid : isCommandIdentifier command = .ok true) :
    parseMessage sender (command.toList ++ ' ' :: rest) =
      parseParameters (Message.make sender command) rest := by
  obtain ⟨htake, hdrop⟩ := takeWhile_append_blank rest hcommand
  have hcreate : Message.create sender command = .ok (Message.make sender command) := by
    simp [Message.create, hid, bind, Except.bind, pure, Except.pure]
  rw [parseMessage, htake, hdrop, String.ofList_toList, hcreate]
  rfl

theorem parseMessage_write (h : msg.WellFormed) (hne : msg.hasLast → msg.params ≠ []) :
    parseMessage msg.sender (msg.command.toList ++
      (writeMessage.parameters msg msg.params).toList) = .ok msg := by
  obtain ⟨sender, command, params, hasLast⟩ := msg
  dsimp only
  cases params with
  | nil =>
    have hlast : hasLast = false := by simpa using hne
    subst hlast
    have hdrop : command.toList.dropWhile (· ≠ ' ') = [] := by
      rw [List.dropWhile_eq_nil_iff]
      intro c hc
      rw [decide_eq_true_iff]
      rintro rfl
      exact h.command hc
    have hcreate : Message.create sender command = .ok (Message.make sender command) := by
      simp [Message.create, h.identifier, bind, Except.bind, pure, Except.pure]
    rw [writeMessage.parameters, String.toList_empty, List.append_nil, parseMessage,
      takeWhile_eq_self_of_dropWhile hdrop, hdrop, String.ofList_toList, hcreate]
    rfl
  | cons p ps =>
    cases hasLast with
    | true =>
      obtain ⟨front, last, hparams⟩ : ∃ front last, p :: ps = front ++ [last] :=
        ⟨_, _, (List.dropLast_append_getLast (List.cons_ne_nil p ps)).symm⟩
      have hfront := h.params
      dsimp only at hfront
      rw [hparams] at hfront ⊢
      rw [List.dropLast_concat] at hfront
      rw [toList_parameters rfl, parseMessage_body h.command h.identifier hfront]
    | false =>
      have hall := h.last rfl
      rw [toList_parameters_words rfl (List.cons_ne_nil p ps),
        parseMessage_append h.command h.identifier,
        parseParameters_words rfl (List.cons_ne_nil p ps) hall]
      rfl

omit [Locale] in
theorem trim_eq_self (hhead : ∀ c, cs.head? = some c → ¬c ≤ ' ')
    (hlast : ∀ c, cs.getLast? = some c → ¬c ≤ ' ') : trim cs = cs := by
  have hdrop : ∀ ds : List Char, (∀ c, ds.head? = some c → ¬c ≤ ' ') →
      ds.dropWhile (· ≤ ' ') = ds := by
    intro ds hds
    cases ds with
    | nil => rfl
    | cons d ds => rw [List.dropWhile_cons_of_neg (by simpa using hds d rfl)]
  rw [trim, hdrop cs hhead, hdrop cs.reverse (by rwa [List.head?_reverse]), List.reverse_reverse]

/-! ## Messages that are built -/

/-- A command is a word, and starts like one. -/
theorem sign_of_isCommandIdentifier (hk : KeepsSigns) (hid : isCommandIdentifier command = .ok true) :
    command ≠ "" ∧ ∀ c ∈ command.toList, ¬c ≤ ' ' ∧ c ≠ ':' := by
  have hupper : Locale.toUpperCase command ≠ "" ∧
      ∀ c ∈ (Locale.toUpperCase command).toList, c.isDigit ∨ isUpperLetter c := by
    unfold isCommandIdentifier at hid
    split at hid
    · cases hid
    · rename_i c cs hchars
      refine ⟨fun hnil => ?_, ?_⟩
      · rw [hnil] at hchars
        cases hchars
      rw [hchars]
      split_ifs at hid with hdigit
      · have hrest := Except.ok.inj hid
        grind
      · have hrest := Except.ok.inj hid
        grind
  have hsign : ∀ c : Char, c.isDigit ∨ isUpperLetter c → ¬(c ≤ ' ' ∨ c = ':') := by
    rintro c hc (hle | rfl)
    · have hlow : c.val.toNat ≤ 32 := hle
      have hhigh : 48 ≤ c.val.toNat := by
        rcases hc with hc | hc
        · simp only [Char.isDigit, Bool.and_eq_true, decide_eq_true_eq, ge_iff_le,
            UInt32.le_iff_toNat_le] at hc
          exact hc.1
        · simp only [isUpperLetter, Bool.and_eq_true, decide_eq_true_eq, Char.le_def,
            UInt32.le_iff_toNat_le] at hc
          exact Nat.le_trans (by decide) hc.1
      omega
    · revert hc
      decide
  refine ⟨?_, fun c hc => ?_⟩
  · rintro rfl
    exact hupper.1 hk.empty
  · have hnot : ¬(c ≤ ' ' ∨ c = ':') := fun h => hsign c (hupper.2 c (hk.signs command c hc h)) h
    exact not_or.mp hnot

/-- What is known of a message from the way in which it was built. -/
structure Message.Sendable (msg : Message) : Prop extends msg.WellFormed where
  sender : ∀ s, msg.sender = some s → s ≠ "" ∧ ' ' ∉ s.toList
  nonempty : msg.hasLast → msg.params ≠ []

theorem Message.Built.sendable (hk : KeepsSigns) (h : msg.Built) : msg.Sendable := by
  induction h with
  | create hsender hok =>
    obtain ⟨ok, hid, hok⟩ := bind_eq_ok_iff.mp hok
    split_ifs at hok with htrue
    obtain rfl := Except.ok.inj hok
    rw [htrue] at hid
    have hsigns := sign_of_isCommandIdentifier hk hid
    refine ⟨⟨?_, hid, by simp [make], by simp [make]⟩, hsender, by simp [make]⟩
    exact fun hblank => (hsigns.2 ' ' hblank).1 (by decide)
  | appendParameter _ hok ih =>
    have hwf := ih.toWellFormed.appendParameter hok
    unfold Message.appendParameter at hok
    split_ifs at hok
    obtain rfl := Except.ok.inj hok
    exact ⟨hwf, ih.sender, by simp⟩
  | appendLastParameter _ _ hok ih =>
    have hwf := ih.toWellFormed.appendLastParameter hok
    unfold Message.appendLastParameter at hok
    split_ifs at hok
    obtain rfl := Except.ok.inj hok
    exact ⟨hwf, ih.sender, by simp⟩

/-! ## The round trip -/

omit [Locale] in
/-- A line with two ends is read as one. -/
theorem lines_terminated (hne : line ≠ []) (hline : ∀ c ∈ line, Parser.isTerminator c = false) :
    Hub.lines (line ++ ['\r', '\n']) = ([line], []) := by
  have hsplit : (line ++ ['\r', '\n']).splitOnP Parser.isTerminator = [line, [], []] :=
    List.splitOnP_append_cons_of_forall_mem hline '\r' rfl ['\n']
  have hlines : Hub.lines (line ++ ['\r', '\n']) =
      (((line ++ ['\r', '\n']).splitOnP Parser.isTerminator).dropLast.filter (· ≠ []),
        ((line ++ ['\r', '\n']).splitOnP Parser.isTerminator).getLastD []) := rfl
  rw [hlines, hsplit]
  simp [hne]

/-- A line without its sender. -/
def Message.statement (msg : Message) : List Char :=
  msg.command.toList ++ (writeMessage.parameters msg msg.params).toList

section

omit [Locale]

theorem toList_writeMessage_none (hsender : msg.sender = none) :
    (writeMessage msg).toList = msg.statement := by
  simp [writeMessage, hsender, Message.statement]

theorem toList_writeMessage_some {s : String} (hsender : msg.sender = some s) :
    (writeMessage msg).toList = ':' :: (s.toList ++ ' ' :: msg.statement) := by
  simp [writeMessage, hsender, Message.statement]

theorem getLast?_words (hne : front ≠ []) (hall : ∀ p ∈ front, p ≠ "") :
    ∃ p, front.getLast? = some p ∧ (words front).getLast? = p.toList.getLast? := by
  induction front with
  | nil => contradiction
  | cons p front ih =>
    cases front with
    | nil => exact ⟨p, rfl, rfl⟩
    | cons q front =>
      obtain ⟨r, hr, hlast⟩ := ih (List.cons_ne_nil q front) fun r hr =>
        hall r (List.mem_cons_of_mem p hr)
      refine ⟨r, by rw [List.getLast?_cons_cons, hr], ?_⟩
      have hrne : r ≠ "" := hall r (List.mem_cons_of_mem p (List.mem_of_getLast? hr))
      obtain ⟨c, hc⟩ := Option.ne_none_iff_exists'.mp
        (List.getLast?_eq_none_iff.not.mpr fun hnil => hrne (String.toList_eq_nil_iff.mp hnil))
      rw [words, List.getLast?_append, List.getLast?_cons, hlast, hc]
      · rfl
      · simp

end

/-- Nothing is taken off at the end. -/
theorem Message.Lasting.getLast?_statement (hk : KeepsSigns) (h : msg.Sendable) (hl : msg.Lasting)
    (hc : msg.statement.getLast? = some c) : ¬c ≤ ' ' := by
  have hsigns := sign_of_isCommandIdentifier hk h.identifier
  have hlast := hl.last
  have hparams := h.last
  unfold Message.statement at hc
  rcases List.eq_nil_or_concat msg.params with hnil | ⟨front, last, hfront⟩
  · rw [hnil, writeMessage.parameters, String.toList_empty, List.append_nil] at hc
    exact (hsigns.2 c (List.mem_of_getLast? hc)).1
  rw [List.concat_eq_append] at hfront
  rw [hfront] at hlast hparams hc
  have hend := hlast last List.getLast?_concat
  cases hhas : msg.hasLast with
  | true =>
    rw [toList_parameters hhas, body] at hc
    cases hchars : last.toList.getLast? with
    | none =>
      have hcolon : c = ':' := by
        simp [List.getLast?_append, List.getLast?_cons, hchars] at hc
        exact hc.symm
      rw [hcolon]
      decide
    | some d =>
      have hcd : c = d := by
        simp [List.getLast?_append, List.getLast?_cons, hchars] at hc
        exact hc.symm
      rw [hcd]
      exact hend d hchars
  | false =>
    have hne : front ++ [last] ≠ [] := by simp
    obtain ⟨p, hp, hwords⟩ := getLast?_words hne fun p hp =>
      (isParameter_iff.mp (hparams hhas p hp)).1
    obtain rfl : last = p := by simpa using hp
    rw [toList_parameters_words hhas hne, List.getLast?_append, List.getLast?_cons, hwords] at hc
    apply hend c
    have hpne : last ≠ "" := (isParameter_iff.mp (hparams hhas last (by simp))).1
    obtain ⟨d, hd⟩ := Option.ne_none_iff_exists'.mp
      (List.getLast?_eq_none_iff.not.mpr fun hnil => hpne (String.toList_eq_nil_iff.mp hnil))
    rw [hd] at hc ⊢
    exact hc

/-- A message that lasts is read from its line. -/
theorem parseRawMessage_write (hk : KeepsSigns) (h : msg.Sendable) (hl : msg.Lasting) :
    parseRawMessage (writeMessage msg).toList = .ok msg := by
  have hsigns := sign_of_isCommandIdentifier hk h.identifier
  obtain ⟨a, as, hcommand⟩ := List.exists_cons_of_ne_nil
    fun hnil => hsigns.1 (String.toList_eq_nil_iff.mp hnil)
  have hparse := parseMessage_write h.toWellFormed h.nonempty
  change parseMessage msg.sender msg.statement = .ok msg at hparse
  have hstatement : ∃ rest, msg.statement = a :: rest := ⟨_, by rw [Message.statement, hcommand]; rfl⟩
  obtain ⟨rest, hrest⟩ := hstatement
  have ha := hsigns.2 a (by rw [hcommand]; exact List.mem_cons_self)
  have hend : ∀ c, msg.statement.getLast? = some c → ¬c ≤ ' ' := fun c => hl.getLast?_statement hk h
  cases hsender : msg.sender with
  | none =>
    rw [hsender] at hparse
    rw [parseRawMessage, toList_writeMessage_none hsender, trim_eq_self ?_ hend]
    · rw [hrest] at hparse ⊢
      split
      · contradiction
      · rename_i heq
        exact absurd (List.cons.inj heq).1 ha.2
      · rename_i heq
        exact absurd (List.cons.inj heq).1 ha.2
      · exact hparse
    · rw [hrest]
      rintro c hc
      obtain rfl := Option.some.inj hc
      exact ha.1
  | some s =>
    rw [hsender] at hparse
    obtain ⟨hsne, hblank⟩ := h.sender s hsender
    obtain ⟨b, bs, hs⟩ := List.exists_cons_of_ne_nil
      fun hnil => hsne (String.toList_eq_nil_iff.mp hnil)
    have hbs : ' ' ∉ bs := by
      rw [hs] at hblank
      exact fun hmem => hblank (List.mem_cons_of_mem b hmem)
    obtain ⟨htake, hdrop⟩ := takeWhile_append_blank msg.statement hbs
    rw [toList_writeMessage_some hsender, hs]
    refine (parseRawMessage_sender (trim_eq_self ?_ ?_) hdrop).trans ?_
    · rintro c hc
      obtain rfl := Option.some.inj hc
      decide
    · intro c hc
      apply hend c
      rw [← List.cons_append, List.getLast?_cons, List.getLast?_append, List.getLast?_cons] at hc
      rw [hrest] at hc ⊢
      rw [List.getLast?_cons] at hc ⊢
      exact hc
    · rw [htake, ← hs, String.ofList_toList]
      exact hparse

omit [Locale] in
theorem mem_parameters {params : List String}
    (hc : c ∈ (writeMessage.parameters msg params).toList) :
    c = ' ' ∨ c = ':' ∨ ∃ p ∈ params, c ∈ p.toList := by
  induction params with
  | nil => simp [writeMessage.parameters] at hc
  | cons p params ih =>
    cases params with
    | nil =>
      have hmark : (if msg.hasLast then " :" else " ").toList ⊆ [' ', ':'] := by
        split_ifs <;> decide
      rw [writeMessage.parameters, String.toList_append] at hc
      grind
    | cons q params =>
      rw [writeMessage.parameters, String.toList_append, String.toList_append] at hc
      · grind
      · simp

/-- The line has no end before its end. -/
theorem Message.Lasting.notMem_write (hk : KeepsSigns) (h : msg.Sendable) (hl : msg.Lasting) :
    ∀ c ∈ (writeMessage msg).toList, Parser.isTerminator c = false := by
  have hsigns := sign_of_isCommandIdentifier hk h.identifier
  have hstatement : ∀ c ∈ msg.statement, Parser.isTerminator c = false := by
    intro c hc
    rcases List.mem_append.mp hc with hc | hc
    · have hnot := (hsigns.2 c hc).1
      have hcr : c ≠ '\r' := by
        rintro rfl
        exact hnot (by decide)
      have hlf : c ≠ '\n' := by
        rintro rfl
        exact hnot (by decide)
      simp [Parser.isTerminator, hcr, hlf]
    · rcases mem_parameters hc with rfl | rfl | ⟨p, hp, hcp⟩
      · rfl
      · rfl
      · exact hl.params p hp c hcp
  cases hsender : msg.sender with
  | none =>
    rw [toList_writeMessage_none hsender]
    exact hstatement
  | some s =>
    rw [toList_writeMessage_some hsender]
    refine List.forall_mem_cons.mpr ⟨rfl, List.forall_mem_append.mpr ⟨hl.sender s hsender, ?_⟩⟩
    exact List.forall_mem_cons.mpr ⟨rfl, hstatement⟩

end

/-! ## In ASCII -/

theorem keepsSigns_ascii : KeepsSigns where
  signs s c hc hsign := by
    have hsame : c.toUpper = c := by
      have hlow : c.val.toNat ≤ 58 := by
        rcases hsign with hle | rfl
        · exact Nat.le_trans hle (by decide)
        · decide
      unfold Char.toUpper
      split_ifs with hcase
      · simp only [UInt32.le_iff_toNat_le] at hcase
        exact absurd (Nat.le_trans hcase.1 hlow) (by decide)
      · rfl
    have hmap : (Locale.toUpperCase s).toList = s.toList.map Char.toUpper := String.toList_map
    rw [hmap]
    exact List.mem_map.mpr ⟨c, hc, hsame⟩
  empty := by decide +kernel

end MyLifeHome.Irc

