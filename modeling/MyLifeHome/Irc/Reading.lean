import MyLifeHome.Irc.Wire

/-!
# Lines that can be read

The parser takes a line for granted: that it is not blank, that a sender is followed by a blank,
and that there is a word for a command. It returns for exactly these lines.
-/
namespace MyLifeHome.Irc

open Checked

variable [Locale]

/-- The first word is a command. -/
def StartsWithCommand (cs : List Char) : Prop :=
  isCommandIdentifier (String.ofList (cs.takeWhile (· ≠ ' '))) = .ok true

/-- The line has a command, after the sender if there is one. -/
def Legible (rawmsg : List Char) : Prop :=
  match trim rawmsg with
  | [] => False
  | ':' :: cs => ∃ c sender rest, cs = c :: (sender ++ ' ' :: rest) ∧ ' ' ∉ sender ∧
      StartsWithCommand rest
  | cs => StartsWithCommand cs

variable {cs rest word : List Char} {c : Char} {msg : Message} {sender : Option String}

section

omit [Locale]

theorem takeWhile_append_blank (rest : List Char) (h : ' ' ∉ word) :
    (word ++ ' ' :: rest).takeWhile (· ≠ ' ') = word ∧
      (word ++ ' ' :: rest).dropWhile (· ≠ ' ') = ' ' :: rest := by
  have hword : ∀ c ∈ word, (decide (c ≠ ' ')) = true := by
    intro c hc
    rw [decide_eq_true_iff]
    rintro rfl
    exact h hc
  rw [List.takeWhile_append_of_pos hword, List.dropWhile_append_of_pos hword]
  simp

/-- A blank, and what is in front of it. -/
theorem eq_append_of_dropWhile (h : cs.dropWhile (· ≠ ' ') = c :: rest) :
    cs = cs.takeWhile (· ≠ ' ') ++ ' ' :: rest ∧ ' ' ∉ cs.takeWhile (· ≠ ' ') := by
  have hhead : c = ' ' := by
    have hnot := List.head?_dropWhile_not (fun x : Char => decide (x ≠ ' ')) cs
    rw [h] at hnot
    simpa using hnot
  have hsplit := List.takeWhile_append_dropWhile (p := fun x : Char => decide (x ≠ ' ')) (l := cs)
  refine ⟨?_, fun hmem => by simpa using List.mem_takeWhile_imp hmem⟩
  rw [h, hhead] at hsplit
  exact hsplit.symm

theorem getLast?_trim : (trim cs).getLast? ≠ some ' ' := by
  intro hlast
  rw [trim, List.getLast?_reverse] at hlast
  have hnot := List.head?_dropWhile_not (fun c : Char => decide (c ≤ ' '))
    (cs.dropWhile (· ≤ ' ')).reverse
  rw [hlast] at hnot
  simp at hnot

/-- Parameters can be read up to an end that is no blank. -/
theorem succeeds_parseParameters (hmsg : msg.hasLast = false) (hne : cs ≠ [])
    (hlast : cs.getLast? ≠ some ' ') : Succeeds (parseParameters msg cs) := by
  induction hn : cs.length using Nat.strong_induction_on generalizing msg cs with
  | _ n ih =>
    by_cases hcolon : cs.head? = some ':'
    · obtain ⟨cs, rfl⟩ : ∃ tail, cs = ':' :: tail := ⟨cs.tail, (List.cons_head?_tail hcolon).symm⟩
      rw [parseParameters_colon, Message.appendLastParameter, hmsg]
      exact succeeds_ok
    -- a word is a parameter, unless it is empty
    have hword : cs.takeWhile (· ≠ ' ') ≠ [] →
        isParameter (String.ofList (cs.takeWhile (· ≠ ' '))) := by
      intro hword
      refine isParameter_iff.mpr ⟨?_, ?_, notMem_takeWhile_blank⟩
      · simpa using hword
      · rw [String.toList_ofList]
        intro hhead
        refine hcolon ?_
        rw [← List.takeWhile_append_dropWhile (p := fun x : Char => decide (x ≠ ' ')) (l := cs),
          List.head?_append, hhead]
        rfl
    cases hdrop : cs.dropWhile (· ≠ ' ') with
    | nil =>
      have hall : cs.takeWhile (· ≠ ' ') = cs := by
        have hsplit := List.takeWhile_append_dropWhile (p := fun x : Char => decide (x ≠ ' ')) (l := cs)
        rwa [hdrop, List.append_nil] at hsplit
      rw [parseParameters_end hcolon hdrop, Message.appendParameter, hmsg]
      rw [if_pos (hword (by rwa [hall]))]
      exact succeeds_ok
    | cons b rest =>
      obtain ⟨hsplit, _⟩ := eq_append_of_dropWhile hdrop
      have hlen := congrArg List.length hsplit
      rw [List.length_append, List.length_cons] at hlen
      have hrest : rest ≠ [] := by
        rintro rfl
        refine hlast ?_
        rw [hsplit]
        simp
      have hrestlast : rest.getLast? ≠ some ' ' := by
        intro hblank
        refine hlast ?_
        rw [hsplit, List.getLast?_append, List.getLast?_cons, hblank]
        rfl
      rw [parseParameters_blank hcolon hdrop]
      split_ifs with hnil
      · exact ih _ (by omega) hmsg hrest hrestlast rfl
      · rw [Message.appendParameter, hmsg, if_pos (hword hnil)]
        exact ih _ (by omega) rfl hrest hrestlast rfl

end

theorem succeeds_parseMessage_iff (hlast : cs.getLast? ≠ some ' ') :
    Succeeds (parseMessage sender cs) ↔ StartsWithCommand cs := by
  constructor
  · rintro ⟨msg, hok⟩
    obtain ⟨m, hm, _⟩ := bind_eq_ok_iff.mp hok
    obtain ⟨ok, hid, hm⟩ := bind_eq_ok_iff.mp hm
    cases ok with
    | false => cases hm
    | true => exact hid
  · intro hcommand
    refine Succeeds.bind ⟨Message.make sender (String.ofList (cs.takeWhile (· ≠ ' '))), ?_⟩ ?_
    · exact bind_eq_ok_iff.mpr ⟨true, hcommand, rfl⟩
    · intro m hm
      have hmlast : m.hasLast = false := by
        obtain ⟨ok, _, hm⟩ := bind_eq_ok_iff.mp hm
        split_ifs at hm
        · obtain rfl := Except.ok.inj hm
          rfl
      cases hdrop : cs.dropWhile (· ≠ ' ') with
      | nil => exact succeeds_pure
      | cons b rest =>
        obtain ⟨hsplit, _⟩ := eq_append_of_dropWhile hdrop
        refine succeeds_parseParameters hmlast ?_ ?_
        · rintro rfl
          refine hlast ?_
          rw [hsplit]
          simp
        · intro hblank
          refine hlast ?_
          rw [hsplit, List.getLast?_append, List.getLast?_cons, hblank]
          rfl

theorem succeeds_parseRawMessage_iff : Succeeds (parseRawMessage cs) ↔ Legible cs := by
  have hlast : (trim cs).getLast? ≠ some ' ' := getLast?_trim
  unfold parseRawMessage Legible
  generalize trim cs = line at hlast
  split
  · simp [Succeeds]
  · simp [Succeeds]
  · rename_i c cs
    constructor
    · intro hok
      split at hok
      · simp [Succeeds] at hok
      · rename_i b rest hdrop
        obtain ⟨hsplit, hsender⟩ := eq_append_of_dropWhile hdrop
        refine ⟨c, _, rest, congrArg (c :: ·) hsplit, hsender, ?_⟩
        refine (succeeds_parseMessage_iff ?_).mp hok
        intro hblank
        refine hlast ?_
        rw [List.getLast?_cons, List.getLast?_cons, hsplit, List.getLast?_append, List.getLast?_cons,
          hblank]
        rfl
    · rintro ⟨d, s, rest, heq, hsender, hcommand⟩
      obtain ⟨rfl, rfl⟩ := List.cons.inj heq
      have hdrop : (s ++ ' ' :: rest).dropWhile (· ≠ ' ') = ' ' :: rest :=
        (takeWhile_append_blank _ hsender).2
      rw [hdrop]
      refine (succeeds_parseMessage_iff ?_).mpr hcommand
      intro hblank
      refine hlast ?_
      simp [List.getLast?_cons, List.getLast?_append, hblank]
  · rename_i hnil hcolon hsender
    rw [succeeds_parseMessage_iff hlast]
    split
    · exact absurd rfl hnil
    · rename_i cs
      cases cs with
      | nil => exact absurd rfl hcolon
      | cons c cs => exact absurd rfl (hsender c cs)
    · rfl

end MyLifeHome.Irc

