import MyLifeHome.Irc.Written
import MyLifeHome.Irc.Serving
import MyLifeHome.Irc.Client
import MyLifeHome.Library.Replication

/-!
# What hubs tell each other

Hubs on a tree of links each have a view of the servers and of the users on them. What a hub
writes on a link announces a change of this view, as an update, and is read on the other side as it
was written.
-/
namespace MyLifeHome.Irc

open Checked Replication

/-- An int is read as it was written. -/
theorem parseInt_toString {n : Int} (hlow : -2 ^ 31 ≤ n) (hhigh : n < 2 ^ 31) :
    parseInt (some (toString n)) = .ok n := by
  have hfold : ∀ (cs : List Char) (i : Nat), (∀ c ∈ cs, c.isDigit) →
      cs.foldl (fun (n : Int) c => 10 * n + (c.toNat - 48)) i = Nat.ofDigitChars 10 cs i := by
    intro cs
    induction cs with
    | nil => simp
    | cons c cs ih =>
      intro i hcs
      obtain ⟨hc, hcs⟩ := List.forall_mem_cons.mp hcs
      have hrange : 48 ≤ c.toNat ∧ c.toNat ≤ 57 := Char.isDigit_iff_toNat.mp hc
      rw [List.foldl_cons, Nat.ofDigitChars_cons, ← ih _ hcs]
      congr 1
      have h0 : '0'.toNat = 48 := rfl
      rw [h0]
      omega
  have hread : ∀ m : Nat, (Nat.toDigits 10 m).all Char.isDigit ∧
      (Nat.toDigits 10 m).foldl (fun (n : Int) c => 10 * n + (c.toNat - 48)) 0 = m := by
    intro m
    have hdigit : ∀ c ∈ Nat.toDigits 10 m, c.isDigit := fun c hc =>
      Nat.isDigit_of_mem_toDigits (by decide) (by decide) hc
    refine ⟨List.all_eq_true.mpr hdigit, ?_⟩
    have hm := hfold _ 0 hdigit
    rwa [Nat.ofDigitChars_ten_toDigits] at hm
  cases n with
  | ofNat m =>
    obtain ⟨hall, hm⟩ := hread m
    obtain ⟨c, cs, hc, hdigit⟩ := Text.head_repr_isDigit m
    have htext : (toString (Int.ofNat m)).toList = c :: cs := hc
    have hminus : c ≠ '-' := by
      rintro rfl
      simp at hdigit
    have hplus : c ≠ '+' := by
      rintro rfl
      simp at hdigit
    rw [Nat.toList_repr] at hc
    rw [hc] at hall hm
    have hvalue : (if c :: cs ≠ [] ∧ (c :: cs).all Char.isDigit then
        some ((c :: cs).foldl (fun (n : Int) c => 10 * n + (c.toNat - 48)) 0) else none) =
          some (Int.ofNat m) := by
      rw [if_pos ⟨by simp, hall⟩, hm]
      rfl
    unfold parseInt
    dsimp only
    rw [Option.getD_some, htext]
    split
    · rename_i k hk
      split at hk
      · rename_i heq
        exact absurd (List.cons.inj heq).1 hminus
      · rename_i heq
        exact absurd (List.cons.inj heq).1 hplus
      · obtain rfl := Option.some.inj (hk.symm.trans hvalue)
        rw [if_pos ⟨hlow, hhigh⟩]
    · rename_i hk
      split at hk
      · rename_i heq
        exact absurd (List.cons.inj heq).1 hminus
      · rename_i heq
        exact absurd (List.cons.inj heq).1 hplus
      · cases hk.symm.trans hvalue
  | negSucc m =>
    obtain ⟨hall, hm⟩ := hread (m + 1)
    have htext : (toString (Int.negSucc m)).toList = '-' :: Nat.toDigits 10 (m + 1) := by
      change ("-" ++ (m + 1).repr).toList = _
      simp
    unfold parseInt
    dsimp only
    rw [Option.getD_some, htext]
    simp only [if_pos (show Nat.toDigits 10 (m + 1) ≠ [] ∧ (Nat.toDigits 10 (m + 1)).all Char.isDigit
      from ⟨Nat.toDigits_ne_nil, hall⟩), hm, Option.map_some]
    exact if_pos ⟨hlow, hhigh⟩
/-! ## Views -/

/-- Hubs that may be linked: the connection that a hub has to each neighbour, which of the two opens
it, the names of the servers, and to whom a nick belongs, as a connection of a hub. -/
structure Layout (V : Type) where
  graph : SimpleGraph V
  link : V → V → Conn
  dials : V → V → Bool
  name : V → String
  token : V → Int
  owner : String → V × Conn

/-- What is known of a user. -/
@[ext] structure Person where
  nick : String
  ident : String
  host : String
  realName : String
  channels : Set String

/-- What is known of a server: whether it is there, and the users by their connections. -/
@[ext] structure Home where
  known : Prop
  users : Conn → Option Person

abbrev View (V : Type) := V → Home

namespace View

variable {V : Type} [DecidableEq V]

def user (w : View V) (u : V × Conn) : Option Person := (w u.1).users u.2

def setUser (w : View V) (u : V × Conn) (p : Option Person) : View V :=
  Function.update w u.1 { w u.1 with users := Function.update (w u.1).users u.2 p }

def setKnown (w : View V) (v : V) : View V := Function.update w v { w v with known := True }

variable {w w' : View V} {u v : V × Conn} {p : Option Person} {h : V} {X : Set V}

theorem user_setUser : (w.setUser u p).user v = if v = u then p else w.user v := by
  by_cases hv : v.1 = u.1
  · by_cases hc : v.2 = u.2
    · obtain rfl : v = u := Prod.ext hv hc
      simp [user, setUser]
    · have hne : v ≠ u := fun heq => hc (by rw [heq])
      simp [user, setUser, hv, hc, hne]
  · have hne : v ≠ u := fun heq => hv (by rw [heq])
    simp [user, setUser, hv, hne]

@[simp] theorem known_setUser : ((w.setUser u p) h).known = (w h).known := by
  by_cases hh : h = u.1
  · subst hh
    simp [setUser]
  · simp [setUser, hh]

@[simp] theorem user_setKnown : (w.setKnown h).user v = w.user v := by
  by_cases hv : v.1 = h
  · simp [user, setKnown, hv]
  · simp [user, setKnown, hv]

theorem known_setKnown {g : V} : ((w.setKnown h) g).known ↔ g = h ∨ (w g).known := by
  by_cases hg : g = h
  · simp [setKnown, hg]
  · simp [setKnown, hg]

omit [DecidableEq V] in
theorem ext (hknown : ∀ h, (w h).known ↔ (w' h).known) (husers : ∀ u, w.user u = w'.user u) :
    w = w' := by
  funext h
  exact Home.ext (propext (hknown h)) (funext fun c => husers (h, c))

theorem setUser_eq_self (hp : w.user u = p) : w.setUser u p = w := by
  refine ext (fun h => by simp) fun v => ?_
  rw [user_setUser]
  split_ifs with hv
  · rw [hv, hp]
  · rfl

end View

/-! ## Updates -/

inductive Update (V : Type) where
  | hello (v : V)
  | server (v parent : V)
  | arrive (u : V × Conn) (p : Person)
  | rename (u : V × Conn) (old new : String)
  | join (u : V × Conn) (nick : String) (names : List String)
  | part (u : V × Conn) (nick name : String)
  | quit (u : V × Conn) (nick : String)
  | talk (u : V × Conn) (nick : String)

/-- Nothing in the text is taken for the end of a line, or for a blank at the end of one. -/
def IsPlain (s : String) : Prop := ∀ c ∈ s.toList, ' ' ≤ c

/-- It can stand anywhere in a message. -/
def IsWord (s : String) : Prop := isParameter s ∧ IsPlain s

/-- It can end a message. -/
def IsText (s : String) : Prop :=
  (∀ c ∈ s.toList, Parser.isTerminator c = false) ∧ ∀ c, s.toList.getLast? = some c → ¬c ≤ ' '

variable [Locale] {V : Type}

/-- A nick of the user that servers pass on. -/
def Layout.IsNick (L : Layout V) (u : V × Conn) (nick : String) : Prop :=
  isNickName nick ∧ nick ≠ "" ∧ L.owner nick = u

/-- What is known of the user can be passed on. -/
structure Layout.Legible (L : Layout V) (u : V × Conn) (p : Person) : Prop where
  nick : L.IsNick u p.nick
  ident : IsWord p.ident
  host : IsWord p.host
  realName : IsText p.realName ∧ p.realName ≠ ""

def IsChannelName (name : String) : Prop := isChannelIdentifier name = .ok true ∧ IsPlain name

namespace Update

/-- The vertices that it is about. -/
def homes : Update V → Set V
  | .hello v => {v}
  | .server v parent => {v, parent}
  | .arrive u _ | .rename u _ _ | .join u _ _ | .part u _ _ | .quit u _ | .talk u _ => {u.1}

variable [DecidableEq V]

/-- The user is there under the nick. -/
def Named (w : View V) (u : V × Conn) (nick : String) : Prop := ∃ p, w.user u = some p ∧ p.nick = nick

/-- What a hub has to know for the update. -/
def fits (L : Layout V) : Update V → View V → Prop
  | .hello v, w => ¬(w v).known
  | .server v parent, w => (w parent).known ∧ ¬(w v).known
  | .arrive u p, w => L.Legible u p ∧ p.channels = ∅ ∧ (w u.1).known ∧ w.user u = none
  | .rename u old new, w => L.IsNick u new ∧ ¬equalsIgnoreCase old new ∧ Named w u old
  | .join u nick names, w => (∀ name ∈ names, IsChannelName name) ∧ Named w u nick
  | .part u nick name, w => IsChannelName name ∧ Named w u nick
  | .quit u nick, w | .talk u nick, w => Named w u nick

/-- The channels with the names, by their keys. -/
def keys (names : List String) : Set String := {k | ∃ name ∈ names, Locale.toLowerCase name = k}

def apply : Update V → View V → View V
  | .hello v, w | .server v _, w => w.setKnown v
  | .arrive u p, w => w.setUser u (some p)
  | .rename u _ new, w => w.setUser u ((w.user u).map fun p => { p with nick := new })
  | .join u _ names, w =>
    w.setUser u ((w.user u).map fun p => { p with channels := p.channels ∪ keys names })
  | .part u _ name, w =>
    w.setUser u ((w.user u).map fun p => { p with channels := p.channels \ {Locale.toLowerCase name} })
  | .quit u _, w => w.setUser u none
  | .talk _ _, w => w

/-- The updates of views. -/
def updates (L : Layout V) : Updates V Home (Update V) := ⟨fits L, apply⟩

variable {L : Layout V} {a : Update V} {w w' : View V} {u : V × Conn} {X : Set V} {nick : String}

omit [Locale] [DecidableEq V] in
theorem user_congr (heq : Set.EqOn w w' X) (hu : u.1 ∈ X) : w.user u = w'.user u := by
  rw [View.user, View.user, heq hu]

section

omit [Locale]

theorem setUser_congr (heq : Set.EqOn w w' X) (p : Option Person) :
    Set.EqOn (w.setUser u p) (w'.setUser u p) X := by
  intro x hx
  by_cases hxu : x = u.1
  · subst hxu
    simp [View.setUser, heq hx]
  · simp [View.setUser, hxu, heq hx]

theorem setUser_outside (hu : u.1 ∈ X) (p : Option Person) : Set.EqOn (w.setUser u p) w Xᶜ := by
  intro x hx
  have hxu : x ≠ u.1 := fun heq => hx (heq ▸ hu)
  simp [View.setUser, hxu]

end

theorem apply_join_nil : (Update.join u nick []).apply w = w := by
  refine View.setUser_eq_self ?_
  cases w.user u <;> simp [keys]

/-- Channels are joined one after the other. -/
theorem apply_join_cons {name : String} {names : List String} :
    (Update.join u nick names).apply ((Update.join u nick [name]).apply w) =
      (Update.join u nick (name :: names)).apply w := by
  refine View.ext (fun h => by simp [apply]) fun v => ?_
  simp only [apply, View.user_setUser]
  split_ifs
  · cases w.user u with
    | none => rfl
    | some p =>
      have hkeys : keys (name :: names) = keys [name] ∪ keys names := by
        ext k
        simp [keys, eq_comm]
      simp [hkeys, Set.union_assoc]
  · rfl

/-- An update concerns the vertices that it is about. -/
theorem local_of_homes (hX : a.homes ⊆ X) : (updates L).Local X a := by
  have hnamed : ∀ {w w' : View V} {u : V × Conn} {nick : String}, Set.EqOn w w' X → u.1 ∈ X →
      Named w u nick → Named w' u nick := by
    intro w w' u nick heq hu hnamed
    rwa [Named, ← user_congr heq hu]
  have hlocal : ∀ (u : V × Conn) (f : Option Person → Option Person), u.1 ∈ X →
      (∀ {w w' : View V}, Set.EqOn w w' X →
        Set.EqOn (w.setUser u (f (w.user u))) (w'.setUser u (f (w'.user u))) X) ∧
      ∀ w : View V, Set.EqOn (w.setUser u (f (w.user u))) w Xᶜ := by
    intro u f hu
    refine ⟨fun heq => ?_, fun w => setUser_outside hu _⟩
    rw [user_congr heq hu]
    exact setUser_congr heq _
  have hset : ∀ {v : V}, v ∈ X → (∀ {w w' : View V}, Set.EqOn w w' X →
      Set.EqOn (w.setKnown v) (w'.setKnown v) X) ∧ ∀ w : View V, Set.EqOn (w.setKnown v) w Xᶜ := by
    intro v hv
    refine ⟨fun {w w'} heq x hx => ?_, fun w x hx => ?_⟩
    · by_cases hxv : x = v
      · subst hxv
        simp [View.setKnown, heq hx]
      · simp [View.setKnown, hxv, heq hx]
    · have hxv : x ≠ v := fun heq => hx (heq ▸ hv)
      simp [View.setKnown, hxv]
  cases a with
  | hello v =>
    have hv : v ∈ X := hX (by simp [homes])
    refine ⟨?_, (hset hv).1, (hset hv).2⟩
    intro w w' heq (hnot : ¬(w v).known)
    rw [heq hv] at hnot
    exact hnot
  | server v parent =>
    have hv : v ∈ X := hX (by simp [homes])
    have hparent : parent ∈ X := hX (by simp [homes])
    refine ⟨?_, (hset hv).1, (hset hv).2⟩
    rintro w w' heq ⟨h1, h2⟩
    rw [heq hparent] at h1
    rw [heq hv] at h2
    exact ⟨h1, h2⟩
  | arrive u p =>
    have hu : u.1 ∈ X := hX (by simp [homes])
    obtain ⟨hin, hout⟩ := hlocal u (fun _ => some p) hu
    refine ⟨?_, hin, hout⟩
    rintro w w' heq ⟨hp, hempty, hknown, hnone⟩
    rw [heq hu] at hknown
    exact ⟨hp, hempty, hknown, (user_congr heq hu).symm.trans hnone⟩
  | rename u old new =>
    have hu : u.1 ∈ X := hX (by simp [homes])
    obtain ⟨hin, hout⟩ := hlocal u (Option.map fun p => { p with nick := new }) hu
    refine ⟨?_, hin, hout⟩
    rintro w w' heq ⟨hn, hne, h⟩
    exact ⟨hn, hne, hnamed heq hu h⟩
  | join u nick names =>
    have hu : u.1 ∈ X := hX (by simp [homes])
    obtain ⟨hin, hout⟩ := hlocal u
      (Option.map fun p => { p with channels := p.channels ∪ keys names }) hu
    refine ⟨?_, hin, hout⟩
    rintro w w' heq ⟨hnames, h⟩
    exact ⟨hnames, hnamed heq hu h⟩
  | part u nick name =>
    have hu : u.1 ∈ X := hX (by simp [homes])
    obtain ⟨hin, hout⟩ := hlocal u
      (Option.map fun p => { p with channels := p.channels \ {Locale.toLowerCase name} }) hu
    refine ⟨?_, hin, hout⟩
    rintro w w' heq ⟨hname, h⟩
    exact ⟨hname, hnamed heq hu h⟩
  | quit u nick =>
    have hu : u.1 ∈ X := hX (by simp [homes])
    obtain ⟨hin, hout⟩ := hlocal u (fun _ => none) hu
    exact ⟨fun heq h => hnamed heq hu h, hin, hout⟩
  | talk u nick =>
    have hu : u.1 ∈ X := hX (by simp [homes])
    exact ⟨fun heq h => hnamed heq hu h, fun heq => heq, fun _ _ _ => rfl⟩

end Update

/-! ## Messages -/

/-- The message is read on the other side as it was written. -/
structure Message.Passes (msg : Message) : Prop where
  sendable : msg.Sendable
  lasting : msg.Lasting

/-- How a hub tells the next of the update. A hub says hello to a new neighbour only. -/
def Update.Says (L : Layout V) : Update V → Message → Prop
  | .hello _, _ => False
  | .server v parent, m => m = ⟨some (L.name parent), "SERVER",
      [L.name v, "0", toString (L.token v), L.name v], true⟩
  | .arrive u p, m => ∃ hopcount : Int, -2 ^ 31 ≤ hopcount ∧ hopcount < 2 ^ 31 ∧
      m = ⟨none, "NICK", [p.nick, toString hopcount, p.ident, p.host, toString (L.token u.1), "+",
        p.realName], true⟩
  | .rename _ old new, m => m = ⟨some old, "NICK", [new], false⟩
  | .join _ nick names, m => names ≠ [] ∧ ∃ last, m = ⟨some nick, "JOIN", [",".intercalate names], last⟩
  | .part _ nick name, m => ∃ reason : Option String, (∀ text, reason = some text → IsText text) ∧
      m = ⟨some nick, "PART", name :: reason.toList, reason.isSome⟩
  | .quit _ nick, m => m.sender = some nick ∧ m.command = "QUIT"
  | .talk _ nick, m => ∃ command target text,
      (getCommand command = some .privmsg ∨ getCommand command = some .notice) ∧
      m = ⟨some nick, command, [target, text], true⟩

/-- The hub introduces itself to a new neighbour. -/
def Greets (L : Layout V) (v : V) (m : Message) : Prop :=
  m.Passes ∧ m = ⟨none, "SERVER", [L.name v, "0", toString (L.token v), L.name v], true⟩

/-- The message announces the update. -/
def Update.Announced (L : Layout V) (m : Message) (a : Update V) : Prop := m.Passes ∧ a.Says L m

section Words

variable {s : String} {command : String} {sender : Option String} {front : List String}
  {last : String} {hasLast : Bool} {msg : Message}

section

omit [Locale]

theorem IsPlain.notMem_terminator (h : IsPlain s) : ∀ c ∈ s.toList, Parser.isTerminator c = false := by
  intro c hc
  have hle := h c hc
  simp only [Parser.isTerminator, Bool.or_eq_false_iff, decide_eq_false_iff_not]
  constructor <;> rintro rfl <;> exact absurd hle (by decide)

theorem isText_of_notMem (h : IsPlain s) (hblank : ' ' ∉ s.toList) : IsText s := by
  refine ⟨h.notMem_terminator, fun c hc hle => hblank ?_⟩
  have hmem := List.mem_of_getLast? hc
  rwa [← Char.le_antisymm hle (h c hmem)]

theorem IsWord.text (h : IsWord s) : IsText s := isText_of_notMem h.2 (isParameter_iff.mp h.1).2.2

theorem IsChannelName.word (h : IsChannelName s) : IsWord s :=
  ⟨isParameter_of_isChannelIdentifier h.1, h.2⟩

end

/-- A message of words, with a text at its end. -/
theorem passes_of_words (hcommand : ' ' ∉ command.toList)
    (hid : isCommandIdentifier command = .ok true) (hsender : ∀ s, sender = some s → IsWord s)
    (hfront : ∀ p ∈ front, IsWord p) (hlast : IsWord last ∨ hasLast = true ∧ IsText last) :
    Message.Passes ⟨sender, command, front ++ [last], hasLast⟩ := by
  have htext : IsText last := hlast.elim IsWord.text fun h => h.2
  have hword : hasLast = false → IsWord last := fun hno => hlast.resolve_right fun h => by
    simp [hno] at h
  have hall : ∀ p ∈ front ++ [last], ∀ c ∈ p.toList, Parser.isTerminator c = false := by
    intro p hp
    rcases List.mem_append.mp hp with hp | hp
    · exact (hfront p hp).2.notMem_terminator
    · rw [List.mem_singleton.mp hp]
      exact htext.1
  refine ⟨⟨⟨hcommand, hid, ?_, ?_⟩, ?_, by simp⟩, ⟨?_, ?_, ?_⟩⟩
  · intro p hp
    rw [List.dropLast_concat] at hp
    exact (hfront p hp).1
  · intro hno p hp
    rcases List.mem_append.mp hp with hp | hp
    · exact (hfront p hp).1
    · rw [List.mem_singleton.mp hp]
      exact (hword hno).1
  · intro s hs
    obtain ⟨hne, _, hblank⟩ := isParameter_iff.mp (hsender s hs).1
    exact ⟨hne, hblank⟩
  · exact fun s hs => (hsender s hs).2.notMem_terminator
  · exact hall
  · intro p hp c hc
    obtain rfl : last = p := by simpa using hp
    exact htext.2 c hc

theorem passes_of_command (hcommand : ' ' ∉ command.toList)
    (hid : isCommandIdentifier command = .ok true) (hsender : ∀ s, sender = some s → IsWord s) :
    Message.Passes ⟨sender, command, [], false⟩ := by
  refine ⟨⟨⟨hcommand, hid, by simp, by simp⟩, ?_, by simp⟩, ⟨?_, by simp, by simp⟩⟩
  · intro s hs
    obtain ⟨hne, _, hblank⟩ := isParameter_iff.mp (hsender s hs).1
    exact ⟨hne, hblank⟩
  · exact fun s hs => (hsender s hs).2.notMem_terminator

/-- What a hub reads is what was written. -/
theorem Message.Passes.parse (hk : KeepsSigns) (h : msg.Passes) :
    parseRawMessage (writeMessage msg).toList = .ok msg :=
  parseRawMessage_write hk h.sendable h.lasting

/-- The literals of the hub are commands. -/
theorem isCommandIdentifier_of_capitals (hcap : KeepsCapitals) (hne : command ≠ "")
    (hall : command.toList.all isUpperLetter) : isCommandIdentifier command = .ok true := by
  have hupper : Locale.toUpperCase command = command := by
    apply hcap
    rw [List.all_eq_true] at hall ⊢
    intro c hc
    simp [hall c hc]
  obtain ⟨c, cs, hchars⟩ := List.exists_cons_of_ne_nil
    fun hnil => hne (String.toList_eq_nil_iff.mp hnil)
  rw [hchars, List.all_cons, Bool.and_eq_true] at hall
  obtain ⟨hc, hcs⟩ := hall
  have hdigit : c.isDigit = false := by
    simp only [isUpperLetter, Bool.and_eq_true, decide_eq_true_eq] at hc
    by_contra hd
    simp only [Char.isDigit, Bool.not_eq_false, Bool.and_eq_true, decide_eq_true_eq] at hd
    have hlow : ('A' : Char).val ≤ c.val := hc.1
    exact absurd (UInt32.le_trans hlow hd.2) (by decide)
  simp only [isCommandIdentifier, hupper, hchars, hdigit, hc, hcs]
  rfl

/-- A message of the hub's own. -/
theorem passes_of_capitals (hcap : KeepsCapitals) (hne : command ≠ "")
    (hall : command.toList.all isUpperLetter) (hsender : ∀ s, sender = some s → IsWord s)
    (hfront : ∀ p ∈ front, IsWord p) (hlast : IsWord last ∨ hasLast = true ∧ IsText last) :
    Message.Passes ⟨sender, command, front ++ [last], hasLast⟩ := by
  refine passes_of_words ?_ (isCommandIdentifier_of_capitals hcap hne hall) hsender hfront hlast
  intro hmem
  exact absurd (List.all_eq_true.mp hall _ hmem) (by decide)

omit [Locale] in
theorem isPlain_of_isNickName (h : isNickName s) : IsPlain s := by
  intro c hc
  have hchar := List.all_eq_true.mp h c hc
  simp only [isNickCharacter, Bool.or_eq_true, Bool.and_eq_true, decide_eq_true_eq, beq_iff_eq] at hchar
  rcases hchar with (⟨hlow, _⟩ | hdigit) | rfl
  · exact Char.le_trans (by decide) hlow
  · simp only [Char.isDigit, Bool.and_eq_true, decide_eq_true_eq] at hdigit
    have hlow : ('0' : Char) ≤ c := hdigit.1
    exact Char.le_trans (by decide) hlow
  · decide

end Words

end MyLifeHome.Irc

