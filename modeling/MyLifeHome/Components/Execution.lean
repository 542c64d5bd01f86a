import MyLifeHome.Components.Agreement
import MyLifeHome.Components.Types

/-!
# Running the handler of an action

A message that names an action leads through `local_call_param` to
`net_object_action_execute_array`, or to a notice. The handler is what the component has
registered; what it works on, the attributes among it, is a type of its own.
-/
namespace MyLifeHome.Components

/-- A component of any type, its handlers by the name of the action. -/
structure Component (σ : Type) where
  container : Container
  callback : String → Option (List NetValue → σ → σ)

/-- The state that the handlers change, the handlers that ran and the notices that were sent. -/
structure Record (σ : Type) where
  state : σ
  runs : List (String × List NetValue)
  notices : List String
  deriving DecidableEq

variable {σ : Type}

namespace Record

/-- The handler of an action runs. -/
def run (s : Record σ) (name : String) (handler : List NetValue → σ → σ) (args : List NetValue) :
    Record σ :=
  { s with state := handler args s.state, runs := s.runs ++ [(name, args)] }

def ircError (s : Record σ) (text : String) : Record σ := { s with notices := s.notices ++ [text] }

end Record

/-- Without a callback there is only a warning in the log. -/
def netObjectActionExecuteArray (component : Component σ) (name : String) (args : List NetValue)
    (s : Record σ) : Record σ :=
  match component.callback name with
  | none => s
  | some handler => s.run name handler args

/-- A message to the component; nothing is left of a process that reads a null pointer or writes
beyond a buffer. -/
def eventMessage (w : Nat) (component : Component σ) (params : List String) (s : Record σ) :
    Option (Record σ) :=
  match localEventMessage w component.container params with
  | .ignored => some s
  | .notice text => some (s.ircError text)
  | .executed action values => some (netObjectActionExecuteArray component action values s)
  | .nullPointer | .overflow => none

/-! ## Well-typed calls -/

/-- The word is a name of the enum, or the decimal writing of an integer within the bounds. -/
def Declares : NetType → List Char → NetValue → Prop
  | .enum names, x, value => String.ofList x ∈ names ∧ value = .enumValue (String.ofList x)
  | .range min max, x, value => ∃ n : Int, x = (toString n).toList ∧ min.toInt ≤ n ∧
      n ≤ max.toInt ∧ value = .rangeValue (Int32.ofInt n)

/-- As many words as types, each declaring its value. -/
def WellTyped : List NetType → List (List Char) → List NetValue → Prop
  | [], [], [] => True
  | type :: types, x :: xs, value :: values => Declares type x value ∧ WellTyped types xs values
  | _, _, _ => False

/-- The message is addressed to the component and names an action, and these are the words after
the name. -/
def Addressed (id receiver text cmd : String) (xs : List (List Char)) : Prop :=
  if receiver.toList.head? = some '#' then
    ∃ target, Text.words ' ' text.toList = target :: cmd.toList :: xs ∧
      ircIdEquals (String.ofList target) id = true
  else Text.words ' ' text.toList = cmd.toList :: xs ∧ ircIdEquals receiver id = true

/-- A well-typed call runs the handler once, any other one is answered by one notice. -/
def Strict (types : List NetType) (xs : List (List Char)) (cmd : String)
    (handler : List NetValue → σ → σ) (s : Record σ) (after : Option (Record σ)) : Prop :=
  (∀ values, WellTyped types xs values → after = some (s.run cmd handler values)) ∧
    ((¬∃ values, WellTyped types xs values) → ∃ text, after = some (s.ircError text))

/-! ## What is taken for a call -/

/-- A name of the enum; or an integer, perhaps after white space and with any sign and zeros,
whose conversion to an `int` lies within the bounds. -/
def Legible (w : Nat) : NetType → List Char → Prop
  | .enum names, x => String.ofList x ∈ names
  | .range min max, x => ∃ n, literal x = some n ∧ min ≤ intOf w n ∧ intOf w n ≤ max

/-- There is a legible word for each type; more words may follow. -/
def LegibleAll (w : Nat) : List NetType → List (List Char) → Prop
  | [], _ => True
  | type :: types, x :: xs => Legible w type x ∧ LegibleAll w types xs
  | _ :: _, [] => False

/-- A number is the decimal writing of an `int`. -/
def Canonical : NetType → List Char → Prop
  | .enum _, _ => True
  | .range _ _, x => ∃ n : Int, x = (toString n).toList ∧ -2 ^ 31 ≤ n ∧ n < 2 ^ 31

variable {w : Nat} {type : NetType} {types : List NetType} {x : List Char} {xs : List (List Char)}
  {value : NetValue} {values : List NetValue} {n : Int} {component : Component σ}
  {receiver text cmd : String} {handler : List NetValue → σ → σ} {s : Record σ}

theorem legible_iff (hx : x ≠ []) : Legible w type x ↔ ∃ value, readValue w type x = some value := by
  cases type with
  | enum names => simp [Legible, readValue_enum_iff]
  | range min max =>
    constructor
    · rintro ⟨n, hn, hb⟩
      exact ⟨_, (readValue_range_iff hx).mpr ⟨n, hn, hb, rfl⟩⟩
    · rintro ⟨value, h⟩
      obtain ⟨n, hn, hb, rfl⟩ := (readValue_range_iff hx).mp h
      exact ⟨n, hn, hb⟩

theorem legibleAll_iff (hx : ∀ x ∈ xs, x ≠ []) :
    LegibleAll w types xs ↔ ∃ values, ReadsAll w types xs values := by
  induction types generalizing xs with
  | nil => simp [LegibleAll, ReadsAll]
  | cons type types ih =>
    cases xs with
    | nil => simp [LegibleAll, ReadsAll]
    | cons x xs =>
      have hrest := ih fun y hy => hx y (List.mem_cons_of_mem x hy)
      rw [LegibleAll, hrest, legible_iff (hx x List.mem_cons_self)]
      constructor
      · rintro ⟨⟨value, hvalue⟩, values, hvalues⟩
        exact ⟨value :: values, hvalue, hvalues⟩
      · rintro ⟨values, h⟩
        cases values with
        | nil => cases h
        | cons value values => exact ⟨⟨value, h.1⟩, values, h.2⟩

/-- The decimal writing of an integer is a literal. -/
theorem literal_toString (n : Int) : literal (toString n).toList = some n := by
  have hread : Text.readInt ((toString n).toList ++ []) = some (n, []) :=
    Text.readInt_toString n Text.ends_nil
  rw [List.append_nil] at hread
  obtain ⟨c, rest, hcons, hc⟩ := Text.head_of_readInt hread
  have hspace : isSpace c = false := by
    obtain rfl | rfl | hdigit := hc
    · rfl
    · rfl
    · have hrange : 48 ≤ c.toNat ∧ c.toNat ≤ 57 := Char.isDigit_iff_toNat.mp hdigit
      have key : ∀ n ≤ 57, 48 ≤ n → [9, 10, 11, 12, 13, 32].contains n = false := by decide
      exact key _ hrange.2 hrange.1
  have hdrop : (toString n).toList.dropWhile isSpace = (toString n).toList := by
    rw [hcons, List.dropWhile_cons_of_neg (by simp [hspace])]
  rw [literal, hdrop, hread]

/-- A word that is read and written canonically declares the value that is read. -/
theorem declares_iff (hw : 32 ≤ w) (hx : x ≠ []) :
    Declares type x value ↔ Canonical type x ∧ readValue w type x = some value := by
  cases type with
  | enum names => simp [Declares, Canonical, readValue_enum_iff]
  | range min max =>
    rw [readValue_range_iff hx]
    constructor
    · rintro ⟨n, rfl, hmin, hmax, rfl⟩
      have hlow : -2 ^ 31 ≤ n := Int.le_trans min.le_toInt hmin
      have hhigh : n < 2 ^ 31 := Int.lt_of_le_of_lt hmax max.toInt_lt
      have hint : (intOf w n).toInt = n := toInt_intOf hw hlow hhigh
      refine ⟨⟨n, rfl, hlow, hhigh⟩, n, literal_toString n, ⟨?_, ?_⟩, ?_⟩
      · rwa [Int32.le_iff_toInt_le, hint]
      · rwa [Int32.le_iff_toInt_le, hint]
      · rw [← hint, Int32.ofInt_toInt, hint]
    · rintro ⟨⟨n, rfl, hlow, hhigh⟩, m, hm, ⟨hmin, hmax⟩, rfl⟩
      obtain rfl : n = m := Option.some.inj ((literal_toString n).symm.trans hm)
      have hint : (intOf w n).toInt = n := toInt_intOf hw hlow hhigh
      rw [Int32.le_iff_toInt_le, hint] at hmin hmax
      refine ⟨n, rfl, hmin, hmax, ?_⟩
      rw [← hint, Int32.ofInt_toInt, hint]

/-- The calls that are well-typed: one canonical word for each type. -/
theorem wellTyped_iff (hw : 32 ≤ w) (hx : ∀ x ∈ xs, x ≠ []) :
    WellTyped types xs values ↔
      List.Forall₂ Canonical types xs ∧ ReadsAll w types xs values := by
  induction types generalizing xs values with
  | nil => cases xs <;> cases values <;> simp [WellTyped, ReadsAll]
  | cons type types ih =>
    cases xs with
    | nil => simp [WellTyped]
    | cons x xs =>
      cases values with
      | nil => simp [WellTyped, ReadsAll]
      | cons value values =>
        rw [WellTyped, ReadsAll, declares_iff hw (hx x List.mem_cons_self),
          ih fun y hy => hx y (List.mem_cons_of_mem x hy), List.forall₂_cons]
        grind

/-! ## The outcome of a call -/

theorem Addressed.ne_nil {id : String} (h : Addressed id receiver text cmd xs) :
    ∀ x ∈ xs, x ≠ [] := by
  intro x hx
  have hmem : x ∈ Text.words ' ' text.toList := by
    unfold Addressed at h
    split_ifs at h
    · obtain ⟨target, hwords, -⟩ := h
      simp [hwords, hx]
    · simp [h.1, hx]
  exact Text.ne_nil_of_mem_words hmem

/-- What is done with the words after the target. -/
theorem execute_eq {container : Container} {rest : List Char}
    (hm : container.clazz.getMemberByName cmd = some ⟨cmd, .action types⟩)
    (hwords : Text.words ' ' rest = cmd.toList :: xs) :
    (∀ values, ReadsAll w types xs values → execute w container rest = .executed cmd values) ∧
      ((¬∃ values, ReadsAll w types xs values) → execute w container rest = badArguments cmd) := by
  rw [Text.words_eq] at hwords
  cases htok : Text.strtok ' ' rest with
  | none => simp [htok] at hwords
  | some p =>
    obtain ⟨word, saveptr⟩ := p
    simp only [htok, List.cons.injEq] at hwords
    obtain ⟨rfl, rfl⟩ := hwords
    simp only [execute, htok, String.ofList_toList, hm]
    constructor
    · intro values hreads
      obtain ⟨rfl, hlen⟩ := enumArguments_eq_iff.mpr hreads
      rw [if_neg hlen]
    · intro hno
      refine if_pos ?_
      by_contra hlen
      exact hno ⟨_, enumArguments_eq_iff.mp ⟨rfl, hlen⟩⟩

/-- A message that is addressed to the component is cut after the target. -/
theorem Addressed.exists_rest {container : Container}
    (h : Addressed container.id receiver text cmd xs) :
    ∃ rest, Text.words ' ' rest = cmd.toList :: xs ∧
      localEventMessage w container [receiver, text] = execute w container rest := by
  rw [localEventMessage_eq]
  unfold Addressed at h
  split_ifs at h with hchannel
  · obtain ⟨target, hwords, hid⟩ := h
    rw [Text.words_eq] at hwords
    cases htok : Text.strtok ' ' text.toList with
    | none => simp [htok] at hwords
    | some p =>
      obtain ⟨word, rest⟩ := p
      simp only [htok, List.cons.injEq] at hwords
      obtain ⟨rfl, hrest⟩ := hwords
      exact ⟨rest, hrest, by simp [hchannel, hid]⟩
  · exact ⟨text.toList, h.1, by simp [hchannel, h.2]⟩

/-- A call of an action whose handler is registered runs it on the values that are read. When there
are not enough of them it is answered by a notice, if there is room for the name in it. -/
theorem eventMessage_eq (ha : Addressed component.container.id receiver text cmd xs)
    (hm : component.container.clazz.getMemberByName cmd = some ⟨cmd, .action types⟩)
    (hc : component.callback cmd = some handler) :
    (∀ values, ReadsAll w types xs values →
      eventMessage w component [receiver, text] s = some (s.run cmd handler values)) ∧
    ((¬∃ values, ReadsAll w types xs values) →
      eventMessage w component [receiver, text] s = if cmd.utf8ByteSize < 469
        then some (s.ircError ("action '" ++ cmd ++ "' : invalid arguments count or type"))
        else none) := by
  obtain ⟨rest, hwords, hrest⟩ := ha.exists_rest (w := w)
  obtain ⟨hexecuted, hbad⟩ := execute_eq (w := w) hm hwords
  constructor
  · intro values hreads
    rw [eventMessage, hrest, hexecuted values hreads]
    simp [netObjectActionExecuteArray, hc]
  · intro hno
    rw [eventMessage, hrest, hbad hno, badArguments_eq]
    split_ifs <;> rfl

/-- The handler runs on well-typed calls only and every other call is answered by a notice exactly
when the words, if they are legible, are as many as the types and canonical, and the notice has
room for the name of the action, if they are not. -/
theorem strict_iff (hw : 32 ≤ w) (ha : Addressed component.container.id receiver text cmd xs)
    (hm : component.container.clazz.getMemberByName cmd = some ⟨cmd, .action types⟩)
    (hc : component.callback cmd = some handler) :
    Strict types xs cmd handler s (eventMessage w component [receiver, text] s) ↔
      (LegibleAll w types xs → List.Forall₂ Canonical types xs) ∧
        (¬LegibleAll w types xs → cmd.utf8ByteSize < 469) := by
  obtain ⟨hrun, hnotice⟩ := eventMessage_eq (w := w) (s := s) ha hm hc
  have htyped : ∀ values, WellTyped types xs values ↔
      List.Forall₂ Canonical types xs ∧ ReadsAll w types xs values := by
    intro values
    exact wellTyped_iff hw ha.ne_nil
  rw [legibleAll_iff ha.ne_nil]
  constructor
  · rintro ⟨-, hother⟩
    refine ⟨?_, fun hno => ?_⟩
    · rintro ⟨values, hreads⟩
      by_contra hcanonical
      obtain ⟨notice, hsent⟩ := hother fun ⟨values, h⟩ => hcanonical ((htyped values).mp h).1
      -- the handler has run, and no notice was sent
      have hsame : s.run cmd handler values = s.ircError notice := by
        rw [hrun values hreads] at hsent
        exact Option.some.inj hsent
      have hruns := congrArg Record.runs hsame
      simp [Record.run, Record.ircError] at hruns
    · obtain ⟨notice, hsent⟩ := hother fun ⟨values, h⟩ => hno ⟨values, ((htyped values).mp h).2⟩
      by_contra hsize
      rw [hnotice hno, if_neg hsize] at hsent
      contradiction
  · rintro ⟨h, hsize⟩
    refine ⟨fun values hvalues => hrun values ((htyped values).mp hvalues).2, fun hno => ?_⟩
    have hunread : ¬∃ values, ReadsAll w types xs values := by
      rintro ⟨values, hreads⟩
      exact hno ⟨values, (htyped values).mpr ⟨h ⟨values, hreads⟩, hreads⟩⟩
    exact ⟨_, by rw [hnotice hunread, if_pos (hsize hunread)]⟩

/-! ## Calling a dimmer -/

/-- The dimmer with the last value that was set. -/
def dimming : Component (Option NetValue) :=
  ⟨dimmer, fun name => if name = "set" then some fun args _ => args.head? else none⟩

def untouched : Record (Option NetValue) := ⟨none, [], []⟩

theorem addressed_dimmer {text : String} (h : Text.words ' ' text.toList =
    "dimmer".toList :: "set".toList :: xs) :
    Addressed dimming.container.id "#mylife-home-hardware" text "set" xs := by
  refine (if_pos (by decide)).mpr ⟨_, h, by decide⟩

/-- Setting it to 50 is a well-typed call. -/
theorem strict_dimmer : Strict [.range 0 100] ["50".toList] "set" (fun args _ => args.head?)
    untouched (eventMessage 64 dimming ["#mylife-home-hardware", "dimmer set 50"] untouched) := by
  refine (strict_iff (by decide) (addressed_dimmer (by decide)) getMember_dimmer rfl).mpr ⟨?_, ?_⟩
  · intro
    exact .cons ⟨50, by decide, by decide, by decide⟩ .nil
  · intro
    decide

/-- A second number is not looked at, and a number beyond an `int` is cut down to one. -/
theorem not_strict :
    eventMessage 64 dimming ["#mylife-home-hardware", "dimmer set 50 60"] untouched =
      some (untouched.run "set" (fun args _ => args.head?) [.rangeValue 50]) ∧
    eventMessage 64 dimming ["#mylife-home-hardware", "dimmer set 4294967301"] untouched =
      some (untouched.run "set" (fun args _ => args.head?) [.rangeValue 5]) ∧
    ¬∀ (w : Nat) (component : Component (Option NetValue)) (receiver text cmd : String)
      (types : List NetType) (xs : List (List Char))
      (handler : List NetValue → Option NetValue → Option NetValue) (s : Record (Option NetValue)),
      32 ≤ w → Addressed component.container.id receiver text cmd xs →
      component.container.clazz.getMemberByName cmd = some ⟨cmd, .action types⟩ →
      component.callback cmd = some handler →
      Strict types xs cmd handler s (eventMessage w component [receiver, text] s) := by
  have hsurplus : eventMessage 64 dimming ["#mylife-home-hardware", "dimmer set 50 60"] untouched =
      some (untouched.run "set" (fun args _ => args.head?) [.rangeValue 50]) := by decide
  have hlarge : eventMessage 64 dimming ["#mylife-home-hardware", "dimmer set 4294967301"]
      untouched = some (untouched.run "set" (fun args _ => args.head?) [.rangeValue 5]) := by decide
  refine ⟨hsurplus, hlarge, fun hall => ?_⟩
  have hstrict := hall 64 dimming "#mylife-home-hardware" "dimmer set 50 60" "set" [.range 0 100]
    ["50".toList, "60".toList] _ untouched (by decide) (addressed_dimmer (by decide))
    getMember_dimmer rfl
  obtain ⟨notice, hsent⟩ := hstrict.2 fun ⟨values, h⟩ => by
    cases values with
    | nil => exact h
    | cons value values => exact h.2
  rw [hsurplus] at hsent
  have hruns := congrArg Record.runs (Option.some.inj hsent)
  simp [Record.run, Record.ircError, untouched] at hruns

end MyLifeHome.Components
