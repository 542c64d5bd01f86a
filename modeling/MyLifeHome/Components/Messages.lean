import MyLifeHome.Components.Structure
import Mathlib.Algebra.Group.Int.Defs

/-!
# Messages to a C component

`local_event_message` of `net_repository.c`: a message on the channel is cut into words, the
first names the component, the second the action and the next ones are its arguments, which
are read one type after another. `long` has `w` bits.
-/
namespace MyLifeHome.Components

inductive NetValue where
  | enumValue (name : String)
  | rangeValue (n : CInt)
  deriving DecidableEq

/-- `isspace` -/
def isSpace (c : Char) : Bool := [9, 10, 11, 12, 13, 32].contains c.toNat

/-- The `long` nearest to an integer. -/
def saturate (w : Nat) (n : Int) : Int := max (-2 ^ (w - 1)) (min n (2 ^ (w - 1) - 1))

/-- `strtol(nptr, &tail, 10)`: without digits the tail is the whole text. -/
def strtol (w : Nat) (nptr : List Char) : Int × List Char :=
  match Text.readInt (nptr.dropWhile isSpace) with
  | some (n, tail) => (saturate w n, tail)
  | none => (0, nptr)

/-- The switch of `local_call_param`. -/
def readValue (w : Nat) (type : NetType) (svalue : List Char) : Option NetValue :=
  match type with
  | .enum _ =>
    if netTypeEnumExists type (String.ofList svalue) then some (.enumValue (String.ofList svalue))
    else none
  | .range _ _ =>
    let (value, tail) := strtol w svalue
    let rangeValue : CInt := Int32.ofInt value
    let min := (netTypeGetRangeMin type).toInt32
    let max := (netTypeGetRangeMax type).toInt32
    if tail ≠ [] then none
    else if rangeValue < min ∨ rangeValue > max then none
    else some (.rangeValue rangeValue)

/-- The value of the next word, and the text after it. -/
def localCallParam (w : Nat) (type : NetType) (saveptr : List Char) :
    Option (NetValue × List Char) :=
  match Text.strtok ' ' saveptr with
  | none => none
  | some (svalue, saveptr) => (readValue w type svalue).map fun value => (value, saveptr)

/-- `net_member_enum_arguments` stops where `local_call_param` answers 0. -/
def enumArguments (w : Nat) : List NetType → List Char → List NetValue
  | [], _ => []
  | type :: types, saveptr =>
    match localCallParam w type saveptr with
    | none => []
    | some (value, saveptr) => value :: enumArguments w types saveptr

structure Container where
  id : String
  clazz : NetClass
  channel : String

def ircChannel (channel : String) : String := "#" ++ channel

/-- The nicks have the same part before the bar. -/
def ircIdEquals (nick1 nick2 : String) : Bool := Text.upTo '|' nick1 == Text.upTo '|' nick2

/-- What becomes of a message; a null pointer is handed to a string function when the
message has not enough words, and a notice is written beyond its buffer when it is too long. -/
inductive Reception where
  | ignored
  | notice (text : String)
  | executed (action : String) (values : List NetValue)
  | nullPointer
  | overflow
  deriving DecidableEq

/-- `irc_error` formats the text, and the byte that ends it, into a buffer of 512 bytes. -/
def ircError (text : String) : Reception :=
  if text.utf8ByteSize < 512 then .notice text else .overflow

def noSuchAction (cmd : String) : Reception := ircError ("action '" ++ cmd ++ "' does not exists")

def badArguments (cmd : String) : Reception :=
  ircError ("action '" ++ cmd ++ "' : invalid arguments count or type")

theorem ircError_ne_executed {text action : String} {values : List NetValue} :
    ircError text ≠ .executed action values := by
  unfold ircError
  split_ifs <;> simp

theorem noSuchAction_eq (cmd : String) : noSuchAction cmd = if cmd.utf8ByteSize < 487
    then .notice ("action '" ++ cmd ++ "' does not exists") else .overflow := by
  have hsize : ("action '" ++ cmd ++ "' does not exists").utf8ByteSize = cmd.utf8ByteSize + 25 := by
    simp only [String.utf8ByteSize_append]
    have h1 : "action '".utf8ByteSize = 8 := by decide
    have h2 : "' does not exists".utf8ByteSize = 17 := by decide
    omega
  rw [noSuchAction, ircError, hsize]
  exact if_congr (by omega) rfl rfl

theorem badArguments_eq (cmd : String) : badArguments cmd = if cmd.utf8ByteSize < 469
    then .notice ("action '" ++ cmd ++ "' : invalid arguments count or type") else .overflow := by
  have hsize : ("action '" ++ cmd ++ "' : invalid arguments count or type").utf8ByteSize =
      cmd.utf8ByteSize + 43 := by
    simp only [String.utf8ByteSize_append]
    have h1 : "action '".utf8ByteSize = 8 := by decide
    have h2 : "' : invalid arguments count or type".utf8ByteSize = 35 := by decide
    omega
  rw [badArguments, ircError, hsize]
  exact if_congr (by omega) rfl rfl

/-- `local_event_message` with the parameters of the IRC event: where it was sent, and the text. -/
def localEventMessage (w : Nat) (container : Container) : List String → Reception
  | receiver :: text :: _ =>
    let addressed := if receiver.toList.head? = some '#' then Text.strtok ' ' text.toList
      else some (receiver.toList, text.toList)
    match addressed with
    | none => .nullPointer
    | some (target, rest) =>
      if ¬ircIdEquals (String.ofList target) container.id then .ignored
      else match Text.strtok ' ' rest with
        | none => .nullPointer
        | some (word, saveptr) =>
          let cmd := String.ofList word
          match container.clazz.getMemberByName cmd with
          | some ⟨_, .action arguments⟩ =>
            let values := enumArguments w arguments saveptr
            if values.length < arguments.length then badArguments cmd
            else .executed cmd values
          | _ => noSuchAction cmd
  | _ => .ignored

/-! ## Word by word -/

variable {w : Nat} {types : List NetType} {values : List NetValue} {xs : List (List Char)}
  {saveptr x : List Char} {container : Container} {cmd text : String}

/-- The words are read as the values of the types; further words are left. -/
def ReadsAll (w : Nat) : List NetType → List (List Char) → List NetValue → Prop
  | [], _, values => values = []
  | type :: types, x :: xs, value :: values =>
    readValue w type x = some value ∧ ReadsAll w types xs values
  | _ :: _, _, _ => False

theorem ReadsAll.length (h : ReadsAll w types xs values) : values.length = types.length := by
  induction types generalizing xs values with
  | nil => simp_all [ReadsAll]
  | cons type types ih =>
    cases xs <;> cases values <;> simp only [ReadsAll] at h
    simp [ih h.2]

theorem readValue_enum_iff {names : List String} {v : NetValue} :
    readValue w (.enum names) x = some v ↔ String.ofList x ∈ names ∧ v = .enumValue (String.ofList x) := by
  simp [readValue, netTypeEnumExists, eq_comm]

/-- All arguments are there exactly when the words read as them. -/
theorem enumArguments_eq_iff : enumArguments w types saveptr = values ∧
    ¬(enumArguments w types saveptr).length < types.length ↔
      ReadsAll w types (Text.words ' ' saveptr) values := by
  induction types generalizing saveptr values with
  | nil => simp [enumArguments, ReadsAll, eq_comm]
  | cons type types ih =>
    rw [enumArguments, localCallParam, Text.words_eq]
    cases Text.strtok ' ' saveptr with
    | none => simp [ReadsAll]
    | some p =>
      obtain ⟨x, rest⟩ := p
      cases hv : readValue w type x with
      | none => cases values <;> simp [ReadsAll, hv]
      | some value =>
        cases values with
        | nil => simp [ReadsAll, hv]
        | cons v vs =>
          have h : _ ↔ ReadsAll w types (Text.words ' ' rest) vs := ih
          simp only [Option.map_some, List.cons.injEq, List.length_cons, ReadsAll, hv,
            Option.some.injEq, ← h]
          constructor
          · rintro ⟨⟨rfl, hvs⟩, hlen⟩
            exact ⟨rfl, hvs, by omega⟩
          · rintro ⟨rfl, hvs, hlen⟩
            exact ⟨⟨rfl, hvs⟩, by omega⟩

/-- A message on the channel leads to the execution of an action exactly when its words
are the component, the action and its arguments. -/
theorem localEventMessage_eq_executed_iff {channel : String} :
    localEventMessage w container [ircChannel channel, text] = .executed cmd values ↔
      ∃ target xs arguments, Text.words ' ' text.toList = target :: cmd.toList :: xs ∧
        ircIdEquals (String.ofList target) container.id = true ∧
        container.clazz.getMemberByName cmd = some ⟨cmd, .action arguments⟩ ∧
        ReadsAll w arguments xs values := by
  have hto : (ircChannel channel).toList.head? = some '#' := by simp [ircChannel]
  simp only [localEventMessage, hto, if_true]
  rw [Text.words_eq]
  cases h1 : Text.strtok ' ' text.toList with
  | none => simp
  | some p =>
    obtain ⟨target, rest⟩ := p
    simp only
    cases hid : ircIdEquals (String.ofList target) container.id with
    | false =>
      simp only [Bool.false_eq_true, not_false_eq_true, if_true, reduceCtorEq, false_iff]
      rintro ⟨target', xs, arguments, hw, hid', -⟩
      obtain ⟨rfl, -⟩ := List.cons.inj hw
      rw [hid] at hid'
      contradiction
    | true =>
      simp only [not_true_eq_false, if_false]
      rw [Text.words_eq rest]
      cases h2 : Text.strtok ' ' rest with
      | none => simp
      | some p =>
        obtain ⟨word, saveptr⟩ := p
        simp only
        constructor
        · intro h
          split at h
          · rename_i arguments hmem
            split_ifs at h with hlen
            · exact absurd h ircError_ne_executed
            · obtain ⟨rfl, hvalues⟩ := Reception.executed.inj h
              obtain rfl := NetClass.name_of_getMemberByName hmem
              refine ⟨target, Text.words ' ' saveptr, arguments, by simp, hid, ?_,
                enumArguments_eq_iff.mp ⟨hvalues, hlen⟩⟩
              exact hmem
          · exact absurd h ircError_ne_executed
        · rintro ⟨target', xs, arguments, hw, -, hmem, hreads⟩
          obtain ⟨-, rfl, rfl⟩ : _ ∧ word = cmd.toList ∧ Text.words ' ' saveptr = xs := by
            simpa using hw
          obtain ⟨rfl, hlen⟩ := enumArguments_eq_iff.mpr hreads
          simp [hmem, hlen]

end MyLifeHome.Components
