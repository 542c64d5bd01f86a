import MyLifeHome.Components.Messages

/-!
# The types of components

The class that each registered type of component declares, and the handlers of its actions.
A handler trusts that `local_call_param` has read its arguments by the class, and ends the
process through `log_fatal` on an enum value that it does not know.
-/
namespace MyLifeHome.Components

/-- `enum mpd_state` -/
inductive MpdState where
  | unknown
  | stop
  | play
  | pause
  deriving DecidableEq

/-- What a handler does. -/
inductive Deed where
  | attributeChange (name : String) (value : NetValue)
  | gpioSetValue (value : CInt)
  | changeValue (value : CInt)
  | mpdRun (state : MpdState)
  | mpdSetVolume (volume : CInt)
  deriving DecidableEq

/-- What becomes of a call of a handler. It is `undefined` when the handler reads an argument
that is not there, or the other member of the union. -/
inductive Handled where
  | done (deeds : List Deed)
  | fatal (text : String)
  | undefined
  deriving DecidableEq

def unknownValue (value : String) : Handled := .fatal ("unknown value : " ++ value)

def offOn : NetType := .enum ["off", "on"]

/-- The handler of an action that turns something off and on. -/
def offOnHandler (turn : CInt → Deed) : List NetValue → Handled
  | .enumValue sval :: _ =>
    if sval = "off" then .done [turn 0, .attributeChange "value" (.enumValue sval)]
    else if sval = "on" then .done [turn 1, .attributeChange "value" (.enumValue sval)]
    else unknownValue sval
  | _ => .undefined

namespace Test

def attrType : NetType := .range 0 100

def clazz : NetClass := ⟨[⟨"attribute", .attribute attrType⟩, ⟨"action", .action [attrType]⟩]⟩

def actionCallback : List NetValue → Handled
  | value :: _ => .done [.attributeChange "attribute" value]
  | [] => .undefined

end Test

namespace Gpioin

def clazz : NetClass := ⟨[⟨"value", .attribute offOn⟩]⟩

end Gpioin

namespace Gpioout

def clazz : NetClass := ⟨[⟨"value", .attribute offOn⟩, ⟨"setvalue", .action [offOn]⟩]⟩

def actionCallback : List NetValue → Handled := offOnHandler .gpioSetValue

end Gpioout

namespace Rcswitch

def clazz : NetClass := ⟨[⟨"value", .attribute offOn⟩, ⟨"setvalue", .action [offOn]⟩]⟩

def actionCallback : List NetValue → Handled := offOnHandler .changeValue

end Rcswitch

namespace Mpd

/-- The array of the names, by state. -/
def states : MpdState → String
  | .unknown => "unknown"
  | .stop => "stop"
  | .play => "play"
  | .pause => "pause"

def netTypeVolume : NetType := .range 0 100

def netTypeStatus : NetType := .enum ["unknown", "stop", "play", "pause"]

def clazz : NetClass :=
  ⟨[⟨"state", .attribute netTypeStatus⟩, ⟨"volume", .attribute netTypeVolume⟩,
    ⟨"setstate", .action [netTypeStatus]⟩, ⟨"setvolume", .action [netTypeVolume]⟩]⟩

/-- The state that the handler asks for. -/
def requested (state : String) : Option MpdState :=
  if state = states .stop then some .stop
  else if state = states .play then some .play
  else if state = states .pause then some .pause
  else none

/-- What `change_status` publishes afterwards depends on the component. -/
def setstateHandler : List NetValue → Handled
  | .enumValue state :: _ =>
    match requested state with
    | some estate => .done [.mpdRun estate]
    | none => unknownValue state
  | _ => .undefined

def setvolumeHandler : List NetValue → Handled
  | .rangeValue volume :: _ => .done [.mpdSetVolume volume]
  | _ => .undefined

end Mpd

/-- The registered types. -/
inductive ComponentType where
  | test
  | mpd
  | gpioin
  | gpioout
  | rcswitch
  deriving DecidableEq

namespace ComponentType

def clazz : ComponentType → NetClass
  | test => Test.clazz
  | mpd => Mpd.clazz
  | gpioin => Gpioin.clazz
  | gpioout => Gpioout.clazz
  | rcswitch => Rcswitch.clazz

/-- The handlers that `creator` sets. -/
def handler : ComponentType → String → Option (List NetValue → Handled)
  | test, "action" => some Test.actionCallback
  | mpd, "setstate" => some Mpd.setstateHandler
  | mpd, "setvolume" => some Mpd.setvolumeHandler
  | gpioout, "setvalue" => some Gpioout.actionCallback
  | rcswitch, "setvalue" => some Rcswitch.actionCallback
  | _, _ => none

end ComponentType

/-- What a message does to a component of a type. -/
inductive Outcome where
  | ignored
  | notice (text : String)
  | handled (result : Handled)
  | noCallback
  | nullPointer
  | overflow
  deriving DecidableEq

/-- Running the handler of an action. -/
def call (type : ComponentType) (cmd : String) (values : List NetValue) : Outcome :=
  match type.handler cmd with
  | none => .noCallback
  | some handler => .handled (handler values)

def outcome (type : ComponentType) : Reception → Outcome
  | .ignored => .ignored
  | .notice text => .notice text
  | .nullPointer => .nullPointer
  | .overflow => .overflow
  | .executed action values => call type action values

/-- A message that arrives at a component, up to the end of the handler that it runs. -/
def receive (w : Nat) (type : ComponentType) (id channel : String) (params : List String) :
    Outcome :=
  outcome type (localEventMessage w ⟨id, type.clazz, channel⟩ params)

/-- The component goes on: it has ignored the message, answered it or run the handler. -/
def Outcome.Survives : Outcome → Prop
  | .ignored => True
  | .notice _ => True
  | .handled (.done _) => True
  | _ => False

/-! ## Calls -/

variable {w : Nat} {type : ComponentType} {id channel receiver text cmd : String}
  {arguments : List NetType} {values : List NetValue} {xs : List (List Char)}

/-- The one call that a class accepts and its handler does not know. -/
def Unhandled (type : ComponentType) (cmd : String) (args : List (List Char)) : Prop :=
  type = .mpd ∧ cmd = "setstate" ∧ args.head? = some "unknown".toList

/-- What the one word of an enum argument is read as. -/
theorem readsAll_enum {names : List String} (h : ReadsAll w [.enum names] xs values) :
    ∃ x rest, xs = x :: rest ∧ values = [.enumValue (String.ofList x)] ∧
      String.ofList x ∈ names := by
  match xs, values, h with
  | x :: xs, value :: values, ⟨hx, hrest⟩ =>
    obtain ⟨hmem, rfl⟩ := readValue_enum_iff.mp hx
    obtain rfl : values = [] := hrest
    exact ⟨x, xs, rfl, rfl, hmem⟩

theorem readsAll_range {min max : CInt} (h : ReadsAll w [.range min max] xs values) :
    ∃ n, values = [.rangeValue n] := by
  match xs, values, h with
  | x :: xs, value :: values, ⟨hx, hrest⟩ =>
    obtain rfl : values = [] := hrest
    simp only [readValue] at hx
    split_ifs at hx
    exact ⟨_, by rw [← Option.some.inj hx]⟩

theorem offOnHandler_done {turn : CInt → Deed} (h : ReadsAll w [offOn] xs values) :
    ∃ deeds, offOnHandler turn values = .done deeds := by
  obtain ⟨x, rest, rfl, rfl, hmem⟩ := readsAll_enum h
  have hcases : String.ofList x = "off" ∨ String.ofList x = "on" := by simpa using hmem
  rcases hcases with hoff | hon
  · simp [offOnHandler, hoff]
  · simp [offOnHandler, hon]

theorem setstateHandler_done_iff (h : ReadsAll w [Mpd.netTypeStatus] xs values) :
    (∃ deeds, Mpd.setstateHandler values = .done deeds) ↔ xs.head? ≠ some "unknown".toList := by
  obtain ⟨x, rest, rfl, rfl, hmem⟩ := readsAll_enum h
  have hcases : String.ofList x = "unknown" ∨ String.ofList x = "stop" ∨
      String.ofList x = "play" ∨ String.ofList x = "pause" := by simpa using hmem
  have hhead : x = "unknown".toList ↔ String.ofList x = "unknown" := by
    constructor
    · intro hx
      rw [hx, String.ofList_toList]
    · intro hx
      rw [← hx, String.toList_ofList]
  rw [List.head?_cons, ne_eq, Option.some.injEq, hhead]
  rcases hcases with hs | hs | hs | hs <;>
    simp [Mpd.setstateHandler, Mpd.requested, Mpd.states, unknownValue, hs]

theorem survives_handled_iff {result : Handled} :
    (Outcome.handled result).Survives ↔ ∃ deeds, result = .done deeds := by
  cases result <;> simp [Outcome.Survives]

/-- The actions of the classes. -/
theorem getMemberByName_action (ha : type.clazz.getMemberByName cmd = some ⟨cmd, .action arguments⟩) :
    type = .test ∧ cmd = "action" ∧ arguments = [Test.attrType] ∨
    type = .mpd ∧ cmd = "setstate" ∧ arguments = [Mpd.netTypeStatus] ∨
    type = .mpd ∧ cmd = "setvolume" ∧ arguments = [Mpd.netTypeVolume] ∨
    type = .gpioout ∧ cmd = "setvalue" ∧ arguments = [offOn] ∨
    type = .rcswitch ∧ cmd = "setvalue" ∧ arguments = [offOn] := by
  have hmem := List.mem_of_find?_eq_some ha
  cases type with
  | gpioin => simp [ComponentType.clazz, Gpioin.clazz] at hmem
  | test => simpa [ComponentType.clazz, Test.clazz] using hmem
  | mpd => simpa [ComponentType.clazz, Mpd.clazz] using hmem
  | gpioout => simpa [ComponentType.clazz, Gpioout.clazz] using hmem
  | rcswitch => simpa [ComponentType.clazz, Rcswitch.clazz] using hmem

/-- A call that the class accepts runs the handler to its end, but for one. -/
theorem survives_call_iff (ha : type.clazz.getMemberByName cmd = some ⟨cmd, .action arguments⟩)
    (hv : ReadsAll w arguments xs values) :
    (call type cmd values).Survives ↔ ¬Unhandled type cmd xs := by
  obtain ⟨rfl, rfl, rfl⟩ | ⟨rfl, rfl, rfl⟩ | ⟨rfl, rfl, rfl⟩ | ⟨rfl, rfl, rfl⟩ | ⟨rfl, rfl, rfl⟩ :=
    getMemberByName_action ha
  · obtain ⟨n, rfl⟩ := readsAll_range hv
    simp [call, ComponentType.handler, Test.actionCallback, survives_handled_iff, Unhandled]
  · refine survives_handled_iff.trans ((setstateHandler_done_iff hv).trans ?_)
    simp [Unhandled]
  · obtain ⟨n, rfl⟩ := readsAll_range hv
    simp [call, ComponentType.handler, Mpd.setvolumeHandler, survives_handled_iff, Unhandled]
  · refine survives_handled_iff.trans (iff_of_true (offOnHandler_done hv) ?_)
    simp [Unhandled]
  · refine survives_handled_iff.trans (iff_of_true (offOnHandler_done hv) ?_)
    simp [Unhandled]

/-! ## Messages -/

/-- A text that names an action, in a word that a notice has room for, and is not the call that
nobody handles. -/
def Calls (type : ComponentType) (words : List (List Char)) : Prop :=
  ∃ cmd args, words = cmd :: args ∧ (String.ofList cmd).utf8ByteSize < 487 ∧
    ¬Unhandled type (String.ofList cmd) args

/-- The texts that a component survives: on a channel, a text that is not blank, and that names
an action when it names the component; in private, a text that names an action. -/
def Proper (type : ComponentType) (id receiver text : String) : Prop :=
  if receiver.toList.head? = some '#' then
    ∃ target rest, Text.words ' ' text.toList = target :: rest ∧
      (ircIdEquals (String.ofList target) id → Calls type rest)
  else ircIdEquals receiver id → Calls type (Text.words ' ' text.toList)

/-- What `local_event_message` does with the words after the target. -/
def execute (w : Nat) (container : Container) (rest : List Char) : Reception :=
  match Text.strtok ' ' rest with
  | none => .nullPointer
  | some (word, saveptr) =>
    let cmd := String.ofList word
    match container.clazz.getMemberByName cmd with
    | some ⟨_, .action arguments⟩ =>
      let values := enumArguments w arguments saveptr
      if values.length < arguments.length then badArguments cmd else .executed cmd values
    | _ => noSuchAction cmd

theorem localEventMessage_eq {container : Container} :
    localEventMessage w container [receiver, text] =
      match (if receiver.toList.head? = some '#' then Text.strtok ' ' text.toList
        else some (receiver.toList, text.toList)) with
      | none => .nullPointer
      | some (target, rest) =>
        if ¬ircIdEquals (String.ofList target) container.id then .ignored
        else execute w container rest := rfl

/-- The names of the actions are short. -/
theorem size_of_action (ha : type.clazz.getMemberByName cmd = some ⟨cmd, .action arguments⟩) :
    cmd.utf8ByteSize < 469 := by
  obtain ⟨-, rfl, -⟩ | ⟨-, rfl, -⟩ | ⟨-, rfl, -⟩ | ⟨-, rfl, -⟩ | ⟨-, rfl, -⟩ :=
    getMemberByName_action ha <;> decide

theorem survives_noSuchAction_iff :
    (outcome type (noSuchAction cmd)).Survives ↔ cmd.utf8ByteSize < 487 := by
  rw [noSuchAction_eq]
  split_ifs with hsize
  · exact iff_of_true trivial hsize
  · exact iff_of_false id hsize

theorem survives_badArguments (hsize : cmd.utf8ByteSize < 469) :
    (outcome type (badArguments cmd)).Survives := by
  rw [badArguments_eq, if_pos hsize]
  trivial

theorem survives_execute_iff {rest : List Char} :
    (outcome type (execute w ⟨id, type.clazz, channel⟩ rest)).Survives ↔
      Calls type (Text.words ' ' rest) := by
  rw [execute, Text.words_eq, Calls]
  cases Text.strtok ' ' rest with
  | none => simp [outcome, Outcome.Survives]
  | some p =>
    obtain ⟨word, saveptr⟩ := p
    simp only [List.cons.injEq]
    have hcalls : (∃ cmd args, (word = cmd ∧ Text.words ' ' saveptr = args) ∧
        (String.ofList cmd).utf8ByteSize < 487 ∧ ¬Unhandled type (String.ofList cmd) args) ↔
        (String.ofList word).utf8ByteSize < 487 ∧
          ¬Unhandled type (String.ofList word) (Text.words ' ' saveptr) := by
      constructor
      · rintro ⟨cmd, args, ⟨rfl, rfl⟩, h⟩
        exact h
      · exact fun h => ⟨word, _, ⟨rfl, rfl⟩, h⟩
    rw [hcalls]
    split
    next name arguments hmem =>
      obtain rfl : name = String.ofList word := NetClass.name_of_getMemberByName hmem
      have hsize := size_of_action hmem
      rw [and_iff_right (by omega)]
      split_ifs with hlen
      · refine iff_of_true (survives_badArguments hsize) ?_
        rintro ⟨htype, hcmd, hhead⟩
        subst htype
        rw [hcmd] at hmem
        obtain rfl : arguments = [Mpd.netTypeStatus] := by
          simpa [ComponentType.clazz, Mpd.clazz, NetClass.getMemberByName, eq_comm] using hmem
        obtain ⟨args, hwords⟩ := List.head?_eq_some_iff.mp hhead
        have hreads : ReadsAll w [Mpd.netTypeStatus] (Text.words ' ' saveptr)
            [.enumValue "unknown"] := by
          rw [hwords]
          exact ⟨rfl, rfl⟩
        exact (enumArguments_eq_iff.mpr hreads).2 hlen
      · exact survives_call_iff hmem (enumArguments_eq_iff.mp ⟨rfl, hlen⟩)
    next hno =>
      refine survives_noSuchAction_iff.trans (and_iff_left ?_).symm
      rintro ⟨htype, hcmd, -⟩
      subst htype
      rw [hcmd] at hno
      exact hno "setstate" [Mpd.netTypeStatus] rfl

/-- A component survives a message exactly when the text is a proper one. -/
theorem survives_iff (w : Nat) (type : ComponentType) (id channel receiver text : String) :
    (receive w type id channel [receiver, text]).Survives ↔ Proper type id receiver text := by
  rw [receive, localEventMessage_eq, Proper]
  have haddressed : ∀ target rest, (outcome type
      (if ¬ircIdEquals (String.ofList target) id then Reception.ignored
        else execute w ⟨id, type.clazz, channel⟩ rest)).Survives ↔
      (ircIdEquals (String.ofList target) id → Calls type (Text.words ' ' rest)) := by
    intro target rest
    cases hid : ircIdEquals (String.ofList target) id with
    | false => simp [outcome, Outcome.Survives]
    | true => simpa using survives_execute_iff
  split_ifs with hchannel
  · rw [Text.words_eq]
    cases Text.strtok ' ' text.toList with
    | none => simp [outcome, Outcome.Survives]
    | some p =>
      obtain ⟨target, rest⟩ := p
      refine (haddressed target rest).trans ⟨fun h => ⟨target, _, rfl, h⟩, ?_⟩
      intro ⟨target', rest', hwords, h⟩
      obtain ⟨rfl, rfl⟩ := List.cons.inj hwords
      exact h
  · simpa using haddressed receiver.toList text.toList

/-- The class of the music player accepts a state that its handler does not know, and a text on
the channel need not have a second word. -/
theorem not_survives :
    receive 64 .mpd "player" "mylife-home-hardware"
      ["#mylife-home-hardware", "player setstate unknown"] =
        .handled (.fatal "unknown value : unknown") ∧
    receive 64 .gpioin "door" "mylife-home-hardware" ["#mylife-home-hardware", "door"] =
      .nullPointer ∧
    ¬∀ w type id channel receiver text,
      (receive w type id channel [receiver, text]).Survives := by
  have hfatal : receive 64 .mpd "player" "mylife-home-hardware"
      ["#mylife-home-hardware", "player setstate unknown"] =
        .handled (.fatal "unknown value : unknown") := by decide
  have hnull : receive 64 .gpioin "door" "mylife-home-hardware"
      ["#mylife-home-hardware", "door"] = .nullPointer := by decide
  refine ⟨hfatal, hnull, fun h => ?_⟩
  have hsurvives := h 64 .mpd "player" "mylife-home-hardware" "#mylife-home-hardware"
    "player setstate unknown"
  rw [hfatal] at hsurvives
  exact hsurvives

end MyLifeHome.Components
