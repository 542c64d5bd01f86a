import MyLifeHome.Core.NetObject

/-!
# The shipped plugins

One definition for each handler that a plugin of `plugins/` puts on its object. A
handler reads its object and answers the calls it makes on it, in order; the music
player also rearms the timers that delay its two setters.
-/
namespace MyLifeHome

inductive PluginType where
  | button | hubBool | light | music | stepRelay | switchToButton
  deriving DecidableEq

/-- The two debounce timers of the music player. -/
inductive Timer where
  | state | volume
  deriving DecidableEq

/-- What a handler does to its own object. -/
inductive PluginCall where
  | setAttribute (name : String) (value : JsValue)
  | setTimeout (timer : Timer) (value : JsValue)
  deriving DecidableEq

/-- `args[0]` -/
def firstArg (args : List JsValue) : JsValue := args.headD .undefined

def boolean : NetType := netEnum ["off", "on"]

/-! ## One plugin after another -/

namespace Button

def clazz : NetClass := netClass [netAttribute "output" boolean, netAction "input" []]

def input : List PluginCall :=
  [.setAttribute "output" (.str "on"), .setAttribute "output" (.str "off")]

end Button

namespace HubBool

def clazz : NetClass := netClass [netAttribute "output" boolean, netAction "input" [boolean]]

def input (args : List JsValue) : List PluginCall := [.setAttribute "output" (firstArg args)]

end HubBool

namespace Light

def clazz : NetClass := netClass [netAttribute "output" boolean, netAction "input" [boolean]]

def input (args : List JsValue) : List PluginCall := [.setAttribute "output" (firstArg args)]

end Light

namespace SwitchToButton

def clazz : NetClass := netClass [netAttribute "output" boolean, netAction "input" [boolean]]

/-- The value that arrives is not looked at. -/
def input : List PluginCall :=
  [.setAttribute "output" (.str "on"), .setAttribute "output" (.str "off")]

end SwitchToButton

namespace StepRelay

def clazz : NetClass := netClass
  [netAttribute "output" boolean, netAction "input" [boolean], netAction "on" [boolean],
    netAction "off" [boolean]]

def toggled (val : JsValue) : JsValue := if val = .str "on" then .str "off" else .str "on"

def input (o : NetObject) (args : List JsValue) : Except JsError (List PluginCall) :=
  if firstArg args ≠ .str "on" then pure []
  else do
    let val ← o.getAttribute "output"
    pure [.setAttribute "output" (toggled val)]

def setValue (o : NetObject) (value : JsValue) : Except JsError (List PluginCall) := do
  let val ← o.getAttribute "output"
  pure (if val ≠ value then [.setAttribute "output" value] else [])

/-- The actions `on` and `off`: `value` is the name of the action. -/
def setter (value : String) (o : NetObject) (args : List JsValue) :
    Except JsError (List PluginCall) :=
  if firstArg args ≠ .str "on" then pure [] else setValue o (.str value)

end StepRelay

namespace Music

def volumeInterval : Int := 10

def state : NetType := netEnum ["unknown", "stop", "play", "pause"]
def volume : NetType := netRange 0 100

def clazz : NetClass := netClass
  [netAttribute "state" state, netAttribute "volume" volume,
    netAction "setstate" [state], netAction "setvolume" [volume],
    netAction "stop" [], netAction "play" [], netAction "pause" [], netAction "state-switch" [],
    netAction "volume-more" [], netAction "volume-less" []]

def hexDigit (c : Char) : Option Nat :=
  if c.isDigit then some (c.toNat - 48)
  else if 'a' ≤ c ∧ c ≤ 'f' then some (c.toNat - 87)
  else if 'A' ≤ c ∧ c ≤ 'F' then some (c.toNat - 55)
  else none

/-- The value of the hexadecimal digits at the front, `none` when there is none. -/
def readHex (cs : List Char) : Option Int :=
  let ds := cs.map hexDigit |>.takeWhile Option.isSome
  if ds = [] then none else some ((ds.foldl (fun n d => 16 * n + d.getD 0) 0 : Nat) : Int)

/-- `parseInt(text)` without a radix, which also reads `0x` numbers. -/
def parseIntAuto (text : String) : Option Int :=
  match text.toList.dropWhile isStrWhiteSpace with
  | '0' :: x :: cs => if x = 'x' ∨ x = 'X' then readHex cs else parseInt text
  | '+' :: '0' :: x :: cs => if x = 'x' ∨ x = 'X' then readHex cs else parseInt text
  | '-' :: '0' :: x :: cs =>
    if x = 'x' ∨ x = 'X' then (readHex cs).map fun n => -n else parseInt text
  | _ => parseInt text

/-- `volume-more` with `10` and the bound above, `volume-less` with `-10` and the bound below. -/
def volumeStep (bounded : Int → Int) (o : NetObject) : Except JsError (List PluginCall) := do
  let vol ← o.getAttribute "volume"
  let vol := match parseIntAuto vol.text with
    | none => JsNumber.nan
    | some n => JsNumber.int (bounded n)
  pure [.setAttribute "volume" (.num vol)]

def volumeMore : NetObject → Except JsError (List PluginCall) :=
  volumeStep fun vol => if vol + volumeInterval > 100 then 100 else vol + volumeInterval

def volumeLess : NetObject → Except JsError (List PluginCall) :=
  volumeStep fun vol => if vol - volumeInterval < 0 then 0 else vol - volumeInterval

def stateSwitch (o : NetObject) : Except JsError (List PluginCall) := do
  let state ← o.getAttribute "state"
  pure [.setAttribute "state" (if state = .str "play" then .str "pause" else .str "play")]

/-- The attribute that a timer of the music player sets when it expires. -/
def timerAttribute : Timer → String
  | .state => "state"
  | .volume => "volume"

end Music

/-! ## The plugin types -/

namespace PluginType

/-- The name of the file is the name of the type. -/
def ofName (name : String) : Option PluginType :=
  match name with
  | "button" => some .button
  | "hubBool" => some .hubBool
  | "light" => some .light
  | "music" => some .music
  | "stepRelay" => some .stepRelay
  | "switchToButton" => some .switchToButton
  | _ => none

def clazz : PluginType → NetClass
  | .button => Button.clazz
  | .hubBool => HubBool.clazz
  | .light => Light.clazz
  | .music => Music.clazz
  | .stepRelay => StepRelay.clazz
  | .switchToButton => SwitchToButton.clazz

def ui : PluginType → Bool
  | .button | .light | .music => true
  | .hubBool | .stepRelay | .switchToButton => false

/-- The attributes that `create` sets before the object is published. -/
def initial : PluginType → List (String × JsValue)
  | .music => [("state", .str "stop"), ("volume", .str "0")]
  | _ => [("output", .str "off")]

/-- The actions that `create` listens to, in the order of the source. -/
def actions : PluginType → List String
  | .stepRelay => ["input", "on", "off"]
  | .music => ["setstate", "setvolume", "stop", "play", "pause", "state-switch", "volume-more",
      "volume-less"]
  | _ => ["input"]

/-- The handler of `action#name`. -/
def onAction (type : PluginType) (o : NetObject) (name : String) (args : List JsValue) :
    Except JsError (List PluginCall) :=
  match type, name with
  | .button, "input" => pure Button.input
  | .switchToButton, "input" => pure SwitchToButton.input
  | .hubBool, "input" => pure (HubBool.input args)
  | .light, "input" => pure (Light.input args)
  | .stepRelay, "input" => StepRelay.input o args
  | .stepRelay, "on" => StepRelay.setter "on" o args
  | .stepRelay, "off" => StepRelay.setter "off" o args
  | .music, "setstate" => pure [.setTimeout .state (firstArg args)]
  | .music, "setvolume" => pure [.setTimeout .volume (firstArg args)]
  | .music, "stop" => pure [.setAttribute "state" (.str "stop")]
  | .music, "play" => pure [.setAttribute "state" (.str "play")]
  | .music, "pause" => pure [.setAttribute "state" (.str "pause")]
  | .music, "state-switch" => Music.stateSwitch o
  | .music, "volume-more" => Music.volumeMore o
  | .music, "volume-less" => Music.volumeLess o
  | _, _ => pure []

end PluginType

end MyLifeHome
