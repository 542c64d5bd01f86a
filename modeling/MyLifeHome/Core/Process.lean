import MyLifeHome.Core.Plugins
import MyLifeHome.Library.Cascade
import MyLifeHome.Library.Dictionary

/-!
# The core process

The objects of one process with the functions that listen to them, and what a
synchronous call does. Every listener of the core is a closure that reads the
state and calls other objects, so a call in progress is a stack of pending calls
(`Library.Cascade`); the closures are listed in `Listener` with what they capture.
`trace` records what the process did and is never read by it.
-/
namespace MyLifeHome

/-- Objects are shared by reference: a new object with an old id is another object. -/
abbrev ObjRef := Nat

structure LinkConfig where
  sourceComponent : String
  sourceAttribute : String
  destinationComponent : String
  destinationAction : String
  deriving DecidableEq

/-- The names of the events that an object emits. -/
inductive Event where
  | attributeOf (name : String)
  | attribute
  | actionOf (name : String)
  | action
  | connected
  | disonnected
  deriving DecidableEq

/-- An event with the arguments its listeners receive. -/
inductive Emission where
  | attributeOf (name : String) (value : JsValue)
  | attribute (name : String) (value : JsValue)
  | actionOf (name : String) (args : List JsValue)
  | action (name : String) (args : List JsValue)
  | connected
  | disonnected
  deriving DecidableEq

def Emission.event : Emission → Event
  | .attributeOf name _ => .attributeOf name
  | .attribute _ _ => .attribute
  | .actionOf name _ => .actionOf name
  | .action _ _ => .action
  | .connected => .connected
  | .disonnected => .disonnected

/-- The functions that are registered on objects. `handler` tells apart the functions
that successive calls of `links.create` make. -/
inductive Listener where
  | link (handler : Nat) (source destination : ObjRef) (config : LinkConfig)
  | plugin (type : PluginType) (object : ObjRef)
  | attributeChanged (object : ObjRef)
  | remoteAction (object : ObjRef) (channels : List String)
  deriving DecidableEq

/-- The entries of `netRepository`. A local one has an IRC client of its own, made with
the nick that `client` holds. -/
structure NetContainer where
  object : ObjRef
  channels : List String
  client : Option String
  deriving DecidableEq

/-- The entries of the registry of `links.js`; `destroy` undoes `handler` on `source`. -/
structure Link where
  id : String
  config : LinkConfig
  handler : Nat
  source : ObjRef
  destination : ObjRef
  deriving DecidableEq

/-- The state of the closure that `loadWatcher` returns. -/
structure Watcher where
  channels : Dictionary String Nat
  objects : Dictionary String ObjRef
  online : Bool

inductive Effect where
  | attribute (object : ObjRef) (name : String) (value : JsValue)
  | execute (handler : Nat) (source destination : ObjRef) (action : String) (value : JsValue)
  | nick (object : ObjRef) (nick : String)
  | say (channel message : String)
  | join (channel : String)
  | part (channel : String)
  | disconnect (object : Option ObjRef)
  | destroyed (object : ObjRef)
  deriving DecidableEq

structure Process where
  objects : ObjRef → NetObject
  listeners : ObjRef → List (Event × Listener)
  timers : ObjRef → Timer → Option JsValue
  allocated : Nat
  watcher : Option Watcher
  netRepository : Dictionary String NetContainer
  links : Dictionary String Link
  handlers : Nat
  trace : List Effect

/-- A process that has published nothing. -/
def Process.empty : Process where
  objects _ := netObject "" ⟨[]⟩
  listeners _ := []
  timers _ _ := none
  allocated := 0
  watcher := none
  netRepository := .empty
  links := .empty
  handlers := 0
  trace := []

/-- The calls that a process performs. -/
inductive Call where
  | setAttribute (object : ObjRef) (name : String) (value : JsValue)
  | executeAction (object : ObjRef) (name : String) (args : List JsValue)
  | emit (object : ObjRef) (emission : Emission)
  | listener (listener : Listener) (emission : Emission)
  | setTimeout (object : ObjRef) (timer : Timer) (value : JsValue)
  deriving DecidableEq

namespace Process

def log (p : Process) (e : Effect) : Process := { p with trace := p.trace ++ [e] }

def assign (p : Process) (r : ObjRef) (name : String) (value : JsValue) : Process :=
  { p with
    objects := Function.update p.objects r ((p.objects r).assign name value)
    trace := p.trace ++ [.attribute r name value] }

def setTimeout (p : Process) (r : ObjRef) (timer : Timer) (value : Option JsValue) : Process :=
  { p with timers := Function.update p.timers r (Function.update (p.timers r) timer value) }

/-- The listeners of an event, in the order of registration. -/
def listenersOf (p : Process) (r : ObjRef) (e : Event) : List Listener :=
  ((p.listeners r).filter fun l => l.1 = e).map Prod.snd

def online (p : Process) : Bool := p.watcher.any Watcher.online

/-- The message that `publishRemote` builds for an action. -/
def actionMessage (id name : String) (args : List JsValue) : String :=
  args.foldl (fun msg a => msg ++ " " ++ a.text) (id ++ " " ++ name)

/-- `send` of the watcher -/
def send (p : Process) (channels : List String) (msg : String) : Process :=
  if p.online then p.log (.say (channels.headD "undefined") msg) else p

end Process

/-- The value that the handler of a link receives: `connected` is emitted without one. -/
def Emission.value : Emission → JsValue
  | .attributeOf _ value => value
  | _ => .undefined

def PluginCall.toCall (r : ObjRef) : PluginCall → Call
  | .setAttribute name value => .setAttribute r name value
  | .setTimeout timer value => .setTimeout r timer value

/-- The value that a link passes on: the one it received or else the current one. -/
def linkValue (source : NetObject) (name : String) (value : JsValue) :
    Except JsError JsValue :=
  if value = .undefined then source.getAttribute name else .ok value

/-- What a registered function does when its event is emitted. -/
def Listener.call (p : Process) (e : Emission) : Listener → Except JsError (Process × List Call)
  | .link handler source destination config => do
    let value ← linkValue (p.objects source) config.sourceAttribute e.value
    pure (p.log (.execute handler source destination config.destinationAction value),
      [.executeAction destination config.destinationAction [value]])
  | .plugin type r =>
    match e with
    | .actionOf name args => do
      let calls ← type.onAction (p.objects r) name args
      pure (p, calls.map (PluginCall.toCall r))
    | _ => pure (p, [])
  | .attributeChanged r => do
    let nick ← (p.objects r).makeNick
    pure (p.log (.nick r nick), [])
  | .remoteAction r channels =>
    match e with
    | .action name args =>
      pure (p.send channels (Process.actionMessage (p.objects r).id name args), [])
    | _ => pure (p, [])

/-- One call: the checks, the change and the calls it makes. -/
def step (p : Process) : Call → Except JsError (Process × List Call)
  | .setAttribute r name value => do
    (p.objects r).checkAttribute name value
    pure (p.assign r name value,
      [.emit r (.attributeOf name value), .emit r (.attribute name value)])
  | .executeAction r name args => do
    (p.objects r).checkAction name args
    pure (p, [.emit r (.actionOf name args), .emit r (.action name args)])
  | .emit r e => pure (p, (p.listenersOf r e.event).map fun l => .listener l e)
  | .listener l e => l.call p e
  | .setTimeout r timer value => pure (p.setTimeout r timer (some value), [])

/-- The calls complete, taking the process from `p` to `q`. -/
abbrev Completes (calls : List Call) (p q : Process) : Prop := Cascade.Exec step calls p q

/-! ## The objects after an assignment -/

namespace Process

variable {p : Process} {r s : ObjRef} {name : String} {value : JsValue}

@[simp] theorem assign_objects_self :
    (p.assign r name value).objects r = (p.objects r).assign name value := by simp [assign]

@[simp] theorem assign_objects_of_ne (h : s ≠ r) :
    (p.assign r name value).objects s = p.objects s := by simp [assign, h]

@[simp] theorem assign_listeners : (p.assign r name value).listeners = p.listeners := rfl

@[simp] theorem log_objects (x : Effect) : (p.log x).objects = p.objects := rfl

@[simp] theorem log_listeners (x : Effect) : (p.log x).listeners = p.listeners := rfl

@[simp] theorem send_objects (channels : List String) (msg : String) :
    (p.send channels msg).objects = p.objects := by
  unfold send
  split_ifs <;> rfl

end Process

end MyLifeHome
