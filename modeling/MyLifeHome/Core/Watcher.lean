import MyLifeHome.Core.Repository

/-!
# The events of the watcher

What the IRC client of `loadWatcher` reports and how the watcher turns it into calls
on the remote objects: a nick is an id followed by the values of the attributes.
-/
namespace MyLifeHome

/-- The users of a channel as the event `names` carries them. -/
inductive NamesPayload where
  | array (users : List String)
  | keyed (users : Dictionary String String)

/-- `users.length`, where an object keyed by nick has no length. -/
def NamesPayload.length? : NamesPayload → Option Nat
  | .array users => some users.length
  | .keyed _ => none

/-- `users[i]` -/
def NamesPayload.at? : NamesPayload → Nat → Option String
  | .array users, i => users[i]?
  | .keyed users, i => users.get (toString i)

inductive IrcEvent where
  | registered
  | closed
  | names (channel : String) (users : NamesPayload)
  | join (channel nick : String)
  | part (channel nick : String)
  | kick (channel nick : String)
  | kill (nick : String)
  | quit (nick : String)
  | nick (oldNick newNick : String)

/-- `nick.split('|')[0]` -/
def nickId (nick : String) : String := Text.upTo '|' nick

/-- `nick.split('|').slice(1)` -/
def nickValues (nick : String) : List String := (Text.split '|' nick).tail

namespace Process

/-- `objects[id]` of the watcher, for an id that is a plain key -/
def remote (p : Process) (id : String) : Option ObjRef := p.watcher.bind fun w => w.objects.get id

/-- `setAttributes`: the values go to the attribute members by position; without
values every attribute becomes `null`. -/
def setAttributes (r : ObjRef) : List NetMember → Option (List String) → List Call
  | [], _ => []
  | m :: ms, values =>
    if m.isAttribute then
      match values with
      | none => .setAttribute r m.name .null :: setAttributes r ms none
      | some [] => .setAttribute r m.name .undefined :: setAttributes r ms (some [])
      | some (v :: vs) => .setAttribute r m.name (.str v) :: setAttributes r ms (some vs)
    else setAttributes r ms values

def nickOnline (p : Process) (nick : String) : List Call :=
  match p.remote (nickId nick) with
  | none => []
  | some r =>
    setAttributes r (p.objects r).clazz.members (some (nickValues nick)) ++ [.emit r .connected]

def nickOffline (p : Process) (nick : String) : List Call :=
  match p.remote (nickId nick) with
  | none => []
  | some r => .emit r .disonnected :: setAttributes r (p.objects r).clazz.members none

/-- The old nick is not looked at. -/
def nickChanged (p : Process) (_oldNick newNick : String) : List Call :=
  match p.remote (nickId newNick) with
  | none => []
  | some r => setAttributes r (p.objects r).clazz.members (some (nickValues newNick))

def setOnline (p : Process) (online : Bool) : Process :=
  { p with watcher := p.watcher.map fun w => { w with online } }

/-- Every registered object goes offline, under its own id as nick. -/
def connectionClosed (p : Process) : Process × List Call :=
  match p.watcher with
  | none => (p, [])
  | some w =>
    if w.online then (p.setOnline false, w.objects.keys.flatMap p.nickOffline) else (p, [])

def registered (p : Process) : Process :=
  match p.watcher with
  | none => p
  | some w => w.channels.keys.foldl (fun p channel => p.log (.join channel)) (p.setOnline true)

/-- The handlers that the watcher puts on its client. -/
def onIrc (p : Process) : IrcEvent → Process × List Call
  | .registered => (p.registered, [])
  | .closed => p.connectionClosed
  | .names _ users =>
    (p, (List.range (users.length?.getD 0)).flatMap fun i => p.nickOnline ((users.at? i).getD ""))
  | .join _ nick => (p, p.nickOnline nick)
  | .part _ nick | .kick _ nick | .kill nick | .quit nick => (p, p.nickOffline nick)
  | .nick oldNick newNick => (p, p.nickChanged oldNick newNick)

/-- The event is handled to its end: no listener throws out of the callback, which
would stop the process. -/
def Handles (p : Process) (e : IrcEvent) (q : Process) : Prop :=
  Completes (p.onIrc e).2 (p.onIrc e).1 q

end Process

/-- The events that assign the attributes of one object. -/
inductive NickEvent where
  | online (nick : String)
  | changed (oldNick newNick : String)
  | offline (nick : String)

namespace NickEvent

def nick : NickEvent → String
  | .online nick | .changed _ nick | .offline nick => nick

/-- Offline, there are no values. -/
def values : NickEvent → Option (List String)
  | .online nick | .changed _ nick => some (nickValues nick)
  | .offline _ => none

def calls (p : Process) : NickEvent → List Call
  | .online nick => p.nickOnline nick
  | .changed oldNick newNick => p.nickChanged oldNick newNick
  | .offline nick => p.nickOffline nick

def isOnline : NickEvent → Bool
  | .online _ => true
  | .changed _ _ | .offline _ => false

end NickEvent

end MyLifeHome
