import MyLifeHome.Core.Process

/-!
# Publishing objects and linking them

The repository half of `netobject.js` (`publishLocal`, `publishRemote`, the counting
of channels by the shared watcher) and `links.js`. The functions take the process
before the call and answer the process after it, or the exception that leaves it
unchanged.
-/
namespace MyLifeHome

namespace Process

/-- `new`: the object gets a reference that nothing else has. -/
def alloc (p : Process) (o : NetObject) : Process :=
  { p with
    objects := Function.update p.objects p.allocated o
    listeners := Function.update p.listeners p.allocated []
    timers := Function.update p.timers p.allocated fun _ => none
    allocated := p.allocated + 1 }

def on (p : Process) (r : ObjRef) (e : Event) (l : Listener) : Process :=
  { p with listeners := Function.update p.listeners r (p.listeners r ++ [(e, l)]) }

def removeListener (p : Process) (r : ObjRef) (e : Event) (l : Listener) : Process :=
  { p with listeners := Function.update p.listeners r ((p.listeners r).erase (e, l)) }

/-! ## The watcher -/

def loadWatcher (p : Process) : Watcher := p.watcher.getD ⟨.empty, .empty, false⟩

/-- For a name that is a plain key of `channels`. -/
def addChannel (p : Process) (channel : String) : Process :=
  let w := p.loadWatcher
  match w.channels.get channel with
  | some count => { p with watcher := some { w with channels := w.channels.set channel (count + 1) } }
  | none =>
    let q := { p with watcher := some { w with channels := w.channels.set channel 1 } }
    if w.online then q.log (.join channel) else q

def removeChannel (p : Process) (channel : String) : Process :=
  let w := p.loadWatcher
  match w.channels.get channel with
  | some (count + 2) =>
    { p with watcher := some { w with channels := w.channels.set channel (count + 1) } }
  | _ =>
    let q := if w.online then p.log (.part channel) else p
    { q with watcher := some { w with channels := w.channels.erase channel } }

def addObject (p : Process) (r : ObjRef) : Process :=
  let w := p.loadWatcher
  { p with watcher := some { w with objects := w.objects.set (p.objects r).id r } }

def removeObject (p : Process) (r : ObjRef) : Process :=
  let w := p.loadWatcher
  { p with watcher := some { w with objects := w.objects.erase (p.objects r).id } }

def checkClean (p : Process) : Process :=
  if p.loadWatcher.objects.keys ≠ [] then p
  else { p.log (.disconnect none) with watcher := none }

/-! ## Containers -/

def publishLocal (p : Process) (r : ObjRef) (channels : List String) :
    Except JsError (Process × NetContainer) := do
  let nick ← (p.objects r).makeNick
  pure (p.on r .attribute (.attributeChanged r), ⟨r, channels, some nick⟩)

def publishRemote (p : Process) (r : ObjRef) (channels : List String) : Process × NetContainer :=
  let p := channels.foldl addChannel { p with watcher := some p.loadWatcher }
  ((p.addObject r).on r .action (.remoteAction r channels), ⟨r, channels, none⟩)

def publish (p : Process) (r : ObjRef) (channels : List String) (isLocal : Bool) :
    Except JsError (Process × NetContainer) := do
  let (p, container) ← if isLocal then p.publishLocal r channels
    else pure (p.publishRemote r channels)
  pure ({ p with netRepository := p.netRepository.set (p.objects r).id container }, container)

/-- `container.destroy()` -/
def destroyContainer (p : Process) (c : NetContainer) : Process :=
  let p := p.log (.destroyed c.object)
  match c.client with
  | some _ =>
    (p.log (.disconnect (some c.object))).removeListener c.object .attribute
      (.attributeChanged c.object)
  | none =>
    let p := p.removeListener c.object .action (.remoteAction c.object c.channels)
    (c.channels.foldl removeChannel (p.removeObject c.object)).checkClean

def unpublish (p : Process) (c : NetContainer) : Process :=
  destroyContainer
    { p with netRepository := p.netRepository.erase (p.objects c.object).id } c

end Process

/-! ## Links -/

namespace Links

def makeId (config : LinkConfig) : String :=
  config.sourceComponent ++ "|" ++ config.sourceAttribute ++ "|" ++ config.destinationComponent ++
    "|" ++ config.destinationAction

/-- The object that `netRepository[id].object` evaluates to, for an id that is a plain key. -/
def component (p : Process) (id : String) : Except JsError ObjRef :=
  match p.netRepository.get id with
  | some container => .ok container.object
  | none => .error .typeError

/-- One new function listens to two events of the source. -/
def create (p : Process) (config : LinkConfig) : Except JsError (Process × Link) := do
  let id := makeId config
  if (p.links.get id).isSome then throw (.error "link already exists")
  let source ← component p config.sourceComponent
  let destination ← component p config.destinationComponent
  let handler := Listener.link p.handlers source destination config
  let link : Link := ⟨id, config, p.handlers, source, destination⟩
  let q := (p.on source (.attributeOf config.sourceAttribute) handler).on source .connected handler
  pure ({ q with links := q.links.set id link, handlers := q.handlers + 1 }, link)

/-- `link.destroy()` removes the function from the attribute event only. -/
def destroyLink (p : Process) (link : Link) : Process :=
  p.removeListener link.source (.attributeOf link.config.sourceAttribute)
    (.link link.handler link.source link.destination link.config)

/-- The answer tells whether the link was found. -/
def destroy (p : Process) (id : String) : Process × Bool :=
  match p.links.get id with
  | none => (p, false)
  | some link =>
    let q := destroyLink p link
    ({ q with links := q.links.erase id }, true)

end Links

end MyLifeHome
