import MyLifeHome.Core.Repository

/-!
# The manager

`plugins.js`, `hardware.js`, `data.js` and the half of `manager.js` that adds and removes
plugins, hardware and links. What the configuration of a component holds besides is of a
type `δ` that the core does not look at.
-/
namespace MyLifeHome

structure PluginConfig (δ : Type) where
  id : String
  type : String
  rest : δ
  deriving DecidableEq

structure HardwareConfig (δ : Type) where
  id : String
  clazz : NetClass
  rest : δ
  deriving DecidableEq

/-- A link as `api/links` shows it. -/
structure LinkItem extends LinkConfig where
  id : String
  deriving DecidableEq

structure PluginContainer (δ : Type) where
  id : String
  config : PluginConfig δ
  pluginType : PluginType
  netContainer : NetContainer

structure HardwareItem (δ : Type) where
  id : String
  config : HardwareConfig δ
  container : NetContainer

/-- The content of `data.json`. -/
structure Data (δ : Type) where
  plugins : Dictionary String (PluginConfig δ)
  hardware : Dictionary String (HardwareConfig δ)
  links : Dictionary String LinkItem

structure Manager (δ : Type) where
  process : Process
  pluginContainers : Dictionary String (PluginContainer δ)
  hardware : Dictionary String (HardwareItem δ)
  data : Data δ

/-- `create` of a plugin: nobody listens to the object while its attributes are set. -/
def PluginType.create (type : PluginType) (p : Process) (r : ObjRef) : Except JsError Process := do
  let p ← type.initial.foldlM (fun p a => do
    (p.objects r).checkAttribute a.1 a.2
    pure (p.assign r a.1 a.2)) p
  pure (type.actions.foldl (fun p name => p.on r (.actionOf name) (.plugin type r)) p)

namespace Manager

variable {δ : Type}

/-! ## The registries -/

/-- `registry[id] !== undefined` -/
def isDefined {α : Type} (registry : Dictionary String α) (id : String) : Bool :=
  objectPrototype.contains id || (registry.get id).isSome

def createPlugin (m : Manager δ) (config : PluginConfig δ) : Except JsError (Manager δ) := do
  if isDefined m.pluginContainers config.id then throw (.error "container already exists")
  match PluginType.ofName config.type with
  | none => throw .typeError
  | some type =>
    let r := m.process.allocated
    let p ← type.create (m.process.alloc (netObject config.id type.clazz)) r
    let channels := "#mylife-home-core" :: if type.ui then ["#mylife-home-ui"] else []
    let (p, netContainer) ← p.publish r channels true
    pure { m with
      process := p
      pluginContainers :=
        m.pluginContainers.set config.id ⟨config.id, config, type, netContainer⟩ }

/-- No shipped plugin has a `destroy` of its own. -/
def destroyPlugin (m : Manager δ) (id : String) : Manager δ × Bool :=
  match m.pluginContainers.get id with
  | none => (m, false)
  | some container =>
    ({ m with
      process := m.process.unpublish container.netContainer
      pluginContainers := m.pluginContainers.erase id }, true)

def createHardware (m : Manager δ) (config : HardwareConfig δ) : Except JsError (Manager δ) := do
  if isDefined m.hardware config.id then throw (.error "hardware already exists")
  let r := m.process.allocated
  let p := m.process.alloc (netObject config.id config.clazz)
  let (p, container) ← p.publish r ["#mylife-home-hardware"] false
  pure { m with
    process := p
    hardware := m.hardware.set config.id ⟨config.id, config, container⟩ }

def destroyHardware (m : Manager δ) (id : String) : Manager δ × Bool :=
  match m.hardware.get id with
  | none => (m, false)
  | some item =>
    ({ m with
      process := m.process.unpublish item.container
      hardware := m.hardware.erase id }, true)

/-! ## The calls of the API -/

/-- The first link that the component is an end of. -/
def checkLink (m : Manager δ) (id : String) : Except JsError Unit :=
  match m.process.links.entries.find? fun e =>
    e.2.config.sourceComponent = id ∨ e.2.config.destinationComponent = id with
  | some e => .error (.error ("object " ++ id ++ " used in link " ++ e.1))
  | none => .ok ()

def getPlugins (m : Manager δ) : List (PluginConfig δ) :=
  m.pluginContainers.values.map PluginContainer.config

def addPlugin (m : Manager δ) (config : PluginConfig δ) : Except JsError (Manager δ) := do
  let m ← m.createPlugin config
  pure { m with data := { m.data with plugins := m.data.plugins.set config.id config } }

def removePlugin (m : Manager δ) (id : String) : Except JsError (Manager δ) := do
  m.checkLink id
  let (m, found) := m.destroyPlugin id
  if !found then throw (.error "plugin not found")
  pure { m with data := { m.data with plugins := m.data.plugins.erase id } }

def getHardware (m : Manager δ) : List (HardwareConfig δ) :=
  m.hardware.values.map HardwareItem.config

def addHardware (m : Manager δ) (config : HardwareConfig δ) : Except JsError (Manager δ) := do
  let m ← m.createHardware config
  pure { m with data := { m.data with hardware := m.data.hardware.set config.id config } }

def removeHardware (m : Manager δ) (id : String) : Except JsError (Manager δ) := do
  m.checkLink id
  let (m, found) := m.destroyHardware id
  if !found then throw (.error "hardware not found")
  pure { m with data := { m.data with hardware := m.data.hardware.erase id } }

def getLinks (m : Manager δ) : List LinkItem :=
  m.process.links.values.map fun link => ⟨link.config, link.id⟩

def addLink (m : Manager δ) (config : LinkItem) : Except JsError (Manager δ) := do
  let (p, link) ← Links.create m.process config.toLinkConfig
  pure { m with
    process := p
    data := { m.data with links := m.data.links.set link.id config } }

def removeLink (m : Manager δ) (id : String) : Except JsError (Manager δ) := do
  let (p, found) := Links.destroy m.process id
  if !found then throw (.error "link not found")
  pure { m with
    process := p
    data := { m.data with links := m.data.links.erase id } }

end Manager

end MyLifeHome
