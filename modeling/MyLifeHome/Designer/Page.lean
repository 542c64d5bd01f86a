import MyLifeHome.Core.Manager
import MyLifeHome.Designer.Schema
import MyLifeHome.Library.Objects

/-!
# The page of the component designer

What the browser keeps while a schema is edited, and the operations on it: `schemaHelper.js`,
`dataAccess.js`, `plumbHelper.js` and `idGenerator.js`.
-/
namespace MyLifeHome.Designer

open Objects

structure Position where
  x : JsNumber
  y : JsNumber
  deriving DecidableEq

structure PluginType where
  id : String
  arguments : List String
  clazz : NetClass

/-- A plugin as it is sent to the page, where its parameters are not looked at. -/
structure PluginData (δ : Type) where
  id : String
  type : String
  parameters : δ
  designer : Option Position

structure HardwareData where
  id : String
  clazz : NetClass
  designer : Option Position

/-- A plugin on the page, with `internal().type`. -/
structure Plugin (δ : Type) where
  id : String
  type : String
  parameters : δ
  designer : Position
  internalType : Option PluginType

structure Hardware where
  id : String
  clazz : NetClass
  designer : Position

/-- `data`, the counter of `idGenerator`, and the number of the next object. -/
structure Page (δ : Type) where
  pluginTypes : List PluginType
  plugins : List (Obj (Plugin δ))
  hardware : List (Obj Hardware)
  links : List (Obj LinkItem)
  lastId : Nat
  next : Nat

/-- What can be selected. -/
inductive Component (δ : Type) where
  | plugin (x : Obj (Plugin δ))
  | hardware (x : Obj Hardware)

variable {δ : Type}

def Component.id : Component δ → String
  | .plugin x => x.val.id
  | .hardware x => x.val.id

/-- `checkDesignerData` -/
def checkDesignerData (designer : Option Position) : Position := designer.getD ⟨.int 0, .int 0⟩

namespace Page

def findType (data : Page δ) (typeId : String) : Option PluginType :=
  data.pluginTypes.find? fun type => type.id = typeId

/-- The page after `load`. -/
def prepareData (pluginTypes : List PluginType) (plugins : List (PluginData δ))
    (hardware : List HardwareData) (links : List LinkItem) (lastId : Nat) : Page δ where
  pluginTypes
  plugins := alloc 0 (plugins.map fun p => ⟨p.id, p.type, p.parameters,
    checkDesignerData p.designer, pluginTypes.find? fun type => type.id = p.type⟩)
  hardware := alloc plugins.length
    (hardware.map fun h => ⟨h.id, h.clazz, checkDesignerData h.designer⟩)
  links := alloc (plugins.length + hardware.length) links
  lastId
  next := plugins.length + hardware.length + links.length

/-- `'new_plugin_' + idGenerator()` -/
def newPluginId (data : Page δ) : String := "new_plugin_" ++ toString (data.lastId + 1)

/-- `parameters` makes the object with a null for each argument of the type. -/
def createPlugin (parameters : List String → δ) (data : Page δ) (typeId : String)
    (x y : JsNumber) : Except JsError (Page δ) :=
  match data.findType typeId with
  | none => .error .typeError
  | some type =>
    let plugin := ⟨data.newPluginId, type.id, parameters type.arguments, ⟨x, y⟩, some type⟩
    .ok { data with
      plugins := data.plugins ++ [⟨data.next, plugin⟩]
      lastId := data.lastId + 1
      next := data.next + 1 }

def findLinksFromComponent (data : Page δ) (id : String) : List (Obj LinkItem) :=
  data.links.filter fun link => link.val.sourceComponent = id ∨ link.val.destinationComponent = id

/-- A component without a type counts as hardware. -/
def deleteComponent (data : Page δ) (comp : Component δ) : Page δ :=
  let data := { data with
    links := (data.findLinksFromComponent comp.id).foldl removeFromArray data.links }
  match comp with
  | .plugin x =>
    if x.val.internalType.isSome then { data with plugins := removeFromArray data.plugins x }
    else data
  | .hardware x => { data with hardware := removeFromArray data.hardware x }

/-- Hardware is searched first. -/
def getMember (data : Page δ) (compId memberId : String) : Except JsError (Option NetMember) :=
  match data.hardware.find? fun x => x.val.id = compId with
  | some x => .ok (x.val.clazz.getMember memberId)
  | none =>
    match data.plugins.find? fun x => x.val.id = compId with
    | some x =>
      match x.val.internalType with
      | some type => .ok (type.clazz.getMember memberId)
      | none => .error .typeError
    | none => .ok none

end Page

/-- `schemaHelper.checkLinkTypes`, where a member may be `undefined`. -/
def checkMembers : Option NetMember → Option NetMember → Except JsError Bool
  | _, none => .error .typeError
  | some sourceMember, some targetMember => checkLinkTypes sourceMember targetMember
  | none, some targetMember =>
    match targetMember.membertype with
    | .attribute _ => .error .typeError
    | .action [] => .ok true
    | .action [_] => .error .typeError
    | .action (_ :: _ :: _) => .ok false

/-- The `schema-id` of an attribute on the page. -/
def getSourceId (link : LinkConfig) : String :=
  "attribute:" ++ link.sourceComponent ++ ":" ++ link.sourceAttribute

def getTargetId (link : LinkConfig) : String :=
  "action:" ++ link.destinationComponent ++ ":" ++ link.destinationAction

/-- A piece of an id that has been split; the ids above have three at least. -/
def piece (id : String) (i : Nat) : String := (Text.split ':' id).getD i ""

/-- The link that `createLink` makes of the two ids. -/
def linkBetween (sourceId targetId : String) : LinkItem where
  sourceComponent := piece sourceId 1
  sourceAttribute := piece sourceId 2
  destinationComponent := piece targetId 1
  destinationAction := piece targetId 2
  id := piece sourceId 1 ++ "|" ++ piece sourceId 2 ++ "|" ++ piece targetId 1 ++ "|" ++
    piece targetId 2

namespace Page

def findConnection (data : Page δ) (sourceId targetId : String) : Option (Obj LinkItem) :=
  data.links.find? fun link =>
    sourceId = getSourceId link.val.toLinkConfig ∧ targetId = getTargetId link.val.toLinkConfig

def pushLink (data : Page δ) (link : LinkItem) : Page δ :=
  { data with links := data.links ++ [⟨data.next, link⟩], next := data.next + 1 }

def createLink (data : Page δ) (sourceId targetId : String) : Page δ :=
  data.pushLink (linkBetween sourceId targetId)

def getMemberFromId (data : Page δ) (id : String) : Except JsError (Option NetMember) :=
  data.getMember (piece id 1) (piece id 2)

/-- `plumbHelper.checkLinkTypes` -/
def checkLinkTypes (data : Page δ) (sourceId targetId : String) : Except JsError Bool := do
  let sourceMember ← data.getMemberFromId sourceId
  let targetMember ← data.getMemberFromId targetId
  checkMembers sourceMember targetMember

/-- The user has drawn a connection between the elements of an attribute and of an action. -/
def onConnectionCreated (data : Page δ) (drawn : LinkConfig) : Except JsError (Page δ) := do
  let sourceId := getSourceId drawn
  let targetId := getTargetId drawn
  if (data.findConnection sourceId targetId).isSome then pure data
  else if ← data.checkLinkTypes sourceId targetId then pure (data.createLink sourceId targetId)
  else pure data

def onConnectionDblClick (data : Page δ) (link : Obj LinkItem) : Page δ :=
  { data with links := removeFromArray data.links link }

/-- One round of the loop over `recreateLinks`: what does not fit any more only goes to
`failedLinks`. -/
def recreateLink (data : Page δ) (link : LinkItem) : Except JsError (Page δ) := do
  let sourceMember ← data.getMember link.sourceComponent link.sourceAttribute
  let destMember ← data.getMember link.destinationComponent link.destinationAction
  match sourceMember, destMember with
  | some sourceMember, some destMember =>
    if ← Designer.checkLinkTypes sourceMember destMember then pure (data.pushLink link)
    else pure data
  | _, _ => pure data

/-- An exception leaves the links that have been recreated. -/
def recreateLinks (data : Page δ) : List LinkItem → Page δ × Except JsError Unit
  | [] => (data, .ok ())
  | link :: links =>
    match data.recreateLink link with
    | .error e => (data, .error e)
    | .ok data => data.recreateLinks links

def pushHardware (data : Page δ) (item : HardwareData) (designer : Option Position) : Page δ :=
  let hwitem := ⟨item.id, item.clazz, checkDesignerData designer⟩
  { data with hardware := data.hardware ++ [⟨data.next, hwitem⟩], next := data.next + 1 }

/-- One round of the loop over `res.components`. -/
def loadItem (data : Page δ) (item : HardwareData) : Page δ × Except JsError Unit :=
  match data.hardware.find? fun x => x.val.id = item.id with
  | some existingItem =>
    let links := (data.findLinksFromComponent existingItem.val.id).map Obj.val
    let data := data.deleteComponent (.hardware existingItem)
    (data.pushHardware item (some existingItem.val.designer)).recreateLinks links
  | none => (data.pushHardware item item.designer, .ok ())

def loadHardware (data : Page δ) : List HardwareData → Page δ × Except JsError Unit
  | [] => (data, .ok ())
  | item :: items =>
    match data.loadItem item with
    | (data, .ok ()) => data.loadHardware items
    | (data, .error e) => (data, .error e)

end Page

/-- What the user does. -/
inductive Operation (δ : Type) where
  | createPlugin (typeId : String) (x y : JsNumber)
  | deleteComponent (comp : Component δ)
  | connect (drawn : LinkConfig)
  | removeLink (link : Obj LinkItem)
  | loadHardware (items : List HardwareData)

/-- The page afterwards: up to where an exception is thrown, if one is. -/
def Page.perform (parameters : List String → δ) (data : Page δ) : Operation δ → Page δ
  | .createPlugin typeId x y => (data.createPlugin parameters typeId x y).toOption.getD data
  | .deleteComponent comp => data.deleteComponent comp
  | .connect drawn => (data.onConnectionCreated drawn).toOption.getD data
  | .removeLink link => data.onConnectionDblClick link
  | .loadHardware items => (data.loadHardware items).1

end MyLifeHome.Designer
