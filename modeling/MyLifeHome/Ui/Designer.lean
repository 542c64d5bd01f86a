import MyLifeHome.Core.NetObject
import MyLifeHome.Library.Passes
import MyLifeHome.Ui.Structure

/-!
# The design of the windows

The controller of `ui/designer.js`: the windows with what they refer to, the operations of the page
and of its dialogs, and `checkSchema`, which empties the references to what does not exist.
-/
namespace MyLifeHome.Ui.Designer

open Passes

structure Resource where
  id : String
  data : String

/-- An action refers to a member or to a window, as its type says. -/
structure Action where
  type : Option String
  component : Option String
  componentAction : Option String
  window : Option String
  popup : Option Bool

structure MapItem where
  image : Option String

/-- The image of a command, which may show an attribute. -/
structure Display where
  component : Option String
  attributeName : Option String
  defaultImage : Option String
  map : Option (List MapItem)

structure Command where
  id : String
  display : Option Display
  primaryAction : Option Action
  secondaryAction : Option Action

structure ContextItem where
  id : Option String
  component : Option String
  attributeName : Option String

structure Text where
  id : String
  context : Option (List ContextItem)

structure Window where
  id : String
  background : Option String
  commands : List Command
  texts : List Text

/-- A plugin with `internal().type`. -/
structure Plugin where
  id : String
  type : Option PluginTypeItem

/-- What can be selected, with its place. -/
inductive Item where
  | application
  | window (i : Nat)
  | command (i j : Nat)
  | text (i j : Nat)

/-- The scope of the controller; the components have no `plugins` before they are loaded. -/
structure Scope where
  resources : List Resource
  windows : List Window
  components : Option (List Plugin)
  defaultWindow : Option String
  selectedItem : Option Item
  newResourceId : Option String
  newResourceData : Option String
  last_id : Nat

def init : Scope := ⟨[], [], none, some "", none, none, none, 0⟩

/-- Absent and empty are the same to a test. -/
def falsy (id : Option String) : Bool := id.all (· = "")

/-! ## The check -/

namespace Scope

def resourceExists (s : Scope) (id : Option String) : Bool :=
  falsy id || s.resources.any fun resource => some resource.id = id

def windowExists (s : Scope) (id : Option String) : Bool :=
  falsy id || s.windows.any fun window => some window.id = id

/-- The first component with the id and its first member with the name decide. -/
def componentExists (s : Scope) (componentId memberName : Option String) (isAttribute : Bool) :
    Except JsError Bool :=
  if falsy componentId ∧ falsy memberName then .ok true
  else
    match s.components with
    | none => .error .typeError
    | some plugins =>
      match plugins.find? fun component => some component.id = componentId with
      | none => .ok false
      | some component =>
        match component.type with
        | none => .error .typeError
        | some type =>
          match type.clazz.members.find? fun member => some member.name = memberName with
          | none => .ok false
          | some member => .ok (member.isAttribute = isAttribute)

def checkAction (s : Scope) (name : String) (action : Action) : Outcome String Action :=
  if action.type = some "component" then
    require (s.componentExists action.component action.componentAction false)
      { action with component := none, componentAction := none }
      ("Le composant de l'action '" ++ name ++ "' est indéfini.") action
  else if action.type = some "window" then
    require (.ok (s.windowExists action.window) : Except JsError Bool) { action with window := none }
      ("La fenêtre de l'action '" ++ name ++ "' est indéfinie.") action
  else ⟨action, [], false⟩

/-- The three checks on what a command shows. -/
def checkDefaultImage (s : Scope) (name : String) (display : Display) : Outcome String Display :=
  require (.ok (s.resourceExists display.defaultImage) : Except JsError Bool)
    { display with defaultImage := none }
    ("L'image par défaut de la commande '" ++ name ++ "' est indéfinie.") display

def checkAttribute (s : Scope) (name : String) (display : Display) : Outcome String Display :=
  require (s.componentExists display.component display.attributeName true)
    { display with component := none, attributeName := none }
    ("Le composant du binding d'affiche de la commande " ++ name ++ "' est indéfini.") display

def checkMapItem (s : Scope) (name : String) (item : MapItem) : Outcome String MapItem :=
  require (.ok (s.resourceExists item.image) : Except JsError Bool) { item with image := none }
    ("L'image d'un binding de la commande '" ++ name ++ "' est indéfinie.") item

/-- The map is visited without a look whether it is there. -/
def checkMap (s : Scope) (name : String) (display : Display) : Outcome String Display :=
  (orThrow (each (s.checkMapItem name)) display.map).map fun map => { display with map }

def checkDisplay (s : Scope) (name : String) (display : Display) : Outcome String Display :=
  ((s.checkDefaultImage name display).andThen (s.checkAttribute name)).andThen (s.checkMap name)

def checkPrimaryAction (s : Scope) (window : String) (command : Command) :
    Outcome String Command :=
  (orThrow (s.checkAction (window ++ ":" ++ command.id ++ " (primary)"))
    command.primaryAction).map fun primaryAction => { command with primaryAction }

def checkSecondaryAction (s : Scope) (window : String) (command : Command) :
    Outcome String Command :=
  (orThrow (s.checkAction (window ++ ":" ++ command.id ++ " (secondary)"))
    command.secondaryAction).map fun secondaryAction => { command with secondaryAction }

def checkCommandDisplay (s : Scope) (window : String) (command : Command) :
    Outcome String Command :=
  (orThrow (s.checkDisplay (window ++ ":" ++ command.id)) command.display).map
    fun display => { command with display }

def checkCommand (s : Scope) (window : String) (command : Command) : Outcome String Command :=
  ((s.checkPrimaryAction window command).andThen (s.checkSecondaryAction window)).andThen
    (s.checkCommandDisplay window)

def checkContextItem (s : Scope) (name : String) (item : ContextItem) :
    Outcome String ContextItem :=
  require (s.componentExists item.component item.attributeName true)
    { item with component := none, attributeName := none }
    ("Le composant d'un binding du texte " ++ name ++ "' est indéfini.") item

def checkText (s : Scope) (window : String) (text : Text) : Outcome String Text :=
  (ifAny (each (s.checkContextItem (window ++ ":" ++ text.id))) text.context).map
    fun context => { text with context }

def checkBackground (s : Scope) (window : Window) : Outcome String Window :=
  require (.ok (s.resourceExists window.background) : Except JsError Bool)
    { window with background := none }
    ("Le fond de la fenêtre '" ++ window.id ++ "' est indéfini.") window

def checkCommands (s : Scope) (window : Window) : Outcome String Window :=
  (each (s.checkCommand window.id) window.commands).map fun commands => { window with commands }

def checkTexts (s : Scope) (window : Window) : Outcome String Window :=
  (each (s.checkText window.id) window.texts).map fun texts => { window with texts }

def checkWindow (s : Scope) (window : Window) : Outcome String Window :=
  ((s.checkBackground window).andThen s.checkCommands).andThen s.checkTexts

def checkDefaultWindow (s : Scope) : Outcome String Scope :=
  require (.ok (s.windowExists s.defaultWindow) : Except JsError Bool)
    { s with defaultWindow := none }
    "La fenêtre par défaut de l'application est indéfinie." s

/-- No check changes what the others look up. -/
def checkWindows (s : Scope) : Outcome String Scope :=
  (each s.checkWindow s.windows).map fun windows => { s with windows }

def checkSchema (s : Scope) : Outcome String Scope := s.checkDefaultWindow.andThen checkWindows

end Scope

/-! ## What the requests answer -/

structure WindowData where
  id : String
  background : Option String
  commands : Option (List Command)
  texts : Option (List Text)

structure Data where
  resources : Option (List Resource)
  windows : Option (List WindowData)
  defaultWindow : Option String

structure PluginItem where
  id : String
  type : String

structure ComponentsData where
  plugins : List PluginItem
  pluginTypes : List PluginTypeItem

def prepareWindow (window : WindowData) : Window :=
  ⟨window.id, window.background, window.commands.getD [], window.texts.getD []⟩

/-- `components` of `uiManager.js`: what is of the web interface stays. -/
def ComponentsData.keepUi (data : ComponentsData) : ComponentsData :=
  let pluginTypes := data.pluginTypes.filter fun type => type.ui
  ⟨data.plugins.filter fun plugin => pluginTypes.any fun type => plugin.type = type.id, pluginTypes⟩

def attachTypeToPlugin (pluginTypes : List PluginTypeItem) (plugin : PluginItem) : Plugin :=
  ⟨plugin.id, pluginTypes.find? fun type => type.id = plugin.type⟩

/-! ## The operations -/

namespace Scope

def done (s : Scope) : Outcome String Scope := ⟨s, [], false⟩

def fail (s : Scope) : Outcome String Scope := ⟨s, [], true⟩

def modifyWindow (s : Scope) (i : Nat) (f : Window → Window) : Scope :=
  { s with windows := s.windows.modify i f }

def modifyCommand (s : Scope) (i j : Nat) (f : Command → Command) : Scope :=
  s.modifyWindow i fun window => { window with commands := window.commands.modify j f }

def modifyText (s : Scope) (i j : Nat) (f : Text → Text) : Scope :=
  s.modifyWindow i fun window => { window with texts := window.texts.modify j f }

/-- In the place of absent resources or windows comes an object without `forEach`. -/
def applyData (s : Scope) (data : Data) : Outcome String Scope :=
  match data.resources, data.windows with
  | some resources, some windows =>
    done { s with
      resources
      windows := windows.map prepareWindow
      defaultWindow := if falsy data.defaultWindow then some "" else data.defaultWindow
      selectedItem := none }
  | _, _ => s.fail

def applyComponents (s : Scope) (data : ComponentsData) : Scope :=
  { s with components := some (data.keepUi.plugins.map
      (attachTypeToPlugin data.keepUi.pluginTypes)) }

def newResource (s : Scope) : Scope :=
  if falsy s.newResourceId ∨ falsy s.newResourceData then s
  else
    { s with
      resources := s.resources ++ [⟨s.newResourceId.getD "", s.newResourceData.getD ""⟩]
      newResourceId := none
      newResourceData := none }

/-- The resource is the one at the place. -/
def destroyResource (s : Scope) (i : Nat) : Outcome String Scope :=
  if i < s.resources.length then { s with resources := s.resources.eraseIdx i }.checkSchema
  else s.done

def deleteItem (s : Scope) : Outcome String Scope :=
  match s.selectedItem with
  | none | some .application => s.done
  | some (.window i) =>
    { s with windows := s.windows.eraseIdx i, selectedItem := none }.checkSchema
  | some (.command i j) =>
    { s.modifyWindow i fun window => { window with commands := window.commands.eraseIdx j } with
      selectedItem := none }.checkSchema
  | some (.text i j) =>
    { s.modifyWindow i fun window => { window with texts := window.texts.eraseIdx j } with
      selectedItem := none }.checkSchema

def idGenerator (s : Scope) : String := toString (s.last_id + 1)

def createWindow (s : Scope) : Scope :=
  { s with
    windows := s.windows ++ [prepareWindow ⟨"new_window_" ++ s.idGenerator, none, none, none⟩]
    last_id := s.last_id + 1 }

/-- The new command shows nothing and has no map, and its actions have no type. -/
def createCommand (s : Scope) (i : Nat) : Scope :=
  { s.modifyWindow i fun window =>
      { window with
        commands := window.commands ++
          [{ id := "new_command_" ++ s.idGenerator
             display := some ⟨none, none, none, none⟩
             primaryAction := some ⟨none, none, none, none, none⟩
             secondaryAction := some ⟨none, none, none, none, none⟩ }] } with
    last_id := s.last_id + 1 }

def createText (s : Scope) (i : Nat) : Scope :=
  { s.modifyWindow i fun window =>
      { window with texts := window.texts ++ [⟨"new_text_" ++ s.idGenerator, none⟩] } with
    last_id := s.last_id + 1 }

def createItem (s : Scope) (isText : Bool) : Scope :=
  match s.selectedItem with
  | none => s
  | some .application => s.createWindow
  | some (.window i) => if isText then s.createText i else s.createCommand i
  | some (.command i _) => s.createCommand i
  | some (.text i _) => s.createText i

/-! The property box and the dialogs are about the selected item. -/

def setDefaultWindow (s : Scope) (defaultWindow : Option String) : Scope :=
  match s.selectedItem with
  | some .application => { s with defaultWindow }
  | _ => s

def setBackground (s : Scope) (background : Option String) : Scope :=
  match s.selectedItem with
  | some (.window i) => s.modifyWindow i fun window => { window with background }
  | _ => s

def setId (s : Scope) (id : String) : Scope :=
  match s.selectedItem with
  | none | some .application => s
  | some (.window i) => s.modifyWindow i fun window => { window with id }
  | some (.command i j) => s.modifyCommand i j fun command => { command with id }
  | some (.text i j) => s.modifyText i j fun text => { text with id }

/-- A dialog lists the members of the components before it opens; `data` are what it ends with. -/
def designCommandAction (s : Scope) (primary : Bool) (data : Action) : Outcome String Scope :=
  match s.components, s.selectedItem with
  | some _, some (.command i j) =>
    done (s.modifyCommand i j fun command =>
      if primary then { command with primaryAction := command.primaryAction.map fun _ => data }
      else { command with secondaryAction := command.secondaryAction.map fun _ => data })
  | _, _ => s.fail

def designCommandDisplay (s : Scope) (component attributeName defaultImage : Option String)
    (map : List MapItem) : Outcome String Scope :=
  match s.components, s.selectedItem with
  | some _, some (.command i j) =>
    done (s.modifyCommand i j fun command =>
      { command with
        display := command.display.map fun _ => ⟨component, attributeName, defaultImage, some map⟩ })
  | _, _ => s.fail

def designTextContext (s : Scope) (context : List ContextItem) : Outcome String Scope :=
  match s.components, s.selectedItem with
  | some _, some (.text i j) => done (s.modifyText i j fun text => { text with context := some context })
  | _, _ => s.fail

end Scope

/-- What happens in the page. The answers of a reload arrive one by one, and the check follows. -/
inductive Op where
  | applyData (data : Data)
  | applyComponents (data : ComponentsData)
  | checkSchema
  | selectItem (item : Option Item)
  | newResourceInput (newResourceId newResourceData : Option String)
  | newResource
  | destroyResource (i : Nat)
  | deleteItem
  | createItem (isText : Bool)
  | setDefaultWindow (defaultWindow : Option String)
  | setBackground (background : Option String)
  | setId (id : String)
  | designCommandAction (primary : Bool) (data : Action)
  | designCommandDisplay (component attributeName defaultImage : Option String)
      (map : List MapItem)
  | designTextContext (context : List ContextItem)

open Scope in
def Op.perform (s : Scope) : Op → Outcome String Scope
  | .applyData data => s.applyData data
  | .applyComponents data => done (s.applyComponents data)
  | .checkSchema => s.checkSchema
  | .selectItem item => done { s with selectedItem := item }
  | .newResourceInput newResourceId newResourceData =>
    done { s with newResourceId, newResourceData }
  | .newResource => done s.newResource
  | .destroyResource i => s.destroyResource i
  | .deleteItem => s.deleteItem
  | .createItem isText => done (s.createItem isText)
  | .setDefaultWindow defaultWindow => done (s.setDefaultWindow defaultWindow)
  | .setBackground background => done (s.setBackground background)
  | .setId id => done (s.setId id)
  | .designCommandAction primary data => s.designCommandAction primary data
  | .designCommandDisplay component attributeName defaultImage map =>
    s.designCommandDisplay component attributeName defaultImage map
  | .designTextContext context => s.designTextContext context

/-- An exception ends an operation and not the page. -/
def run (ops : List Op) : Scope := ops.foldl (fun s op => (op.perform s).value) init

end MyLifeHome.Ui.Designer
