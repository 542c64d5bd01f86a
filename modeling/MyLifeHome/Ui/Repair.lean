import MyLifeHome.Ui.Designer

/-!
# What the check of the windows repairs

Every reference of the windows is found or emptied, wherever it stands. The check gets to all of
them when the parts that it visits are there, which a new command does not have.
-/
namespace MyLifeHome.Ui.Designer

open Passes

/-- A reference with what it may refer to. -/
inductive Reference where
  | resource (id : Option String)
  | window (id : Option String)
  | action (component componentAction : Option String)
  | shown (component attributeName : Option String)

namespace Reference

def Empty : Reference → Prop
  | resource id | window id => falsy id
  | action component memberName | shown component memberName => falsy component ∧ falsy memberName

def cleared : Reference → Reference
  | resource _ => resource none
  | window _ => window none
  | action _ _ => action none none
  | shown _ _ => shown none none

def IsMember : Reference → Prop
  | resource _ | window _ => False
  | action _ _ | shown _ _ => True

theorem empty_cleared (r : Reference) : r.cleared.Empty := by cases r <;> simp [cleared, Empty, falsy]

end Reference

def Action.references (action : Action) : List Reference :=
  if action.type = some "component" then [.action action.component action.componentAction]
  else if action.type = some "window" then [.window action.window]
  else []

def Display.references (display : Display) : List Reference :=
  [.resource display.defaultImage] ++ [.shown display.component display.attributeName] ++
    display.map.elim [] fun map => map.flatMap fun item => [.resource item.image]

def Command.references (command : Command) : List Reference :=
  command.primaryAction.elim [] Action.references ++
    command.secondaryAction.elim [] Action.references ++ command.display.elim [] Display.references

def Text.references (text : Text) : List Reference :=
  text.context.elim [] fun context =>
    context.flatMap fun item => [.shown item.component item.attributeName]

def Window.references (window : Window) : List Reference :=
  [.resource window.background] ++ window.commands.flatMap Command.references ++
    window.texts.flatMap Text.references

def Scope.references (s : Scope) : List Reference :=
  [.window s.defaultWindow] ++ s.windows.flatMap Window.references

namespace Scope

/-- The member of the name in the class of the component of the id. -/
def member (s : Scope) (component memberName : Option String) : Option NetMember := do
  let plugin ← (← s.components).find? fun plugin => some plugin.id = component
  (← plugin.type).clazz.members.find? fun member => some member.name = memberName

def Denotes (s : Scope) : Reference → Prop
  | .resource id => ∃ resource ∈ s.resources, some resource.id = id
  | .window id => ∃ window ∈ s.windows, some window.id = id
  | .action component memberName =>
    ∃ member, s.member component memberName = some member ∧ member.isAttribute = false
  | .shown component memberName =>
    ∃ member, s.member component memberName = some member ∧ member.isAttribute = true

/-- What the check asks about a reference. -/
def found (s : Scope) : Reference → Except JsError Bool
  | .resource id => .ok (s.resourceExists id)
  | .window id => .ok (s.windowExists id)
  | .action component memberName => s.componentExists component memberName false
  | .shown component memberName => s.componentExists component memberName true

def fix (s : Scope) (r : Reference) : Reference :=
  match s.found r with
  | .ok false => r.cleared
  | _ => r

/-- Every component has its type. -/
def Typed (s : Scope) : Prop :=
  ∀ plugins ∈ s.components, ∀ plugin ∈ plugins, plugin.type ≠ none

end Scope

variable {s t : Scope} {r : Reference} {componentId memberName : Option String} {isAttribute : Bool}

theorem componentExists_eq_true_iff : s.componentExists componentId memberName isAttribute = .ok true ↔
    falsy componentId ∧ falsy memberName ∨
      ∃ member, s.member componentId memberName = some member ∧ member.isAttribute = isAttribute := by
  unfold Scope.componentExists Scope.member
  split_ifs with hfalsy
  · simp [hfalsy]
  · simp only [hfalsy, false_or]
    cases s.components with
    | none => simp
    | some plugins =>
      cases hplugin : plugins.find? fun component => some component.id = componentId with
      | none => simp [hplugin]
      | some plugin =>
        cases htype : plugin.type with
        | none => simp [hplugin, htype]
        | some type =>
          cases hmember : type.clazz.members.find? fun member => some member.name = memberName <;>
            simp [hplugin, htype, hmember]

theorem found_eq_true_iff : s.found r = .ok true ↔ r.Empty ∨ s.Denotes r := by
  cases r with
  | resource id => simp [Scope.found, Scope.resourceExists, Reference.Empty, Scope.Denotes]
  | window id => simp [Scope.found, Scope.windowExists, Reference.Empty, Scope.Denotes]
  | action component memberName => exact componentExists_eq_true_iff
  | shown component memberName => exact componentExists_eq_true_iff

/-- The check can tell everything but of a member when there are no components. -/
theorem found_eq_ok_iff (ht : s.Typed) :
    (∃ b, s.found r = .ok b) ↔ (s.components = none → r.IsMember → r.Empty) := by
  have hmember : ∀ c m a, (∃ b, s.componentExists c m a = .ok b) ↔
      (s.components = none → falsy c ∧ falsy m) := by
    intro c m a
    unfold Scope.componentExists
    split_ifs with hfalsy
    · simp [hfalsy]
    · cases hcomponents : s.components with
      | none => simp [hfalsy]
      | some plugins =>
        cases hplugin : plugins.find? fun component => some component.id = c with
        | none => simp [hplugin]
        | some plugin =>
          obtain ⟨type, htype⟩ := Option.ne_none_iff_exists'.mp
            (ht plugins hcomponents plugin (List.mem_of_find?_eq_some hplugin))
          cases hm : type.clazz.members.find? fun member => some member.name = m <;>
            simp [hplugin, htype, hm]
  cases r with
  | resource id | window id => simp [Scope.found, Reference.IsMember]
  | action component memberName =>
    simpa [Scope.found, Reference.IsMember, Reference.Empty] using
      hmember component memberName false
  | shown component memberName =>
    simpa [Scope.found, Reference.IsMember, Reference.Empty] using
      hmember component memberName true

theorem fix_of_found (h : s.found r = .ok true) : s.fix r = r := by simp [Scope.fix, h]

theorem fix_of_not_found (h : s.found r = .ok false) : s.fix r = r.cleared := by simp [Scope.fix, h]

theorem found_cleared : s.found r.cleared = .ok true :=
  found_eq_true_iff.mpr (.inl r.empty_cleared)

theorem cleared_ne (h : s.found r = .ok false) : r.cleared ≠ r := by
  intro heq
  have hfound := found_cleared (s := s) (r := r)
  rw [heq, h] at hfound
  cases hfound

/-! ## Part by part -/

def Scope.Answers (s : Scope) (r : Reference) : Prop := ∃ b, s.found r = .ok b

/-- What is required of a value with one reference. -/
theorem mendsAt_found {α : Type} {refs : α → List Reference} {a cleared : α} {error : String}
    {found : Except JsError Bool} (hfound : s.found r = found) (hrefs : refs a = [r])
    (hcleared : refs cleared = [r.cleared]) :
    MendsAt s.Answers s.fix (fun _ => True) refs (require found cleared error a) a := by
  subst hfound
  refine mendsAt_require trivial hrefs Iff.rfl fix_of_found fun h => ?_
  rw [fix_of_not_found h]
  exact ⟨trivial, hcleared, cleared_ne h⟩

theorem mends_checkAction (s : Scope) (name : String) :
    Mends s.Answers s.fix (fun _ => True) Action.references (s.checkAction name) := by
  intro action
  unfold Scope.checkAction
  split_ifs with hcomponent hwindow
  · exact mendsAt_found (r := .action action.component action.componentAction) rfl
      (by simp [Action.references, hcomponent])
      (by simp [Action.references, hcomponent, Reference.cleared])
  · exact mendsAt_found (r := .window action.window) rfl (by simp [Action.references, hwindow])
      (by simp [Action.references, hwindow, Reference.cleared])
  · exact mendsAt_pure trivial (by simp [Action.references, hcomponent, hwindow])

theorem mends_checkMapItem (s : Scope) (name : String) :
    Mends s.Answers s.fix (fun _ => True) (fun item => [.resource item.image])
      (s.checkMapItem name) :=
  fun item => mendsAt_found (r := .resource item.image) rfl rfl rfl

theorem mends_checkContextItem (s : Scope) (name : String) :
    Mends s.Answers s.fix (fun _ => True) (fun item => [.shown item.component item.attributeName])
      (s.checkContextItem name) :=
  fun item => mendsAt_found (r := .shown item.component item.attributeName) rfl rfl rfl

def Display.Complete (display : Display) : Prop := display.map ≠ none

theorem mends_checkDefaultImage (s : Scope) (name : String) :
    Mends s.Answers s.fix (fun _ => True) (fun display => [.resource display.defaultImage])
      (s.checkDefaultImage name) :=
  fun display => mendsAt_found (r := .resource display.defaultImage) rfl rfl rfl

theorem mends_checkAttribute (s : Scope) (name : String) :
    Mends s.Answers s.fix (fun _ => True)
      (fun display => [.shown display.component display.attributeName]) (s.checkAttribute name) :=
  fun display => mendsAt_found (r := .shown display.component display.attributeName) rfl rfl rfl

theorem mends_checkMap (s : Scope) (name : String) :
    Mends s.Answers s.fix Display.Complete
      (fun display => display.map.elim [] fun map => map.flatMap fun item => [.resource item.image])
      (s.checkMap name) := by
  have hmap := (mends_checkMapItem s name).each.orThrow
  refine (Mends.field Display.map (fun display map => { display with map }) (fun _ => hmap)
    (fun _ _ => rfl) fun _ => rfl).congr (fun display => ?_) (fun _ => rfl) fun _ => rfl
  simp [Display.Complete, Option.ne_none_iff_exists']

theorem mends_checkDisplay (s : Scope) (name : String) :
    Mends s.Answers s.fix Display.Complete Display.references (s.checkDisplay name) := by
  have himage := (mends_checkDefaultImage s name).andThen (mends_checkAttribute s name)
    (frames_require (fun _ => Iff.rfl) fun _ => rfl) (frames_require (fun _ => Iff.rfl) fun _ => rfl)
  have h := himage.andThen (mends_checkMap s name)
    (Frames.andThen (frames_require (fun _ => Iff.rfl) fun _ => rfl)
      (frames_require (fun _ => Iff.rfl) fun _ => rfl))
    (Frames.and (fun _ => ⟨Iff.rfl, rfl⟩) fun _ => ⟨Iff.rfl, rfl⟩)
  exact h.congr (by simp) (fun _ => rfl) fun _ => rfl

structure Command.Complete (command : Command) : Prop where
  primaryAction : command.primaryAction ≠ none
  secondaryAction : command.secondaryAction ≠ none
  display : ∃ display, command.display = some display ∧ display.Complete

theorem mends_checkPrimaryAction (s : Scope) (window : String) :
    Mends s.Answers s.fix (fun command => command.primaryAction ≠ none)
      (fun command => command.primaryAction.elim [] Action.references)
      (s.checkPrimaryAction window) := by
  refine (Mends.field Command.primaryAction
    (fun command primaryAction => { command with primaryAction })
    (fun command => (mends_checkAction s (window ++ ":" ++ command.id ++ " (primary)")).orThrow)
    (fun _ _ => rfl) fun _ => rfl).congr (fun command => ?_) (fun _ => rfl) fun _ => rfl
  simp [Option.ne_none_iff_exists']

theorem mends_checkSecondaryAction (s : Scope) (window : String) :
    Mends s.Answers s.fix (fun command => command.secondaryAction ≠ none)
      (fun command => command.secondaryAction.elim [] Action.references)
      (s.checkSecondaryAction window) := by
  refine (Mends.field Command.secondaryAction
    (fun command secondaryAction => { command with secondaryAction })
    (fun command => (mends_checkAction s (window ++ ":" ++ command.id ++ " (secondary)")).orThrow)
    (fun _ _ => rfl) fun _ => rfl).congr (fun command => ?_) (fun _ => rfl) fun _ => rfl
  simp [Option.ne_none_iff_exists']

theorem mends_checkCommandDisplay (s : Scope) (window : String) :
    Mends s.Answers s.fix
      (fun command => ∃ display, command.display = some display ∧ display.Complete)
      (fun command => command.display.elim [] Display.references) (s.checkCommandDisplay window) :=
  (Mends.field Command.display (fun command display => { command with display })
    (fun command => (mends_checkDisplay s (window ++ ":" ++ command.id)).orThrow)
    (fun _ _ => rfl) fun _ => rfl).congr (fun _ => Iff.rfl) (fun _ => rfl) fun _ => rfl

theorem mends_checkCommand (s : Scope) (window : String) :
    Mends s.Answers s.fix Command.Complete Command.references (s.checkCommand window) := by
  have hactions := (mends_checkPrimaryAction s window).andThen (mends_checkSecondaryAction s window)
    (fun _ => ⟨Iff.rfl, rfl⟩) fun _ => ⟨Iff.rfl, rfl⟩
  have h := hactions.andThen (mends_checkCommandDisplay s window)
    (Frames.andThen (fun _ => ⟨Iff.rfl, rfl⟩) fun _ => ⟨Iff.rfl, rfl⟩) fun _ => ⟨Iff.rfl, rfl⟩
  refine h.congr (fun command => ?_) (fun _ => rfl) fun _ => rfl
  constructor
  · rintro ⟨hprimary, hsecondary, hdisplay⟩
    exact ⟨⟨hprimary, hsecondary⟩, hdisplay⟩
  · rintro ⟨⟨hprimary, hsecondary⟩, hdisplay⟩
    exact ⟨hprimary, hsecondary, hdisplay⟩

theorem mends_checkText (s : Scope) (window : String) :
    Mends s.Answers s.fix (fun _ => True) Text.references (s.checkText window) :=
  (Mends.field Text.context (fun text context => { text with context })
    (fun text => (mends_checkContextItem s (window ++ ":" ++ text.id)).each.ifAny)
    (fun _ _ => rfl) fun _ => rfl).congr (by simp) (fun _ => rfl) fun _ => rfl

def Window.Complete (window : Window) : Prop := ∀ command ∈ window.commands, command.Complete

theorem mends_checkBackground (s : Scope) :
    Mends s.Answers s.fix (fun _ => True) (fun window => [.resource window.background])
      s.checkBackground :=
  fun window => mendsAt_found (r := .resource window.background) rfl rfl rfl

theorem mends_checkCommands (s : Scope) :
    Mends s.Answers s.fix Window.Complete (fun window => window.commands.flatMap Command.references)
      s.checkCommands :=
  (Mends.field Window.commands (fun window commands => { window with commands })
    (fun window => (mends_checkCommand s window.id).each)
    (fun _ _ => rfl) fun _ => rfl).congr (fun _ => Iff.rfl) (fun _ => rfl) fun _ => rfl

theorem mends_checkTexts (s : Scope) :
    Mends s.Answers s.fix (fun _ => True) (fun window => window.texts.flatMap Text.references)
      s.checkTexts :=
  (Mends.field Window.texts (fun window texts => { window with texts })
    (fun window => (mends_checkText s window.id).each)
    (fun _ _ => rfl) fun _ => rfl).congr (by simp) (fun _ => rfl) fun _ => rfl

theorem mends_checkWindow (s : Scope) :
    Mends s.Answers s.fix Window.Complete Window.references s.checkWindow := by
  have hcommands := (mends_checkBackground s).andThen (mends_checkCommands s)
    (frames_require (fun _ => Iff.rfl) fun _ => rfl) fun _ => ⟨Iff.rfl, rfl⟩
  have h := hcommands.andThen (mends_checkTexts s)
    (Frames.andThen (frames_require (fun _ => Iff.rfl) fun _ => rfl) fun _ => ⟨Iff.rfl, rfl⟩)
    fun _ => ⟨Iff.rfl, rfl⟩
  exact h.congr (by simp) (fun _ => rfl) fun _ => rfl

/-! ## The whole -/

/-- Two scopes in which the same can be looked up. -/
structure Scope.Same (s t : Scope) : Prop where
  resources : t.resources = s.resources
  windows : t.windows.map Window.id = s.windows.map Window.id
  components : t.components = s.components

theorem Scope.Same.resourceExists (h : s.Same t) : t.resourceExists = s.resourceExists := by
  funext id
  rw [Scope.resourceExists, Scope.resourceExists, h.resources]

theorem Scope.Same.windowExists (h : s.Same t) : t.windowExists = s.windowExists := by
  funext id
  have hany : ∀ u : Scope, (u.windows.any fun window => some window.id = id) =
      (u.windows.map Window.id).any fun window => some window = id := by
    intro u
    rw [List.any_map]
    rfl
  rw [Scope.windowExists, Scope.windowExists, hany, hany, h.windows]

theorem Scope.Same.componentExists (h : s.Same t) : t.componentExists = s.componentExists := by
  funext componentId memberName isAttribute
  simp only [Scope.componentExists, h.components]

theorem Scope.Same.found (h : s.Same t) : t.found = s.found := by
  funext r
  cases r <;>
    simp only [Scope.found, h.resourceExists, h.windowExists, h.componentExists]

theorem Scope.Same.checkWindow (h : s.Same t) : t.checkWindow = s.checkWindow := by
  have haction : t.checkAction = s.checkAction := by
    funext name action
    simp only [Scope.checkAction, h.windowExists, h.componentExists]
  have hdisplay : t.checkDisplay = s.checkDisplay := by
    have himage : t.checkDefaultImage = s.checkDefaultImage := by
      funext name display
      simp only [Scope.checkDefaultImage, h.resourceExists]
    have hattribute : t.checkAttribute = s.checkAttribute := by
      funext name display
      simp only [Scope.checkAttribute, h.componentExists]
    have hitem : t.checkMapItem = s.checkMapItem := by
      funext name item
      simp only [Scope.checkMapItem, h.resourceExists]
    have hmap : t.checkMap = s.checkMap := by
      funext name display
      simp only [Scope.checkMap, hitem]
    funext name display
    simp only [Scope.checkDisplay, himage, hattribute, hmap]
  have hcommand : t.checkCommand = s.checkCommand := by
    have hprimary : t.checkPrimaryAction = s.checkPrimaryAction := by
      funext window command
      simp only [Scope.checkPrimaryAction, haction]
    have hsecondary : t.checkSecondaryAction = s.checkSecondaryAction := by
      funext window command
      simp only [Scope.checkSecondaryAction, haction]
    have hshown : t.checkCommandDisplay = s.checkCommandDisplay := by
      funext window command
      simp only [Scope.checkCommandDisplay, hdisplay]
    funext window command
    simp only [Scope.checkCommand, hprimary, hsecondary, hshown]
  have htext : t.checkText = s.checkText := by
    have hitem : t.checkContextItem = s.checkContextItem := by
      funext name item
      simp only [Scope.checkContextItem, h.componentExists]
    funext window text
    simp only [Scope.checkText, hitem]
  have hbackground : t.checkBackground = s.checkBackground := by
    funext window
    simp only [Scope.checkBackground, h.resourceExists]
  have hcommands : t.checkCommands = s.checkCommands := by
    funext window
    simp only [Scope.checkCommands, hcommand]
  have htexts : t.checkTexts = s.checkTexts := by
    funext window
    simp only [Scope.checkTexts, htext]
  funext window
  simp only [Scope.checkWindow, hbackground, hcommands, htexts]

/-- The two halves of the check of `t` with what there is in `s`. -/
def Scope.checkDefaultWindowWith (s t : Scope) : Outcome String Scope :=
  require (.ok (s.windowExists t.defaultWindow) : Except JsError Bool)
    { t with defaultWindow := none }
    "La fenêtre par défaut de l'application est indéfinie." t

def Scope.checkWindowsWith (s t : Scope) : Outcome String Scope :=
  (each s.checkWindow t.windows).map fun windows => { t with windows }

def Scope.checkWith (s t : Scope) : Outcome String Scope :=
  (s.checkDefaultWindowWith t).andThen s.checkWindowsWith

theorem mends_checkWith (s : Scope) :
    Mends s.Answers s.fix (fun t => ∀ window ∈ t.windows, window.Complete) Scope.references
      s.checkWith := by
  have hdefault : Mends s.Answers s.fix (fun _ => True) (fun t => [.window t.defaultWindow])
      s.checkDefaultWindowWith :=
    fun t => mendsAt_found (r := .window t.defaultWindow) rfl rfl rfl
  have hwindows := Mends.field Scope.windows (fun t windows => { t with windows })
    (fun _ => (mends_checkWindow s).each) (fun _ _ => rfl) fun _ => rfl
  have h := hdefault.andThen hwindows (frames_require (fun _ => Iff.rfl) fun _ => rfl)
    fun _ => ⟨Iff.rfl, rfl⟩
  exact h.congr (by simp) (fun _ => rfl) fun _ => rfl

theorem id_checkWindow (window : Window) : (s.checkWindow window).value.id = window.id := by
  refine value_andThen_of (f := Window.id) (value_andThen_of (f := Window.id) ?_ fun _ => rfl)
    fun _ => rfl
  unfold Scope.checkBackground require
  split <;> rfl

theorem same_checkDefaultWindowWith (h : s.Same t) : s.Same (s.checkDefaultWindowWith t).value := by
  unfold Scope.checkDefaultWindowWith require
  split
  · exact h
  · exact h
  · exact ⟨h.resources, h.windows, h.components⟩

theorem same_checkWindowsWith (h : s.Same t) : s.Same (s.checkWindowsWith t).value :=
  ⟨h.resources, (map_value_each id_checkWindow t.windows).trans h.windows, h.components⟩

theorem same_checkWith (h : s.Same t) : s.Same (s.checkWith t).value := by
  unfold Scope.checkWith Outcome.andThen
  split_ifs
  · exact same_checkDefaultWindowWith h
  · exact same_checkWindowsWith (same_checkDefaultWindowWith h)

theorem checkSchema_eq (h : s.Same t) : t.checkSchema = s.checkWith t := by
  have hdefault : t.checkDefaultWindow = s.checkDefaultWindowWith t := by
    rw [Scope.checkDefaultWindow, Scope.checkDefaultWindowWith, h.windowExists]
  have hwindows := (same_checkDefaultWindowWith h).checkWindow
  rw [Scope.checkSchema, Scope.checkWith, hdefault]
  unfold Outcome.andThen
  rw [Scope.checkWindows, Scope.checkWindowsWith, hwindows]

theorem same_refl : s.Same s := ⟨rfl, rfl, rfl⟩

theorem same_checkSchema : s.Same s.checkSchema.value := by
  rw [checkSchema_eq same_refl]
  exact same_checkWith same_refl

/-! ## Over a run -/

theorem typed_of_components (h : t.components = s.components) (hs : s.Typed) : t.Typed := by
  rw [Scope.Typed, h]
  exact hs

theorem typed_checkSchema (hs : s.Typed) : s.checkSchema.value.Typed :=
  typed_of_components same_checkSchema.components hs

/-- The server only gives components of the types that it gives. -/
theorem typed_applyComponents (data : ComponentsData) : (s.applyComponents data).Typed := by
  rintro plugins hplugins plugin hplugin
  cases hplugins
  obtain ⟨item, hitem, rfl⟩ := List.mem_map.mp hplugin
  obtain ⟨type, htype, heq⟩ := List.any_eq_true.mp (List.mem_filter.mp hitem).2
  have hfind : (data.keepUi.pluginTypes.find? fun type => type.id = item.type).isSome := by
    rw [List.find?_isSome]
    exact ⟨type, htype, by simpa [eq_comm] using heq⟩
  exact Option.isSome_iff_ne_none.mp hfind

theorem typed_perform (op : Op) (hs : s.Typed) : (op.perform s).value.Typed := by
  cases op with
  | applyData data =>
    simp only [Op.perform, Scope.applyData]
    split
    · exact typed_of_components rfl hs
    · exact hs
  | applyComponents data => exact typed_applyComponents data
  | checkSchema => exact typed_checkSchema hs
  | selectItem item => exact typed_of_components rfl hs
  | newResourceInput newResourceId newResourceData => exact typed_of_components rfl hs
  | newResource =>
    simp only [Op.perform, Scope.newResource, Scope.done]
    split_ifs
    · exact hs
    · exact typed_of_components rfl hs
  | destroyResource i =>
    simp only [Op.perform, Scope.destroyResource]
    split_ifs
    · exact typed_checkSchema (typed_of_components rfl hs)
    · exact hs
  | deleteItem =>
    simp only [Op.perform, Scope.deleteItem]
    split
    · exact hs
    · exact hs
    all_goals exact typed_checkSchema (typed_of_components rfl hs)
  | createItem isText =>
    simp only [Op.perform, Scope.createItem, Scope.done]
    split
    · exact hs
    · exact typed_of_components rfl hs
    · split_ifs <;> exact typed_of_components rfl hs
    · exact typed_of_components rfl hs
    · exact typed_of_components rfl hs
  | setDefaultWindow defaultWindow =>
    simp only [Op.perform, Scope.setDefaultWindow, Scope.done]
    split <;> exact typed_of_components rfl hs
  | setBackground background =>
    simp only [Op.perform, Scope.setBackground, Scope.done]
    split <;> exact typed_of_components rfl hs
  | setId id =>
    simp only [Op.perform, Scope.setId, Scope.done]
    split <;> exact typed_of_components rfl hs
  | designCommandAction primary data =>
    simp only [Op.perform, Scope.designCommandAction]
    split <;> exact typed_of_components rfl hs
  | designCommandDisplay component attributeName defaultImage map =>
    simp only [Op.perform, Scope.designCommandDisplay]
    split <;> exact typed_of_components rfl hs
  | designTextContext context =>
    simp only [Op.perform, Scope.designTextContext]
    split <;> exact typed_of_components rfl hs

theorem typed_run (ops : List Op) : (run ops).Typed := by
  have hfold : ∀ s : Scope, s.Typed → (ops.foldl (fun s op => (op.perform s).value) s).Typed := by
    induction ops with
    | nil => exact fun _ hs => hs
    | cons op ops ih => exact fun s hs => ih _ (typed_perform op hs)
  exact hfold init fun _ h => nomatch h

/-! ## What a check does -/

/-- It returns; what is not empty denotes something then, what denoted something is as before, and
another check has nothing to do. -/
structure Scope.Repairs (s : Scope) : Prop where
  returns : s.checkSchema.thrown = false
  repaired : ∀ r ∈ s.checkSchema.value.references, r.Empty ∨ s.checkSchema.value.Denotes r
  kept : List.Forall₂ (fun r r' => s.Denotes r → r' = r) s.references
    s.checkSchema.value.references
  again : s.checkSchema.value.checkSchema = ⟨s.checkSchema.value, [], false⟩

/-- The commands have their actions and the map of what they show, and without components there is
nothing to look up in these. -/
structure Scope.Complete (s : Scope) : Prop where
  commands : ∀ window ∈ s.windows, window.Complete
  components : s.components = none → ∀ r ∈ s.references, r.IsMember → r.Empty

theorem fix_spec (ha : s.Answers r) : s.Answers (s.fix r) ∧ s.fix (s.fix r) = s.fix r := by
  obtain ⟨b, hb⟩ := ha
  cases b with
  | true => exact ⟨⟨true, by rw [fix_of_found hb, hb]⟩, by rw [fix_of_found hb, fix_of_found hb]⟩
  | false =>
    rw [fix_of_not_found hb]
    exact ⟨⟨true, found_cleared⟩, fix_of_found found_cleared⟩

theorem found_fix (ha : s.Answers r) : s.found (s.fix r) = .ok true := by
  obtain ⟨b, hb⟩ := ha
  cases b with
  | true => rw [fix_of_found hb, hb]
  | false => rw [fix_of_not_found hb, found_cleared]

theorem returns_iff_complete (ht : s.Typed) : s.checkSchema.thrown = false ↔ s.Complete := by
  rw [checkSchema_eq same_refl, (mends_checkWith s s).thrown]
  constructor
  · rintro ⟨hcommands, hanswers⟩
    exact ⟨hcommands, fun hnone r hr hmember => (found_eq_ok_iff ht).mp (hanswers r hr) hnone hmember⟩
  · rintro ⟨hcommands, hcomponents⟩
    exact ⟨hcommands, fun r hr => (found_eq_ok_iff ht).mpr fun hnone => hcomponents hnone r hr⟩

theorem repairs_of_returns (h : s.checkSchema.thrown = false) : s.Repairs := by
  have hmends := mends_checkWith s
  have hsame := same_checkSchema (s := s)
  have hvalue := checkSchema_eq (same_refl (s := s))
  rw [hvalue] at h
  have hrefs : s.checkSchema.value.references = s.references.map s.fix := by
    rw [hvalue]
    exact (hmends s).mended h
  have hanswers := ((hmends s).thrown.mp h).2
  constructor
  · rwa [hvalue]
  · intro r hr
    rw [hrefs] at hr
    obtain ⟨r, hr', rfl⟩ := List.mem_map.mp hr
    rw [← found_eq_true_iff, hsame.found]
    exact found_fix (hanswers r hr')
  · rw [hrefs, List.forall₂_map_right_iff, List.forall₂_same]
    intro r _ hdenotes
    exact fix_of_found (found_eq_true_iff.mpr (.inr hdenotes))
  · rw [checkSchema_eq hsame, hvalue]
    exact hmends.again (fun _ => fix_spec) h

/-- Whatever is done in the page, a check repairs the windows if and only if nothing of what it
visits is missing. -/
theorem repairs_iff_complete (ops : List Op) : (run ops).Repairs ↔ (run ops).Complete := by
  have ht := typed_run ops
  constructor
  · intro h
    exact (returns_iff_complete ht).mp h.returns
  · intro h
    exact repairs_of_returns ((returns_iff_complete ht).mpr h)

/-- A window with a new command, whose display has not been designed. -/
theorem not_repairs_created : ¬(run [.applyData ⟨some [], some [⟨"main", none, none, none⟩], none⟩,
    .applyComponents ⟨[], []⟩, .checkSchema, .selectItem (some (.window 0)),
    .createItem false]).Repairs := by
  intro h
  exact absurd h.returns (by decide +kernel)

end MyLifeHome.Ui.Designer
