import MyLifeHome.Core.Value

/-!
# Classes and objects

The structure half of `netobject.js`: types, members and classes, and the object
that keeps one value per attribute name and checks what is written to it. The
events an object emits are in `Core.Process`, which knows who listens to them.
-/
namespace MyLifeHome

inductive NetType where
  | range (min max : Int)
  | enum (values : List String)
  deriving DecidableEq

/-- `membertype`, with what the members of that kind carry. -/
inductive MemberType where
  | attribute (type : NetType)
  | action (arguments : List NetType)
  deriving DecidableEq

structure NetMember where
  name : String
  membertype : MemberType
  deriving DecidableEq

structure NetClass where
  members : List NetMember
  deriving DecidableEq

def netRange (min max : Int) : NetType := .range min max
def netEnum (values : List String) : NetType := .enum values
def netAttribute (name : String) (type : NetType) : NetMember := ⟨name, .attribute type⟩
def netAction (name : String) (arguments : List NetType) : NetMember := ⟨name, .action arguments⟩
def netClass (members : List NetMember) : NetClass := ⟨members⟩

def NetMember.isAttribute (m : NetMember) : Bool :=
  match m.membertype with
  | .attribute _ => true
  | .action _ => false

/-- The attribute members in the order of the class, which is their order in a nick. -/
def NetClass.attributes (k : NetClass) : List NetMember := k.members.filter NetMember.isAttribute

/-- The first member with the name. -/
def NetClass.getMember (k : NetClass) (name : String) : Option NetMember :=
  k.members.find? fun m => m.name = name

/-- The member of an attribute access: present, and an attribute. -/
def NetClass.attribute (k : NetClass) (name : String) : Except JsError NetType :=
  match k.getMember name with
  | some ⟨_, .attribute type⟩ => .ok type
  | _ => .error .assertion

/-- The member of an action call: present, and an action. -/
def NetClass.action (k : NetClass) (name : String) : Except JsError (List NetType) :=
  match k.getMember name with
  | some ⟨_, .action arguments⟩ => .ok arguments
  | _ => .error .assertion

/-- Every falsy value passes; a range reads the start of the text as an integer; an
enumeration compares with `===`. -/
def checkArg (arg : JsValue) (type : NetType) : Except JsError Unit :=
  if arg.falsy then .ok ()
  else match type with
    | .range min max =>
      match parseInt arg.text with
      | none => .error .invalidArgument
      | some val => if val < min ∨ val > max then .error .invalidArgument else .ok ()
    | .enum values => if ∃ v ∈ values, JsValue.str v = arg then .ok () else .error .invalidValue

/-- The arguments are checked one after another. -/
def checkArgs : List JsValue → List NetType → Except JsError Unit
  | a :: as, t :: ts => do checkArg a t; checkArgs as ts
  | _, _ => .ok ()

structure NetObject where
  id : String
  clazz : NetClass
  attributeValues : String → JsValue

def netObject (id : String) (clazz : NetClass) : NetObject := ⟨id, clazz, fun _ => .null⟩

def NetObject.getAttribute (o : NetObject) (name : String) : Except JsError JsValue := do
  let _ ← o.clazz.attribute name
  pure (o.attributeValues name)

/-- The checks of `executeAction`; what it emits is up to the listeners. -/
def NetObject.checkAction (o : NetObject) (name : String) (args : List JsValue) :
    Except JsError Unit := do
  let arguments ← o.clazz.action name
  if args.length ≠ arguments.length then throw .invalidArgumentsCount
  checkArgs args arguments

/-- The checks of `setAttribute`. -/
def NetObject.checkAttribute (o : NetObject) (name : String) (value : JsValue) :
    Except JsError Unit := do
  let type ← o.clazz.attribute name
  checkArg value type

def NetObject.assign (o : NetObject) (name : String) (value : JsValue) : NetObject :=
  { o with attributeValues := Function.update o.attributeValues name value }

/-- `nick += '|' + value` over the attribute members, from `makeNick` of `publishLocal`. -/
def NetObject.makeNick (o : NetObject) : Except JsError String :=
  o.clazz.attributes.foldlM
    (fun nick m => do
      let value ← o.getAttribute m.name
      pure (nick ++ "|" ++ value.text))
    o.id

/-! ## Laws -/

variable {k : NetClass} {o : NetObject} {name : String} {value : JsValue} {type : NetType}

@[simp] theorem NetObject.assign_id : (o.assign name value).id = o.id := rfl
@[simp] theorem NetObject.assign_clazz : (o.assign name value).clazz = o.clazz := rfl

@[simp] theorem NetObject.assign_self :
    (o.assign name value).attributeValues name = value := by simp [NetObject.assign]

theorem NetObject.assign_of_ne {n : String} (h : n ≠ name) :
    (o.assign name value).attributeValues n = o.attributeValues n := by
  simp [NetObject.assign, h]

theorem NetClass.attribute_eq_ok_iff :
    k.attribute name = .ok type ↔ k.getMember name = some ⟨name, .attribute type⟩ := by
  unfold NetClass.attribute
  cases h : k.getMember name with
  | none => simp
  | some m =>
    obtain ⟨n, t | args⟩ := m
    · have hn : n = name := by simpa using List.find?_some h
      simp [hn]
    · simp

theorem NetClass.action_eq_ok_iff {args : List NetType} :
    k.action name = .ok args ↔ k.getMember name = some ⟨name, .action args⟩ := by
  unfold NetClass.action
  cases h : k.getMember name with
  | none => simp
  | some m =>
    obtain ⟨n, t | as⟩ := m
    · simp
    · have hn : n = name := by simpa using List.find?_some h
      simp [hn]

theorem NetObject.getAttribute_eq_ok_iff :
    o.getAttribute name = .ok value ↔
      (∃ type, o.clazz.attribute name = .ok type) ∧ o.attributeValues name = value := by
  unfold NetObject.getAttribute
  cases o.clazz.attribute name <;> simp [bind, Except.bind, pure, Except.pure]

theorem NetObject.checkAttribute_eq_ok_iff :
    o.checkAttribute name value = .ok () ↔
      ∃ type, o.clazz.attribute name = .ok type ∧ checkArg value type = .ok () := by
  unfold NetObject.checkAttribute
  cases o.clazz.attribute name <;> simp [bind, Except.bind]

theorem checkArg_of_falsy (h : value.falsy = true) : checkArg value type = .ok () := by
  simp [checkArg, h]

@[simp] theorem checkArg_null : checkArg .null type = .ok () := rfl

/-- A range accepts a text that starts with an integer within its bounds. -/
theorem checkArg_range {min max : Int} (h : value.falsy = false) :
    checkArg value (.range min max) = .ok () ↔
      ∃ n, parseInt value.text = some n ∧ min ≤ n ∧ n ≤ max := by
  simp only [checkArg, h, Bool.false_eq_true, if_false]
  cases parseInt value.text with
  | none => simp
  | some n => by_cases hn : n < min ∨ n > max <;> simp [hn] <;> omega

/-- An enumeration accepts its values, which are strings. -/
theorem checkArg_enum {values : List String} (h : value.falsy = false) :
    checkArg value (.enum values) = .ok () ↔ ∃ v ∈ values, value = .str v := by
  simp only [checkArg, h, Bool.false_eq_true, if_false]
  split_ifs with hv
  · simpa [eq_comm] using hv
  · simpa [eq_comm] using hv

theorem checkArgs_eq_ok_iff {as : List JsValue} {ts : List NetType} :
    checkArgs as ts = .ok () ↔ ∀ p ∈ as.zip ts, checkArg p.1 p.2 = .ok () := by
  induction as generalizing ts with
  | nil => simp [checkArgs]
  | cons a as ih =>
    cases ts with
    | nil => simp [checkArgs]
    | cons t ts =>
      cases h : checkArg a t with
      | error e => simp [checkArgs, h, bind, Except.bind]
      | ok u => simp [checkArgs, h, bind, Except.bind, ih]

theorem NetObject.checkAction_eq_ok_iff {args : List JsValue} :
    o.checkAction name args = .ok () ↔ ∃ ts, o.clazz.action name = .ok ts ∧
      args.length = ts.length ∧ ∀ p ∈ args.zip ts, checkArg p.1 p.2 = .ok () := by
  unfold NetObject.checkAction
  cases o.clazz.action name with
  | error e => simp [bind, Except.bind]
  | ok ts =>
    by_cases h : args.length = ts.length
    · simp [bind, Except.bind, h, checkArgs_eq_ok_iff]
    · simp [bind, Except.bind, h, throw, throwThe, MonadExceptOf.throw]

/-- The checks of a call look at the class only. -/
theorem NetObject.checkAction_congr {o' : NetObject} (h : o.clazz = o'.clazz) :
    o.checkAction name = o'.checkAction name := by
  funext args
  simp only [NetObject.checkAction, h]

theorem NetObject.checkAttribute_congr {o' : NetObject} (h : o.clazz = o'.clazz) :
    o.checkAttribute name = o'.checkAttribute name := by
  funext v
  simp only [NetObject.checkAttribute, h]

end MyLifeHome
