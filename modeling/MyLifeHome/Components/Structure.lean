import MyLifeHome.Core.NetObject

/-!
# Classes in the C components

`net_structure.c`: the types, members and classes that a hardware component declares. The
bounds of a range are C integers, and the same class is known to the core by `toNet`.
-/
namespace MyLifeHome.Components

/-- `int` -/
abbrev CInt := Int32

inductive NetType where
  | enum (names : List String)
  | range (min max : CInt)
  deriving DecidableEq

inductive MemberType where
  | attribute (argument : NetType)
  | action (arguments : List NetType)
  deriving DecidableEq

structure NetMember where
  name : String
  type : MemberType
  deriving DecidableEq

structure NetClass where
  members : List NetMember
  deriving DecidableEq

/-- The bounds are handed out as `unsigned int` and stored into an `int` again. -/
def netTypeGetRangeMin : NetType → UInt32
  | .range min _ => min.toUInt32
  | .enum _ => 0

def netTypeGetRangeMax : NetType → UInt32
  | .range _ max => max.toUInt32
  | .enum _ => 0

def netTypeEnumExists (type : NetType) (value : String) : Bool :=
  match type with
  | .enum names => names.contains value
  | .range _ _ => false

/-- The first member with the name. -/
def NetClass.getMemberByName (k : NetClass) (name : String) : Option NetMember :=
  k.members.find? fun m => m.name = name

theorem NetClass.name_of_getMemberByName {k : NetClass} {name : String} {m : NetMember}
    (h : k.getMemberByName name = some m) : m.name = name := by
  simpa using List.find?_some h

/-! ## The class on the other side -/

/-- The type in the core's classes. -/
def NetType.toNet : NetType → MyLifeHome.NetType
  | .enum names => netEnum names
  | .range min max => netRange min.toInt max.toInt

def NetMember.toNet (m : NetMember) : MyLifeHome.NetMember :=
  match m.type with
  | .attribute argument => netAttribute m.name argument.toNet
  | .action arguments => netAction m.name (arguments.map NetType.toNet)

def NetClass.toNet (k : NetClass) : MyLifeHome.NetClass := netClass (k.members.map NetMember.toNet)

variable {k : NetClass} {name : String} {types : List NetType}

@[simp] theorem NetMember.toNet_name (m : NetMember) : m.toNet.name = m.name := by
  unfold NetMember.toNet
  cases m.type <;> rfl

theorem NetClass.getMember_toNet (k : NetClass) (name : String) :
    k.toNet.getMember name = (k.getMemberByName name).map NetMember.toNet := by
  unfold NetClass.toNet netClass MyLifeHome.NetClass.getMember NetClass.getMemberByName
  induction k.members with
  | nil => rfl
  | cons m ms ih =>
    by_cases h : m.name = name <;> simp [h, ih]

/-- The actions of the class, on both sides. -/
theorem NetClass.action_toNet {ts : List MyLifeHome.NetType} :
    k.toNet.action name = .ok ts ↔ ∃ types, k.getMemberByName name = some ⟨name, .action types⟩ ∧
      ts = types.map NetType.toNet := by
  rw [NetClass.action_eq_ok_iff, NetClass.getMember_toNet]
  cases h : k.getMemberByName name with
  | none => simp
  | some m =>
    obtain ⟨n, argument | arguments⟩ := m
    · simp [NetMember.toNet, netAttribute]
    · have hn : n = name := NetClass.name_of_getMemberByName h
      simp [NetMember.toNet, netAction, hn, eq_comm]

/-- What is stored is what was declared. -/
@[simp] theorem toInt32_toUInt32 (n : CInt) : n.toUInt32.toInt32 = n := rfl

end MyLifeHome.Components
