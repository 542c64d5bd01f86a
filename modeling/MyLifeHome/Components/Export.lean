import MyLifeHome.Components.Structure
import MyLifeHome.Library.Checked

/-!
# The description of a class

The components declare their classes with `net_structure.c`, which grows the memory of an action
argument by argument, and `export.c` describes them in JSON. What the core makes of a description
is the class of its own object.
-/
namespace MyLifeHome.Components

/-! ## Building a class -/

/-- Where a block of memory is. -/
abbrev Address := Nat

/-- The memory of a new member, and where it is after it has been given room for some number of
arguments; `realloc` may move a block. The class so far tells the calls apart. -/
structure Allocator where
  malloc : NetClass → Address
  realloc : NetClass → Address → Nat → Address

inductive Json where
  | string (value : String)
  | integer (value : Int)
  | array (values : List Json)
  | object (fields : List (String × Json))

namespace Json

def field (name : String) : Json → Option Json
  | .object fields => (fields.find? fun f => f.1 = name).map Prod.snd
  | _ => none

end Json

variable {a : Allocator} {k : NetClass} {declared : List NetMember}

def NetMember.types (member : NetMember) : List NetType :=
  match member.type with
  | .attribute argument => [argument]
  | .action arguments => arguments

/-- Every block stays where it is. -/
def steady : Allocator := ⟨fun k => k.members.length, fun _ address _ => address⟩

end MyLifeHome.Components
