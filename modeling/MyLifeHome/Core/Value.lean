import Mathlib.Algebra.Ring.Int.Defs
import MyLifeHome.Library.Text

/-!
# JavaScript values

The primitive values that attributes and arguments take, with the operations the core applies
to them: truthiness, conversion to text and `parseInt`. An integral Number is an
`Int`; any other Number is known by its text, which is all the core looks at.
-/
namespace MyLifeHome

/-- The text of a Number that is neither an integer nor `NaN`: `0.5`, `1e+21`, `Infinity`. -/
structure Numeral where
  text : String
  nonempty : text ≠ ""
  chars : ∀ c ∈ text.toList, c.isAlphanum ∨ c = '.' ∨ c = '+' ∨ c = '-'
  deriving DecidableEq

inductive JsNumber where
  | int (n : Int)
  | nan
  | real (x : Numeral)
  deriving DecidableEq

inductive JsValue where
  | undefined
  | null
  | bool (b : Bool)
  | str (s : String)
  | num (n : JsNumber)
  deriving DecidableEq

/-- An exception: an `Error` with its message, a failed `assert`, or an access to a
property of `undefined`. -/
inductive JsError where
  | error (message : String)
  | assertion
  | typeError
  deriving DecidableEq

/-- The members of `Object.prototype`, which reading them as keys finds in any object. -/
def objectPrototype : List String :=
  ["constructor", "hasOwnProperty", "isPrototypeOf", "propertyIsEnumerable", "toLocaleString",
    "toString", "valueOf", "__proto__", "__defineGetter__", "__defineSetter__", "__lookupGetter__",
    "__lookupSetter__"]

/-- A key under which an object has what was stored there, and nothing else. -/
abbrev PlainKey (key : String) : Prop := key ∉ objectPrototype

def JsError.invalidArgument : JsError := .error "invalid argument"
def JsError.invalidValue : JsError := .error "invalid value"
def JsError.invalidArgumentsCount : JsError := .error "invalid arguments count"

def JsNumber.text : JsNumber → String
  | .int n => toString n
  | .nan => "NaN"
  | .real x => x.text

/-- `String(value)`, which is also what `'|' + value` appends. -/
def JsValue.text : JsValue → String
  | .undefined => "undefined"
  | .null => "null"
  | .bool b => toString b
  | .str s => s
  | .num n => n.text

/-- `!value` -/
def JsValue.falsy : JsValue → Bool
  | .undefined | .null => true
  | .bool b => !b
  | .str s => s == ""
  | .num n => n == .int 0 || n == .nan

/-- The code points of the white space and line terminators that `parseInt` skips. -/
def strWhiteSpace : List Nat :=
  [9, 10, 11, 12, 13, 32, 160, 0x1680, 0x2000, 0x2001, 0x2002, 0x2003, 0x2004, 0x2005, 0x2006,
    0x2007, 0x2008, 0x2009, 0x200A, 0x2028, 0x2029, 0x202F, 0x205F, 0x3000, 0xFEFF]

def isStrWhiteSpace (c : Char) : Bool := strWhiteSpace.contains c.toNat

/-- `Number.isSafeInteger(n)`: the Number is this integer and no other one. -/
def IsSafeInteger (n : Int) : Prop := -2 ^ 53 < n ∧ n < 2 ^ 53

/-- `parseInt(text, 10)`, with `none` for `NaN`. What follows the digits is ignored. The Number is
the integer itself as long as that is safe. -/
def parseInt (text : String) : Option Int :=
  (Text.readInt (text.toList.dropWhile isStrWhiteSpace)).map Prod.fst

@[simp] theorem JsValue.text_str (s : String) : (JsValue.str s).text = s := rfl
@[simp] theorem JsValue.falsy_undefined : JsValue.undefined.falsy = true := rfl
@[simp] theorem JsValue.falsy_null : JsValue.null.falsy = true := rfl

@[simp] theorem JsValue.falsy_str (s : String) : (JsValue.str s).falsy = (s == "") := rfl

theorem isStrWhiteSpace_of_isDigit {c : Char} (h : c.isDigit = true) :
    isStrWhiteSpace c = false := by
  have hc : 48 ≤ c.toNat ∧ c.toNat ≤ 57 := Char.isDigit_iff_toNat.mp h
  have key : ∀ n ≤ 57, 48 ≤ n → strWhiteSpace.contains n = false := by decide
  exact key _ hc.2 hc.1

/-- The decimal writing of an integer starts with a sign or a digit, never with blanks. -/
theorem dropWhile_toString (n : Int) :
    (toString n).toList.dropWhile isStrWhiteSpace = (toString n).toList := by
  cases n with
  | ofNat n =>
    obtain ⟨c, cs, hc, hd⟩ := Text.head_repr_isDigit n
    change n.repr.toList.dropWhile isStrWhiteSpace = n.repr.toList
    simp [hc, isStrWhiteSpace_of_isDigit hd]
  | negSucc n =>
    have hn : (toString (Int.negSucc n)).toList = '-' :: (n + 1).repr.toList := by
      change ("-" ++ (n + 1).repr).toList = _
      simp
    rw [hn]
    rfl

/-- An integer survives being written and read back. -/
theorem parseInt_toString (n : Int) : parseInt (toString n) = some n := by
  have h := Text.readInt_toString n Text.ends_nil
  rw [List.append_nil] at h
  rw [parseInt, dropWhile_toString, h]
  rfl

/-- The characters a Number is written with. -/
theorem JsNumber.text_chars (n : JsNumber) :
    ∀ c ∈ n.text.toList, c.isAlphanum ∨ c = '.' ∨ c = '+' ∨ c = '-' := by
  intro c hc
  cases n with
  | int n =>
    have hd : ∀ m : Nat, c ∈ m.repr.toList → c.isAlphanum := by
      intro m hm
      rw [Nat.toList_repr] at hm
      have := Nat.isDigit_of_mem_toDigits (by decide) (by decide) hm
      simp [Char.isAlphanum, this]
    cases n with
    | ofNat n => exact .inl (hd n hc)
    | negSucc n =>
      have hn : (JsNumber.int (Int.negSucc n)).text = "-" ++ (n + 1).repr := rfl
      rw [hn, String.toList_append, List.mem_append] at hc
      rcases hc with hc | hc
      · exact .inr (.inr (.inr (by simpa using hc)))
      · exact .inl (hd _ hc)
  | nan =>
    have hnan : "NaN".toList.all Char.isAlphanum = true := rfl
    exact .inl (List.all_eq_true.mp hnan c hc)
  | real x => exact x.chars c hc

/-- No Number is written with a separator of nicks or of messages in it. -/
theorem JsNumber.notMem_text (n : JsNumber) {c : Char} (hc : c = '|' ∨ c = ' ') :
    c ∉ n.text.toList := by
  intro hm
  have hchar := n.text_chars c hm
  rcases hc with rfl | rfl <;> revert hchar <;> decide

theorem JsNumber.text_ne_empty (n : JsNumber) : n.text ≠ "" := by
  cases n with
  | int n =>
    intro h
    have hp := parseInt_toString n
    rw [show toString n = "" from h] at hp
    exact absurd hp.symm (by simp [parseInt, Text.readInt, Text.readNat])
  | nan => decide
  | real x => exact x.nonempty

end MyLifeHome
