import MyLifeHome.Core.Process

/-!
# What an object accepts

`setAttribute` and `executeAction` of an object, with what they emit. A call that throws leaves
what it has done so far, so the checks have to come first. The values that pass the checks are
`null`, the members of the type, and some that slip through: what is falsy, and what starts with
an integer within the range.
-/
namespace MyLifeHome

/-! ## The values of a type -/

/-- The values of a type: an integer as a Number or in its decimal writing, or one of the texts. -/
def NetType.Member : NetType → JsValue → Prop
  | .range min max, v => ∃ n : Int, min ≤ n ∧ n ≤ max ∧ (v = .num (.int n) ∨ v = .str (toString n))
  | .enum values, v => ∃ text ∈ values, v = .str text

/-- What an attribute may hold. -/
def NetType.Holds (type : NetType) (v : JsValue) : Prop := v = .null ∨ type.Member v

/-- The values that pass the check although the type does not have them: `undefined`, `false`,
`NaN`, the empty text and zero are not looked at, and of a text only the start is read. -/
def NetType.Slips : NetType → JsValue → Prop
  | .range min max, v =>
    if v.falsy then v ≠ .null ∧ ¬(v = .num (.int 0) ∧ min ≤ 0 ∧ 0 ≤ max)
    else ∃ n : Int, parseInt v.text = some n ∧ min ≤ n ∧ n ≤ max ∧ v ≠ .num (.int n) ∧
      v ≠ .str (toString n)
  | .enum values, v => v.falsy ∧ v ≠ .null ∧ ¬(v = .str "" ∧ "" ∈ values)

variable {type : NetType} {v : JsValue}

/-- A member passes whether it is falsy or not. -/
theorem NetType.Member.checkArg (h : type.Member v) : checkArg v type = .ok () := by
  cases hfalsy : v.falsy with
  | true => exact checkArg_of_falsy hfalsy
  | false =>
    cases type with
    | range min max =>
      obtain ⟨n, hmin, hmax, hv⟩ := h
      have htext : v.text = toString n := by
        rcases hv with rfl | rfl <;> rfl
      exact (checkArg_range hfalsy).mpr ⟨n, by rw [htext, parseInt_toString], hmin, hmax⟩
    | enum values => exact (checkArg_enum hfalsy).mpr h

theorem NetType.Holds.checkArg (h : type.Holds v) : checkArg v type = .ok () := by
  obtain rfl | h := h
  · exact checkArg_null
  · exact h.checkArg

theorem NetType.Slips.checkArg (h : type.Slips v) : checkArg v type = .ok () := by
  cases hfalsy : v.falsy with
  | true => exact checkArg_of_falsy hfalsy
  | false =>
    cases type with
    | range min max =>
      rw [Slips, if_neg (by simp [hfalsy])] at h
      obtain ⟨n, hn, hmin, hmax, _⟩ := h
      exact (checkArg_range hfalsy).mpr ⟨n, hn, hmin, hmax⟩
    | enum values => simp [Slips, hfalsy] at h

/-- What slips through is not what the type has. -/
theorem NetType.Slips.not_holds (h : type.Slips v) : ¬type.Holds v := by
  rintro (rfl | hmember)
  · cases type <;> simp [Slips] at h
  · cases type with
    | range min max =>
      obtain ⟨n, hmin, hmax, hv⟩ := hmember
      have htext : v.text = toString n := by
        rcases hv with rfl | rfl <;> rfl
      simp only [Slips] at h
      split_ifs at h with hfalsy
      · have hzero : v = .num (.int 0) ∧ n = 0 := by
          rcases hv with rfl | rfl
          · have hn : n = 0 := by simpa [JsValue.falsy] using hfalsy
            exact ⟨by rw [hn], hn⟩
          · have hempty : toString n = "" := by simpa using hfalsy
            exact absurd hempty (JsNumber.int n).text_ne_empty
        obtain ⟨hzero, rfl⟩ := hzero
        exact h.2 ⟨hzero, hmin, hmax⟩
      · obtain ⟨m, hm, _, _, hnum, hstr⟩ := h
        rw [htext, parseInt_toString] at hm
        obtain rfl := Option.some.inj hm
        exact hv.elim hnum hstr
    | enum values =>
      obtain ⟨text, hmem, rfl⟩ := hmember
      obtain ⟨hfalsy, _, hempty⟩ := h
      obtain rfl : text = "" := by simpa using hfalsy
      exact hempty ⟨rfl, hmem⟩

/-- What `checkArg` accepts. -/
theorem checkArg_eq_ok_iff : checkArg v type = .ok () ↔ type.Holds v ∨ type.Slips v := by
  constructor
  · intro h
    by_cases hnull : v = .null
    · exact .inl (.inl hnull)
    cases hfalsy : v.falsy with
    | true =>
      cases type with
      | range min max =>
        by_cases hzero : v = .num (.int 0) ∧ min ≤ 0 ∧ 0 ≤ max
        · exact .inl (.inr ⟨0, hzero.2.1, hzero.2.2, .inl hzero.1⟩)
        · refine .inr ?_
          rw [NetType.Slips, if_pos hfalsy]
          exact ⟨hnull, hzero⟩
      | enum values =>
        by_cases hempty : v = .str "" ∧ "" ∈ values
        · exact .inl (.inr ⟨"", hempty.2, hempty.1⟩)
        · exact .inr ⟨hfalsy, hnull, hempty⟩
    | false =>
      cases type with
      | range min max =>
        obtain ⟨n, hn, hmin, hmax⟩ := (checkArg_range hfalsy).mp h
        by_cases hv : v = .num (.int n) ∨ v = .str (toString n)
        · exact .inl (.inr ⟨n, hmin, hmax, hv⟩)
        · refine .inr ?_
          rw [NetType.Slips, if_neg (by simp [hfalsy])]
          exact ⟨n, hn, hmin, hmax, fun hnum => hv (.inl hnum), fun hstr => hv (.inr hstr)⟩
      | enum values => exact .inl (.inr ((checkArg_enum hfalsy).mp h))
  · rintro (h | h)
    · exact h.checkArg
    · exact h.checkArg

/-! ## Calls -/

/-- An object, and what it has emitted. -/
structure Emitter where
  object : NetObject
  emitted : List Emission

/-- Code that calls an object: an exception leaves the object as it is by then. -/
abbrev Calling := EStateM JsError Emitter

/-- A check that may throw. -/
def ensure {α : Type} : Except JsError α → Calling α
  | .ok a => pure a
  | .error e => throw e

theorem ensure_bind {α β : Type} (x : Except JsError α) (f : α → Calling β) (s : Emitter) :
    (ensure x >>= f) s = match x with
      | .ok a => f a s
      | .error e => .error e s := by
  cases x <;> rfl

namespace Emitter

def emit (e : Emission) : Calling Unit := modify fun s => { s with emitted := s.emitted ++ [e] }

def executeAction (name : String) (args : List JsValue) : Calling Unit := do
  let s ← get
  let arguments ← ensure (s.object.clazz.action name)
  if args.length ≠ arguments.length then throw .invalidArgumentsCount
  ensure (checkArgs args arguments)
  emit (.actionOf name args)
  emit (.action name args)

def setAttribute (name : String) (value : JsValue) : Calling Unit := do
  let s ← get
  let type ← ensure (s.object.clazz.attribute name)
  ensure (checkArg value type)
  modify fun s => { s with object := s.object.assign name value }
  emit (.attributeOf name value)
  emit (.attribute name value)

end Emitter

inductive ObjectCall where
  | setAttribute (name : String) (value : JsValue)
  | executeAction (name : String) (args : List JsValue)

namespace Emitter

/-- The call, with how it ends. -/
def attempt (s : Emitter) : ObjectCall → EStateM.Result JsError Emitter Unit
  | .setAttribute name value => setAttribute name value s
  | .executeAction name args => executeAction name args s

/-- The object after the call, whether it throws or not. -/
def next (s : Emitter) (call : ObjectCall) : Emitter :=
  match s.attempt call with
  | .ok _ s' => s'
  | .error _ s' => s'

def after (s : Emitter) (calls : List ObjectCall) : Emitter := calls.foldl next s

def new (id : String) (k : NetClass) : Emitter := ⟨netObject id k, []⟩

/-- The call does not throw. -/
def Succeeds (s : Emitter) (call : ObjectCall) : Prop := ∃ s', s.attempt call = .ok () s'

variable {s : Emitter} {name : String} {value : JsValue} {args : List JsValue} {call : ObjectCall}
  {k : NetClass}

/-! ## What a call does -/

/-- The checks of the call. -/
def check (o : NetObject) : ObjectCall → Except JsError Unit
  | .setAttribute name value => o.checkAttribute name value
  | .executeAction name args => o.checkAction name args

/-- What the call does once the checks are passed. -/
def act (s : Emitter) : ObjectCall → Emitter
  | .setAttribute name value => ⟨s.object.assign name value,
      s.emitted ++ [.attributeOf name value] ++ [.attribute name value]⟩
  | .executeAction name args => ⟨s.object,
      s.emitted ++ [.actionOf name args] ++ [.action name args]⟩

/-- The checks come before everything else. -/
theorem attempt_eq : s.attempt call =
    match check s.object call with
    | .ok () => .ok () (s.act call)
    | .error e => .error e s := by
  cases call with
  | setAttribute name value =>
    refine (ensure_bind (s.object.clazz.attribute name) _ s).trans ?_
    simp only [check, NetObject.checkAttribute]
    cases s.object.clazz.attribute name with
    | error e => rfl
    | ok type =>
      refine (ensure_bind (checkArg value type) _ s).trans ?_
      simp only [bind, Except.bind]
      cases checkArg value type <;> rfl
  | executeAction name args =>
    refine (ensure_bind (s.object.clazz.action name) _ s).trans ?_
    simp only [check, NetObject.checkAction]
    cases s.object.clazz.action name with
    | error e => rfl
    | ok types =>
      simp only [bind, Except.bind]
      split_ifs with hlength
      · rfl
      · refine (ensure_bind (checkArgs args types) _ s).trans ?_
        cases checkArgs args types <;> rfl

theorem succeeds_iff : s.Succeeds call ↔ check s.object call = .ok () := by
  rw [Succeeds, attempt_eq]
  cases check s.object call <;> simp

theorem next_of_succeeds (h : s.Succeeds call) : s.next call = s.act call := by
  rw [next, attempt_eq, succeeds_iff.mp h]

/-- A call that throws has changed and emitted nothing. -/
theorem next_of_not_succeeds (h : ¬s.Succeeds call) : s.next call = s := by
  rw [succeeds_iff] at h
  rw [next, attempt_eq]
  cases hcheck : check s.object call with
  | ok u => exact absurd hcheck h
  | error e => rfl

end Emitter

/-- The call is about a member of the class, and brings for each type `null` or a value of it. -/
def NetClass.Declares (k : NetClass) : ObjectCall → Prop
  | .setAttribute name value => ∃ type, k.attribute name = .ok type ∧ type.Holds value
  | .executeAction name args => ∃ types, k.action name = .ok types ∧
      args.length = types.length ∧ ∀ p ∈ args.zip types, p.2.Holds p.1

/-- Numbers hold the bounds exactly. -/
def NetType.Safe : NetType → Prop
  | .range min max => IsSafeInteger min ∧ IsSafeInteger max
  | .enum _ => True

/-- The types of a member. -/
def NetMember.types (m : NetMember) : List NetType :=
  match m.membertype with
  | .attribute type => [type]
  | .action arguments => arguments

/-- The integer that `parseInt` reads from the value, if any, is safe. -/
def JsValue.Safe (v : JsValue) : Prop := ∀ n, parseInt v.text = some n → IsSafeInteger n

/-- The values that the call brings. -/
def ObjectCall.values : ObjectCall → List JsValue
  | .setAttribute _ value => [value]
  | .executeAction _ args => args

/-- A value slips through, and none of the others is stopped. -/
def NetClass.LetsThrough (k : NetClass) : ObjectCall → Prop
  | .setAttribute name value => ∃ type, k.attribute name = .ok type ∧ type.Slips value
  | .executeAction name args => ∃ types, k.action name = .ok types ∧
      args.length = types.length ∧ (∃ p ∈ args.zip types, p.2.Slips p.1) ∧
        ∀ p ∈ args.zip types, p.2.Holds p.1 ∨ p.2.Slips p.1

namespace Emitter

variable {s : Emitter} {call : ObjectCall} {calls : List ObjectCall} {k : NetClass} {id : String}

/-- Every attribute is `null` or a value of its type. -/
def Holds (s : Emitter) : Prop := ∀ name type, s.object.clazz.attribute name = .ok type →
  type.Holds (s.object.attributeValues name)

/-- The call succeeds when it should, changes and emits nothing when it does not, and leaves
values of the types. -/
structure Exact (s : Emitter) (call : ObjectCall) : Prop where
  succeeds : s.Succeeds call ↔ s.object.clazz.Declares call
  rejected : ¬s.Succeeds call → s.next call = s
  holds : (s.next call).Holds

theorem succeeds_iff_declares_or : s.Succeeds call ↔
    s.object.clazz.Declares call ∨ s.object.clazz.LetsThrough call := by
  rw [succeeds_iff]
  cases call with
  | setAttribute name value =>
    simp only [check, NetObject.checkAttribute_eq_ok_iff, checkArg_eq_ok_iff, NetClass.Declares,
      NetClass.LetsThrough, and_or_left, exists_or]
  | executeAction name args =>
    simp only [check, NetObject.checkAction_eq_ok_iff, checkArg_eq_ok_iff, NetClass.Declares,
      NetClass.LetsThrough]
    constructor
    · rintro ⟨types, htypes, hlength, hargs⟩
      by_cases hslips : ∃ p ∈ args.zip types, p.2.Slips p.1
      · exact .inr ⟨types, htypes, hlength, hslips, hargs⟩
      · refine .inl ⟨types, htypes, hlength, fun p hp => ?_⟩
        exact (hargs p hp).resolve_right fun h => hslips ⟨p, hp, h⟩
    · rintro (⟨types, htypes, hlength, hargs⟩ | ⟨types, htypes, hlength, _, hargs⟩)
      · exact ⟨types, htypes, hlength, fun p hp => .inl (hargs p hp)⟩
      · exact ⟨types, htypes, hlength, hargs⟩

/-- A call declares nothing that slips through. -/
theorem not_letsThrough_of_declares (h : k.Declares call) : ¬k.LetsThrough call := by
  cases call with
  | setAttribute name value =>
    obtain ⟨type, htype, hholds⟩ := h
    rintro ⟨type', htype', hslips⟩
    obtain rfl := Except.ok.inj (htype.symm.trans htype')
    exact hslips.not_holds hholds
  | executeAction name args =>
    obtain ⟨types, htypes, _, hholds⟩ := h
    rintro ⟨types', htypes', _, ⟨p, hp, hslips⟩, _⟩
    obtain rfl := Except.ok.inj (htypes.symm.trans htypes')
    exact hslips.not_holds (hholds p hp)

/-- A call with the values of the types leaves values of the types. -/
theorem Holds.act (h : s.Holds) (hcall : s.object.clazz.Declares call) : (s.act call).Holds := by
  cases call with
  | executeAction name args => exact h
  | setAttribute name value =>
    obtain ⟨type, htype, hvalue⟩ := hcall
    intro n t ht
    by_cases hn : n = name
    · subst hn
      obtain rfl := Except.ok.inj (htype.symm.trans ht)
      simpa [Emitter.act] using hvalue
    · rw [Emitter.act, NetObject.assign_of_ne hn]
      exact h n t ht

theorem exact_iff (h : s.Holds) : s.Exact call ↔ ¬s.object.clazz.LetsThrough call := by
  constructor
  · intro hexact hthrough
    have hdeclares := hexact.succeeds.mp (succeeds_iff_declares_or.mpr (.inr hthrough))
    exact not_letsThrough_of_declares hdeclares hthrough
  · intro hnot
    have hsucceeds : s.Succeeds call ↔ s.object.clazz.Declares call := by
      rw [succeeds_iff_declares_or]
      exact or_iff_left hnot
    refine ⟨hsucceeds, next_of_not_succeeds, ?_⟩
    by_cases hcall : s.Succeeds call
    · rw [next_of_succeeds hcall]
      exact h.act (hsucceeds.mp hcall)
    · rw [next_of_not_succeeds hcall]
      exact h

end Emitter

end MyLifeHome
