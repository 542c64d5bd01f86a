import MyLifeHome.Core.NetObject

/-!
# Link types in the designer

The acceptance rule of `schemaHelper.js` for a link drawn between two members.
-/
namespace MyLifeHome.Designer

def typeEquals : NetType → NetType → Bool
  | .range min1 max1, .range min2 max2 => min1 = min2 && max1 = max2
  | .enum values1, .enum values2 =>
    if values1.length ≠ values2.length then false
    else (values1.zip values2).all fun v => v.1 = v.2
  | _, _ => false

/-- `targetMember.arguments` and `sourceMember.type` exist on actions and attributes only. -/
def checkLinkTypes (sourceMember targetMember : NetMember) : Except JsError Bool :=
  match targetMember.membertype with
  | .attribute _ => .error .typeError
  | .action [] => .ok true
  | .action [type] =>
    match sourceMember.membertype with
    | .attribute sourceType => .ok (typeEquals type sourceType)
    | .action _ => .error .typeError
  | .action (_ :: _ :: _) => .ok false

theorem all_zip_eq_iff {vs ws : List String} (h : vs.length = ws.length) :
    ((vs.zip ws).all fun v => v.1 = v.2) = true ↔ vs = ws := by
  induction vs generalizing ws with
  | nil => cases ws <;> simp_all
  | cons v vs ih =>
    cases ws with
    | nil => simp at h
    | cons w ws => simp [← ih (by simpa using h)]

/-- The comparison of types is equality. -/
theorem typeEquals_iff {s t : NetType} : typeEquals s t = true ↔ s = t := by
  cases s with
  | range a b => cases t <;> simp [typeEquals]
  | enum vs =>
    cases t with
    | range => simp [typeEquals]
    | enum ws =>
      by_cases h : vs.length = ws.length
      · simpa [typeEquals, h] using all_zip_eq_iff h
      · have hne : vs ≠ ws := fun he => h (by rw [he])
        simp [typeEquals, h, hne]

/-- What the designer accepts from an attribute: an action without arguments, or with
one of the attribute's own type. -/
theorem checkLinkTypes_eq_true_iff {name : String} {type : NetType} {target : NetMember} :
    checkLinkTypes ⟨name, .attribute type⟩ target = .ok true ↔
      target.membertype = .action [] ∨ target.membertype = .action [type] := by
  obtain ⟨n, t | args⟩ := target
  · simp [checkLinkTypes]
  · match args with
    | [] => simp [checkLinkTypes]
    | [t] => simp [checkLinkTypes, typeEquals_iff]
    | _ :: _ :: _ => simp [checkLinkTypes]

end MyLifeHome.Designer
