import MyLifeHome.Core.Watcher

/-!
# Nicks

What `makeNick` writes and what the watcher makes of it: an id and one field for each
attribute, unless a field has a bar of its own.
-/
namespace MyLifeHome

variable {o : NetObject} {nick : String}

/-- The texts of the values, in the order of the attributes. -/
def NetObject.texts (o : NetObject) : List String :=
  o.clazz.attributes.map fun m => (o.attributeValues m.name).text

/-- A nick is the id and the texts of the values, each behind a bar. -/
theorem makeNick_eq_ok_iff : o.makeNick = .ok nick ↔
    (∀ m ∈ o.clazz.attributes, ∃ type, o.clazz.attribute m.name = .ok type) ∧
      nick = Text.joinAfter '|' o.id o.texts := by
  have key : ∀ (ms : List NetMember) (start : String),
      ms.foldlM (fun nick m => do
        let value ← o.getAttribute m.name
        pure (nick ++ "|" ++ value.text)) start = (.ok nick : Except JsError String) ↔
      (∀ m ∈ ms, ∃ type, o.clazz.attribute m.name = .ok type) ∧
        nick = Text.joinAfter '|' start (ms.map fun m => (o.attributeValues m.name).text) := by
    intro ms
    induction ms with
    | nil => intro start; simp [Text.joinAfter, pure, Except.pure, eq_comm]
    | cons m ms ih =>
      intro start
      rw [List.foldlM_cons]
      cases ha : o.clazz.attribute m.name with
      | error e => simp [NetObject.getAttribute, ha, bind, Except.bind]
      | ok type =>
        have hget : o.getAttribute m.name = .ok (o.attributeValues m.name) :=
          NetObject.getAttribute_eq_ok_iff.mpr ⟨⟨type, ha⟩, rfl⟩
        rw [hget]
        refine (ih (start ++ "|" ++ (o.attributeValues m.name).text)).trans ?_
        simp [ha, Text.joinAfter, List.foldl_cons]
  exact key _ _

/-- Cutting a nick gives back the id and the texts, cut themselves. -/
theorem split_makeNick (hid : '|' ∉ o.id.toList) (hn : o.makeNick = .ok nick) :
    nickId nick = o.id ∧ nickValues nick = o.texts.flatMap (Text.split '|') := by
  obtain ⟨_, rfl⟩ := makeNick_eq_ok_iff.mp hn
  have hsplit : Text.split '|' (Text.joinAfter '|' o.id o.texts) = _ :=
    Text.split_joinAfter o.id o.texts
  rw [Text.split_of_notMem hid] at hsplit
  exact ⟨by simp [nickId, Text.upTo, hsplit], by simp [nickValues, hsplit]⟩

end MyLifeHome
