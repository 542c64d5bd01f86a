import MyLifeHome.Core.Wiring
import MyLifeHome.Nick.Writing

/-!
# From an object to its nick and back

`makeNick` writes the values of a published object behind its id, the watcher cuts the
nick and assigns the pieces to its own object of the same id and class. The values that
survive are the ones that the text of a field stands for.
-/
namespace MyLifeHome

open Process

variable {p q : Process} {r : ObjRef} {o : NetObject} {k : NetClass}
  {id nick name : String} {type : NetType} {v w : JsValue} {ev : NickEvent}

/-! ## Reachable states -/

/-- The states that an object gets into by calls of `setAttribute`. -/
inductive NetObject.Reached (id : String) (k : NetClass) : NetObject → Prop where
  | new : Reached id k (netObject id k)
  | setAttribute {o : NetObject} (name : String) (value : JsValue) : Reached id k o →
      o.checkAttribute name value = .ok () → Reached id k (o.assign name value)

theorem NetObject.Reached.id_eq (h : o.Reached id k) : o.id = id := by
  induction h with
  | new => rfl
  | setAttribute _ _ _ _ ih => simpa using ih

theorem NetObject.Reached.clazz_eq (h : o.Reached id k) : o.clazz = k := by
  induction h with
  | new => rfl
  | setAttribute _ _ _ _ ih => simpa using ih

/-- Every attribute has a value that its type accepts. -/
theorem NetObject.Reached.sound (h : o.Reached id k) (hn : k.attribute name = .ok type) :
    checkArg (o.attributeValues name) type = .ok () := by
  induction h with
  | new => rfl
  | @setAttribute o n value ho hc ih =>
    by_cases hname : name = n
    · subst hname
      obtain ⟨type', ht, hv⟩ := NetObject.checkAttribute_eq_ok_iff.mp hc
      rw [ho.clazz_eq, hn] at ht
      obtain rfl := Except.ok.inj ht
      simpa using hv
    · rwa [NetObject.assign_of_ne hname]

/-! ## Reading -/

/-- Equal, up to a number that has become its text. -/
def Identified (mirrored original : JsValue) : Prop :=
  mirrored = original ∨ ∃ n, original = .num n ∧ mirrored = .str n.text

/-- The values whose text stands for them: strings without a bar, and numbers whose text
the type accepts. -/
def Survives (type : NetType) : JsValue → Prop
  | .undefined | .null | .bool _ => False
  | .str s => '|' ∉ s.toList
  | .num n => checkArg (.str n.text) type = .ok ()

instance (type : NetType) (v : JsValue) : Decidable (Survives type v) :=
  match v with
  | .undefined | .null | .bool _ => inferInstanceAs (Decidable False)
  | .str s => inferInstanceAs (Decidable ('|' ∉ s.toList))
  | .num n => inferInstanceAs (Decidable (checkArg (.str n.text) type = .ok ()))

theorem Survives.notMem_text (h : Survives type v) : '|' ∉ v.text.toList := by
  cases v with
  | undefined | null | bool => exact h.elim
  | str s => exact h
  | num n => exact n.notMem_text (.inl rfl)

theorem Survives.checkArg_text (h : Survives type v) (hv : checkArg v type = .ok ()) :
    checkArg (.str v.text) type = .ok () := by
  cases v with
  | undefined | null | bool => exact h.elim
  | str s => exact hv
  | num n => exact h

theorem Survives.identified (h : Survives type v) : Identified (.str v.text) v := by
  cases v with
  | undefined | null | bool => exact h.elim
  | str s => exact .inl rfl
  | num n => exact .inr ⟨n, rfl, rfl⟩

/-- A field that passed its check and stands for a value makes that value survive. -/
theorem survives_of_identified {f : String} (hf : '|' ∉ f.toList)
    (hc : checkArg (.str f) type = .ok ()) (h : Identified (.str f) v) : Survives type v := by
  obtain rfl | ⟨n, rfl, h⟩ := h
  · exact hf
  · obtain rfl := JsValue.str.inj h
    exact hc

/-- An integer survives in a range that contains it. -/
theorem survives_range_iff {min max n : Int} :
    Survives (.range min max) (.num (.int n)) ↔ min ≤ n ∧ n ≤ max := by
  have hne : (JsValue.str (JsNumber.int n).text).falsy = false := by
    rw [JsValue.falsy_str, beq_eq_false_iff_ne]
    exact (JsNumber.int n).text_ne_empty
  rw [Survives, checkArg_range hne, JsValue.text_str, JsNumber.text, parseInt_toString]
  simp

/-- The event is handled and leaves the mirror with the values of the original. -/
def Mirrors (p : Process) (ev : NickEvent) (r : ObjRef) (o : NetObject) : Prop :=
  ∃ q, Completes (ev.calls p) p q ∧ ∀ m ∈ o.clazz.attributes,
    Identified ((q.objects r).attributeValues m.name) (o.attributeValues m.name)

/-- The assignments that the nick leads to. -/
theorem fields_makeNick (ho : o.Reached id k) (hid : '|' ∉ id.toList) (hn : o.makeNick = .ok nick) :
    fields k.attributes (some (nickValues nick)) =
      (k.attributes.zip (o.texts.flatMap (Text.split '|'))).map fun x => (x.1.name, .str x.2) := by
  rw [(split_makeNick (by rwa [ho.id_eq]) hn).2]
  refine fields_some (le_trans ?_ (Text.length_le_length_flatMap_split _))
  rw [NetObject.texts, ho.clazz_eq, List.length_map]

/-- What has been mirrored could be read back. -/
theorem survives_of_assigned (ho : o.Reached id k) (hid : '|' ∉ id.toList)
    (hn : o.makeNick = .ok nick)
    (hc : ∀ a ∈ fields k.attributes (some (nickValues nick)),
      ∀ type, k.attribute a.1 = .ok type → checkArg a.2 type = .ok ())
    {o' : NetObject} {m : NetMember} (hm : m ∈ k.attributes)
    (h : Identified ((o'.assignAll (fields k.attributes (some (nickValues nick)))).attributeValues
      m.name) (o.attributeValues m.name)) (ht : k.attribute m.name = .ok type) :
    Survives type (o.attributeValues m.name) := by
  have hname : m.name ∈ (fields k.attributes (some (nickValues nick))).map Prod.fst := by
    rw [map_fst_fields]
    exact List.mem_map_of_mem hm
  have hmem := o'.assignAll_of_mem hname
  generalize (o'.assignAll _).attributeValues m.name = w at h hmem
  have hcheck := hc _ hmem _ ht
  rw [fields_makeNick ho hid hn] at hmem
  obtain ⟨⟨m', f⟩, hz, heq⟩ := List.mem_map.mp hmem
  obtain ⟨-, rfl⟩ := Prod.mk.inj heq
  exact survives_of_identified (Text.notMem_of_mem_flatMap_split (List.of_mem_zip hz).2) hcheck h

/-- When every value survives, the assignments are the values as texts. -/
theorem fields_of_survives (ho : o.Reached id k) (hid : '|' ∉ id.toList)
    (hn : o.makeNick = .ok nick)
    (h : ∀ m ∈ k.attributes, ∀ type, k.attribute m.name = .ok type →
      Survives type (o.attributeValues m.name)) :
    fields k.attributes (some (nickValues nick)) =
      k.attributes.map fun m => (m.name, .str (o.attributeValues m.name).text) := by
  have hnames := (makeNick_eq_ok_iff.mp hn).1
  rw [ho.clazz_eq] at hnames
  have htexts : o.texts.flatMap (Text.split '|') = o.texts := by
    refine Text.flatMap_split_eq_self fun f hf => ?_
    rw [NetObject.texts, ho.clazz_eq] at hf
    obtain ⟨m, hm, rfl⟩ := List.mem_map.mp hf
    obtain ⟨type, ht⟩ := hnames m hm
    exact (h m hm type ht).notMem_text
  rw [(split_makeNick (by rwa [ho.id_eq]) hn).2, htexts, NetObject.texts, ho.clazz_eq, fields_map]

/-- Those assignments pass their checks and give the mirror the values of the original. -/
theorem mirrored_of_survives (ho : o.Reached id k) (hid : '|' ∉ id.toList)
    (hn : o.makeNick = .ok nick)
    (h : ∀ m ∈ k.attributes, ∀ type, k.attribute m.name = .ok type →
      Survives type (o.attributeValues m.name)) {o' : NetObject} (hk : o'.clazz = k) :
    (∀ a ∈ fields k.attributes (some (nickValues nick)), o'.checkAttribute a.1 a.2 = .ok ()) ∧
      ∀ m ∈ k.attributes,
        Identified ((o'.assignAll (fields k.attributes (some (nickValues nick)))).attributeValues
          m.name) (o.attributeValues m.name) := by
  have htype : ∀ m ∈ k.attributes, ∃ type, k.attribute m.name = .ok type := by
    have hnames := (makeNick_eq_ok_iff.mp hn).1
    rwa [ho.clazz_eq] at hnames
  rw [fields_of_survives ho hid hn h]
  constructor
  · intro a ha
    obtain ⟨m, hm, rfl⟩ := List.mem_map.mp ha
    obtain ⟨type, ht⟩ := htype m hm
    exact NetObject.checkAttribute_eq_ok_iff.mpr
      ⟨type, hk ▸ ht, (h m hm type ht).checkArg_text (ho.sound ht)⟩
  · intro m hm
    have hmem := o'.assignAll_of_mem
      (List.mem_map.mpr ⟨(m.name, .str (o.attributeValues m.name).text),
        List.mem_map_of_mem (f := fun m : NetMember =>
          (m.name, JsValue.str (o.attributeValues m.name).text)) hm, rfl⟩)
    obtain ⟨m', _, heq⟩ := List.mem_map.mp hmem
    obtain ⟨hname, hval⟩ := Prod.mk.inj heq
    obtain ⟨type, ht⟩ := htype m hm
    rw [← hval, hname]
    exact (h m hm type ht).identified

/-- Publishing and watching are inverse on the values that survive, and on no others. -/
theorem nick_round_trip_iff (ho : o.Reached id k) (hid : '|' ∉ id.toList)
    (hn : o.makeNick = .ok nick) (hr : Watched p id r) (hk : (p.objects r).clazz = k)
    (hret : Returns p r)
    (hev : ev = .online nick ∨ ∃ oldNick, ev = .changed oldNick nick) :
    Mirrors p ev r o ↔ ∀ m ∈ k.attributes, ∀ type, k.attribute m.name = .ok type →
      Survives type (o.attributeValues m.name) := by
  have hnick : nickId ev.nick = id := by
    obtain rfl | ⟨_, rfl⟩ := hev <;> exact (split_makeNick (by rwa [ho.id_eq]) hn).1.trans ho.id_eq
  have hr' : Watched p (nickId ev.nick) r := hnick ▸ hr
  have has : ev.assignments k = fields k.attributes (some (nickValues nick)) := by
    obtain rfl | ⟨_, rfl⟩ := hev <;> rfl
  constructor
  · rintro ⟨q, hq, hm⟩ m hmem type ht
    obtain ⟨hc, d⟩ := delivered_event hr' hq
    rw [hk, has] at hc d
    rw [ho.clazz_eq, d.object] at hm
    refine survives_of_assigned ho hid hn (fun a ha type ht => ?_) hmem (hm m hmem) ht
    obtain ⟨type', ht', hcheck⟩ := NetObject.checkAttribute_eq_ok_iff.mp (hc a ha)
    rw [hk, ht] at ht'
    obtain rfl := Except.ok.inj ht'
    exact hcheck
  · intro h
    obtain ⟨hc, hvalues⟩ := mirrored_of_survives ho hid hn h hk
    obtain ⟨q, hq⟩ := completes_event hr' hret (by rwa [hk, has])
    have d := (delivered_event hr' hq).2
    refine ⟨q, hq, ?_⟩
    rwa [d.object, hk, has, ho.clazz_eq]

/-- A light that is on is mirrored. -/
theorem nick_round_trip_light :
    Mirrors watchedLight (.online "a|on") 0
        ((netObject "a" Light.clazz).assign "output" (.str "on")) ↔
      ∀ m ∈ Light.clazz.attributes, ∀ type, Light.clazz.attribute m.name = .ok type →
        Survives type
          (((netObject "a" Light.clazz).assign "output" (.str "on")).attributeValues m.name) :=
  nick_round_trip_iff (.setAttribute _ _ .new (by decide))
    (by decide) (by decide) watchedLight_watched rfl watchedLight_returns (.inl rfl)

/-- The nick of a light that has just been made, `a|null`, makes the watcher throw. -/
theorem nick_round_trip_throws :
    ¬ ∀ (id : String) (k : NetClass) (o : NetObject) (nick : String) (p : Process)
      (r : ObjRef) (ev : NickEvent), o.Reached id k → '|' ∉ id.toList →
      o.makeNick = .ok nick → Watched p id r → (p.objects r).clazz = k → Returns p r →
      (ev = .online nick ∨ ∃ oldNick, ev = .changed oldNick nick) → Mirrors p ev r o := by
  intro hall
  obtain ⟨q, hq, _⟩ := hall "a" Light.clazz (netObject "a" Light.clazz) "a|null" watchedLight 0
    _ .new (by decide) (by decide) watchedLight_watched rfl watchedLight_returns (.inl rfl)
  have hwatched : Watched watchedLight (nickId (NickEvent.online "a|null").nick) 0 :=
    watchedLight_watched
  have hnull : (netObject "a" Light.clazz).checkAttribute "output" (.str "null") = .ok () :=
    (delivered_event hwatched hq).1 ("output", .str "null") (by decide)
  exact absurd hnull (by decide)

end MyLifeHome
