import MyLifeHome.Core.Manager
import MyLifeHome.Nick.Writing
import MyLifeHome.Ui.Channel

/-!
# The attributes that the windows show

`structure.js` gives the windows to the browser with the place of each attribute that they show,
which it computes from the classes of the plugins. `net.js` reads the fields of a nick by these
places.
-/
namespace MyLifeHome.Ui

/-- A type of plugins as `api/pluginTypes` shows it. -/
structure PluginTypeItem where
  id : String
  clazz : NetClass
  ui : Bool

/-- What shows an attribute of a component: the image of a command, or a value that a text uses.
The index is absent, `null` or a number. -/
structure Shown where
  componentId : Option String
  attributeName : Option String
  attributeIndex : Option (Option Nat)

structure Window where
  commands : List Shown
  /-- The context of each text that has one. -/
  texts : List (Option (List Shown))

/-- What the three requests to the core answer. -/
structure Fetched (δ : Type) where
  windows : List Window
  plugins : List (PluginConfig δ)
  pluginTypes : List PluginTypeItem

namespace Fetched

variable {δ : Type}

/-- `arrayKeepIf`, on the types and then on the plugins: what is of the web interface stays. -/
def keepUi (d : Fetched δ) : Fetched δ :=
  let types := d.pluginTypes.filter fun type => type.ui
  { d with
    pluginTypes := types
    plugins := d.plugins.filter fun plugin => types.any fun type => plugin.type = type.id }

def getComponentPlugin (d : Fetched δ) (componentId : String) : Option (PluginConfig δ) :=
  d.plugins.find? fun plugin => componentId = plugin.id

def getPluginType (d : Fetched δ) (plugin : PluginConfig δ) : Option PluginTypeItem :=
  d.pluginTypes.find? fun type => plugin.type = type.id

/-- The loop of `getAttributeIndex`: the name is compared before the kind of the member. -/
def indexFrom (attributeIndex : Nat) (attributeName : String) : List NetMember → Option Nat
  | [] => none
  | member :: members =>
    if member.name = attributeName then some attributeIndex
    else indexFrom (if member.isAttribute then attributeIndex + 1 else attributeIndex)
      attributeName members

def getAttributeIndex (d : Fetched δ) (componentId attributeName : String) : Option Nat :=
  match d.getComponentPlugin componentId with
  | none => none
  | some plugin =>
    match d.getPluginType plugin with
    | none => none
    | some type => indexFrom 0 attributeName type.clazz.members

/-- An absent id or name is equal to none that there is. -/
def indexOf (d : Fetched δ) (shown : Shown) : Option Nat := do
  d.getAttributeIndex (← shown.componentId) (← shown.attributeName)

/-- The image of a command may show no attribute. -/
def fillDisplay (d : Fetched δ) (display : Shown) : Shown :=
  if display.componentId.any (· ≠ "") ∧ display.attributeName.any (· ≠ "") then
    { display with attributeIndex := some (d.indexOf display) }
  else display

def fillItem (d : Fetched δ) (item : Shown) : Shown :=
  { item with attributeIndex := some (d.indexOf item) }

/-- `get`, when the three requests have succeeded. -/
def get (d : Fetched δ) : List Window :=
  d.windows.map fun window =>
    { commands := window.commands.map d.keepUi.fillDisplay
      texts := window.texts.map fun context => context.map fun items => items.map d.keepUi.fillItem }

end Fetched

/-- `null` for a component that is not in the table and for a place behind the last field. -/
def Service.componentAttribute (s : Service) (componentId : String) (attributeIndex : Nat) :
    Option String :=
  match s.net.get componentId with
  | none => none
  | some component =>
    if component.attrs.length ≤ attributeIndex then none else component.attrs[attributeIndex]?

/-! ## Places -/

variable {δ : Type} {d : Fetched δ} {o : NetObject} {name nick : String} {i j : Nat}
  {member : NetMember} {members : List NetMember} {s t : Service} {e : SocketEvent}

/-- Whatever the kind of the member: one that is there has a place. -/
theorem isSome_indexFrom :
    (Fetched.indexFrom i name members).isSome ↔ ∃ member ∈ members, member.name = name := by
  induction members generalizing i with
  | nil => simp [Fetched.indexFrom]
  | cons member members ih =>
    rw [Fetched.indexFrom]
    split_ifs with hname
    · exact iff_of_true rfl ⟨member, List.mem_cons_self, hname⟩
    · rw [ih]
      simp [hname]
    · rw [ih]
      simp [hname]

/-- The place of an attribute is its place among the attributes. -/
theorem getElem_of_indexFrom (hnodup : (members.map NetMember.name).Nodup) (hmem : member ∈ members)
    (hattribute : member.isAttribute) (h : Fetched.indexFrom i member.name members = some j) :
    i ≤ j ∧ (members.filter NetMember.isAttribute)[j - i]? = some member := by
  induction members generalizing i with
  | nil => contradiction
  | cons first members ih =>
    obtain ⟨hfirst, hrest⟩ := List.nodup_cons.mp hnodup
    rw [Fetched.indexFrom] at h
    by_cases hname : first.name = member.name
    · -- the names are distinct, so this is the member
      obtain rfl : member = first := by
        rcases List.mem_cons.mp hmem with heq | htail
        · exact heq
        · exact absurd (hname ▸ List.mem_map_of_mem htail) hfirst
      rw [if_pos hname] at h
      obtain rfl := Option.some.inj h
      simp [hattribute]
    · rw [if_neg hname] at h
      have htail : member ∈ members := by
        apply (List.mem_cons.mp hmem).resolve_left
        rintro rfl
        exact hname rfl
      obtain ⟨hle, hget⟩ := ih hrest htail h
      cases hkind : first.isAttribute with
      | true =>
        rw [if_pos hkind] at hle hget
        obtain ⟨n, rfl⟩ : ∃ n, j = i + 1 + n := ⟨j - (i + 1), by omega⟩
        have hold : i + 1 + n - (i + 1) = n := by omega
        have hnew : i + 1 + n - i = n + 1 := by omega
        rw [hold] at hget
        refine ⟨by omega, ?_⟩
        rw [List.filter_cons_of_pos hkind, hnew, List.getElem?_cons_succ]
        exact hget
      | false =>
        rw [if_neg (by simp [hkind])] at hle hget
        rw [List.filter_cons_of_neg (by simp [hkind])]
        exact ⟨hle, hget⟩

/-! ## A component of the web interface -/

/-- The object is that of a plugin of the web interface; ids are those of the core. -/
structure Fetched.Shows (d : Fetched δ) (o : NetObject) : Prop where
  plugin : ∃ plugin ∈ d.plugins, ∃ type ∈ d.pluginTypes, plugin.id = o.id ∧
    plugin.type = type.id ∧ type.ui ∧ type.clazz = o.clazz
  plugins : (d.plugins.map PluginConfig.id).Nodup
  pluginTypes : (d.pluginTypes.map PluginTypeItem.id).Nodup

/-- The only element with a key is the one that a search finds. -/
theorem find?_eq_some_of_nodup {α : Type} {key : α → String} {as : List α} {p : α → Bool} {a : α}
    (hnodup : (as.map key).Nodup) (ha : a ∈ as) (hp : ∀ b ∈ as, p b = true ↔ key b = key a) :
    as.find? p = some a := by
  cases hfind : as.find? p with
  | none => exact absurd ((hp a ha).mpr rfl) (List.find?_eq_none.mp hfind a ha)
  | some b =>
    have hb := List.mem_of_find?_eq_some hfind
    have hkey := (hp b hb).mp (List.find?_some hfind)
    rw [List.inj_on_of_nodup_map hnodup hb ha hkey]

theorem Fetched.Shows.getAttributeIndex (h : d.Shows o) :
    d.keepUi.getAttributeIndex o.id name = Fetched.indexFrom 0 name o.clazz.members := by
  obtain ⟨plugin, hplugin, type, htype, hid, htypeId, hui, hclazz⟩ := h.plugin
  have hkept : type ∈ d.keepUi.pluginTypes := List.mem_filter.mpr ⟨htype, hui⟩
  have hpluginKept : plugin ∈ d.keepUi.plugins := by
    refine List.mem_filter.mpr ⟨hplugin, List.any_eq_true.mpr ⟨type, hkept, ?_⟩⟩
    simpa using htypeId
  have hplugins : (d.keepUi.plugins.map PluginConfig.id).Nodup :=
    (List.filter_sublist.map _).nodup h.plugins
  have htypes : (d.keepUi.pluginTypes.map PluginTypeItem.id).Nodup :=
    (List.filter_sublist.map _).nodup h.pluginTypes
  have hfindPlugin : d.keepUi.getComponentPlugin o.id = some plugin :=
    find?_eq_some_of_nodup hplugins hpluginKept fun b _ => by simp [hid, eq_comm]
  have hfindType : d.keepUi.getPluginType plugin = some type :=
    find?_eq_some_of_nodup htypes hkept fun b _ => by simp [htypeId, eq_comm]
  simp only [Fetched.getAttributeIndex, hfindPlugin, hfindType, hclazz]

/-- The browser learns the nick of a component. -/
def SocketEvent.Brings (nick : String) : SocketEvent → Prop
  | .join n => n = nick
  | .changed _ newnick => newnick = nick
  | _ => False

/-- Whatever the table held before, it holds the fields of the nick afterwards. -/
theorem attrs_of_brings (he : e.Brings nick) (h : s.receive e = .ok t) :
    (t.net.get (nickId nick)).map Component.attrs = some (nickAttrs nick) := by
  cases e with
  | join n =>
    obtain rfl : n = nick := he
    obtain rfl := Except.ok.inj h
    simp [Service.join]
  | changed old n =>
    obtain rfl : n = nick := he
    simp only [Service.receive, Service.changed] at h
    cases hget : s.net.get (nickId n) with
    | none => simp [hget] at h
    | some component =>
      simp only [hget] at h
      obtain rfl := Except.ok.inj h
      simp
  | _ => exact he.elim

def IsAttribute (k : NetClass) (name : String) : Prop :=
  ∃ member ∈ k.members, member.name = name ∧ member.isAttribute

/-- The name has a place if it is that of an attribute, where the browser finds the value. -/
def Fetched.Reads (d : Fetched δ) (o : NetObject) (name : String) : Prop :=
  ((d.keepUi.getAttributeIndex o.id name).isSome ↔ IsAttribute o.clazz name) ∧
    (IsAttribute o.clazz name → ∃ index nick, d.keepUi.getAttributeIndex o.id name = some index ∧
      o.makeNick = .ok nick ∧ ∀ s e t, e.Brings nick → Service.receive s e = .ok t →
        t.componentAttribute o.id index = some (o.attributeValues name).text)

theorem exists_makeNick (hnames : (o.clazz.members.map NetMember.name).Nodup) :
    ∃ nick, o.makeNick = .ok nick := by
  refine ⟨_, makeNick_eq_ok_iff.mpr ⟨fun m hm => ?_, rfl⟩⟩
  obtain ⟨hmem, hattribute⟩ := List.mem_filter.mp hm
  have hfind : o.clazz.getMember m.name = some m :=
    find?_eq_some_of_nodup hnames hmem fun b _ => by simp
  obtain ⟨n, type | args⟩ := m
  · exact ⟨type, NetClass.attribute_eq_ok_iff.mpr hfind⟩
  · contradiction

/-- The browser shows the texts of the values that the core has written into the nick. -/
theorem componentAttribute_of_brings (hid : '|' ∉ o.id.toList)
    (hvalues : ∀ text ∈ o.texts, '|' ∉ text.toList) (hnick : o.makeNick = .ok nick)
    (he : e.Brings nick) (h : s.receive e = .ok t) : t.componentAttribute o.id i = o.texts[i]? := by
  obtain ⟨hidNick, hattrs⟩ := split_makeNick hid hnick
  rw [Text.flatMap_split_eq_self hvalues] at hattrs
  have hget := attrs_of_brings he h
  change (t.net.get (MyLifeHome.nickId nick)).map _ = some (nickValues nick) at hget
  rw [hidNick, hattrs] at hget
  obtain ⟨component, hcomponent, hfields⟩ := Option.map_eq_some_iff.mp hget
  simp only [Service.componentAttribute, hcomponent, hfields]
  split_ifs with hlength
  · exact (List.getElem?_eq_none hlength).symm
  · rfl

/-- An attribute has a place, where the browser finds its value. -/
theorem exists_index (hd : d.Shows o) (hnames : (o.clazz.members.map NetMember.name).Nodup)
    (hid : '|' ∉ o.id.toList) (hvalues : ∀ text ∈ o.texts, '|' ∉ text.toList)
    (hname : IsAttribute o.clazz name) :
    ∃ index, d.keepUi.getAttributeIndex o.id name = some index ∧
      ∀ nick s e t, o.makeNick = .ok nick → e.Brings nick → Service.receive s e = .ok t →
        t.componentAttribute o.id index = some (o.attributeValues name).text := by
  obtain ⟨member, hmem, rfl, hattribute⟩ := hname
  have hplace : (Fetched.indexFrom 0 member.name o.clazz.members).isSome :=
    isSome_indexFrom.mpr ⟨member, hmem, rfl⟩
  obtain ⟨index, hindex⟩ := Option.isSome_iff_exists.mp hplace
  have hget := (getElem_of_indexFrom hnames hmem hattribute hindex).2
  refine ⟨index, hd.getAttributeIndex.trans hindex, fun nick s e t hnick he ht => ?_⟩
  rw [componentAttribute_of_brings hid hvalues hnick he ht, NetObject.texts, List.getElem?_map]
  exact congrArg _ hget

/-- The place of a name is that of the attribute, unless the name is that of an action. -/
theorem reads_iff (hd : d.Shows o) (hnames : (o.clazz.members.map NetMember.name).Nodup)
    (hid : '|' ∉ o.id.toList) (hvalues : ∀ text ∈ o.texts, '|' ∉ text.toList) (name : String) :
    d.Reads o name ↔ ∀ member ∈ o.clazz.members, member.name = name → member.isAttribute := by
  rw [Fetched.Reads, hd.getAttributeIndex, isSome_indexFrom]
  constructor
  · rintro ⟨hplace, -⟩ member hmem hname
    obtain ⟨other, hother, hsame, hattribute⟩ := hplace.mp ⟨member, hmem, hname⟩
    have heq : member = other :=
      List.inj_on_of_nodup_map hnames hmem hother (hname.trans hsame.symm)
    exact heq ▸ hattribute
  · intro hall
    refine ⟨⟨fun ⟨member, hmem, hname⟩ => ⟨member, hmem, hname, hall member hmem hname⟩,
      fun ⟨member, hmem, hname, _⟩ => ⟨member, hmem, hname⟩⟩, fun hname => ?_⟩
    obtain ⟨index, hindex, hreads⟩ := exists_index hd hnames hid hvalues hname
    obtain ⟨nick, hnick⟩ := exists_makeNick hnames
    exact ⟨index, nick, hd.getAttributeIndex.symm.trans hindex, hnick,
      fun s e t => hreads nick s e t hnick⟩

/-- The answers of a core with one light. -/
def lamp : Fetched Unit :=
  ⟨[], [⟨"lamp", "light", ()⟩], [⟨"light", Light.clazz, true⟩]⟩

theorem lamp_shows : lamp.Shows (netObject "lamp" Light.clazz) := by
  refine ⟨⟨_, List.mem_singleton_self _, _, List.mem_singleton_self _, rfl, rfl, rfl, rfl⟩, ?_, ?_⟩
    <;> exact List.nodup_singleton _

theorem reads_iff_lamp : lamp.Reads (netObject "lamp" Light.clazz) "output" ↔
    ∀ member ∈ Light.clazz.members, member.name = "output" → member.isAttribute :=
  reads_iff lamp_shows (by decide) (by decide) (by decide) "output"

/-- The action of a light has the place behind the last attribute. -/
theorem not_reads_input : ¬∀ (d : Fetched Unit) (o : NetObject) (name : String), d.Shows o →
    (o.clazz.members.map NetMember.name).Nodup → '|' ∉ o.id.toList →
    (∀ text ∈ o.texts, '|' ∉ text.toList) → d.Reads o name := by
  intro h
  have hreads := h lamp (netObject "lamp" Light.clazz) "input" lamp_shows (by decide) (by decide)
    (by decide)
  obtain ⟨member, hmem, hname, hattribute⟩ := hreads.1.mp (by decide)
  have hnone : ∀ member ∈ Light.clazz.members, member.name = "input" →
      member.isAttribute = false := by decide
  rw [hnone member hmem hname] at hattribute
  contradiction

/-! ## The windows -/

/-- What a window that the browser has got shows of a component, in a command or in a text. -/
def Window.Uses (window : Window) (shown : Shown) (componentId attributeName : String) : Prop :=
  shown.componentId = some componentId ∧ shown.attributeName = some attributeName ∧
    (shown ∈ window.commands ∧ componentId ≠ "" ∧ attributeName ≠ "" ∨
      ∃ items, some items ∈ window.texts ∧ shown ∈ items)

/-- Every place that is filled in is computed from the ids and names next to it. -/
theorem attributeIndex_of_uses {window : Window} {shown : Shown} {componentId : String}
    (hwindow : window ∈ d.get) (h : window.Uses shown componentId name) :
    shown.attributeIndex = some (d.keepUi.getAttributeIndex componentId name) := by
  obtain ⟨source, -, rfl⟩ := List.mem_map.mp hwindow
  obtain ⟨hid, hname, ⟨hmem, hidne, hnamene⟩ | ⟨items, hitems, hmem⟩⟩ := h
  · obtain ⟨display, -, rfl⟩ := List.mem_map.mp hmem
    unfold Fetched.fillDisplay at hid hname ⊢
    split_ifs at hid hname ⊢ with hfilled
    · simp [Fetched.indexOf, show display.componentId = _ from hid,
        show display.attributeName = _ from hname]
    · exact absurd (by simp [hid, hname, hidne, hnamene]) hfilled
  · obtain ⟨context, -, hcontext⟩ := List.mem_map.mp hitems
    obtain ⟨sources, -, rfl⟩ := Option.map_eq_some_iff.mp hcontext
    obtain ⟨item, -, rfl⟩ := List.mem_map.mp hmem
    simp [Fetched.fillItem, Fetched.indexOf, show item.componentId = _ from hid,
      show item.attributeName = _ from hname]

/-- A window shows the current value of the attribute that it names. -/
theorem shows_value (hd : d.Shows o) (hnames : (o.clazz.members.map NetMember.name).Nodup)
    (hid : '|' ∉ o.id.toList) (hvalues : ∀ text ∈ o.texts, '|' ∉ text.toList)
    (hname : IsAttribute o.clazz name) {window : Window} {shown : Shown} (hwindow : window ∈ d.get)
    (h : window.Uses shown o.id name) : ∃ index, shown.attributeIndex = some (some index) ∧
      ∀ nick s e t, o.makeNick = .ok nick → e.Brings nick → Service.receive s e = .ok t →
        t.componentAttribute o.id index = some (o.attributeValues name).text := by
  obtain ⟨index, hindex, hreads⟩ := exists_index hd hnames hid hvalues hname
  refine ⟨index, ?_, hreads⟩
  rw [attributeIndex_of_uses hwindow h, hindex]

end MyLifeHome.Ui
