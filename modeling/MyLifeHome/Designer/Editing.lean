import MyLifeHome.Designer.Page
import MyLifeHome.Library.Checked
import MyLifeHome.Library.Runs

/-!
# Editing a schema

While a schema is edited its components and links keep ids of their own, and every link runs
from an attribute to an action.
-/
namespace MyLifeHome.Designer

open Objects Runs

variable {δ : Type} {data later : Page δ} {x : Obj Hardware} {p : Obj (Plugin δ)}
  {l : Obj LinkItem} {link : LinkItem} {compId name id : String} {m n : NetMember}

/-! ## Well-formed schemas -/

def Plugin.clazz (p : Plugin δ) : Option NetClass := p.internalType.map PluginType.clazz

namespace Page

/-- The components with their classes. A plugin whose type is not there has none. -/
def components (data : Page δ) : List (String × Option NetClass) :=
  (data.plugins.map fun x => (x.val.id, x.val.clazz)) ++
    data.hardware.map fun x => (x.val.id, some x.val.clazz)

def componentIds (data : Page δ) : List String := data.components.map Prod.fst

def linkIds (data : Page δ) : List String := data.links.map fun link => link.val.id

/-- A component has a member. -/
def Has (data : Page δ) (compId name : String) (m : NetMember) : Prop :=
  ∃ clazz, (compId, some clazz) ∈ data.components ∧ clazz.getMember name = some m

/-- The link runs from an attribute to an action. -/
def Resolves (data : Page δ) (link : LinkConfig) : Prop :=
  (∃ m, data.Has link.sourceComponent link.sourceAttribute m ∧ m.isAttribute = true) ∧
    ∃ m, data.Has link.destinationComponent link.destinationAction m ∧ m.isAttribute = false

structure WellFormed (data : Page δ) : Prop where
  components : data.componentIds.Nodup
  links : data.linkIds.Nodup
  resolves : ∀ l ∈ data.links, data.Resolves l.val.toLinkConfig

/-- The objects in the arrays are different ones. -/
structure Separate (data : Page δ) : Prop where
  plugins : Allocated data.next data.plugins
  hardware : Allocated data.next data.hardware
  links : Allocated data.next data.links

/-- An object of the page with the identity of the component is the component. -/
def Identifies (data : Page δ) : Component δ → Prop
  | .plugin x => ∀ y ∈ data.plugins, y.ref = x.ref → y = x
  | .hardware x => ∀ y ∈ data.hardware, y.ref = x.ref → y = x

theorem componentIds_eq : data.componentIds =
    (data.plugins.map fun x => x.val.id) ++ data.hardware.map fun x => x.val.id := by
  simp [componentIds, components, Function.comp_def]

theorem mem_components_iff {clazz : NetClass} : (compId, some clazz) ∈ data.components ↔
    (∃ x ∈ data.plugins, x.val.id = compId ∧ x.val.clazz = some clazz) ∨
      ∃ x ∈ data.hardware, x.val.id = compId ∧ x.val.clazz = clazz := by
  simp [components]

theorem has_hardware (hx : x ∈ data.hardware) (h : x.val.clazz.getMember name = some m) :
    data.Has x.val.id name m :=
  ⟨_, mem_components_iff.mpr (.inr ⟨x, hx, rfl, rfl⟩), h⟩

/-- `getMember` only finds members of components that are there. -/
theorem has_of_getMember (h : data.getMember compId name = .ok (some m)) :
    data.Has compId name m := by
  unfold getMember at h
  split at h
  · rename_i x hx
    have hid : x.val.id = compId := by simpa using List.find?_some hx
    rw [← hid]
    exact has_hardware (List.mem_of_find?_eq_some hx) (by simpa using h)
  · split at h
    · rename_i x hx
      have hid : x.val.id = compId := by simpa using List.find?_some hx
      split at h
      · rename_i type htype
        refine ⟨type.clazz, mem_components_iff.mpr (.inl ⟨x, ?_, hid, ?_⟩), by simpa using h⟩
        · exact List.mem_of_find?_eq_some hx
        · simp [Plugin.clazz, htype]
      · cases h
    · simp at h

theorem has_of_getMemberFromId (h : data.getMemberFromId id = .ok (some m)) :
    data.Has (piece id 1) (piece id 2) m := has_of_getMember h

/-- With distinct ids a name names one member. -/
theorem has_unique (hids : data.componentIds.Nodup) (hm : data.Has compId name m)
    (hn : data.Has compId name n) : m = n := by
  obtain ⟨k, hk, hmember⟩ := hm
  obtain ⟨k', hk', hmember'⟩ := hn
  have hsame := List.inj_on_of_nodup_map hids hk hk' rfl
  obtain rfl : k = k' := by simpa using hsame
  exact Option.some.inj (hmember.symm.trans hmember')

theorem Has.mono (h : data.Has compId name m)
    (hsub : ∀ k, (compId, k) ∈ data.components → (compId, k) ∈ later.components) :
    later.Has compId name m := by
  obtain ⟨k, hk, hmember⟩ := h
  exact ⟨k, hsub _ hk, hmember⟩

/-- The components at the ends of the link are still there. -/
def Holds (data later : Page δ) (link : LinkConfig) : Prop :=
  ∀ c ∈ data.components, c.1 = link.sourceComponent ∨ c.1 = link.destinationComponent →
    c ∈ later.components

theorem Resolves.mono {l : LinkConfig} (h : data.Resolves l) (hold : Holds data later l) :
    later.Resolves l := by
  obtain ⟨⟨m, hm, ha⟩, n, hn, hb⟩ := h
  exact ⟨⟨m, hm.mono fun k hk => hold _ hk (.inl rfl), ha⟩, n,
    hn.mono fun k hk => hold _ hk (.inr rfl), hb⟩

theorem WellFormed.of_sublist (h : data.WellFormed) (hids : later.componentIds.Nodup)
    (hlinks : later.links.Sublist data.links)
    (hold : ∀ l ∈ later.links, Holds data later l.val.toLinkConfig) : later.WellFormed where
  components := hids
  links := (hlinks.map _).nodup h.links
  resolves l hl := (h.resolves l (hlinks.subset hl)).mono (hold l hl)

/-! ## Creating and deleting -/

variable {parameters : List String → δ} {typeId : String} {px py : JsNumber}

theorem createPlugin_eq_ok (h : data.createPlugin parameters typeId px py = .ok later) :
    ∃ type, data.findType typeId = some type ∧ later = { data with
      plugins := data.plugins ++ [⟨data.next, data.newPluginId, type.id, parameters type.arguments,
        ⟨px, py⟩, some type⟩]
      lastId := data.lastId + 1
      next := data.next + 1 } := by
  unfold createPlugin at h
  split at h
  · cases h
  · rename_i type htype
    exact ⟨type, htype, (Except.ok.inj h).symm⟩

theorem WellFormed.createPlugin (hwf : data.WellFormed)
    (hc : (data.findType typeId).isSome → data.newPluginId ∉ data.componentIds)
    (h : data.createPlugin parameters typeId px py = .ok later) : later.WellFormed := by
  obtain ⟨type, htype, rfl⟩ := createPlugin_eq_ok h
  have hnew : data.newPluginId ∉ data.componentIds := hc (by simp [htype])
  refine hwf.of_sublist ?_ (.refl _) ?_
  · have hids := hwf.components
    rw [componentIds_eq] at hids hnew ⊢
    simp only [List.map_append, List.map_cons, List.map_nil]
    rw [List.append_assoc, List.singleton_append]
    exact List.nodup_middle.mpr (List.nodup_cons.mpr ⟨hnew, hids⟩)
  · intro l _ c hc _
    simp only [Page.components, List.map_append, List.mem_append] at hc ⊢
    grind

theorem Separate.createPlugin (hs : data.Separate)
    (h : data.createPlugin parameters typeId px py = .ok later) : later.Separate := by
  obtain ⟨type, -, rfl⟩ := createPlugin_eq_ok h
  exact ⟨hs.plugins.push _, hs.hardware.mono (Nat.le_succ _), hs.links.mono (Nat.le_succ _)⟩

variable {comp : Component δ}

theorem deleteComponent_sublist (data : Page δ) (comp : Component δ) :
    (data.deleteComponent comp).plugins.Sublist data.plugins ∧
    (data.deleteComponent comp).hardware.Sublist data.hardware ∧
    (data.deleteComponent comp).links.Sublist data.links ∧
    (data.deleteComponent comp).next = data.next := by
  cases comp with
  | plugin x =>
    simp only [deleteComponent]
    split_ifs
    · exact ⟨removeFromArray_sublist, .refl _, removeAll_sublist, rfl⟩
    · exact ⟨.refl _, .refl _, removeAll_sublist, rfl⟩
  | hardware x => exact ⟨.refl _, removeFromArray_sublist, removeAll_sublist, rfl⟩

theorem components_deleteComponent_sublist :
    (data.deleteComponent comp).components.Sublist data.components := by
  obtain ⟨hplugins, hhardware, -⟩ := deleteComponent_sublist data comp
  exact (hplugins.map _).append (hhardware.map _)

theorem Separate.deleteComponent (hs : data.Separate) : (data.deleteComponent comp).Separate := by
  obtain ⟨hplugins, hhardware, hlinks, hnext⟩ := deleteComponent_sublist data comp
  refine ⟨?_, ?_, ?_⟩ <;> rw [hnext]
  · exact hs.plugins.sublist hplugins
  · exact hs.hardware.sublist hhardware
  · exact hs.links.sublist hlinks

/-- The other components stay. -/
theorem mem_components_deleteComponent (hi : data.Identifies comp) {c : String × Option NetClass}
    (hc : c ∈ data.components) (hne : c.1 ≠ comp.id) :
    c ∈ (data.deleteComponent comp).components := by
  simp only [components, List.mem_append, List.mem_map] at hc ⊢
  rcases hc with ⟨y, hy, rfl⟩ | ⟨y, hy, rfl⟩
  · refine .inl ⟨y, ?_, rfl⟩
    cases comp with
    | plugin x =>
      simp only [deleteComponent]
      split_ifs
      · exact mem_removeFromArray_of_ne hy fun href => hne (by rw [hi y hy href]; rfl)
      · exact hy
    | hardware x => exact hy
  · refine .inr ⟨y, ?_, rfl⟩
    cases comp with
    | plugin x =>
      simp only [deleteComponent]
      split_ifs <;> exact hy
    | hardware x => exact mem_removeFromArray_of_ne hy fun href => hne (by rw [hi y hy href]; rfl)

/-- What is left of the links does not touch the component. -/
theorem Separate.links_of_deleteComponent (hs : data.Separate)
    (hl : l ∈ (data.deleteComponent comp).links) :
    l ∈ data.links ∧ l.val.sourceComponent ≠ comp.id ∧ l.val.destinationComponent ≠ comp.id := by
  have hl : l ∈ (data.findLinksFromComponent comp.id).foldl removeFromArray data.links := by
    unfold Page.deleteComponent at hl
    cases comp with
    | plugin x =>
      simp only at hl
      split_ifs at hl <;> exact hl
    | hardware x => exact hl
  have hmem := removeAll_sublist.subset hl
  have hnot : l ∉ data.findLinksFromComponent comp.id := fun hfound =>
    hs.links.ref_ne_of_mem_removeAll hfound hl rfl
  refine ⟨hmem, ?_⟩
  simpa [findLinksFromComponent, hmem] using hnot

/-- The links that do not touch the component stay. -/
theorem mem_links_deleteComponent (hs : data.Separate) (hl : l ∈ data.links)
    (hnot : ¬(l.val.sourceComponent = comp.id ∨ l.val.destinationComponent = comp.id)) :
    l ∈ (data.deleteComponent comp).links := by
  have hleft : l ∈ (data.findLinksFromComponent comp.id).foldl removeFromArray data.links := by
    refine mem_removeAll_of_ne hl fun y hy href => hnot ?_
    obtain ⟨hmem, htouch⟩ := List.mem_filter.mp hy
    rw [hs.links.eq_of_ref hl hmem href]
    simpa using htouch
  cases comp with
  | plugin x =>
    simp only [Page.deleteComponent]
    split_ifs <;> exact hleft
  | hardware x => exact hleft

theorem WellFormed.deleteComponent (hwf : data.WellFormed) (hs : data.Separate)
    (hi : data.Identifies comp) : (data.deleteComponent comp).WellFormed := by
  refine hwf.of_sublist ?_ (deleteComponent_sublist _ _).2.2.1 ?_
  · exact (components_deleteComponent_sublist.map _).nodup hwf.components
  · intro l hl c hc hend
    obtain ⟨-, hsource, hdestination⟩ := hs.links_of_deleteComponent hl
    refine mem_components_deleteComponent hi hc ?_
    rcases hend with hend | hend <;> rwa [hend]

/-! ## Links -/

theorem linkIds_pushLink : (data.pushLink link).linkIds = data.linkIds ++ [link.id] := by
  simp [linkIds, Page.pushLink]

/-- A link with a new id leaves the ids distinct, those of the links to come among them. -/
theorem nodup_linkIds_pushLink {ids : List String} (hids : (ids ++ data.linkIds).Nodup)
    (hnot : link.id ∉ ids) (hnew : link.id ∉ data.linkIds) :
    (ids ++ (data.pushLink link).linkIds).Nodup := by
  rw [linkIds_pushLink, ← List.append_assoc, ← List.concat_eq_append, List.nodup_concat,
    List.mem_append, not_or]
  exact ⟨⟨hnot, hnew⟩, hids⟩

theorem WellFormed.pushLink (hwf : data.WellFormed) (hid : link.id ∉ data.linkIds)
    (hr : data.Resolves link.toLinkConfig) : (data.pushLink link).WellFormed where
  components := hwf.components
  links := by
    rw [linkIds_pushLink, ← List.concat_eq_append, List.nodup_concat]
    exact ⟨hid, hwf.links⟩
  resolves l hl := by
    rcases List.mem_append.mp hl with hl | hl
    · exact hwf.resolves l hl
    · rw [List.mem_singleton.mp hl]
      exact hr

theorem Separate.pushLink (hs : data.Separate) : (data.pushLink link).Separate :=
  ⟨hs.plugins.mono (Nat.le_succ _), hs.hardware.mono (Nat.le_succ _), hs.links.push _⟩

/-- What is accepted ends in an action, and starts from an attribute unless the action takes
no argument. -/
theorem action_of_checkLinkTypes {source target : NetMember}
    (h : Designer.checkLinkTypes source target = .ok true) : target.isAttribute = false ∧
      (source.isAttribute = true ∨ target.membertype = .action []) := by
  obtain ⟨b, type | args⟩ := target
  · cases h
  · refine ⟨rfl, ?_⟩
    match args with
    | [] => exact .inr rfl
    | [type] =>
      obtain ⟨a, stype | sargs⟩ := source
      · exact .inl rfl
      · cases h
    | _ :: _ :: _ => simp [Designer.checkLinkTypes] at h

/-- The connection is not there yet, and its members fit. -/
def Accepts (data : Page δ) (drawn : LinkConfig) : Prop :=
  (data.findConnection (getSourceId drawn) (getTargetId drawn)).isSome = false ∧
    data.checkLinkTypes (getSourceId drawn) (getTargetId drawn) = .ok true

theorem onConnectionCreated_eq_ok {drawn : LinkConfig}
    (h : data.onConnectionCreated drawn = .ok later) : later = data ∨
      data.Accepts drawn ∧ later = data.createLink (getSourceId drawn) (getTargetId drawn) := by
  unfold onConnectionCreated at h
  simp only at h
  split_ifs at h with hfound
  · exact .inl (Except.ok.inj h).symm
  · obtain ⟨b, hb, h⟩ := Checked.bind_eq_ok_iff.mp h
    cases b with
    | false => exact .inl (Except.ok.inj h).symm
    | true => exact .inr ⟨⟨by simpa using hfound, hb⟩, (Except.ok.inj h).symm⟩

/-- The link that would be made has an id of its own and starts from an attribute. -/
def LinksUp (data : Page δ) (drawn : LinkConfig) : Prop :=
  (linkBetween (getSourceId drawn) (getTargetId drawn)).id ∉ data.linkIds ∧
    ∃ m, data.getMemberFromId (getSourceId drawn) = .ok (some m) ∧ m.isAttribute = true

theorem action_of_checkMembers {source target : Option NetMember}
    (h : checkMembers source target = .ok true) : ∃ m, target = some m ∧ m.isAttribute = false := by
  cases target with
  | none => cases source <;> cases h
  | some target =>
    refine ⟨target, rfl, ?_⟩
    cases source with
    | some source => exact (action_of_checkLinkTypes h).1
    | none =>
      obtain ⟨b, type | args⟩ := target
      · cases h
      · rfl

theorem Accepts.target {drawn : LinkConfig} (h : data.Accepts drawn) :
    ∃ m, data.getMemberFromId (getTargetId drawn) = .ok (some m) ∧ m.isAttribute = false := by
  obtain ⟨source, -, h⟩ := Checked.bind_eq_ok_iff.mp h.2
  obtain ⟨target, htarget, h⟩ := Checked.bind_eq_ok_iff.mp h
  obtain ⟨m, rfl, haction⟩ := action_of_checkMembers h
  exact ⟨m, htarget, haction⟩

theorem toLinkConfig_linkBetween (sourceId targetId : String) :
    (linkBetween sourceId targetId).toLinkConfig =
      ⟨piece sourceId 1, piece sourceId 2, piece targetId 1, piece targetId 2⟩ := rfl

theorem WellFormed.onConnectionCreated {drawn : LinkConfig} (hwf : data.WellFormed)
    (hc : data.Accepts drawn → data.LinksUp drawn)
    (h : data.onConnectionCreated drawn = .ok later) : later.WellFormed := by
  rcases onConnectionCreated_eq_ok h with rfl | ⟨ha, rfl⟩
  · exact hwf
  · obtain ⟨hid, m, hm, hattribute⟩ := hc ha
    obtain ⟨n, hn, haction⟩ := ha.target
    have hsource := has_of_getMemberFromId hm
    have hdestination := has_of_getMemberFromId hn
    have hresolves : data.Resolves (linkBetween (getSourceId drawn) (getTargetId drawn)).toLinkConfig := by
      rw [toLinkConfig_linkBetween]
      dsimp only [Resolves]
      exact ⟨⟨m, hsource, hattribute⟩, n, hdestination, haction⟩
    exact hwf.pushLink hid hresolves

theorem Separate.onConnectionCreated {drawn : LinkConfig} (hs : data.Separate)
    (h : data.onConnectionCreated drawn = .ok later) : later.Separate := by
  rcases onConnectionCreated_eq_ok h with rfl | ⟨-, rfl⟩
  · exact hs
  · exact hs.pushLink

theorem WellFormed.onConnectionDblClick (hwf : data.WellFormed) :
    (data.onConnectionDblClick l).WellFormed :=
  hwf.of_sublist hwf.components removeFromArray_sublist fun _ _ _ hc _ => hc

theorem Separate.onConnectionDblClick (hs : data.Separate) :
    (data.onConnectionDblClick l).Separate :=
  ⟨hs.plugins, hs.hardware, hs.links.sublist removeFromArray_sublist⟩

/-! ## Loading hardware -/

variable {item : HardwareData} {items : List HardwareData} {designer : Option Position}
  {links : List LinkItem} {classes : List (String × Option NetClass)}

theorem components_pushHardware : (data.pushHardware item designer).components =
    data.components ++ [(item.id, some item.clazz)] := by
  simp [components, Page.pushHardware]

theorem Separate.pushHardware (hs : data.Separate) : (data.pushHardware item designer).Separate :=
  ⟨hs.plugins.mono (Nat.le_succ _), hs.hardware.push _, hs.links.mono (Nat.le_succ _)⟩

theorem WellFormed.pushHardware (hwf : data.WellFormed) (hnew : item.id ∉ data.componentIds) :
    (data.pushHardware item designer).WellFormed := by
  refine hwf.of_sublist ?_ (.refl _) ?_
  · rw [componentIds, components_pushHardware, List.map_append, List.map_singleton,
      ← List.concat_eq_append, List.nodup_concat]
    exact ⟨hnew, hwf.components⟩
  · intro l _ c hc _
    rw [components_pushHardware]
    exact List.mem_append_left _ hc

/-- Where the members fit the link starts from an attribute. -/
def Fits (data : Page δ) (link : LinkItem) : Prop :=
  ∀ s d, data.Has link.sourceComponent link.sourceAttribute s →
    data.Has link.destinationComponent link.destinationAction d →
      Designer.checkLinkTypes s d = .ok true → s.isAttribute = true

theorem recreateLink_eq_ok (h : data.recreateLink link = .ok later) : later = data ∨
    later = data.pushLink link ∧ (data.Fits link → data.Resolves link.toLinkConfig) := by
  obtain ⟨source, hsource, h⟩ := Checked.bind_eq_ok_iff.mp h
  obtain ⟨dest, hdest, h⟩ := Checked.bind_eq_ok_iff.mp h
  cases source with
  | none => exact .inl (Except.ok.inj h).symm
  | some s =>
    cases dest with
    | none => exact .inl (Except.ok.inj h).symm
    | some d =>
      obtain ⟨b, hb, h⟩ := Checked.bind_eq_ok_iff.mp h
      cases b with
      | false => exact .inl (Except.ok.inj h).symm
      | true =>
        refine .inr ⟨(Except.ok.inj h).symm, fun hfits => ?_⟩
        have hs := has_of_getMember hsource
        have hd := has_of_getMember hdest
        exact ⟨⟨s, hs, hfits s d hs hd hb⟩, d, hd, (action_of_checkLinkTypes hb).1⟩

/-- What a round of the import keeps. -/
structure Kept (data later : Page δ) (links : List LinkItem) : Prop where
  wellFormed : later.WellFormed
  separate : later.Separate
  plugins : later.plugins = data.plugins
  components : later.components = data.components
  links : ∀ l ∈ later.links, l ∈ data.links ∨ l.val ∈ links

theorem kept_recreateLinks (hwf : data.WellFormed) (hs : data.Separate)
    (hids : (links.map LinkItem.id ++ data.linkIds).Nodup) (hfits : ∀ link ∈ links, data.Fits link) :
    Kept data (data.recreateLinks links).1 links := by
  induction links generalizing data with
  | nil => exact ⟨hwf, hs, rfl, rfl, fun l hl => .inl hl⟩
  | cons link links ih =>
    rw [List.map_cons, List.cons_append, List.nodup_cons, List.mem_append, not_or] at hids
    obtain ⟨⟨hfirst, hnew⟩, hids⟩ := hids
    unfold recreateLinks
    split
    · exact ⟨hwf, hs, rfl, rfl, fun l hl => .inl hl⟩
    · rename_i next h
      rcases recreateLink_eq_ok h with rfl | ⟨rfl, hresolves⟩
      · have hkept := ih hwf hs hids fun l hl => hfits l (List.mem_cons_of_mem _ hl)
        exact ⟨hkept.1, hkept.2, hkept.3, hkept.4, fun l hl =>
          (hkept.5 l hl).imp_right (List.mem_cons_of_mem _)⟩
      · have hids := nodup_linkIds_pushLink hids hfirst hnew
        have hkept := ih (hwf.pushLink hnew (hresolves (hfits link List.mem_cons_self))) hs.pushLink
          hids fun l hl => hfits l (List.mem_cons_of_mem _ hl)
        refine ⟨hkept.1, hkept.2, hkept.3, hkept.4, fun l hl => ?_⟩
        rcases hkept.5 l hl with hl | hl
        · rcases List.mem_append.mp hl with hl | hl
          · exact .inl hl
          · rw [List.mem_singleton.mp hl]
            exact .inr List.mem_cons_self
        · exact .inr (List.mem_cons_of_mem _ hl)

/-- The item does not turn the source of a link into an action, unless the destination takes
an argument in all classes that it may have. -/
def Suits (item : HardwareData) (classes : List (String × Option NetClass))
    (links : List LinkItem) : Prop :=
  ∀ l ∈ links, l.sourceComponent = item.id →
    ∀ s, item.clazz.getMember l.sourceAttribute = some s → s.isAttribute = false →
      ∀ k, (l.destinationComponent, some k) ∈ classes →
        ∀ d, k.getMember l.destinationAction = some d → d.membertype ≠ .action []

def pluginIds (data : Page δ) : List String := data.plugins.map fun p => p.val.id

/-- What holds while the items are loaded. -/
structure Loading (data : Page δ) (ids : List String) (classes : List (String × Option NetClass))
    (links : List LinkItem) : Prop where
  wellFormed : data.WellFormed
  separate : data.Separate
  plugins : data.pluginIds = ids
  classes : ∀ c ∈ data.components, c ∈ classes
  links : ∀ l ∈ data.links, l.val ∈ links

variable {ids : List String}

theorem mem_componentIds_iff : id ∈ data.componentIds ↔
    id ∈ data.pluginIds ∨ ∃ x ∈ data.hardware, x.val.id = id := by
  simp [componentIds_eq, pluginIds]

/-- The id of hardware that is deleted becomes free. -/
theorem notMem_ids_deleteComponent (hids : data.componentIds.Nodup) (hs : data.Separate)
    (hx : x ∈ data.hardware) (hnot : x.val.id ∉ data.pluginIds) :
    x.val.id ∉ (data.deleteComponent (.hardware x)).componentIds := by
  intro hmem
  rcases mem_componentIds_iff.mp hmem with hp | ⟨y, hy, hid⟩
  · exact hnot hp
  · have hy' : y ∈ data.hardware := removeFromArray_sublist.subset hy
    rw [componentIds_eq] at hids
    have hsame : y = x := List.inj_on_of_nodup_map (List.nodup_append.mp hids).2.1 hy' hx hid
    rw [hsame] at hy
    exact hs.hardware.ref_ne_of_mem_remove hy rfl

/-- The links that are taken out and those that stay have different ids. -/
theorem nodup_linkIds_deleteComponent (hnodup : data.linkIds.Nodup) (hs : data.Separate)
    (comp : Component δ) :
    (((data.findLinksFromComponent comp.id).map Obj.val).map LinkItem.id ++
      (data.deleteComponent comp).linkIds).Nodup := by
  rw [List.map_map]
  refine List.Nodup.append ?_ (((deleteComponent_sublist _ _).2.2.1.map _).nodup hnodup) ?_
  · exact (List.filter_sublist.map _).nodup hnodup
  · intro id hfound hleft
    obtain ⟨l, hl, rfl⟩ := List.mem_map.mp hfound
    obtain ⟨l', hl', hid⟩ := List.mem_map.mp hleft
    obtain ⟨hmem, hsource, hdestination⟩ := hs.links_of_deleteComponent hl'
    have hsame : l' = l := List.inj_on_of_nodup_map hnodup hmem (List.mem_filter.mp hl).1 hid
    have htouch := (List.mem_filter.mp hl).2
    simp [← hsame, hsource, hdestination] at htouch

/-- The links of hardware that is replaced fit if they start from an attribute: those from
elsewhere did so before. -/
theorem fits_replaced (hwf : data.WellFormed) (hids : later.componentIds.Nodup)
    (hitem : (item.id, some item.clazz) ∈ later.components)
    (hkeep : ∀ c ∈ data.components, c.1 ≠ item.id → c ∈ later.components)
    (hclasses : ∀ c ∈ later.components, c ∈ classes) (hsuits : Suits item classes links)
    (hl : l ∈ data.links) (hmem : l.val ∈ links) : later.Fits l.val := by
  intro s d hs hd hcheck
  rcases (action_of_checkLinkTypes hcheck).2 with hattribute | hempty
  · exact hattribute
  by_cases hsource : l.val.sourceComponent = item.id
  · by_contra hnot
    obtain ⟨k, hk, hmember⟩ := hs
    have hclazz : k = item.clazz := by
      rw [hsource] at hk
      simpa using List.inj_on_of_nodup_map hids hk hitem rfl
    rw [hclazz] at hmember
    obtain ⟨k', hk', hmember'⟩ := hd
    exact hsuits l.val hmem hsource s hmember (by simpa using hnot) k' (hclasses _ hk') d hmember'
      hempty
  · obtain ⟨⟨m, hm, hattribute⟩, -⟩ := hwf.resolves l hl
    have hm' := hm.mono fun k hk => hkeep _ hk hsource
    rwa [has_unique hids hs hm']

theorem Loading.loadItem (h : data.Loading ids classes links)
    (hclass : (item.id, some item.clazz) ∈ classes) (hid : item.id ∉ ids)
    (hsuits : Suits item classes links) : (data.loadItem item).1.Loading ids classes links := by
  obtain ⟨hwf, hs, rfl, hclasses, hlinks⟩ := h
  unfold Page.loadItem
  cases hfind : data.hardware.find? fun x => x.val.id = item.id with
  | none =>
    have hnew : item.id ∉ data.componentIds := by
      intro hmem
      rcases mem_componentIds_iff.mp hmem with hp | ⟨x, hx, hxid⟩
      · exact hid hp
      · simpa [hxid] using List.find?_eq_none.mp hfind x hx
    refine ⟨hwf.pushHardware hnew, hs.pushHardware, rfl, ?_, hlinks⟩
    intro c hc
    rw [components_pushHardware] at hc
    rcases List.mem_append.mp hc with hc | hc
    · exact hclasses c hc
    · rwa [List.mem_singleton.mp hc]
  | some x =>
    have hx := List.mem_of_find?_eq_some hfind
    have hxid : x.val.id = item.id := by simpa using List.find?_some hfind
    have hi : data.Identifies (.hardware x) := fun y hy href => hs.hardware.eq_of_ref hy hx href
    let left := data.deleteComponent (.hardware x)
    let pushed := left.pushHardware item (some x.val.designer)
    let found := (data.findLinksFromComponent x.val.id).map Obj.val
    change (pushed.recreateLinks found).1.Loading _ _ _
    have hfree : item.id ∉ left.componentIds := by
      rw [← hxid]
      exact notMem_ids_deleteComponent hwf.components hs hx (by rwa [hxid])
    have hpushed : pushed.WellFormed := (hwf.deleteComponent hs hi).pushHardware hfree
    have hcomponents : pushed.components = left.components ++ [(item.id, some item.clazz)] :=
      components_pushHardware
    have hsub : ∀ c ∈ pushed.components, c ∈ classes := by
      intro c hc
      rw [hcomponents] at hc
      rcases List.mem_append.mp hc with hc | hc
      · exact hclasses c (components_deleteComponent_sublist.subset hc)
      · rwa [List.mem_singleton.mp hc]
    have hfound : ∀ link ∈ found, ∃ l ∈ data.links, l.val = link := by
      intro link hlink
      obtain ⟨l, hl, rfl⟩ := List.mem_map.mp hlink
      exact ⟨l, (List.mem_filter.mp hl).1, rfl⟩
    have hfits : ∀ link ∈ found, pushed.Fits link := by
      intro link hlink
      obtain ⟨l, hl, rfl⟩ := hfound link hlink
      refine fits_replaced hwf hpushed.components ?_ ?_ hsub hsuits hl (hlinks l hl)
      · simp [hcomponents]
      · intro c hc hne
        rw [hcomponents]
        exact List.mem_append_left _ (mem_components_deleteComponent hi hc (by rwa [← hxid] at hne))
    have hkept : Kept pushed (pushed.recreateLinks found).1 found :=
      kept_recreateLinks hpushed hs.deleteComponent.pushHardware
        (nodup_linkIds_deleteComponent hwf.links hs (.hardware x)) hfits
    refine ⟨hkept.wellFormed, hkept.separate, ?_, ?_, ?_⟩
    · rw [pluginIds, hkept.plugins]
      rfl
    · rw [hkept.components]
      exact hsub
    · intro l hl
      rcases hkept.links l hl with hl | hl
      · exact hlinks l (hs.links_of_deleteComponent hl).1
      · obtain ⟨l', hl', hval⟩ := hfound _ hl
        rw [← hval]
        exact hlinks l' hl'

theorem Loading.loadHardware (h : data.Loading ids classes links)
    (hitems : ∀ item ∈ items, (item.id, some item.clazz) ∈ classes ∧ item.id ∉ ids ∧
      Suits item classes links) : (data.loadHardware items).1.Loading ids classes links := by
  induction items generalizing data with
  | nil => exact h
  | cons item items ih =>
    obtain ⟨⟨hclass, hid, hsuits⟩, hitems⟩ := List.forall_mem_cons.mp hitems
    have hfirst := h.loadItem hclass hid hsuits
    unfold Page.loadHardware
    split
    · rename_i next hnext
      rw [hnext] at hfirst
      exact ih hfirst hitems
    · rename_i next e hnext
      rwa [hnext] at hfirst

/-! ## A session -/

/-- The classes there may be while the items are loaded. -/
def classesWith (data : Page δ) (items : List HardwareData) : List (String × Option NetClass) :=
  data.components ++ items.map fun item => (item.id, some item.clazz)

/-- What the operations have to keep clear of: the id that the counter gives is free; a link that
is drawn gets a free id and starts from an attribute; no item that is loaded has the id of a
plugin or makes an action of the source of a link. -/
def Careful (data : Page δ) : Operation δ → Prop
  | .createPlugin typeId _ _ => (data.findType typeId).isSome → data.newPluginId ∉ data.componentIds
  | .connect drawn => data.Accepts drawn → data.LinksUp drawn
  | .loadHardware items => ∀ item ∈ items, item.id ∉ data.pluginIds ∧
      Suits item (data.classesWith items) (data.links.map Obj.val)
  | .deleteComponent _ | .removeLink _ => True

/-- One operation, on an object of the page if it is on one. -/
def Step (parameters : List String → δ) (data : Page δ) (op : Operation δ) (later : Page δ) : Prop :=
  (match op with
    | .deleteComponent comp => data.Identifies comp
    | _ => True) ∧ later = data.perform parameters op

theorem Step.wellFormed {op : Operation δ} (h : Step parameters data op later)
    (hc : data.Careful op) (hi : data.WellFormed ∧ data.Separate) :
    later.WellFormed ∧ later.Separate := by
  obtain ⟨hobject, rfl⟩ := h
  obtain ⟨hwf, hs⟩ := hi
  cases op with
  | createPlugin typeId px py =>
    simp only [perform]
    cases h : data.createPlugin parameters typeId px py with
    | error e => exact ⟨hwf, hs⟩
    | ok later => exact ⟨hwf.createPlugin hc h, hs.createPlugin h⟩
  | deleteComponent comp => exact ⟨hwf.deleteComponent hs hobject, hs.deleteComponent⟩
  | connect drawn =>
    simp only [perform]
    cases h : data.onConnectionCreated drawn with
    | error e => exact ⟨hwf, hs⟩
    | ok later => exact ⟨hwf.onConnectionCreated hc h, hs.onConnectionCreated h⟩
  | removeLink link => exact ⟨hwf.onConnectionDblClick, hs.onConnectionDblClick⟩
  | loadHardware items =>
    have hstart : data.Loading data.pluginIds (data.classesWith items) (data.links.map Obj.val) :=
      ⟨hwf, hs, rfl, fun c hc => List.mem_append_left _ hc, fun l hl => List.mem_map_of_mem hl⟩
    have hitems : ∀ item ∈ items, (item.id, some item.clazz) ∈ data.classesWith items ∧
        item.id ∉ data.pluginIds ∧ Suits item (data.classesWith items) (data.links.map Obj.val) :=
      fun item hitem =>
        ⟨List.mem_append_right _ (List.mem_map.mpr ⟨item, hitem, rfl⟩), hc item hitem⟩
    have hend := hstart.loadHardware hitems
    exact ⟨hend.wellFormed, hend.separate⟩

theorem separate_prepareData {pluginTypes : List PluginType} {plugins : List (PluginData δ)}
    {hardware : List HardwareData} {lastId : Nat} :
    (prepareData pluginTypes plugins hardware links lastId).Separate := by
  refine ⟨?_, ?_, ?_⟩
  · refine (allocated_alloc _).mono ?_
    simp only [prepareData, List.length_map]
    omega
  · refine (allocated_alloc _).mono ?_
    simp only [prepareData, List.length_map]
    omega
  · exact (allocated_alloc _).mono (le_refl _)

/-- A schema that is well formed when it is loaded stays so while it is edited with care. -/
theorem wellFormed_of_careful {pluginTypes : List PluginType} {plugins : List (PluginData δ)}
    {hardware : List HardwareData} {lastId : Nat} {ops : List (Operation δ)}
    (hload : (prepareData pluginTypes plugins hardware links lastId).WellFormed)
    (hrun : Steps (guarded Careful (Step parameters))
      (prepareData pluginTypes plugins hardware links lastId) ops later) : later.WellFormed :=
  (hrun.invariant (P := fun data => data.WellFormed ∧ data.Separate)
    (fun hi h => h.2.wellFormed h.1 hi) ⟨hload, separate_prepareData⟩).1

/-- A schema with one plugin, of a type without arguments and members. -/
def onePlugin (id : String) : Page Unit :=
  prepareData [⟨"logic", [], ⟨[]⟩⟩] [⟨id, "logic", (), none⟩] [] [] 0

theorem onePlugin_wellFormed (id : String) : (onePlugin id).WellFormed where
  components := by simp [componentIds_eq, onePlugin, prepareData, alloc]
  links := List.nodup_nil
  resolves _ hl := by simp [onePlugin, prepareData, alloc] at hl

theorem wellFormed_of_careful_onePlugin :
    ((onePlugin "lamp").perform (fun _ => ()) (.createPlugin "logic" (.int 3) (.int 4))).WellFormed := by
  refine wellFormed_of_careful (onePlugin_wellFormed "lamp")
    (.cons (a := .createPlugin "logic" (.int 3) (.int 4)) ⟨?_, trivial, rfl⟩ (.nil _))
  intro _
  decide

/-- The page is loaded again, with the plugin that it created before. -/
theorem not_wellFormed : ¬∀ (pluginTypes : List PluginType) (plugins : List (PluginData Unit))
    (hardware : List HardwareData) (links : List LinkItem) (lastId : Nat) (later : Page Unit)
    (ops : List (Operation Unit)),
    (prepareData pluginTypes plugins hardware links lastId).WellFormed →
      Steps (Step fun _ => ()) (prepareData pluginTypes plugins hardware links lastId) ops later →
        later.WellFormed := by
  intro h
  have hrun : Steps (Step fun _ => ()) (onePlugin "new_plugin_1")
      [.createPlugin "logic" (.int 3) (.int 4)] _ := .cons ⟨trivial, rfl⟩ (.nil _)
  have hids := (h _ _ _ _ _ _ _ (onePlugin_wellFormed _) hrun).components
  revert hids
  decide

end Page

end MyLifeHome.Designer
