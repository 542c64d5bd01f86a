import MyLifeHome.Designer.Editing

/-!
# What an import of hardware keeps

`loadHardware` replaces one component after the other and examines the links of each again, on
a schema in which the others are still the old ones. Whether a link is left depends on it alone:
on the members that it is examined with, once for each end that is imported.
-/
namespace MyLifeHome.Designer

open Objects

/-! ## The members of a link -/

/-- The test of `loadHardware` on the members of a link. -/
def examine : Option NetMember → Option NetMember → Except JsError Bool
  | some source, some dest => checkLinkTypes source dest
  | _, _ => .ok false

/-- An attribute and an action whose types are compatible. -/
def Compatible (source dest : Option NetMember) : Prop :=
  ∃ s d, source = some s ∧ dest = some d ∧ s.isAttribute = true ∧ d.isAttribute = false ∧
    checkLinkTypes s d = .ok true

/-- The members pass the test, whatever they are. -/
def Accepted (source dest : Option NetMember) : Prop :=
  ∃ s d, source = some s ∧ dest = some d ∧ checkLinkTypes s d = .ok true

/-- No attribute takes the place of the action, and no action that of the attribute where the
action takes one argument. -/
def Calm (source dest : Option NetMember) : Prop :=
  ∀ s d, source = some s → dest = some d → d.isAttribute = false ∧
    (s.isAttribute = true ∨ ∀ type, d.membertype ≠ .action [type])

/-- No attribute takes the place of the action, and no action that of the attribute unless the
action takes several arguments. -/
def Sound (source dest : Option NetMember) : Prop :=
  ∀ s d, source = some s → dest = some d → d.isAttribute = false ∧
    (s.isAttribute = true ∨ ∃ type type' types, d.membertype = .action (type :: type' :: types))

variable {source dest : Option NetMember}

theorem accepted_iff : Accepted source dest ↔ examine source dest = .ok true := by
  cases source <;> cases dest <;> simp [Accepted, examine]

theorem calm_iff : Calm source dest ↔ ∃ fits, examine source dest = .ok fits := by
  cases source with
  | none => simp [Calm, examine]
  | some s =>
    cases dest with
    | none => simp [Calm, examine]
    | some d =>
      obtain ⟨b, type | args⟩ := d
      · simp [Calm, examine, checkLinkTypes, NetMember.isAttribute]
      · obtain ⟨a, stype | sargs⟩ := s <;> rcases args with _ | ⟨type, _ | ⟨other, rest⟩⟩
        all_goals simp [Calm, examine, checkLinkTypes, NetMember.isAttribute]

/-- The test is right exactly about sound members. -/
theorem sound_iff : Sound source dest ↔ (∃ fits, examine source dest = .ok fits) ∧
    (examine source dest = .ok true ↔ Compatible source dest) := by
  cases source with
  | none => simp [Sound, examine, Compatible]
  | some s =>
    cases dest with
    | none => simp [Sound, examine, Compatible]
    | some d =>
      obtain ⟨b, type | args⟩ := d
      · simp [Sound, examine, checkLinkTypes, NetMember.isAttribute]
      · obtain ⟨a, stype | sargs⟩ := s <;> rcases args with _ | ⟨type, _ | ⟨other, rest⟩⟩
        all_goals simp [Sound, examine, Compatible, checkLinkTypes, NetMember.isAttribute]

variable {δ : Type}

namespace Page

/-! ## The classes during the import -/

/-- The class of a component when these items have been loaded. -/
def classAfter (data : Page δ) (items : List HardwareData) (compId : String) : Option NetClass :=
  match items.find? fun item => item.id = compId with
  | some item => some item.clazz
  | none => (data.components.find? fun c => c.1 = compId).bind Prod.snd

def memberAfter (data : Page δ) (items : List HardwareData) (compId name : String) :
    Option NetMember :=
  (data.classAfter items compId).bind fun clazz => clazz.getMember name

def sourceAfter (data : Page δ) (items : List HardwareData) (link : LinkItem) : Option NetMember :=
  data.memberAfter items link.sourceComponent link.sourceAttribute

def destAfter (data : Page δ) (items : List HardwareData) (link : LinkItem) : Option NetMember :=
  data.memberAfter items link.destinationComponent link.destinationAction

/-- The item is at an end of the link. -/
def Touches (item : HardwareData) (link : LinkItem) : Prop :=
  link.sourceComponent = item.id ∨ link.destinationComponent = item.id

instance (item : HardwareData) (link : LinkItem) : Decidable (Touches item link) :=
  inferInstanceAs (Decidable (_ ∨ _))

/-- What loading an item after others does to a link. -/
def review (data : Page δ) (done : List HardwareData) (item : HardwareData) (link : LinkItem) :
    Except JsError Bool :=
  if Touches item link then
    examine (data.sourceAfter (done ++ [item]) link) (data.destAfter (done ++ [item]) link)
  else .ok true

/-- What loading the items after others does to a link: whether it is left. -/
def fate (data : Page δ) (done : List HardwareData) : List HardwareData → LinkItem →
    Except JsError Bool
  | [], _ => .ok true
  | item :: items, link => do
    if ← data.review done item link then data.fate (done ++ [item]) items link else pure false

variable {data p later : Page δ} {done items xs ys : List HardwareData} {item : HardwareData}
  {link : LinkItem} {links : List LinkItem} {compId name : String} {k : NetClass}
  {designer : Option Position}

theorem find?_components (hids : data.componentIds.Nodup) :
    (data.components.find? fun c => c.1 = compId).bind Prod.snd = some k ↔
      (compId, some k) ∈ data.components := by
  constructor
  · intro h
    obtain ⟨⟨id, clazz⟩, hc, rfl⟩ := Option.bind_eq_some_iff.mp h
    obtain rfl : id = compId := by simpa using List.find?_some hc
    exact List.mem_of_find?_eq_some hc
  · intro h
    cases hc : data.components.find? fun c => c.1 = compId with
    | none =>
      have hnot := List.find?_eq_none.mp hc _ h
      simp at hnot
    | some c =>
      have hid : c.1 = compId := by simpa using List.find?_some hc
      rw [List.inj_on_of_nodup_map hids (List.mem_of_find?_eq_some hc) h hid]
      rfl

/-- In a schema with distinct ids the look-up answers with the members that are there. -/
theorem getMember_eq (hids : data.componentIds.Nodup) (h : (compId, some k) ∈ data.components) :
    data.getMember compId name = .ok (k.getMember name) := by
  have hsame : ∀ c ∈ data.components, c.1 = compId → c.2 = some k := by
    intro c hc hid
    rw [List.inj_on_of_nodup_map hids hc h hid]
  unfold getMember
  split
  · rename_i x hx
    have hid : x.val.id = compId := by simpa using List.find?_some hx
    have hmem : (x.val.id, some x.val.clazz) ∈ data.components :=
      mem_components_iff.mpr (.inr ⟨x, List.mem_of_find?_eq_some hx, rfl, rfl⟩)
    rw [Option.some.inj (hsame _ hmem hid)]
  · rename_i hnone
    split
    · rename_i x hx
      have hid : x.val.id = compId := by simpa using List.find?_some hx
      have hmem : (x.val.id, x.val.clazz) ∈ data.components :=
        List.mem_append_left _ (List.mem_map.mpr ⟨x, List.mem_of_find?_eq_some hx, rfl⟩)
      have hclazz : x.val.clazz = some k := hsame _ hmem hid
      cases htype : x.val.internalType with
      | none => simp [Plugin.clazz, htype] at hclazz
      | some type =>
        obtain rfl : type.clazz = k := by simpa [Plugin.clazz, htype] using hclazz
        rfl
    · rename_i hplugin
      rcases mem_components_iff.mp h with ⟨x, hx, hid, -⟩ | ⟨x, hx, hid, -⟩
      · simpa [hid] using List.find?_eq_none.mp hplugin x hx
      · simpa [hid] using List.find?_eq_none.mp hnone x hx

/-- The components of both ends are there. -/
def HasEnds (data : Page δ) (link : LinkItem) : Prop :=
  (data.classAfter [] link.sourceComponent).isSome = true ∧
    (data.classAfter [] link.destinationComponent).isSome = true

theorem classAfter_nil_eq_some_iff (hids : data.componentIds.Nodup) :
    data.classAfter [] compId = some k ↔ (compId, some k) ∈ data.components :=
  find?_components hids

theorem classAfter_concat (hnew : ∀ i ∈ done, i.id ≠ item.id) :
    data.classAfter (done ++ [item]) compId =
      if item.id = compId then some item.clazz else data.classAfter done compId := by
  unfold classAfter
  rw [List.find?_append]
  by_cases h : item.id = compId
  · have hnone : done.find? (fun i => i.id = compId) = none := by
      refine List.find?_eq_none.mpr fun i hi => ?_
      simpa [← h] using hnew i hi
    simp [hnone, h]
  · simp [h]

/-- A component that is there gets another class at most. -/
theorem isSome_classAfter (done : List HardwareData)
    (h : (data.classAfter [] compId).isSome = true) :
    (data.classAfter done compId).isSome = true := by
  unfold classAfter
  cases done.find? fun item => item.id = compId with
  | none => exact h
  | some item => rfl

theorem WellFormed.hasEnds (hwf : data.WellFormed) {l : Obj LinkItem} (hl : l ∈ data.links) :
    data.HasEnds l.val := by
  obtain ⟨⟨_, ⟨k, hk, -⟩, -⟩, _, ⟨k', hk', -⟩, -⟩ := hwf.resolves l hl
  have hsource := (classAfter_nil_eq_some_iff hwf.components).mpr hk
  have hdest := (classAfter_nil_eq_some_iff hwf.components).mpr hk'
  exact ⟨by simp [hsource], by simp [hdest]⟩

/-! ## One link -/

/-- The page when some of the items have been loaded. -/
structure Loaded (data : Page δ) (done : List HardwareData) (p : Page δ) : Prop where
  ids : p.componentIds.Nodup
  plugins : p.pluginIds = data.pluginIds
  separate : p.Separate
  classes : ∀ compId k, (compId, some k) ∈ p.components ↔ data.classAfter done compId = some k
  linkIds : p.linkIds.Nodup
  links : ∀ l ∈ p.links, l.val ∈ data.links.map Obj.val

theorem WellFormed.loaded (hwf : data.WellFormed) (hs : data.Separate) :
    data.Loaded [] data where
  ids := hwf.components
  plugins := rfl
  separate := hs
  classes _ _ := (classAfter_nil_eq_some_iff hwf.components).symm
  linkIds := hwf.links
  links _ := List.mem_map_of_mem

theorem Loaded.getMember (h : data.Loaded done p)
    (hc : (data.classAfter [] compId).isSome = true) :
    p.getMember compId name = .ok (data.memberAfter done compId name) := by
  obtain ⟨k, hk⟩ := Option.isSome_iff_exists.mp (isSome_classAfter done hc)
  rw [getMember_eq h.ids ((h.classes _ _).mpr hk), memberAfter, hk]
  rfl

theorem Loaded.recreateLink (h : data.Loaded done p) (he : data.HasEnds link) :
    p.recreateLink link = (examine (data.sourceAfter done link) (data.destAfter done link)).map
      fun fits => if fits then p.pushLink link else p := by
  simp only [Page.recreateLink, h.getMember he.1, h.getMember he.2, sourceAfter, destAfter]
  cases data.memberAfter done link.sourceComponent link.sourceAttribute with
  | none => rfl
  | some source =>
    cases data.memberAfter done link.destinationComponent link.destinationAction with
    | none => rfl
    | some dest =>
      simp only [examine, bind, Except.bind]
      cases Designer.checkLinkTypes source dest with
      | error e => rfl
      | ok fits => cases fits <;> rfl

theorem Loaded.pushLink (h : data.Loaded done p) (hid : link.id ∉ p.linkIds)
    (hlink : link ∈ data.links.map Obj.val) : data.Loaded done (p.pushLink link) where
  ids := h.ids
  plugins := h.plugins
  separate := h.separate.pushLink
  classes := h.classes
  linkIds := by
    rw [linkIds_pushLink, ← List.concat_eq_append, List.nodup_concat]
    exact ⟨hid, h.linkIds⟩
  links l hl := by
    rcases List.mem_append.mp hl with hl | hl
    · exact h.links l hl
    · rwa [List.mem_singleton.mp hl]

/-! ## One component -/

/-- Whether the link is recreated when these items have been loaded. -/
def examineAfter (data : Page δ) (done : List HardwareData) (link : LinkItem) :
    Except JsError Bool :=
  examine (data.sourceAfter done link) (data.destAfter done link)

/-- Links that are all examined without an exception: those that fit are added. -/
theorem Loaded.recreateLinks_of_ok (h : data.Loaded done p)
    (hlinks : ∀ l ∈ links, l ∈ data.links.map Obj.val ∧ data.HasEnds l)
    (hids : (links.map LinkItem.id ++ p.linkIds).Nodup)
    (hok : ∀ l ∈ links, ∃ fits, data.examineAfter done l = .ok fits) :
    ∃ later, p.recreateLinks links = (later, .ok ()) ∧ data.Loaded done later ∧
      ∀ l, l ∈ later.links.map Obj.val ↔
        l ∈ p.links.map Obj.val ∨ l ∈ links ∧ data.examineAfter done l = .ok true := by
  induction links generalizing p with
  | nil => exact ⟨p, rfl, h, by simp⟩
  | cons link links ih =>
    obtain ⟨⟨hlink, hends⟩, hlinks⟩ := List.forall_mem_cons.mp hlinks
    obtain ⟨⟨fits, hfits⟩, hok⟩ := List.forall_mem_cons.mp hok
    rw [List.map_cons, List.cons_append, List.nodup_cons, List.mem_append, not_or] at hids
    obtain ⟨⟨hfirst, hnew⟩, hids⟩ := hids
    have hstep := h.recreateLink hends
    rw [← examineAfter, hfits] at hstep
    simp only [Page.recreateLinks, hstep, Except.map]
    cases fits with
    | false =>
      obtain ⟨later, hrun, hloaded, hmem⟩ := ih h hlinks hids hok
      refine ⟨later, hrun, hloaded, fun l => (hmem l).trans ?_⟩
      simp only [List.mem_cons]
      grind
    | true =>
      have hids := nodup_linkIds_pushLink hids hfirst hnew
      obtain ⟨later, hrun, hloaded, hmem⟩ := ih (h.pushLink hnew hlink) hlinks hids hok
      refine ⟨later, hrun, hloaded, fun l => (hmem l).trans ?_⟩
      simp only [Page.pushLink, List.map_append, List.map_cons, List.map_nil, List.mem_append,
        List.mem_cons]
      grind

/-- A link that is examined with an exception ends it all. -/
theorem Loaded.recreateLinks_of_error (h : data.Loaded done p)
    (hlinks : ∀ l ∈ links, l ∈ data.links.map Obj.val ∧ data.HasEnds l)
    (hids : (links.map LinkItem.id ++ p.linkIds).Nodup) (hlink : link ∈ links) {e : JsError}
    (he : data.examineAfter done link = .error e) :
    ∃ later e, p.recreateLinks links = (later, .error e) := by
  induction links generalizing p with
  | nil => simp at hlink
  | cons first links ih =>
    obtain ⟨⟨hfirst, hends⟩, hlinks⟩ := List.forall_mem_cons.mp hlinks
    rw [List.map_cons, List.cons_append, List.nodup_cons, List.mem_append, not_or] at hids
    obtain ⟨⟨hdiff, hnew⟩, hids⟩ := hids
    have hstep := h.recreateLink hends
    rw [← examineAfter] at hstep
    cases hx : data.examineAfter done first with
    | error e' =>
      rw [hx] at hstep
      exact ⟨p, e', by simp only [Page.recreateLinks, hstep, Except.map]⟩
    | ok fits =>
      rw [hx] at hstep
      have hrest : link ∈ links := by
        rcases List.mem_cons.mp hlink with rfl | hlink
        · rw [hx] at he
          cases he
        · exact hlink
      simp only [Page.recreateLinks, hstep, Except.map]
      cases fits with
      | false => exact ih h hlinks hids hrest
      | true =>
        exact ih (h.pushLink hnew hfirst) hlinks (nodup_linkIds_pushLink hids hdiff hnew) hrest

/-- The item is put in the place of the component with its id, if there was one. -/
theorem Loaded.pushHardware (h : data.Loaded done p) (hnew : ∀ i ∈ done, i.id ≠ item.id)
    {left : Page δ} (hplugins : left.pluginIds = data.pluginIds) (hs : left.Separate)
    (hsub : left.components.Sublist p.components)
    (hmem : ∀ c, c ∈ left.components ↔ c ∈ p.components ∧ c.1 ≠ item.id)
    (hlinks : left.links.Sublist p.links) :
    data.Loaded (done ++ [item]) (left.pushHardware item designer) where
  ids := by
    rw [componentIds, components_pushHardware, List.map_append, List.map_singleton,
      ← List.concat_eq_append, List.nodup_concat]
    refine ⟨fun hid => ?_, (hsub.map _).nodup h.ids⟩
    obtain ⟨c, hc, hid⟩ := List.mem_map.mp hid
    exact ((hmem c).mp hc).2 hid
  plugins := hplugins
  separate := hs.pushHardware
  classes compId k := by
    rw [components_pushHardware, List.mem_append, hmem, classAfter_concat hnew, h.classes,
      List.mem_singleton, Prod.mk.injEq, Option.some.injEq]
    by_cases hid : item.id = compId
    · simp [hid, eq_comm]
    · simp [hid, Ne.symm hid]
  linkIds := (hlinks.map _).nodup h.linkIds
  links l hl := h.links l (hlinks.subset hl)

/-- Every link that is there is tested alone: those that pass are left, and a test with an
exception ends it all. -/
structure Sifts (data : Page δ) (done : List HardwareData) (test : LinkItem → Except JsError Bool)
    (p : Page δ) (result : Page δ × Except JsError Unit) : Prop where
  ok : (∀ l ∈ p.links, ∃ fits, test l.val = .ok fits) →
    ∃ later, result = (later, .ok ()) ∧ data.Loaded done later ∧
      ∀ l, l ∈ later.links.map Obj.val ↔ l ∈ p.links.map Obj.val ∧ test l = .ok true
  error : (∃ l ∈ p.links, ∃ e, test l.val = .error e) → ∃ later e, result = (later, .error e)

theorem Loaded.hasEnds (hwf : data.WellFormed) (h : data.Loaded done p) {l : LinkItem}
    (hl : l ∈ p.links.map Obj.val) : l ∈ data.links.map Obj.val ∧ data.HasEnds l := by
  obtain ⟨y, hy, rfl⟩ := List.mem_map.mp hl
  obtain ⟨l', hl', hval⟩ := List.mem_map.mp (h.links y hy)
  refine ⟨h.links y hy, ?_⟩
  rw [← hval]
  exact hwf.hasEnds hl'

/-- No link has an end at a component that was not there. -/
theorem Loaded.review_new (hwf : data.WellFormed) (h : data.Loaded done p)
    (hid : item.id ∉ p.componentIds) {l : LinkItem} (hl : l ∈ p.links.map Obj.val) :
    data.review done item l = .ok true := by
  have hends : ∀ compId, (data.classAfter [] compId).isSome = true → compId ≠ item.id := by
    rintro _ hc rfl
    obtain ⟨k, hk⟩ := Option.isSome_iff_exists.mp (isSome_classAfter done hc)
    exact hid (List.mem_map.mpr ⟨_, (h.classes _ _).mpr hk, rfl⟩)
  obtain ⟨hsource, hdest⟩ := (h.hasEnds hwf hl).2
  refine if_neg ?_
  rintro (htouch | htouch)
  · exact hends _ hsource htouch
  · exact hends _ hdest htouch

theorem Loaded.sifts_new (hwf : data.WellFormed) (h : data.Loaded done p)
    (hnew : ∀ i ∈ done, i.id ≠ item.id) (hid : item.id ∉ p.componentIds) :
    data.Sifts (done ++ [item]) (data.review done item) p (p.pushHardware item designer, .ok ()) where
  ok _ := by
    refine ⟨_, rfl, h.pushHardware hnew h.plugins h.separate (.refl _) ?_ (.refl _), ?_⟩
    · intro c
      refine (and_iff_left_of_imp fun hc hcid => hid ?_).symm
      exact List.mem_map.mpr ⟨c, hc, hcid⟩
    · exact fun l => (and_iff_left_of_imp fun hl => h.review_new hwf hid hl).symm
  error := by
    rintro ⟨l, hl, e, he⟩
    rw [h.review_new hwf hid (List.mem_map_of_mem hl)] at he
    cases he

theorem mem_components_deleteComponent_iff (hids : p.componentIds.Nodup) (hs : p.Separate)
    {x : Obj Hardware} (hx : x ∈ p.hardware) (hnot : x.val.id ∉ p.pluginIds)
    {c : String × Option NetClass} : c ∈ (p.deleteComponent (.hardware x)).components ↔
      c ∈ p.components ∧ c.1 ≠ x.val.id := by
  have hi : p.Identifies (.hardware x) := fun y hy href => hs.hardware.eq_of_ref hy hx href
  have hfree := notMem_ids_deleteComponent hids hs hx hnot
  constructor
  · intro hc
    refine ⟨components_deleteComponent_sublist.subset hc, fun hcid => hfree ?_⟩
    exact List.mem_map.mpr ⟨c, hc, hcid⟩
  · rintro ⟨hc, hne⟩
    exact mem_components_deleteComponent hi hc hne

/-- The links that are taken out, and those that stay. -/
theorem mem_links_split (hs : p.Separate) {x : Obj Hardware} (hxid : x.val.id = item.id)
    (l : LinkItem) :
    (l ∈ (p.findLinksFromComponent x.val.id).map Obj.val ↔
      l ∈ p.links.map Obj.val ∧ Touches item l) ∧
    (l ∈ (p.deleteComponent (.hardware x)).links.map Obj.val ↔
      l ∈ p.links.map Obj.val ∧ ¬Touches item l) := by
  have hleft : ∀ y, y ∈ (p.deleteComponent (.hardware x)).links ↔
      y ∈ p.links ∧ ¬Touches item y.val := by
    intro y
    constructor
    · intro hy
      obtain ⟨hy, hsource, hdest⟩ := hs.links_of_deleteComponent hy
      rw [Component.id, hxid] at hsource hdest
      exact ⟨hy, by simp [Touches, hsource, hdest]⟩
    · rintro ⟨hy, hnot⟩
      exact mem_links_deleteComponent hs hy (by rwa [Component.id, hxid])
  simp only [findLinksFromComponent, hxid, List.mem_map, List.mem_filter, hleft, Touches,
    decide_eq_true_eq]
  grind

theorem Loaded.sifts_replaced (hwf : data.WellFormed) (h : data.Loaded done p)
    (hnew : ∀ i ∈ done, i.id ≠ item.id) (hplugin : item.id ∉ p.pluginIds) {x : Obj Hardware}
    (hx : x ∈ p.hardware) (hxid : x.val.id = item.id) :
    data.Sifts (done ++ [item]) (data.review done item) p
      (((p.deleteComponent (.hardware x)).pushHardware item designer).recreateLinks
        ((p.findLinksFromComponent x.val.id).map Obj.val)) := by
  let left := p.deleteComponent (.hardware x)
  let found := (p.findLinksFromComponent x.val.id).map Obj.val
  have hpushed : data.Loaded (done ++ [item]) (left.pushHardware item designer) := by
    refine h.pushHardware hnew h.plugins h.separate.deleteComponent
      components_deleteComponent_sublist ?_ (deleteComponent_sublist _ _).2.2.1
    rw [← hxid] at hplugin ⊢
    exact fun c => mem_components_deleteComponent_iff h.ids h.separate hx hplugin
  have hsplit := mem_links_split h.separate hxid
  have hsound : ∀ l ∈ found, l ∈ data.links.map Obj.val ∧ data.HasEnds l :=
    fun l hl => h.hasEnds hwf ((hsplit l).1.mp hl).1
  have hids : (found.map LinkItem.id ++ left.linkIds).Nodup :=
    nodup_linkIds_deleteComponent h.linkIds h.separate (.hardware x)
  have hreview : ∀ l ∈ found, data.review done item l = data.examineAfter (done ++ [item]) l :=
    fun l hl => if_pos ((hsplit l).1.mp hl).2
  constructor
  · intro hok
    have hfound : ∀ l ∈ found, ∃ fits, data.examineAfter (done ++ [item]) l = .ok fits := by
      intro l hl
      rw [← hreview l hl]
      obtain ⟨l', hl', rfl⟩ := List.mem_map.mp ((hsplit l).1.mp hl).1
      exact hok l' hl'
    obtain ⟨later, hrun, hloaded, hlater⟩ := hpushed.recreateLinks_of_ok hsound hids hfound
    refine ⟨later, hrun, hloaded, fun l => (hlater l).trans ?_⟩
    have hkept : l ∈ (left.pushHardware item designer).links.map Obj.val ↔ _ := (hsplit l).2
    rw [hkept, (hsplit l).1]
    by_cases htouch : Touches item l
    · simp [htouch, review, examineAfter]
    · simp [htouch, review]
  · rintro ⟨l, hl, e, he⟩
    have htouch : Touches item l.val := by
      by_contra hnot
      rw [review, if_neg hnot] at he
      cases he
    have hlfound : l.val ∈ found := (hsplit _).1.mpr ⟨List.mem_map_of_mem hl, htouch⟩
    rw [hreview _ hlfound] at he
    exact hpushed.recreateLinks_of_error hsound hids hlfound he

/-- What loading an item does to every link that is there. -/
theorem Loaded.loadItem (hwf : data.WellFormed) (h : data.Loaded done p)
    (hnew : ∀ i ∈ done, i.id ≠ item.id) (hplugin : item.id ∉ data.pluginIds) :
    data.Sifts (done ++ [item]) (data.review done item) p (p.loadItem item) := by
  rw [← h.plugins] at hplugin
  unfold Page.loadItem
  cases hfind : p.hardware.find? fun x => x.val.id = item.id with
  | none =>
    refine h.sifts_new hwf hnew fun hmem => ?_
    rcases mem_componentIds_iff.mp hmem with hmem | ⟨x, hx, hxid⟩
    · exact hplugin hmem
    · simpa [hxid] using List.find?_eq_none.mp hfind x hx
  | some x =>
    exact h.sifts_replaced hwf hnew hplugin (List.mem_of_find?_eq_some hfind)
      (by simpa using List.find?_some hfind)

/-- What loading all items does to every link that is there. -/
theorem Loaded.loadHardware (hwf : data.WellFormed) (h : data.Loaded done p)
    (hids : ((done ++ items).map HardwareData.id).Nodup)
    (hplugins : ∀ item ∈ items, item.id ∉ data.pluginIds) :
    data.Sifts (done ++ items) (data.fate done items) p (p.loadHardware items) := by
  induction items generalizing p done with
  | nil =>
    refine ⟨fun _ => ⟨p, rfl, by simpa using h, by simp [fate]⟩, ?_⟩
    rintro ⟨l, -, e, he⟩
    cases he
  | cons item items ih =>
    obtain ⟨hplugin, hplugins⟩ := List.forall_mem_cons.mp hplugins
    have hnew : ∀ i ∈ done, i.id ≠ item.id := by
      intro i hi hid
      rw [List.map_append, List.map_cons] at hids
      exact List.nodup_append.mp hids |>.2.2 _ (List.mem_map_of_mem hi) _ List.mem_cons_self hid
    have hitem := h.loadItem hwf hnew hplugin
    rw [List.append_cons] at hids ⊢
    constructor
    · intro hok
      have hreview : ∀ l ∈ p.links, ∃ fits, data.review done item l.val = .ok fits := by
        intro l hl
        obtain ⟨fits, hfits⟩ := hok l hl
        obtain ⟨passed, hpassed, -⟩ := Checked.bind_eq_ok_iff.mp hfits
        exact ⟨passed, hpassed⟩
      obtain ⟨q, hq, hloaded, hlinks⟩ := hitem.ok hreview
      have hrest : ∀ l ∈ q.links, ∃ fits, data.fate (done ++ [item]) items l.val = .ok fits := by
        intro l hl
        obtain ⟨hl, hpassed⟩ := (hlinks l.val).mp (List.mem_map_of_mem hl)
        obtain ⟨l', hl', hval⟩ := List.mem_map.mp hl
        obtain ⟨fits, hfits⟩ := hok l' hl'
        rw [hval, fate, hpassed] at hfits
        exact ⟨fits, hfits⟩
      obtain ⟨later, hrun, hlater, hmem⟩ := (ih hloaded hids hplugins).ok hrest
      refine ⟨later, ?_, hlater, fun l => (hmem l).trans ?_⟩
      · rw [Page.loadHardware, hq]
        exact hrun
      · rw [hlinks, fate, Checked.bind_eq_ok_iff, and_assoc]
        refine and_congr_right fun _ => ?_
        constructor
        · rintro ⟨hpassed, hfate⟩
          exact ⟨true, hpassed, hfate⟩
        · rintro ⟨passed, hpassed, hfate⟩
          cases passed with
          | false => cases hfate
          | true => exact ⟨hpassed, hfate⟩
    · rintro ⟨l, hl, e, he⟩
      by_cases hreview : ∀ l ∈ p.links, ∃ fits, data.review done item l.val = .ok fits
      · obtain ⟨q, hq, hloaded, hlinks⟩ := hitem.ok hreview
        obtain ⟨passed, hpassed⟩ := hreview l hl
        rw [fate, hpassed] at he
        cases passed with
        | false => cases he
        | true =>
          obtain ⟨l', hl', hval⟩ :=
            List.mem_map.mp ((hlinks l.val).mpr ⟨List.mem_map_of_mem hl, hpassed⟩)
          rw [Page.loadHardware, hq]
          refine (ih hloaded hids hplugins).error ⟨l', hl', e, ?_⟩
          rw [hval]
          exact he
      · push Not at hreview
        obtain ⟨l', hl', hno⟩ := hreview
        cases hx : data.review done item l'.val with
        | ok fits => exact absurd hx (hno fits)
        | error e' =>
          obtain ⟨later, e'', hrun⟩ := hitem.error ⟨l', hl', e', hx⟩
          exact ⟨later, e'', by rw [Page.loadHardware, hrun]⟩

/-! ## The fate of a link -/

/-- The items up to the first one that is at an end of the link. -/
def upToFirst (items : List HardwareData) (link : LinkItem) : List HardwareData :=
  items.takeWhile (fun item => ¬Touches item link) ++
    (items.dropWhile fun item => ¬Touches item link).take 1

theorem classAfter_append (h : ∀ item ∈ ys, item.id ≠ compId) :
    data.classAfter (xs ++ ys) compId = data.classAfter xs compId := by
  have hnone : ys.find? (fun item => item.id = compId) = none :=
    List.find?_eq_none.mpr fun item hitem => by simpa using h item hitem
  simp [classAfter, List.find?_append, hnone]

/-- Items elsewhere do not change the members of the link. -/
theorem members_append (data : Page δ) (xs : List HardwareData)
    (h : ∀ item ∈ ys, ¬Touches item link) :
    data.sourceAfter (xs ++ ys) link = data.sourceAfter xs link ∧
      data.destAfter (xs ++ ys) link = data.destAfter xs link := by
  unfold sourceAfter destAfter memberAfter
  rw [classAfter_append fun item hitem hid => h item hitem (.inl hid.symm),
    classAfter_append fun item hitem hid => h item hitem (.inr hid.symm)]
  exact ⟨rfl, rfl⟩

theorem fate_append (h : ∀ item ∈ xs, ¬Touches item link) :
    data.fate done (xs ++ ys) link = data.fate (done ++ xs) ys link := by
  induction xs generalizing done with
  | nil => simp
  | cons item xs ih =>
    obtain ⟨hitem, hxs⟩ := List.forall_mem_cons.mp h
    have hreview : data.review done item link = .ok true := if_neg hitem
    rw [List.cons_append, List.append_cons done item xs, ← ih hxs, fate, hreview]
    rfl

theorem fate_of_untouched (h : ∀ item ∈ items, ¬Touches item link) :
    data.fate done items link = .ok true := by
  rw [← List.append_nil items, fate_append h]
  rfl

/-- Once one end has been loaded, the link is examined at most once more. -/
theorem fate_of_touched (hids : ((done ++ items).map HardwareData.id).Nodup)
    (hdone : ∃ i ∈ done, Touches i link) (hfits : data.examineAfter done link = .ok true) :
    data.fate done items link = data.examineAfter (done ++ items) link := by
  by_cases htouch : ∃ item ∈ items, Touches item link
  · obtain ⟨item, hitem, htouch⟩ := htouch
    obtain ⟨xs, ys, rfl⟩ := List.append_of_mem hitem
    obtain ⟨i, hi, hitouch⟩ := hdone
    -- the two items are at different ends
    have honly : ∀ other ∈ xs ++ ys, ¬Touches other link := by
      intro other hother
      unfold Touches at htouch hitouch ⊢
      simp only [List.map_append, List.map_cons, List.nodup_append, List.nodup_cons,
        List.mem_append, List.mem_cons, List.mem_map] at hids hother
      grind
    have hxs : ∀ other ∈ xs, ¬Touches other link :=
      fun other h => honly other (List.mem_append_left _ h)
    have hys : ∀ other ∈ ys, ¬Touches other link :=
      fun other h => honly other (List.mem_append_right _ h)
    have hlast := members_append data (done ++ xs ++ [item]) hys
    have hall : data.examineAfter (done ++ (xs ++ item :: ys)) link =
        data.examineAfter (done ++ xs ++ [item]) link := by
      rw [examineAfter, examineAfter, ← hlast.1, ← hlast.2]
      simp
    have hreview : data.review (done ++ xs) item link =
        data.examineAfter (done ++ xs ++ [item]) link := if_pos htouch
    rw [fate_append hxs, fate, hreview, hall]
    cases data.examineAfter (done ++ xs ++ [item]) link with
    | error e => rfl
    | ok fits =>
      cases fits with
      | false => rfl
      | true => exact fate_of_untouched hys
  · push Not at htouch
    have hsame := members_append data done htouch
    rw [fate_of_untouched htouch, examineAfter, hsame.1, hsame.2]
    exact hfits.symm

/-- A link with an end that is imported is examined with the first end that is loaded, and, if it
is kept, at the end. -/
theorem fate_eq (hids : (items.map HardwareData.id).Nodup)
    (h : ∃ item ∈ items, Touches item link) : data.fate [] items link = (do
      if ← data.examineAfter (upToFirst items link) link then data.examineAfter items link
      else pure false) := by
  have hitems := List.takeWhile_append_dropWhile (p := fun item => ¬Touches item link) (l := items)
  have hpre : ∀ item ∈ items.takeWhile (fun item => ¬Touches item link), ¬Touches item link :=
    fun item hitem => by simpa using List.mem_takeWhile_imp hitem
  unfold upToFirst
  cases hrest : items.dropWhile fun item => ¬Touches item link with
  | nil =>
    obtain ⟨item, hitem, htouch⟩ := h
    rw [hrest, List.append_nil] at hitems
    rw [← hitems] at hitem
    exact absurd htouch (hpre item hitem)
  | cons first rest =>
    have htouch : Touches first link := by
      have hhead := List.head?_dropWhile_not (fun item => ¬Touches item link) items
      rw [hrest] at hhead
      simpa using hhead
    rw [hrest] at hitems
    generalize items.takeWhile (fun item => ¬Touches item link) = pre at hitems hpre
    subst hitems
    have hreview : data.review pre first link = data.examineAfter (pre ++ [first]) link :=
      if_pos htouch
    rw [fate_append hpre, List.nil_append, fate, hreview]
    simp only [List.take_succ_cons, List.take_zero]
    cases hfits : data.examineAfter (pre ++ [first]) link with
    | error e => rfl
    | ok fits =>
      cases fits with
      | false => rfl
      | true =>
        rw [List.append_cons pre first rest] at hids ⊢
        exact fate_of_touched hids ⟨first, by simp, htouch⟩ hfits

/-! ## The links that are left -/

/-- The link runs from an attribute to an action of a compatible type. -/
def Valid (data : Page δ) (link : LinkItem) : Prop :=
  ∃ s d, data.Has link.sourceComponent link.sourceAttribute s ∧
    data.Has link.destinationComponent link.destinationAction d ∧ s.isAttribute = true ∧
      d.isAttribute = false ∧ Designer.checkLinkTypes s d = .ok true

/-- The import succeeds, and the links are the former ones that are valid in the final schema. -/
def Exact (data : Page δ) (items : List HardwareData) : Prop :=
  ∃ later, data.loadHardware items = (later, .ok ()) ∧ later.linkIds.Nodup ∧
    ∀ l, l ∈ later.links.map Obj.val ↔ l ∈ data.links.map Obj.val ∧ later.Valid l

/-- A link elsewhere was compatible before. For the others: when the first of the ends has been
loaded there is no exception, the members pass the test if they are compatible in the end, and if
they pass, they are sound in the end. -/
def Safe (data : Page δ) (items : List HardwareData) (link : LinkItem) : Prop :=
  if ∃ item ∈ items, Touches item link then
    Calm (data.sourceAfter (upToFirst items link) link)
      (data.destAfter (upToFirst items link) link) ∧
    (Compatible (data.sourceAfter items link) (data.destAfter items link) →
      Accepted (data.sourceAfter (upToFirst items link) link)
        (data.destAfter (upToFirst items link) link)) ∧
    (Accepted (data.sourceAfter (upToFirst items link) link)
        (data.destAfter (upToFirst items link) link) →
      Sound (data.sourceAfter items link) (data.destAfter items link))
  else Compatible (data.sourceAfter [] link) (data.destAfter [] link)

theorem Loaded.has_iff (h : data.Loaded done p) {m : NetMember} :
    p.Has compId name m ↔ data.memberAfter done compId name = some m := by
  rw [memberAfter, Option.bind_eq_some_iff]
  exact exists_congr fun k => and_congr_left fun _ => h.classes compId k

theorem Loaded.valid_iff (h : data.Loaded done p) :
    p.Valid link ↔ Compatible (data.sourceAfter done link) (data.destAfter done link) := by
  unfold Valid Compatible sourceAfter destAfter
  simp only [h.has_iff]

/-- A link is safe when its fate is known and right. -/
theorem safe_iff (hids : (items.map HardwareData.id).Nodup) : data.Safe items link ↔
    (∃ left, data.fate [] items link = .ok left) ∧ (data.fate [] items link = .ok true ↔
      Compatible (data.sourceAfter items link) (data.destAfter items link)) := by
  by_cases h : ∃ item ∈ items, Touches item link
  · rw [Safe, if_pos h, fate_eq hids h, calm_iff, accepted_iff, sound_iff]
    simp only [examineAfter]
    cases examine (data.sourceAfter (upToFirst items link) link)
      (data.destAfter (upToFirst items link) link) with
    | error e => simp [bind, Except.bind]
    | ok fits =>
      cases fits with
      | false => simp [bind, Except.bind, pure, Except.pure]
      | true => simp [bind, Except.bind]
  · rw [Safe, if_neg h]
    push Not at h
    have hsame := members_append data [] h
    rw [List.nil_append] at hsame
    rw [fate_of_untouched h, hsame.1, hsame.2]
    simp

/-- The import keeps exactly the valid links when every link is safe. -/
theorem import_exact_iff (hwf : data.WellFormed) (hs : data.Separate)
    (hids : (items.map HardwareData.id).Nodup)
    (hplugins : ∀ item ∈ items, item.id ∉ data.pluginIds) :
    data.Exact items ↔ ∀ l ∈ data.links, data.Safe items l.val := by
  have hsifts : data.Sifts ([] ++ items) (data.fate [] items) data (data.loadHardware items) :=
    (hwf.loaded hs).loadHardware hwf hids hplugins
  rw [List.nil_append] at hsifts
  simp only [safe_iff hids]
  constructor
  · rintro ⟨later, hrun, -, hmem⟩
    have hok : ∀ l ∈ data.links, ∃ left, data.fate [] items l.val = .ok left := by
      intro l hl
      cases hfate : data.fate [] items l.val with
      | ok left => exact ⟨left, rfl⟩
      | error e =>
        obtain ⟨q, e', herror⟩ := hsifts.error ⟨l, hl, e, hfate⟩
        rw [hrun] at herror
        cases herror
    obtain ⟨q, hq, hloaded, hlinks⟩ := hsifts.ok hok
    obtain rfl : later = q := by
      rw [hrun] at hq
      exact (Prod.mk.inj hq).1
    intro l hl
    have hleft := (hlinks l.val).symm.trans (hmem l.val)
    refine ⟨hok l hl, ?_⟩
    rw [← hloaded.valid_iff]
    exact and_congr_right_iff.mp hleft (List.mem_map_of_mem hl)
  · intro h
    obtain ⟨later, hrun, hloaded, hlinks⟩ := hsifts.ok fun l hl => (h l hl).1
    refine ⟨later, hrun, hloaded.linkIds, fun l => (hlinks l).trans ?_⟩
    refine and_congr_right fun hl => ?_
    obtain ⟨l', hl', rfl⟩ := List.mem_map.mp hl
    rw [hloaded.valid_iff]
    exact (h l' hl').2

/-! ## A sensor and a lamp -/

def sensor (type : NetType) : HardwareData := ⟨"sensor", netClass [netAttribute "value" type], none⟩

def lamp (type : NetType) : HardwareData := ⟨"lamp", netClass [netAction "set" [type]], none⟩

/-- A lamp that tells its state under the name of the action. -/
def newLamp (type : NetType) : HardwareData := ⟨"lamp", netClass [netAttribute "set" type], none⟩

def wire : LinkItem := ⟨⟨"sensor", "value", "lamp", "set"⟩, "wire"⟩

/-- The wire from the sensor to the lamp. -/
def room (type : NetType) : Page Unit := prepareData [] [] [sensor type, lamp type] [wire] 0

theorem room_wellFormed (type : NetType) : (room type).WellFormed where
  components := by simp [componentIds_eq, room, prepareData, alloc, sensor, lamp]
  links := by simp [linkIds, room, prepareData, alloc]
  resolves l hl := by
    have hval : l.val = wire := by
      have hl : l ∈ [(⟨2, wire⟩ : Obj LinkItem)] := hl
      rw [List.mem_singleton.mp hl]
    rw [hval]
    refine ⟨⟨netAttribute "value" type, ⟨(sensor type).clazz, ?_, by simp [sensor, netClass,
      netAttribute, NetClass.getMember, wire]⟩, rfl⟩, netAction "set" [type], ⟨(lamp type).clazz, ?_,
      by simp [lamp, netClass, netAction, NetClass.getMember, wire]⟩, rfl⟩
    · simp [components, room, prepareData, alloc, sensor, lamp, wire]
    · simp [components, room, prepareData, alloc, sensor, lamp, wire]

/-- Loading the lamp again keeps the wire. -/
theorem import_exact_room : (room (netEnum ["off", "on"])).Exact [lamp (netEnum ["off", "on"])] := by
  refine (import_exact_iff (room_wellFormed _) separate_prepareData (by decide) ?_).mpr ?_
  · intro item _ hmem
    simp [pluginIds, room, prepareData, alloc] at hmem
  · intro l hl
    have hl : l ∈ [(⟨2, wire⟩ : Obj LinkItem)] := hl
    rw [List.mem_singleton.mp hl, safe_iff (by decide)]
    refine ⟨⟨true, rfl⟩, iff_of_true rfl ?_⟩
    exact ⟨_, _, rfl, rfl, rfl, rfl, rfl⟩

/-- The wire is lost when both ends come with a new type, and an action that has become an
attribute is an exception. -/
theorem not_import_exact :
    (∃ later, (room (netEnum ["off", "on"])).loadHardware
        [sensor (netRange 0 100), lamp (netRange 0 100)] = (later, .ok ()) ∧
      later.Valid wire ∧ later.links = []) ∧
    (∃ later, (room (netEnum ["off", "on"])).loadHardware [newLamp (netEnum ["off", "on"])] =
      (later, .error .typeError)) ∧
    ¬∀ (data : Page Unit) (items : List HardwareData), data.WellFormed → data.Separate →
      (items.map HardwareData.id).Nodup → (∀ item ∈ items, item.id ∉ data.pluginIds) →
        data.Exact items := by
  have hplugins : ∀ items : List HardwareData, ∀ item ∈ items,
      item.id ∉ (room (netEnum ["off", "on"])).pluginIds := by
    intro items item _ hmem
    simp [pluginIds, room, prepareData, alloc] at hmem
  refine ⟨⟨_, rfl, ?_, rfl⟩, ⟨_, rfl⟩, fun h => ?_⟩
  · refine ⟨netAttribute "value" (netRange 0 100), netAction "set" [netRange 0 100], ?_, ?_, rfl, rfl,
      rfl⟩
    · exact has_of_getMember rfl
    · exact has_of_getMember rfl
  · obtain ⟨later, hrun, -⟩ := h (room (netEnum ["off", "on"])) [newLamp (netEnum ["off", "on"])]
      (room_wellFormed _) separate_prepareData (by decide) (hplugins _)
    have herror := congrArg Prod.snd hrun
    cases herror

end Page

end MyLifeHome.Designer
