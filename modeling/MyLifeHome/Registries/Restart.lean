import MyLifeHome.Registries.Coherence

/-!
# A restart brings back what was running

`initialize` of `manager.js` makes the hardware, the plugins and the links that `data.json`
lists, in this order. What the file lists is what runs, after any sequence of operations, and it
is always such that `initialize` succeeds.
-/
namespace MyLifeHome.Manager

variable {δ : Type} {m m' : Manager δ} {k : Kind} {id : String} {x : Item δ} {op : Request δ}
  {ops : List (Request δ)} {d : Data δ}

/-- A process that has started, before `initialize`. -/
def fresh (d : Data δ) : Manager δ := ⟨.empty, .empty, .empty, d⟩

def createLink (m : Manager δ) (config : LinkItem) : Except JsError (Manager δ) := do
  let (p, _) ← Links.create m.process config.toLinkConfig
  pure { m with process := p }

/-- `initialize` of `manager.js`, in a fresh process that has loaded the file. -/
def initializeCore (d : Data δ) : Except JsError (Manager δ) := do
  let m ← d.hardware.values.foldlM createHardware (fresh d)
  let m ← d.plugins.values.foldlM createPlugin m
  d.links.values.foldlM createLink m

/-- What the file lists. A link is kept with the id it was posted with, which is not read. -/
def listed (d : Data δ) : Kind → String → Option (Item δ)
  | .plugins, id => (d.plugins.get id).map .plugin
  | .hardware, id => (d.hardware.get id).map .hardware
  | .links, id => (d.links.get id).map fun config => Item.stored (.link config)

def Listed (d : Data δ) (id : String) : Prop := (d.plugins.get id).isSome ∨ (d.hardware.get id).isSome

/-- Every entry stands under its own id, no component under a key that every object has, the plugins
are of known types, and the links join components that are listed. -/
structure Consistent (d : Data δ) : Prop where
  plugins : ∀ {id config}, d.plugins.get id = some config →
    config.id = id ∧ PlainKey id ∧ (PluginType.ofName config.type).isSome
  hardware : ∀ {id config}, d.hardware.get id = some config → config.id = id ∧ PlainKey id
  links : ∀ {id config}, d.links.get id = some config →
    Links.makeId config.toLinkConfig = id ∧ Listed d config.sourceComponent ∧
      Listed d config.destinationComponent

/-- The file lists what runs. -/
def Recorded (m : Manager δ) : Prop := ∀ k id, listed m.data k id = m.find k id

/-! ## The file follows the registries -/

/-- What an operation writes to the file. -/
def saved (d : Data δ) : Request δ → Data δ
  | .del (.plugins, id) => { d with plugins := d.plugins.erase id }
  | .del (.hardware, id) => { d with hardware := d.hardware.erase id }
  | .del (.links, id) => { d with links := d.links.erase id }
  | .post (.plugin config) => { d with plugins := d.plugins.set config.id config }
  | .post (.hardware config) => { d with hardware := d.hardware.set config.id config }
  | .post (.link config) =>
    { d with links := d.links.set (Links.makeId config.toLinkConfig) config }

theorem data_of_handle (h : m.handle op = .ok m') : m'.data = saved m.data op := by
  match op with
  | .del (.plugins, id) =>
    obtain ⟨-, -, h⟩ := Checked.bind_eq_ok_iff.mp h
    unfold destroyPlugin at h
    cases hg : m.pluginContainers.get id with
    | none =>
      rw [hg] at h
      contradiction
    | some c =>
      simp only [hg, Bool.not_true, Bool.false_eq_true, if_false] at h
      obtain rfl := Except.ok.inj h
      rfl
  | .del (.hardware, id) =>
    obtain ⟨-, -, h⟩ := Checked.bind_eq_ok_iff.mp h
    unfold destroyHardware at h
    cases hg : m.hardware.get id with
    | none =>
      rw [hg] at h
      contradiction
    | some item =>
      simp only [hg, Bool.not_true, Bool.false_eq_true, if_false] at h
      obtain rfl := Except.ok.inj h
      rfl
  | .del (.links, id) =>
    change m.removeLink id = .ok m' at h
    unfold removeLink Links.destroy at h
    cases hg : m.process.links.get id with
    | none =>
      rw [hg] at h
      contradiction
    | some link =>
      simp only [hg, Bool.not_true, Bool.false_eq_true, if_false] at h
      obtain rfl := Except.ok.inj h
      rfl
  | .post (.plugin config) =>
    obtain ⟨u, hu, h⟩ := Checked.bind_eq_ok_iff.mp h
    obtain ⟨-, _, _, _, -, rfl⟩ := createPlugin_eq_ok hu
    obtain rfl := Except.ok.inj h
    rfl
  | .post (.hardware config) =>
    obtain ⟨u, hu, h⟩ := Checked.bind_eq_ok_iff.mp h
    obtain ⟨-, _, _, -, rfl⟩ := createHardware_eq_ok hu
    obtain rfl := Except.ok.inj h
    rfl
  | .post (.link config) =>
    obtain ⟨⟨p, link⟩, hc, h⟩ := Checked.bind_eq_ok_iff.mp h
    obtain ⟨_, _, _, _, _, rfl, rfl⟩ := create_eq_ok hc
    obtain rfl := Except.ok.inj h
    rfl

theorem listed_saved : ∀ k id, listed (saved d op) k id =
    if k = op.stored.kind ∧ id = op.stored.id then op.stored.result else listed d k id := by
  intro k id
  match op with
  | .del (k', i) =>
    cases k <;> cases k' <;> by_cases hid : id = i <;>
      simp [listed, saved, Request.stored, Dictionary.get_erase, hid]
  | .post (.plugin config) =>
    cases k <;> by_cases hid : id = config.id <;>
      simp [listed, saved, Request.stored, Item.stored, Dictionary.get_set, hid]
  | .post (.hardware config) =>
    cases k <;> by_cases hid : id = config.id <;>
      simp [listed, saved, Request.stored, Item.stored, Dictionary.get_set, hid]
  | .post (.link config) =>
    cases k <;> by_cases hid : id = Links.makeId config.toLinkConfig <;>
      simp [listed, saved, Request.stored, Item.stored, Dictionary.get_set, hid]

theorem Recorded.handle (hr : m.Recorded) (h : m.handle op = .ok m') : m'.Recorded := by
  intro k id
  rw [data_of_handle h, listed_saved, (effect_of_handle h).after, hr]

/-! ## A start from the file -/

/-- What one round of `initialize` makes. -/
def createItem (m : Manager δ) : Item δ → Except JsError (Manager δ)
  | .plugin config => m.createPlugin config
  | .hardware config => m.createHardware config
  | .link config => m.createLink config

/-- What `initialize` makes, in order. -/
def items (d : Data δ) : List (Item δ) :=
  d.hardware.values.map .hardware ++ d.plugins.values.map .plugin ++ d.links.values.map .link

theorem initializeCore_eq : initializeCore d = (items d).foldlM createItem (fresh d) := by
  simp only [initializeCore, items, List.foldlM_append, List.foldlM_map, bind_assoc]
  rfl

theorem createLink_relinks {config : LinkItem} (h : m.createLink config = .ok m') :
    m.Relinks (.post (Item.stored (.link config))) m' := by
  obtain ⟨⟨p, link⟩, hc, h⟩ := Checked.bind_eq_ok_iff.mp h
  obtain rfl := Except.ok.inj h
  exact relinks_of_create hc

theorem createItem_effect (h : m.createItem x = .ok m') : m.Effect (.post x.stored) m' := by
  cases x with
  | plugin => exact (createPlugin_grows h).effect
  | hardware => exact (createHardware_grows h).effect
  | link => exact (createLink_relinks h).effect

theorem createItem_data (h : m.createItem x = .ok m') : m'.data = m.data := by
  cases x with
  | plugin =>
    obtain ⟨-, _, _, _, -, rfl⟩ := createPlugin_eq_ok h
    rfl
  | hardware =>
    obtain ⟨-, _, _, -, rfl⟩ := createHardware_eq_ok h
    rfl
  | link =>
    obtain ⟨⟨p, link⟩, hc, h⟩ := Checked.bind_eq_ok_iff.mp h
    obtain rfl := Except.ok.inj h
    rfl

theorem Owned.createItem (ho : m.Owned) (h : m.createItem x = .ok m') : m'.Owned := by
  cases x with
  | plugin => exact ho.grows (createPlugin_grows h)
  | hardware => exact ho.grows (createHardware_grows h)
  | link => exact ho.relinks (createLink_relinks h)

/-- The repository has the components of a core in which nothing has been removed. -/
def Published (m : Manager δ) : Prop :=
  ∀ id, (m.process.netRepository.get id).isSome ↔ m.Component id

theorem Published.grows (hp : m.Published) (h : m.Grows x m') (hx : x.kind ≠ .links) :
    m'.Published := by
  obtain ⟨c, hadd, -⟩ := h.behind
  intro id
  rw [hadd.netRepository, Dictionary.get_set, Component, h.effect.after, h.effect.after]
  by_cases hid : id = x.id
  · cases x with
    | plugin => simp [hid]
    | hardware => simp [hid]
    | link => contradiction
  · simpa [hid, Component] using hp id

theorem Published.createItem (hp : m.Published) (h : m.createItem x = .ok m') : m'.Published := by
  cases x with
  | plugin => exact hp.grows (createPlugin_grows h) (by simp)
  | hardware => exact hp.grows (createHardware_grows h) (by simp)
  | link =>
    have hr := createLink_relinks h
    intro id
    rw [hr.netRepository, component_relinks hr rfl]
    exact hp id

theorem exists_createLink {config : LinkItem} (hp : m.Published)
    (hnone : m.find .links (Links.makeId config.toLinkConfig) = none)
    (hsource : m.Component config.sourceComponent)
    (hdestination : m.Component config.destinationComponent) :
    ∃ m', m.createLink config = .ok m' := by
  obtain ⟨s, hs⟩ := Option.isSome_iff_exists.mp ((hp _).mpr hsource)
  obtain ⟨t, ht⟩ := Option.isSome_iff_exists.mp ((hp _).mpr hdestination)
  have hfree : m.process.links.get (Links.makeId config.toLinkConfig) = none := by
    simpa [find] using hnone
  simp [createLink, Links.create, Links.component, hfree, hs, ht, bind, Except.bind, pure,
    Except.pure]

/-! ## What the file lists -/

theorem Consistent.listed_of_mem (hd : Consistent d) (hx : x ∈ items d) :
    listed d x.stored.kind x.stored.id = some x.stored := by
  simp only [items, List.mem_append, List.mem_map, Dictionary.mem_values_iff] at hx
  rcases hx with (⟨c, ⟨id, hc⟩, rfl⟩ | ⟨c, ⟨id, hc⟩, rfl⟩) | ⟨l, ⟨id, hl⟩, rfl⟩
  · obtain ⟨rfl, -⟩ := hd.hardware hc
    simp [listed, Item.stored, hc]
  · obtain ⟨rfl, -⟩ := hd.plugins hc
    simp [listed, Item.stored, hc]
  · obtain ⟨rfl, -⟩ := hd.links hl
    simp [listed, Item.stored, hl]

theorem Consistent.mem_of_listed (hd : Consistent d) (hx : listed d k id = some x) :
    (∃ y ∈ items d, y.stored = x) ∧ x.kind = k ∧ x.id = id := by
  simp only [items, List.mem_append, List.mem_map, Dictionary.mem_values_iff]
  cases k with
  | plugins =>
    obtain ⟨c, hc, rfl⟩ := Option.map_eq_some_iff.mp hx
    exact ⟨⟨.plugin c, .inl (.inr ⟨c, ⟨id, hc⟩, rfl⟩), rfl⟩, rfl, (hd.plugins hc).1⟩
  | hardware =>
    obtain ⟨c, hc, rfl⟩ := Option.map_eq_some_iff.mp hx
    exact ⟨⟨.hardware c, .inl (.inl ⟨c, ⟨id, hc⟩, rfl⟩), rfl⟩, rfl, (hd.hardware hc).1⟩
  | links =>
    obtain ⟨l, hl, rfl⟩ := Option.map_eq_some_iff.mp hx
    exact ⟨⟨.link l, .inr ⟨l, ⟨id, hl⟩, rfl⟩, rfl⟩, rfl, (hd.links hl).1⟩

theorem nodup_map_values {α β : Type} {dict : Dictionary String α} {f : α → β}
    (idOf : β → String) (h : ∀ id a, dict.get id = some a → idOf (f a) = id) : (dict.values.map f).Nodup := by
  refine List.Nodup.of_map idOf ?_
  have hkeys : (dict.values.map f).map idOf = dict.keys := by
    rw [List.map_map, Dictionary.values, Dictionary.keys, List.map_map]
    exact List.map_congr_left fun e he => h e.1 e.2 (Dictionary.get_eq_some_iff.mpr he)
  rw [hkeys]
  exact Dictionary.nodup_keys _

theorem Consistent.nodup_items (hd : Consistent d) : ((items d).map Item.stored).Nodup := by
  simp only [items, List.map_append, List.map_map]
  refine List.nodup_append.mpr ⟨List.nodup_append.mpr ⟨?_, ?_, ?_⟩, ?_, ?_⟩
  · exact nodup_map_values Item.id fun id c hc => (hd.hardware hc).1
  · exact nodup_map_values Item.id fun id c hc => (hd.plugins hc).1
  · simp [Item.stored]
  · exact nodup_map_values Item.id fun id l hl => (hd.links hl).1
  · intro x hx y hy
    obtain ⟨l, -, rfl⟩ := List.mem_map.mp hy
    grind [Item.stored]

/-! ## The rounds -/

/-- The state of a start when the items of `rest` are still to be made. -/
structure Starting (d : Data δ) (rest : List (Item δ)) (m : Manager δ) : Prop where
  suffix : ∃ before, items d = before ++ rest
  data : m.data = d
  owned : m.Owned
  published : m.Published
  find_iff : ∀ k id x, m.find k id = some x ↔
    listed d k id = some x ∧ x ∉ rest.map Item.stored

theorem starting_fresh (hd : Consistent d) : Starting d (items d) (fresh d) := by
  have hfind : ∀ k id, (fresh d).find k id = none := by
    intro k id
    cases k <;> simp [find, fresh, Process.empty]
  refine ⟨⟨[], rfl⟩, rfl, fun k id c hc => ?_, fun id => ?_, fun k id x => ?_⟩
  · cases k <;> simp [container, fresh] at hc
  · rw [Component, hfind, hfind]
    simp [fresh, Process.empty]
  · rw [hfind]
    constructor
    · intro h
      contradiction
    · rintro ⟨hx, hmem⟩
      obtain ⟨⟨y, hy, rfl⟩, -⟩ := hd.mem_of_listed hx
      exact absurd (List.mem_map_of_mem hy) hmem

theorem Starting.mem {rest : List (Item δ)} (h : Starting d (x :: rest) m) : x ∈ items d := by
  obtain ⟨before, hb⟩ := h.suffix
  rw [hb]
  simp

theorem Starting.free {rest : List (Item δ)} (h : Starting d (x :: rest) m) (hd : Consistent d) :
    m.find x.stored.kind x.stored.id = none := by
  by_contra hsome
  obtain ⟨y, hy⟩ := Option.ne_none_iff_exists'.mp hsome
  obtain ⟨hlisted, hrest⟩ := (h.find_iff _ _ _).mp hy
  rw [hd.listed_of_mem h.mem] at hlisted
  obtain rfl := Option.some.inj hlisted
  simp at hrest

/-- When a link is to be made, the components of the file have been made. -/
theorem Starting.component {rest : List (Item δ)} {l : LinkItem}
    (h : Starting d (.link l :: rest) m) (hid : Listed d id) : m.Component id := by
  obtain ⟨before, hb⟩ := h.suffix
  have hlinks : ∀ x ∈ Item.link l :: rest, x.kind = .links := by
    have hordered : (items d).Pairwise fun x y => x.kind = .links → y.kind = .links := by
      simp only [items, List.pairwise_append, List.pairwise_map]
      refine ⟨⟨?_, ?_, ?_⟩, ?_, ?_⟩
      · exact List.pairwise_of_forall fun _ _ => by simp
      · exact List.pairwise_of_forall fun _ _ => by simp
      · simp
      · exact List.pairwise_of_forall fun _ _ => by simp
      · simp
    rw [hb] at hordered
    intro x hx
    rcases List.mem_cons.mp hx with rfl | hx
    · rfl
    · exact (List.pairwise_cons.mp (List.pairwise_append.mp hordered).2.1).1 x hx rfl
  have hfind : ∀ k, k ≠ .links → ∀ x, x.kind = k → listed d k id = some x → (m.find k id).isSome := by
    intro k hk x hx hlisted
    rw [(h.find_iff k id x).mpr ⟨hlisted, fun hmem => ?_⟩]
    · rfl
    · obtain ⟨y, hy, rfl⟩ := List.mem_map.mp hmem
      have hy := hlinks y hy
      cases y with
      | link l' => exact hk hx.symm
      | plugin => contradiction
      | hardware => contradiction
  rcases hid with hp | hh
  · obtain ⟨c, hc⟩ := Option.isSome_iff_exists.mp hp
    exact .inl (hfind .plugins (by decide) (.plugin c) rfl (by simp [listed, hc]))
  · obtain ⟨c, hc⟩ := Option.isSome_iff_exists.mp hh
    exact .inr (hfind .hardware (by decide) (.hardware c) rfl (by simp [listed, hc]))

theorem Starting.exists_createItem {rest : List (Item δ)} (h : Starting d (x :: rest) m)
    (hd : Consistent d) : ∃ m', m.createItem x = .ok m' := by
  have hfree := h.free hd
  have hlisted := hd.listed_of_mem h.mem
  cases x with
  | plugin c =>
    have hc : d.plugins.get c.id = some c := by simpa [listed, Item.stored] using hlisted
    obtain ⟨-, hplain, ht⟩ := hd.plugins hc
    obtain ⟨type, ht⟩ := Option.isSome_iff_exists.mp ht
    exact exists_createPlugin hplain (by simpa [find, Item.stored] using hfree) ht
  | hardware c =>
    have hc : d.hardware.get c.id = some c := by simpa [listed, Item.stored] using hlisted
    exact exists_createHardware (hd.hardware hc).2 (by simpa [find, Item.stored] using hfree)
  | link l =>
    obtain ⟨l', hl', hsame⟩ := Option.map_eq_some_iff.mp hlisted
    obtain ⟨-, hsource, hdestination⟩ := hd.links hl'
    have heq : l'.toLinkConfig = l.toLinkConfig := by
      simp only [Item.stored, Item.link.injEq, LinkItem.mk.injEq] at hsame
      exact hsame.1
    rw [heq] at hsource hdestination
    exact exists_createLink h.published hfree (h.component hsource) (h.component hdestination)

theorem Starting.next {rest : List (Item δ)} (h : Starting d (x :: rest) m) (hd : Consistent d)
    (hm : m.createItem x = .ok m') : Starting d rest m' := by
  obtain ⟨before, hb⟩ := h.suffix
  have hnew : x.stored ∉ rest.map Item.stored := by
    have hn := hd.nodup_items
    rw [hb, List.map_append] at hn
    exact (List.nodup_cons.mp (List.nodup_append.mp hn).2.1).1
  refine ⟨⟨before ++ [x], by simp [hb]⟩, (createItem_data hm).trans h.data,
    h.owned.createItem hm, h.published.createItem hm, fun k id y => ?_⟩
  rw [(createItem_effect hm).after]
  split_ifs with hplace
  · obtain ⟨rfl, rfl⟩ := hplace
    rw [Request.result_post, Request.kind_post, Request.id_post, hd.listed_of_mem h.mem]
    constructor
    · intro hy
      exact ⟨hy, Option.some.inj hy ▸ hnew⟩
    · exact fun hy => hy.1
  · rw [h.find_iff]
    refine and_congr_right fun hlisted => ?_
    have hne : y ≠ x.stored := by
      intro he
      obtain ⟨-, rfl, rfl⟩ := hd.mem_of_listed hlisted
      exact hplace ⟨he ▸ rfl, he ▸ rfl⟩
    simp [hne]

/-- A start from a consistent file succeeds, and what runs is what the file lists. -/
theorem exists_initializeCore (hd : Consistent d) :
    ∃ m, initializeCore d = .ok m ∧ Starting d [] m := by
  rw [initializeCore_eq]
  refine Checked.exists_foldlM (I := fun rest m => Starting d rest m) ?_ (starting_fresh hd)
  intro x rest m h
  obtain ⟨m', hm⟩ := h.exists_createItem hd
  exact ⟨m', hm, h.next hd hm⟩

/-! ## What every operation keeps -/

/-- A core whose file brings it back. -/
structure Restorable (m : Manager δ) : Prop where
  recorded : m.Recorded
  consistent : Consistent m.data
  kept : m.Kept

theorem Recorded.listed_iff (hr : m.Recorded) : Listed m.data id ↔ m.Component id := by
  rw [Component, ← hr, ← hr]
  simp [Listed, listed]

theorem Recorded.unlinked (hr : m.Recorded) {l : LinkItem} {key : String}
    (hl : m.data.links.get key = some l)
    (hu : m.Unlinked id) : l.sourceComponent ≠ id ∧ l.destinationComponent ≠ id := by
  have hlisted := hr .links key
  simp only [listed, find, hl, Option.map_some] at hlisted
  obtain ⟨link, hlink, heq⟩ := Option.map_eq_some_iff.mp hlisted.symm
  have hconfig : link.config = l.toLinkConfig := by
    simp only [Item.stored, Item.link.injEq, LinkItem.mk.injEq] at heq
    exact heq.1
  rw [← hconfig]
  exact hu key link hlink

/-- An operation keeps the ends of the links that it keeps. -/
theorem Restorable.component_kept (hr : m.Restorable) (h : m.handle op = .ok m') {l : LinkItem}
    {key : String} (hl : m.data.links.get key = some l)
    (hid : id = l.sourceComponent ∨ id = l.destinationComponent) : m'.Component id := by
  obtain ⟨-, hs, hd⟩ := hr.consistent.links hl
  have hold : m.Component id := by
    rcases hid with rfl | rfl
    · exact hr.recorded.listed_iff.mp hs
    · exact hr.recorded.listed_iff.mp hd
  have hshrinks : ∀ {k i}, m.Shrinks k i m' → m'.Component id := by
    intro k i hg
    obtain ⟨hsource, hdestination⟩ := hr.recorded.unlinked hl hg.unlinked
    have hne : id ≠ i := by
      rcases hid with rfl | rfl
      · exact hsource
      · exact hdestination
    exact hg.effect.component_del hne hold
  match op with
  | .del (.plugins, _) => exact hshrinks (removePlugin_eq_ok h)
  | .del (.hardware, _) => exact hshrinks (removeHardware_eq_ok h)
  | .del (.links, _) => exact (component_relinks (removeLink_eq_ok h) rfl).mpr hold
  | .post (.plugin _) => exact (addPlugin_eq_ok h).effect.component_post hold
  | .post (.hardware _) => exact (addHardware_eq_ok h).effect.component_post hold
  | .post (.link _) => exact (component_relinks (addLink_eq_ok h) rfl).mpr hold

theorem plugins_saved {config : PluginConfig δ}
    (h : (saved d op).plugins.get id = some config) :
    d.plugins.get id = some config ∨ op = .post (.plugin config) ∧ config.id = id := by
  match op with
  | .del (.plugins, i) => grind [saved, Dictionary.get_erase]
  | .del (.hardware, _) => exact .inl h
  | .del (.links, _) => exact .inl h
  | .post (.plugin c) => grind [saved, Dictionary.get_set]
  | .post (.hardware _) => exact .inl h
  | .post (.link _) => exact .inl h

theorem hardware_saved {config : HardwareConfig δ}
    (h : (saved d op).hardware.get id = some config) :
    d.hardware.get id = some config ∨ op = .post (.hardware config) ∧ config.id = id := by
  match op with
  | .del (.plugins, _) => exact .inl h
  | .del (.hardware, i) => grind [saved, Dictionary.get_erase]
  | .del (.links, _) => exact .inl h
  | .post (.plugin _) => exact .inl h
  | .post (.hardware c) => grind [saved, Dictionary.get_set]
  | .post (.link _) => exact .inl h

theorem links_saved {config : LinkItem} (h : (saved d op).links.get id = some config) :
    d.links.get id = some config ∨
      op = .post (.link config) ∧ Links.makeId config.toLinkConfig = id := by
  match op with
  | .del (.plugins, _) => exact .inl h
  | .del (.hardware, _) => exact .inl h
  | .del (.links, i) => grind [saved, Dictionary.get_erase]
  | .post (.plugin _) => exact .inl h
  | .post (.hardware _) => exact .inl h
  | .post (.link c) => grind [saved, Dictionary.get_set]

theorem Restorable.consistent_handle (hr : m.Restorable) (h : m.handle op = .ok m') :
    Consistent m'.data := by
  have hlisted : ∀ id, Listed m'.data id ↔ m'.Component id :=
    fun id => (hr.recorded.handle h).listed_iff
  rw [data_of_handle h] at hlisted ⊢
  constructor
  · intro id config hc
    rcases plugins_saved hc with hold | ⟨rfl, hid⟩
    · exact hr.consistent.plugins hold
    · obtain ⟨u, hu, -⟩ := Checked.bind_eq_ok_iff.mp h
      exact ⟨hid, hid ▸ (createPlugin_eq_ok hu).1.1, isSome_ofName_of_createPlugin hu⟩
  · intro id config hc
    rcases hardware_saved hc with hold | ⟨rfl, hid⟩
    · exact hr.consistent.hardware hold
    · exact ⟨hid, hid ▸ plain_of_post h (by simp)⟩
  · intro id config hl
    rw [hlisted, hlisted]
    rcases links_saved hl with hold | ⟨rfl, hid⟩
    · exact ⟨(hr.consistent.links hold).1, hr.component_kept h hold (.inl rfl),
        hr.component_kept h hold (.inr rfl)⟩
    · have hrelinks := addLink_eq_ok h
      obtain ⟨⟨p, link⟩, hc, -⟩ := Checked.bind_eq_ok_iff.mp h
      obtain ⟨s, t, hs, ht, -, -, -⟩ := create_eq_ok hc
      have hends : ∀ {i r}, Links.component m.process i = .ok r → m'.Component i := by
        intro i r hi
        rw [component_relinks hrelinks rfl]
        apply hr.kept.component
        obtain ⟨c, hc, -⟩ := Option.map_eq_some_iff.mp (component_eq_ok_iff.mp hi)
        rw [hc]
        rfl
      exact ⟨hid, hends hs, hends ht⟩

theorem Restorable.handle (hr : m.Restorable) (h : m.handle op = .ok m') : m'.Restorable :=
  ⟨hr.recorded.handle h, hr.consistent_handle h, hr.kept.handle h⟩

theorem Restorable.performAll (hr : m.Restorable) (ops : List (Request δ)) :
    (m.performAll ops).Restorable := by
  induction ops generalizing m with
  | nil => exact hr
  | cons op ops ih =>
    apply ih
    unfold perform
    cases h : m.handle op with
    | error e => exact hr
    | ok m' => exact hr.handle h

theorem Starting.found (h : Starting d [] m) : m.Recorded := by
  intro k id
  ext x
  rw [h.data, h.find_iff]
  simp

theorem Starting.keyed (hd : Consistent d) (h : Starting d [] m) : m.Keyed := by
  have hlisted : ∀ {k id x}, m.find k id = some x → listed d k id = some x :=
    fun hx => ((h.find_iff _ _ _).mp hx).1
  refine ⟨fun hx => (hd.mem_of_listed (hlisted hx)).2, fun hx => ?_, fun {k id x} hk hx => ?_⟩
  · obtain ⟨l, -, rfl⟩ := Option.map_eq_some_iff.mp (hlisted hx)
    exact named_stored
  · cases k with
    | plugins =>
      obtain ⟨c, hc, -⟩ := Option.map_eq_some_iff.mp (hlisted hx)
      exact (hd.plugins hc).2.1
    | hardware =>
      obtain ⟨c, hc, -⟩ := Option.map_eq_some_iff.mp (hlisted hx)
      exact (hd.hardware hc).2
    | links => contradiction

/-- A file with two lights and a link. -/
def lightsFile : Data Unit where
  plugins := (Dictionary.empty.set "a" ⟨"a", "light", ()⟩).set "b" ⟨"b", "light", ()⟩
  hardware := .empty
  links := Dictionary.empty.set "a|output|b|input"
    ⟨⟨"a", "output", "b", "input"⟩, "a|output|b|input"⟩

theorem lightsFile_consistent : Consistent lightsFile := by
  refine ⟨fun {id config} h => ?_, fun {id config} h => ?_, fun {id config} h => ?_⟩
  · simp only [lightsFile, Dictionary.get_set, Dictionary.get_empty] at h
    split_ifs at h with hb ha
    · obtain rfl := Option.some.inj h
      exact ⟨hb.symm, hb ▸ by decide, rfl⟩
    · obtain rfl := Option.some.inj h
      exact ⟨ha.symm, ha ▸ by decide, rfl⟩
  · simp [lightsFile] at h
  · simp only [lightsFile, Dictionary.get_set, Dictionary.get_empty] at h
    split_ifs at h with hid
    obtain rfl := Option.some.inj h
    exact ⟨hid.symm, .inl rfl, .inl rfl⟩

end MyLifeHome.Manager
