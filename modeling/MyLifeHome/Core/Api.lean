import MyLifeHome.Core.Components
import MyLifeHome.Library.Reconcile

/-!
# The requests of the API

The routes of `app.js` that change what the core runs, and what a request that
succeeds does: the three collections behave like one map of items, and the objects
behind them stay in step with it.
-/
namespace MyLifeHome

/-- The last part of the path of a collection. -/
inductive Kind where
  | plugins
  | hardware
  | links
  deriving DecidableEq

inductive Item (δ : Type) where
  | plugin (config : PluginConfig δ)
  | hardware (config : HardwareConfig δ)
  | link (config : LinkItem)
  deriving DecidableEq

/-- `DELETE` with the path of an item, or `POST` with an item. -/
abbrev Request (δ : Type) := Reconcile.Edit (Kind × String) (Item δ)

variable {δ : Type}

namespace Item

def kind : Item δ → Kind
  | .plugin _ => .plugins
  | .hardware _ => .hardware
  | .link _ => .links

def id : Item δ → String
  | .plugin config => config.id
  | .hardware config => config.id
  | .link config => config.id

section
variable (plugin : PluginConfig δ) (hw : HardwareConfig δ) (l : LinkItem)

@[simp] theorem kind_plugin : (Item.plugin plugin).kind = .plugins := rfl
@[simp] theorem kind_hardware : (Item.hardware hw).kind = .hardware := rfl
@[simp] theorem kind_link : (Item.link l : Item δ).kind = .links := rfl
@[simp] theorem id_plugin : (Item.plugin plugin).id = plugin.id := rfl
@[simp] theorem id_hardware : (Item.hardware hw).id = hw.id := rfl
@[simp] theorem id_link : (Item.link l : Item δ).id = l.id := rfl

end

/-- What the core keeps of an item that is posted: it makes the id of a link itself. -/
def stored : Item δ → Item δ
  | .link config => .link ⟨config.toLinkConfig, Links.makeId config.toLinkConfig⟩
  | x => x

/-- The id that the core will make. -/
def Named : Item δ → Prop
  | .link config => config.id = Links.makeId config.toLinkConfig
  | _ => True

end Item

namespace Request

def kind : Request δ → Kind
  | .del key => key.1
  | .post item => item.kind

def id : Request δ → String
  | .del key => key.2
  | .post item => item.id

/-- What the collection holds under the id afterwards. -/
def result : Request δ → Option (Item δ)
  | .del _ => none
  | .post item => some item

def Named : Request δ → Prop
  | .del _ => True
  | .post item => item.Named

def stored : Request δ → Request δ
  | .del key => .del key
  | .post item => .post item.stored

theorem stored_of_named {req : Request δ} (h : req.Named) : req.stored = req := by
  match req with
  | .del _ => rfl
  | .post (.plugin _) => rfl
  | .post (.hardware _) => rfl
  | .post (.link config) =>
    change config.id = _ at h
    simp [stored, Item.stored, ← h]

section
variable (k : Kind) (i : String) (x : Item δ)

@[simp] theorem kind_del : Request.kind (.del (k, i) : Request δ) = k := rfl
@[simp] theorem kind_post : Request.kind (.post x) = x.kind := rfl
@[simp] theorem id_del : Request.id (.del (k, i) : Request δ) = i := rfl
@[simp] theorem id_post : Request.id (.post x) = x.id := rfl
@[simp] theorem result_del : Request.result (.del (k, i) : Request δ) = none := rfl
@[simp] theorem result_post : Request.result (.post x) = some x := rfl

end

end Request

namespace Manager

def handle (m : Manager δ) : Request δ → Except JsError (Manager δ)
  | .del (.plugins, id) => m.removePlugin id
  | .del (.hardware, id) => m.removeHardware id
  | .del (.links, id) => m.removeLink id
  | .post (.plugin config) => m.addPlugin config
  | .post (.hardware config) => m.addHardware config
  | .post (.link config) => m.addLink config

def find (m : Manager δ) : Kind → String → Option (Item δ)
  | .plugins, id => (m.pluginContainers.get id).map fun c => .plugin c.config
  | .hardware, id => (m.hardware.get id).map fun item => .hardware item.config
  | .links, id => (m.process.links.get id).map fun link => .link ⟨link.config, link.id⟩

/-- What was published for a component. -/
def container (m : Manager δ) : Kind → String → Option NetContainer
  | .plugins, id => (m.pluginContainers.get id).map PluginContainer.netContainer
  | .hardware, id => (m.hardware.get id).map HardwareItem.container
  | .links, _ => none

variable {m m' : Manager δ} {k : Kind} {id : String} {x : Item δ} {req : Request δ}

theorem container_isSome (hk : k ≠ .links) : (m.container k id).isSome = (m.find k id).isSome := by
  cases k <;> simp_all [container, find]

/-- No link has the component as an end. -/
def Unlinked (m : Manager δ) (id : String) : Prop :=
  ∀ key link, m.process.links.get key = some link →
    link.config.sourceComponent ≠ id ∧ link.config.destinationComponent ≠ id

theorem checkLink_eq_ok_iff : m.checkLink id = .ok () ↔ m.Unlinked id := by
  unfold checkLink
  split
  next e he =>
    have hmem := Dictionary.get_eq_some_iff.mpr (List.mem_of_find?_eq_some he)
    have hend := List.find?_some he
    constructor
    · intro h
      contradiction
    · intro h
      have := h _ _ hmem
      simp_all
  next hnone =>
    refine ⟨fun _ key link hl => ?_, fun _ => rfl⟩
    simpa using List.find?_eq_none.mp hnone (key, link) (Dictionary.get_eq_some_iff.mp hl)

/-! ## What a request does -/

/-- The collections before and after a request. -/
structure Effect (m : Manager δ) (req : Request δ) (m' : Manager δ) : Prop where
  before : (m.find req.kind req.id).isSome ↔ req.result = none
  after : ∀ k id, m'.find k id =
    if k = req.kind ∧ id = req.id then req.result else m.find k id

/-- The creation of a component. -/
structure Grows (m : Manager δ) (x : Item δ) (m' : Manager δ) : Prop where
  effect : Effect m (.post x) m'
  behind : ∃ c, Added m.process x.id c m'.process ∧ ∀ k id, m'.container k id =
    if k = x.kind ∧ id = x.id then some c else m.container k id

/-- The destruction of a component. -/
structure Shrinks (m : Manager δ) (k : Kind) (id : String) (m' : Manager δ) : Prop where
  effect : Effect m (.del (k, id)) m'
  unlinked : m.Unlinked id
  behind : ∃ c, m.container k id = some c ∧
    Removed m.process (m.process.objects c.object).id m'.process ∧
    ∀ k' id', m'.container k' id' = if k' = k ∧ id' = id then none else m.container k' id'

/-- A link that is made or destroyed leaves the components alone. -/
structure Relinks (m : Manager δ) (req : Request δ) (m' : Manager δ) : Prop where
  effect : Effect m req m'
  objects : m'.process.objects = m.process.objects
  allocated : m'.process.allocated = m.process.allocated
  netRepository : m'.process.netRepository = m.process.netRepository
  container : ∀ k id, m'.container k id = m.container k id

theorem createPlugin_grows {config : PluginConfig δ} (h : m.createPlugin config = .ok m') :
    m.Grows (.plugin config) m' := by
  obtain ⟨⟨-, hnone⟩, p, type, c, hadd, rfl⟩ := createPlugin_eq_ok h
  refine ⟨⟨by simp [find, hnone], fun k id => ?_⟩, c, hadd, fun k id => ?_⟩
  · cases k with
    | plugins => by_cases hid : id = config.id <;> simp [find, Dictionary.get_set, hid]
    | hardware => simp [find]
    | links => simp [find, hadd.links]
  · cases k <;> by_cases hid : id = config.id <;> simp [container, Dictionary.get_set, hid]

theorem createHardware_grows {config : HardwareConfig δ} (h : m.createHardware config = .ok m') :
    m.Grows (.hardware config) m' := by
  obtain ⟨⟨-, hnone⟩, p, c, hadd, rfl⟩ := createHardware_eq_ok h
  refine ⟨⟨by simp [find, hnone], fun k id => ?_⟩, c, hadd, fun k id => ?_⟩
  · cases k with
    | plugins => simp [find]
    | hardware => by_cases hid : id = config.id <;> simp [find, Dictionary.get_set, hid]
    | links => simp [find, hadd.links]
  · cases k <;> by_cases hid : id = config.id <;> simp [container, Dictionary.get_set, hid]

/-- What is persisted does not matter. -/
theorem Grows.of_data (h : m.Grows x m') {d : Data δ} : m.Grows x { m' with data := d } := by
  refine ⟨⟨h.effect.before, fun k id => ?_⟩, ?_⟩
  · have hafter := h.effect.after k id
    cases k <;> exact hafter
  · obtain ⟨c, hadd, hc⟩ := h.behind
    refine ⟨c, hadd, fun k id => ?_⟩
    have hafter := hc k id
    cases k <;> exact hafter

theorem addPlugin_eq_ok {config : PluginConfig δ} (h : m.addPlugin config = .ok m') :
    m.Grows (.plugin config) m' := by
  obtain ⟨u, hu, h⟩ := Checked.bind_eq_ok_iff.mp h
  obtain rfl := Except.ok.inj h
  exact (createPlugin_grows hu).of_data

theorem addHardware_eq_ok {config : HardwareConfig δ} (h : m.addHardware config = .ok m') :
    m.Grows (.hardware config) m' := by
  obtain ⟨u, hu, h⟩ := Checked.bind_eq_ok_iff.mp h
  obtain rfl := Except.ok.inj h
  exact (createHardware_grows hu).of_data

theorem removePlugin_eq_ok (h : m.removePlugin id = .ok m') : m.Shrinks .plugins id m' := by
  obtain ⟨⟨⟩, hcheck, h⟩ := Checked.bind_eq_ok_iff.mp h
  unfold destroyPlugin at h
  cases hg : m.pluginContainers.get id with
  | none =>
    rw [hg] at h
    contradiction
  | some c =>
    simp only [hg, Bool.not_true, Bool.false_eq_true, if_false] at h
    obtain rfl := Except.ok.inj h
    have hgone : Removed m.process _ (m.process.unpublish c.netContainer) := removed_unpublish rfl
    refine ⟨⟨by simp [find, hg], fun k' id' => ?_⟩, checkLink_eq_ok_iff.mp hcheck,
      c.netContainer, by simp [container, hg], hgone, fun k' id' => ?_⟩
    · cases k' with
      | plugins => by_cases hid : id' = id <;> simp [find, Dictionary.get_erase, hid]
      | hardware => simp [find]
      | links => simp [find, hgone.links]
    · cases k' <;> by_cases hid : id' = id <;> simp [container, Dictionary.get_erase, hid]

theorem removeHardware_eq_ok (h : m.removeHardware id = .ok m') : m.Shrinks .hardware id m' := by
  obtain ⟨⟨⟩, hcheck, h⟩ := Checked.bind_eq_ok_iff.mp h
  unfold destroyHardware at h
  cases hg : m.hardware.get id with
  | none =>
    rw [hg] at h
    contradiction
  | some item =>
    simp only [hg, Bool.not_true, Bool.false_eq_true, if_false] at h
    obtain rfl := Except.ok.inj h
    have hgone : Removed m.process _ (m.process.unpublish item.container) := removed_unpublish rfl
    refine ⟨⟨by simp [find, hg], fun k' id' => ?_⟩, checkLink_eq_ok_iff.mp hcheck,
      item.container, by simp [container, hg], hgone, fun k' id' => ?_⟩
    · cases k' with
      | plugins => simp [find]
      | hardware => by_cases hid : id' = id <;> simp [find, Dictionary.get_erase, hid]
      | links => simp [find, hgone.links]
    · cases k' <;> by_cases hid : id' = id <;> simp [container, Dictionary.get_erase, hid]

theorem relinks_of_create {config : LinkItem} {p : Process} {link : Link} {d : Data δ}
    (hc : Links.create m.process config.toLinkConfig = .ok (p, link)) :
    m.Relinks (Request.stored (.post (.link config))) { m with process := p, data := d } := by
  obtain ⟨s, d, hs, hd, hnone, rfl, rfl⟩ := create_eq_ok hc
  refine ⟨⟨by simp [find, Request.stored, Item.stored, hnone], fun k id => ?_⟩, rfl, rfl, rfl,
    fun k id => rfl⟩
  cases k with
  | plugins => simp [find, Request.stored, Item.stored]
  | hardware => simp [find, Request.stored, Item.stored]
  | links => by_cases hid : id = Links.makeId config.toLinkConfig <;>
      simp [find, Dictionary.get_set, Request.stored, Item.stored, hid]

theorem addLink_eq_ok {config : LinkItem} (h : m.addLink config = .ok m') :
    m.Relinks (Request.stored (.post (.link config))) m' := by
  obtain ⟨⟨p, link⟩, hc, h⟩ := Checked.bind_eq_ok_iff.mp h
  obtain rfl := Except.ok.inj h
  exact relinks_of_create hc

theorem removeLink_eq_ok (h : m.removeLink id = .ok m') : m.Relinks (.del (.links, id)) m' := by
  unfold removeLink Links.destroy at h
  cases hg : m.process.links.get id with
  | none =>
    rw [hg] at h
    contradiction
  | some link =>
    simp only [hg, Bool.not_true, Bool.false_eq_true, if_false] at h
    obtain rfl := Except.ok.inj h
    refine ⟨⟨by simp [find, hg], fun k' id' => ?_⟩, rfl, rfl, rfl, fun k id => rfl⟩
    cases k' with
    | plugins => simp [find]
    | hardware => simp [find]
    | links => by_cases hid : id' = id <;>
        simp [find, Dictionary.get_erase, Links.destroyLink, Process.removeListener, hid]

/-- No component is made under a key that every object has. -/
theorem plain_of_post (h : m.handle (.post x) = .ok m') (hx : x.kind ≠ .links) :
    PlainKey x.id := by
  cases x with
  | plugin config =>
    obtain ⟨u, hu, -⟩ := Checked.bind_eq_ok_iff.mp h
    exact (createPlugin_eq_ok hu).1.1
  | hardware config =>
    obtain ⟨u, hu, -⟩ := Checked.bind_eq_ok_iff.mp h
    exact (createHardware_eq_ok hu).1.1
  | link config => contradiction

/-- The collections after a request that succeeds. -/
theorem effect_of_handle (h : m.handle req = .ok m') : m.Effect req.stored m' := by
  match req with
  | .del (.plugins, id) => exact (removePlugin_eq_ok h).effect
  | .del (.hardware, id) => exact (removeHardware_eq_ok h).effect
  | .del (.links, id) => exact (removeLink_eq_ok h).effect
  | .post (.plugin config) => exact (addPlugin_eq_ok h).effect
  | .post (.hardware config) => exact (addHardware_eq_ok h).effect
  | .post (.link config) => exact (addLink_eq_ok h).effect

theorem effect_of_named (h : m.handle req = .ok m') (hn : req.Named) : m.Effect req m' := by
  have he := effect_of_handle h
  rwa [Request.stored_of_named hn] at he

end Manager

end MyLifeHome
