import MyLifeHome.Core.Sound

/-!
# Saving a design

`componentManager.js` of the designer: the difference of what the core runs and of a new
design, and the requests that are made of it. Two items are the same when they are
structurally equal.
-/
namespace MyLifeHome.Designer

variable {δ α : Type}

/-- The three arrays of a design, and of each half of a difference. -/
structure Design (δ : Type) where
  plugins : List (PluginConfig δ)
  hardware : List (HardwareConfig δ)
  links : List LinkItem

/-- What `data` fetches. -/
def data (m : Manager δ) : Design δ := ⟨m.getPlugins, m.getHardware, m.getLinks⟩

def Design.Has (d : Design δ) : Item δ → Prop
  | .plugin config => config ∈ d.plugins
  | .hardware config => config ∈ d.hardware
  | .link config => config ∈ d.links

/-- The design of a core is what is found in it. -/
theorem data_has_iff {m : Manager δ} (hk : m.Keyed) {x : Item δ} :
    (data m).Has x ↔ m.find x.kind x.id = some x := by
  have hfind : (data m).Has x ↔ ∃ id, m.find x.kind id = some x := by
    cases x with
    | plugin config =>
      refine Dictionary.mem_map_values_iff.trans (exists_congr fun id => ?_)
      simp [Manager.find]
    | hardware config =>
      refine Dictionary.mem_map_values_iff.trans (exists_congr fun id => ?_)
      simp [Manager.find]
    | link config =>
      refine Dictionary.mem_map_values_iff.trans (exists_congr fun id => ?_)
      simp [Manager.find]
  rw [hfind]
  constructor
  · rintro ⟨id, h⟩
    rwa [(hk.item h).2]
  · intro h
    exact ⟨_, h⟩

structure Merged (α : Type) where
  destroy : List α
  create : List α

structure MergedData (δ : Type) where
  destroy : Design δ
  create : Design δ

def findById (idOf : α → String) (array : List α) (id : String) : Option α :=
  array.find? fun item => idOf item = id

def deepExists [DecidableEq α] (array : List α) (item : α) : Bool :=
  array.any fun other => other = item

def deepWithout [DecidableEq α] (array without : List α) : List α :=
  array.filter fun item => !deepExists without item

def mergeData [DecidableEq α] (oldArray newArray : List α) : Merged α :=
  ⟨deepWithout oldArray newArray, deepWithout newArray oldArray⟩

def recreateLink (mergedLinks : Merged LinkItem) (link : LinkItem) : Merged LinkItem :=
  ⟨mergedLinks.destroy ++ [link], mergedLinks.create ++ [link]⟩

/-- The function that goes over the old links. Its last two tests are the first two again. -/
def mergeLink (mergedPlugins : Merged (PluginConfig δ)) (mergedHardware : Merged (HardwareConfig δ))
    (mergedLinks : Merged LinkItem) (link : LinkItem) : Merged LinkItem :=
  if (findById LinkItem.id mergedLinks.destroy link.id).isSome then mergedLinks
  else if (findById HardwareConfig.id mergedHardware.destroy link.sourceComponent).isSome then
    recreateLink mergedLinks link
  else if (findById PluginConfig.id mergedPlugins.destroy link.destinationComponent).isSome then
    recreateLink mergedLinks link
  else if (findById HardwareConfig.id mergedHardware.destroy link.sourceComponent).isSome then
    recreateLink mergedLinks link
  else if (findById PluginConfig.id mergedPlugins.destroy link.destinationComponent).isSome then
    recreateLink mergedLinks link
  else mergedLinks

def doMerge [DecidableEq δ] (oldData newData : Design δ) : MergedData δ :=
  let mergedPlugins := mergeData oldData.plugins newData.plugins
  let mergedHardware := mergeData oldData.hardware newData.hardware
  let mergedLinks := oldData.links.foldl (mergeLink mergedPlugins mergedHardware)
    (mergeData oldData.links newData.links)
  { destroy := ⟨mergedPlugins.destroy, mergedHardware.destroy, mergedLinks.destroy⟩
    create := ⟨mergedPlugins.create, mergedHardware.create, mergedLinks.create⟩ }

/-- `map['destroy:' + item.id]` is the function that deletes the item. -/
def destroyArray (map : Dictionary String (Request δ)) (array : List α) (type : α → Item δ) :
    Dictionary String (Request δ) :=
  array.foldl (fun map item =>
    map.set ("destroy:" ++ (type item).id) (.del ((type item).kind, (type item).id))) map

/-- `map['create:' + item.id]` is the function that posts the item. -/
def createArray (map : Dictionary String (Request δ)) (array : List α) (type : α → Item δ) :
    Dictionary String (Request δ) :=
  array.foldl (fun map item => map.set ("create:" ++ (type item).id) (.post (type item))) map

/-- The map that `apply` makes. -/
def applyMap (mergeData : MergedData δ) : Dictionary String (Request δ) :=
  let map := destroyArray .empty mergeData.destroy.links .link
  let map := destroyArray map mergeData.destroy.plugins .plugin
  let map := destroyArray map mergeData.destroy.hardware .hardware
  let map := createArray map mergeData.create.plugins .plugin
  let map := createArray map mergeData.create.hardware .hardware
  createArray map mergeData.create.links .link

/-- `async.series`: one function after the other until one fails. -/
def series (map : Dictionary String (Request δ)) (m : Manager δ) : Except JsError (Manager δ) :=
  map.values.foldlM Manager.handle m

/-- `apply`, with the core that it talks to. -/
def apply (mergeData : MergedData δ) (m : Manager δ) : Except JsError (Manager δ) :=
  series (applyMap mergeData) m

/-! ## What the difference holds -/

variable {S D : Design δ} {plugins : Merged (PluginConfig δ)} {hardware : Merged (HardwareConfig δ)}
  {merged : Merged LinkItem} {links : List LinkItem} {link : LinkItem} {x : Item δ}

@[simp] theorem mem_deepWithout [DecidableEq α] {a : α} {array without : List α} :
    a ∈ deepWithout array without ↔ a ∈ array ∧ a ∉ without := by
  simp only [deepWithout, deepExists, List.mem_filter, Bool.not_eq_true', List.any_eq_false,
    decide_eq_true_eq]
  grind

@[simp] theorem findById_isSome {idOf : α → String} {array : List α} {id : String} :
    (findById idOf array id).isSome ↔ ∃ a ∈ array, idOf a = id := by
  simp [findById]

/-- The tests of `doMerge`: the source is hardware to destroy or the destination is a plugin
to destroy. -/
def Tested (plugins : Merged (PluginConfig δ)) (hardware : Merged (HardwareConfig δ))
    (link : LinkItem) : Prop :=
  (∃ c ∈ hardware.destroy, c.id = link.sourceComponent) ∨
    ∃ c ∈ plugins.destroy, c.id = link.destinationComponent

theorem mergeLink_of_mem (h : ∃ l ∈ merged.destroy, l.id = link.id) :
    mergeLink plugins hardware merged link = merged := by
  simp [mergeLink, h]

theorem mergeLink_of_tested (h : ¬∃ l ∈ merged.destroy, l.id = link.id)
    (ht : Tested plugins hardware link) :
    mergeLink plugins hardware merged link = recreateLink merged link := by
  unfold mergeLink
  rcases ht with hs | hd
  · simp [h, hs]
  · simp [h, hd]

theorem mergeLink_of_not_tested (ht : ¬Tested plugins hardware link) :
    mergeLink plugins hardware merged link = merged := by
  obtain ⟨hs, hd⟩ := not_or.mp ht
  simp [mergeLink, hs, hd]

/-- The old links that are destroyed and made again. -/
def Again (plugins : Merged (PluginConfig δ)) (hardware : Merged (HardwareConfig δ))
    (destroy links : List LinkItem) (link : LinkItem) : Prop :=
  link ∈ links ∧ (∀ l ∈ destroy, l.id ≠ link.id) ∧ Tested plugins hardware link

theorem mem_foldl_mergeLink (hn : (links.map LinkItem.id).Nodup) :
    (link ∈ (links.foldl (mergeLink plugins hardware) merged).destroy ↔
      link ∈ merged.destroy ∨ Again plugins hardware merged.destroy links link) ∧
    (link ∈ (links.foldl (mergeLink plugins hardware) merged).create ↔
      link ∈ merged.create ∨ Again plugins hardware merged.destroy links link) := by
  induction links generalizing merged with
  | nil => simp [Again]
  | cons l links ih =>
    obtain ⟨hl, hn⟩ := List.nodup_cons.mp hn
    have hne : link ∈ links → l.id ≠ link.id :=
      fun hmem he => hl (List.mem_map.mpr ⟨link, hmem, he.symm⟩)
    rw [List.foldl_cons]
    by_cases hmem : ∃ k ∈ merged.destroy, k.id = l.id
    · rw [mergeLink_of_mem hmem, (ih hn).1, (ih hn).2]
      grind [Again]
    · by_cases ht : Tested plugins hardware l
      · rw [mergeLink_of_tested hmem ht, (ih hn).1, (ih hn).2]
        grind [Again, recreateLink]
      · rw [mergeLink_of_not_tested ht, (ih hn).1, (ih hn).2]
        grind [Again]

/-- An item that is destroyed and made again although both designs have it. -/
def Recreated (S D : Design δ) : Item δ → Prop
  | .link l => (∃ c ∈ S.hardware, c ∉ D.hardware ∧ c.id = l.sourceComponent) ∨
      ∃ c ∈ S.plugins, c ∉ D.plugins ∧ c.id = l.destinationComponent
  | _ => False

variable [DecidableEq δ]

theorem tested_iff : Tested (mergeData S.plugins D.plugins) (mergeData S.hardware D.hardware) link ↔
    Recreated S D (.link link) := by
  simp [Tested, Recreated, mergeData, and_assoc]

theorem again_iff (hn : (S.links.map LinkItem.id).Nodup) :
    Again (mergeData S.plugins D.plugins) (mergeData S.hardware D.hardware)
      (mergeData S.links D.links).destroy S.links link ↔
    link ∈ S.links ∧ link ∈ D.links ∧ Recreated S D (.link link) := by
  have hinj := List.inj_on_of_nodup_map hn
  rw [Again, tested_iff]
  simp only [mergeData, mem_deepWithout]
  grind

theorem destroy_has_iff (hn : (S.links.map LinkItem.id).Nodup) :
    (doMerge S D).destroy.Has x ↔ S.Has x ∧ (¬D.Has x ∨ Recreated S D x) := by
  cases x with
  | plugin c => simp [doMerge, Design.Has, mergeData, Recreated]
  | hardware c => simp [doMerge, Design.Has, mergeData, Recreated]
  | link l =>
    refine (mem_foldl_mergeLink hn).1.trans ?_
    rw [again_iff hn]
    simp only [mergeData, mem_deepWithout, Design.Has]
    tauto

theorem create_has_iff (hn : (S.links.map LinkItem.id).Nodup) :
    (doMerge S D).create.Has x ↔ D.Has x ∧ (¬S.Has x ∨ Recreated S D x) := by
  cases x with
  | plugin c => simp [doMerge, Design.Has, mergeData, Recreated]
  | hardware c => simp [doMerge, Design.Has, mergeData, Recreated]
  | link l =>
    refine (mem_foldl_mergeLink hn).2.trans ?_
    rw [again_iff hn]
    simp only [mergeData, mem_deepWithout, Design.Has]
    tauto

end MyLifeHome.Designer
